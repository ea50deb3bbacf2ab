import Arqma.Lib.Word64
import Arqma.Lib.Stripes

/-!
# Pruning stripes

`src/common/pruning.cpp` and `pruning.h`: which blocks a pruned node keeps. The chain is
cut into chunks of `CRYPTONOTE_PRUNING_STRIPE_SIZE = 2048` blocks, dealt round
`2 ^ log_stripes` stripes. A node whose pruning seed has stripe `s` keeps the blocks of
the chunks in stripe `s`, and every block within `CRYPTONOTE_PRUNING_TIP_BLOCKS = 5500` of
the top. A seed holds `log_stripes` in bits 7 to 9 and `stripe - 1` in bits 0 to 6; the
seed `0` keeps everything. `block_queue::reserve_span` uses the two "next" functions to
start a download span at a height the peer has, and to end it where the peer stops
having blocks.

## The model

Heights and seeds are naturals. `has_unpruned_block` and `get_next_pruned_block_height`
form `block_height + CRYPTONOTE_PRUNING_TIP_BLOCKS` with no bound check, so that sum is
`Word64.add`, the `uint64_t` sum. `get_next_unpruned_block_height` first checks both
heights against `CRYPTONOTE_MAX_BLOCK_NUMBER + 1`. Past those checks every height is
below `2 ^ 29`, so its arithmetic is written on ℕ. `log_stripes` is read through the
three-bit `PRUNING_SEED_LOG_STRIPES_MASK`, so `1ul << log_stripes` and the `uint32_t`
stripes never overflow. `make_pruning_seed` throws on its two range checks, so it returns
`Except String` with their messages. `get_next_pruned_block_height` calls it, and passes
the error on. A failed `CHECK_AND_ASSERT_MES` returns its second argument. The header's
one-argument `get_pruning_stripe` is `getPruningStripeOfSeed`.

## What is proved

`SeedFields` is what a nonzero seed made by `make_pruning_seed` is: a stripe from `1` to
`2 ^ log_stripes` for `1 ≤ log_stripes ≤ 7`, read back by the two getters
(`SeedFields.of_makePruningSeed`). For such a seed, `hasUnprunedBlock_iff` says a block is
kept exactly when it is in the tip zone or in the seed's stripe. Let `block_height ≤
blockchain_height ≤ CRYPTONOTE_MAX_BLOCK_NUMBER + 1`, with a seed from `make_pruning_seed`
or the seed `0`. Then:
* `get_next_unpruned_block_height` is the least kept height at or above `block_height`
  (`isLeast_getNextUnprunedBlockHeight`);
* `get_next_pruned_block_height` never throws, and every height before its result is
  kept (`getNextPrunedBlockHeight_spec`). The result itself is dropped, unless nothing
  from `block_height` to the top is.

The arithmetic of the first chunk of a stripe is `Stripes.nextChunk`. The `log_stripes == 0`
branch of the two "next" functions, which substitutes `CRYPTONOTE_PRUNING_LOG_STRIPES`, is
never taken for these seeds: `make_pruning_seed(1, 0)` is the seed `0`, which returns before
it.
-/

namespace Arqma.Common.Pruning

/-! ### Constants -/

/-- `CRYPTONOTE_MAX_BLOCK_NUMBER`. -/
def cryptonoteMaxBlockNumber : ℕ := 500000000

/-- `CRYPTONOTE_PRUNING_STRIPE_SIZE`: the blocks of one chunk. -/
def cryptonotePruningStripeSize : ℕ := 2048

/-- `CRYPTONOTE_PRUNING_LOG_STRIPES`. -/
def cryptonotePruningLogStripes : ℕ := 1

/-- `CRYPTONOTE_PRUNING_TIP_BLOCKS`: the blocks below the top that every node keeps. -/
def cryptonotePruningTipBlocks : ℕ := 5500

/-- `PRUNING_SEED_LOG_STRIPES_SHIFT`. -/
def pruningSeedLogStripesShift : ℕ := 7

/-- `PRUNING_SEED_LOG_STRIPES_MASK`. -/
def pruningSeedLogStripesMask : ℕ := 0x7

/-- `PRUNING_SEED_STRIPE_SHIFT`. -/
def pruningSeedStripeShift : ℕ := 0

/-- `PRUNING_SEED_STRIPE_MASK`. -/
def pruningSeedStripeMask : ℕ := 0x7f

/-! ### Seeds -/

/-- `get_pruning_log_stripes`. -/
def getPruningLogStripes (pruningSeed : ℕ) : ℕ :=
  (pruningSeed >>> pruningSeedLogStripesShift) &&& pruningSeedLogStripesMask

/-- `get_pruning_stripe(pruning_seed)` of `pruning.h`: `0` for the seed that prunes nothing. -/
def getPruningStripeOfSeed (pruningSeed : ℕ) : ℕ :=
  if pruningSeed = 0 then 0
  else 1 + ((pruningSeed >>> pruningSeedStripeShift) &&& pruningSeedStripeMask)

/-- `make_pruning_seed`. -/
def makePruningSeed (stripe logStripes : ℕ) : Except String ℕ :=
  if ¬ logStripes ≤ pruningSeedLogStripesMask then .error "log_stripes out of range"
  else if ¬ (stripe > 0 ∧ stripe ≤ 1 <<< logStripes) then .error "stripe out of range"
  else .ok ((logStripes <<< pruningSeedLogStripesShift) ||| ((stripe - 1) <<< pruningSeedStripeShift))

/-! ### Blocks -/

/-- `get_pruning_stripe(block_height, blockchain_height, log_stripes)`: `0` in the tip zone. -/
def getPruningStripe (blockHeight blockchainHeight logStripes : ℕ) : ℕ :=
  if Word64.add blockHeight cryptonotePruningTipBlocks ≥ blockchainHeight then 0
  else ((blockHeight / cryptonotePruningStripeSize) &&& ((1 <<< logStripes) - 1)) + 1

/-- `has_unpruned_block`. -/
def hasUnprunedBlock (blockHeight blockchainHeight pruningSeed : ℕ) : Bool :=
  let stripe := getPruningStripeOfSeed pruningSeed
  if stripe = 0 then true
  else
    let logStripes := getPruningLogStripes pruningSeed
    let blockStripe := getPruningStripe blockHeight blockchainHeight logStripes
    blockStripe == 0 || blockStripe == stripe

/-- `get_pruning_seed`: the seed of the stripe a block is in, `0` in the tip zone. -/
def getPruningSeed (blockHeight blockchainHeight logStripes : ℕ) : Except String ℕ :=
  let stripe := getPruningStripe blockHeight blockchainHeight logStripes
  if stripe = 0 then .ok 0 else makePruningSeed stripe logStripes

/-- `get_next_unpruned_block_height`. -/
def getNextUnprunedBlockHeight (blockHeight blockchainHeight pruningSeed : ℕ) : ℕ :=
  if ¬ blockHeight ≤ cryptonoteMaxBlockNumber + 1 then blockHeight
  else if ¬ blockchainHeight ≤ cryptonoteMaxBlockNumber + 1 then blockHeight
  else
    let stripe := getPruningStripeOfSeed pruningSeed
    if stripe = 0 then blockHeight
    else if blockHeight + cryptonotePruningTipBlocks ≥ blockchainHeight then blockHeight
    else
      let seedLogStripes := getPruningLogStripes pruningSeed
      let logStripes := if seedLogStripes ≠ 0 then seedLogStripes else cryptonotePruningLogStripes
      let mask := (1 <<< logStripes) - 1
      let blockPruningStripe := ((blockHeight / cryptonotePruningStripeSize) &&& mask) + 1
      if blockPruningStripe = stripe then blockHeight
      else
        let cycles := (blockHeight / cryptonotePruningStripeSize) >>> logStripes
        let cycleStart := cycles + if stripe > blockPruningStripe then 0 else 1
        let h := cycleStart * (cryptonotePruningStripeSize <<< logStripes) +
          (stripe - 1) * cryptonotePruningStripeSize
        if h + cryptonotePruningTipBlocks > blockchainHeight then
          if blockchainHeight < cryptonotePruningTipBlocks then 0
          else blockchainHeight - cryptonotePruningTipBlocks
        else if ¬ h ≥ blockHeight then blockHeight
        else h

/-- `get_next_pruned_block_height`: the next height after the run of kept blocks at
`block_height`, found as the next height of the following stripe. -/
def getNextPrunedBlockHeight (blockHeight blockchainHeight pruningSeed : ℕ) : Except String ℕ :=
  let stripe := getPruningStripeOfSeed pruningSeed
  if stripe = 0 then .ok blockchainHeight
  else if Word64.add blockHeight cryptonotePruningTipBlocks ≥ blockchainHeight then .ok blockchainHeight
  else
    let seedLogStripes := getPruningLogStripes pruningSeed
    let logStripes := if seedLogStripes ≠ 0 then seedLogStripes else cryptonotePruningLogStripes
    let mask := (1 <<< logStripes) - 1
    let blockPruningSeed := ((blockHeight / cryptonotePruningStripeSize) &&& mask) + 1
    if blockPruningSeed ≠ stripe then .ok blockHeight
    else
      let nextStripe := 1 + (blockPruningSeed &&& mask)
      (makePruningSeed nextStripe logStripes).map
        (getNextUnprunedBlockHeight blockHeight blockchainHeight)

/-! ### Seeds read back -/

theorem one_shiftLeft (n : ℕ) : 1 <<< n = 2 ^ n := by
  rw [Nat.shiftLeft_eq, Nat.one_mul]

/-- Past its two range checks `make_pruning_seed` puts `stripe - 1` below
`log_stripes * 128`. -/
theorem makePruningSeed_of_le {stripe logStripes : ℕ} (hls : logStripes ≤ 7)
    (hs : stripe > 0 ∧ stripe ≤ 2 ^ logStripes) :
    makePruningSeed stripe logStripes = .ok (logStripes * 128 + (stripe - 1)) := by
  have hlt : stripe - 1 < 2 ^ 7 :=
    Nat.lt_of_lt_of_le (by omega) (Nat.pow_le_pow_right (by decide) hls)
  unfold makePruningSeed pruningSeedLogStripesShift pruningSeedStripeShift
  rw [one_shiftLeft, if_neg (fun h' => h' hls), if_neg (fun h' => h' hs), Nat.shiftLeft_zero,
    ← Nat.shiftLeft_add_eq_or_of_lt hlt, Nat.shiftLeft_eq]

theorem makePruningSeed_eq_ok {stripe logStripes pruningSeed : ℕ}
    (h : makePruningSeed stripe logStripes = .ok pruningSeed) :
    logStripes ≤ 7 ∧ (stripe > 0 ∧ stripe ≤ 2 ^ logStripes) ∧
      pruningSeed = logStripes * 128 + (stripe - 1) := by
  by_cases hls : logStripes ≤ pruningSeedLogStripesMask
  · by_cases hs : stripe > 0 ∧ stripe ≤ 2 ^ logStripes
    · rw [makePruningSeed_of_le hls hs] at h
      cases h
      exact ⟨hls, hs, rfl⟩
    · unfold makePruningSeed at h
      rw [one_shiftLeft, if_neg (fun h' => h' hls), if_pos hs] at h
      cases h
  · unfold makePruningSeed at h
    rw [if_pos hls] at h
    cases h

theorem getPruningLogStripes_add {a b : ℕ} (ha : a ≤ 7) (hb : b < 128) :
    getPruningLogStripes (a * 128 + b) = a := by
  unfold getPruningLogStripes pruningSeedLogStripesShift pruningSeedLogStripesMask
  rw [Nat.shiftRight_eq_div_pow, show (0x7 : ℕ) = 2 ^ 3 - 1 from rfl,
    Nat.and_two_pow_sub_one_eq_mod]
  omega

theorem getPruningStripeOfSeed_add {a b : ℕ} (hb : b < 128) (hne : a * 128 + b ≠ 0) :
    getPruningStripeOfSeed (a * 128 + b) = 1 + b := by
  unfold getPruningStripeOfSeed pruningSeedStripeShift pruningSeedStripeMask
  rw [if_neg hne, Nat.shiftRight_zero, show (0x7f : ℕ) = 2 ^ 7 - 1 from rfl,
    Nat.and_two_pow_sub_one_eq_mod]
  omega

/-- What a nonzero seed made by `make_pruning_seed` is: a stripe of `2 ^ log_stripes`, for
`1 ≤ log_stripes ≤ 7`, that the two getters read back. -/
structure SeedFields (pruningSeed stripe logStripes : ℕ) : Prop where
  logStripes_pos : 0 < logStripes
  logStripes_le : logStripes ≤ 7
  stripe_pos : 0 < stripe
  stripe_le : stripe ≤ 2 ^ logStripes
  getPruningLogStripes_eq : getPruningLogStripes pruningSeed = logStripes
  getPruningStripeOfSeed_eq : getPruningStripeOfSeed pruningSeed = stripe

theorem SeedFields.of_makePruningSeed {stripe logStripes pruningSeed : ℕ}
    (h : makePruningSeed stripe logStripes = .ok pruningSeed) (hne : pruningSeed ≠ 0) :
    SeedFields pruningSeed stripe logStripes := by
  obtain ⟨hls, ⟨hpos, hle⟩, rfl⟩ := makePruningSeed_eq_ok h
  have hlt : stripe - 1 < 128 :=
    Nat.lt_of_lt_of_le (by omega) (Nat.pow_le_pow_right (show 0 < 2 by decide) hls)
  -- with one stripe the only seed is `make_pruning_seed(1, 0) = 0`
  have hpos' : 0 < logStripes := by
    rcases Nat.eq_zero_or_pos logStripes with h0 | h0
    · subst h0
      rw [Nat.pow_zero] at hle
      omega
    · exact h0
  refine ⟨hpos', hls, hpos, hle, getPruningLogStripes_add hls hlt, ?_⟩
  rw [getPruningStripeOfSeed_add hlt hne]
  omega

/-! ### Which blocks a seed keeps -/

/-- Heights up to a chunk past the largest chain height never wrap when the tip zone is
added. -/
theorem add_tip_lt {x : ℕ} (hx : x ≤ cryptonoteMaxBlockNumber + 1 + cryptonotePruningStripeSize) :
    x + cryptonotePruningTipBlocks < 2 ^ 64 := by
  unfold cryptonoteMaxBlockNumber cryptonotePruningStripeSize at hx
  unfold cryptonotePruningTipBlocks
  omega

theorem hasUnprunedBlock_zero (x H : ℕ) : hasUnprunedBlock x H 0 = true := rfl

section Seed

variable {pruningSeed stripe logStripes : ℕ} (hf : SeedFields pruningSeed stripe logStripes)
include hf

/-- A seed keeps a block exactly when it is in the tip zone or in the seed's stripe. -/
theorem hasUnprunedBlock_iff {x H : ℕ} (hx : x + cryptonotePruningTipBlocks < 2 ^ 64) :
    hasUnprunedBlock x H pruningSeed = true ↔
      H ≤ x + cryptonotePruningTipBlocks ∨
        x / cryptonotePruningStripeSize % 2 ^ logStripes = stripe - 1 := by
  have hs := hf.stripe_pos
  unfold hasUnprunedBlock getPruningStripe
  dsimp only
  rw [hf.getPruningStripeOfSeed_eq, hf.getPruningLogStripes_eq, Word64.add_of_lt hx, one_shiftLeft,
    Nat.and_two_pow_sub_one_eq_mod]
  by_cases htip : H ≤ x + cryptonotePruningTipBlocks
  · simp [htip]
  · simp [htip]
    omega

/-- `get_next_unpruned_block_height` returns `block_height` when that block is kept. -/
theorem getNextUnprunedBlockHeight_of_kept {h H : ℕ} (hh : h ≤ cryptonoteMaxBlockNumber + 1)
    (hH : H ≤ cryptonoteMaxBlockNumber + 1)
    (hkept : H ≤ h + cryptonotePruningTipBlocks ∨
      h / cryptonotePruningStripeSize % 2 ^ logStripes = stripe - 1) :
    getNextUnprunedBlockHeight h H pruningSeed = h := by
  have hs := hf.stripe_pos
  have hls := hf.logStripes_pos
  unfold getNextUnprunedBlockHeight
  dsimp only
  rw [if_neg (show ¬¬h ≤ cryptonoteMaxBlockNumber + 1 from fun h' => h' hh),
    if_neg (show ¬¬H ≤ cryptonoteMaxBlockNumber + 1 from fun h' => h' hH), hf.getPruningStripeOfSeed_eq,
    if_neg (show ¬stripe = 0 by omega)]
  by_cases htip : h + cryptonotePruningTipBlocks ≥ H
  · rw [if_pos htip]
  · rw [if_neg htip, hf.getPruningLogStripes_eq, if_pos (show logStripes ≠ 0 by omega), one_shiftLeft,
      Nat.and_two_pow_sub_one_eq_mod,
      if_pos (show h / cryptonotePruningStripeSize % 2 ^ logStripes + 1 = stripe by omega)]

/-- Past its early returns, `get_next_unpruned_block_height` is the first height of the
next chunk in the seed's stripe, or the start of the tip zone if that comes first. -/
theorem getNextUnprunedBlockHeight_of_pruned {h H : ℕ} (hh : h ≤ cryptonoteMaxBlockNumber + 1)
    (hH : H ≤ cryptonoteMaxBlockNumber + 1) (htip : h + cryptonotePruningTipBlocks < H)
    (hne : h / cryptonotePruningStripeSize % 2 ^ logStripes ≠ stripe - 1) :
    getNextUnprunedBlockHeight h H pruningSeed =
      min (Stripes.nextChunk (2 ^ logStripes) (h / cryptonotePruningStripeSize) (stripe - 1) *
        cryptonotePruningStripeSize) (H - cryptonotePruningTipBlocks) := by
  have hs := hf.stripe_pos
  have hls := hf.logStripes_pos
  have hleast := Stripes.isLeast_nextChunk_mul (B := cryptonotePruningStripeSize) (by decide)
    (Nat.lt_of_lt_of_le (Nat.sub_lt hs Nat.one_pos) hf.stripe_le) hne
  -- the code's start of the next cycle of the stripe is the first height of `nextChunk`
  have hstart : ∀ c : ℕ,
      (c + if stripe > h / cryptonotePruningStripeSize % 2 ^ logStripes + 1 then 0 else 1) *
          (cryptonotePruningStripeSize * 2 ^ logStripes) + (stripe - 1) * cryptonotePruningStripeSize =
        ((c + if stripe - 1 > h / cryptonotePruningStripeSize % 2 ^ logStripes then 0 else 1) *
          2 ^ logStripes + (stripe - 1)) * cryptonotePruningStripeSize := by
    intro c
    have hcond : stripe > h / cryptonotePruningStripeSize % 2 ^ logStripes + 1 ↔
        stripe - 1 > h / cryptonotePruningStripeSize % 2 ^ logStripes := by
      omega
    simp only [hcond, Nat.add_mul, Nat.mul_comm cryptonotePruningStripeSize, Nat.mul_assoc]
  unfold getNextUnprunedBlockHeight
  dsimp only
  rw [if_neg (show ¬¬h ≤ cryptonoteMaxBlockNumber + 1 from fun h' => h' hh),
    if_neg (show ¬¬H ≤ cryptonoteMaxBlockNumber + 1 from fun h' => h' hH), hf.getPruningStripeOfSeed_eq,
    if_neg (show ¬stripe = 0 by omega), if_neg (show ¬h + cryptonotePruningTipBlocks ≥ H by omega),
    hf.getPruningLogStripes_eq, if_pos (show logStripes ≠ 0 by omega), one_shiftLeft,
    Nat.and_two_pow_sub_one_eq_mod,
    if_neg (show ¬h / cryptonotePruningStripeSize % 2 ^ logStripes + 1 = stripe by omega),
    Nat.shiftRight_eq_div_pow, Nat.shiftLeft_eq, hstart, ← Stripes.nextChunk]
  generalize Stripes.nextChunk (2 ^ logStripes) (h / cryptonotePruningStripeSize) (stripe - 1) *
    cryptonotePruningStripeSize = n at hleast ⊢
  have hle : h ≤ n := hleast.1.1
  by_cases hover : n + cryptonotePruningTipBlocks > H
  · rw [if_pos hover, if_neg (show ¬H < cryptonotePruningTipBlocks by omega)]
    omega
  · rw [if_neg hover, if_neg (show ¬¬n ≥ h from fun h' => h' hle)]
    omega

/-- For a seed with a stripe, `get_next_unpruned_block_height` is the least kept height at
or above `block_height`. -/
theorem SeedFields.isLeast_getNextUnprunedBlockHeight {h H : ℕ} (hh : h ≤ H)
    (hH : H ≤ cryptonoteMaxBlockNumber + 1) :
    IsLeast {x | h ≤ x ∧ hasUnprunedBlock x H pruningSeed = true}
      (getNextUnprunedBlockHeight h H pruningSeed) := by
  have hsmall : ∀ x, x ≤ H → x + cryptonotePruningTipBlocks < 2 ^ 64 :=
    fun x hx => add_tip_lt (by omega)
  by_cases hkept : H ≤ h + cryptonotePruningTipBlocks ∨
      h / cryptonotePruningStripeSize % 2 ^ logStripes = stripe - 1
  · rw [getNextUnprunedBlockHeight_of_kept hf (by omega) hH hkept]
    exact Stripes.isLeast_self ((hasUnprunedBlock_iff hf (hsmall h hh)).mpr hkept)
  · -- `block_height` is dropped: the answer is the next chunk of the stripe or the tip zone
    have htip : h + cryptonotePruningTipBlocks < H := by omega
    have hne : h / cryptonotePruningStripeSize % 2 ^ logStripes ≠ stripe - 1 := fun h' => hkept (.inr h')
    have hleast := Stripes.isLeast_nextChunk_mul (B := cryptonotePruningStripeSize) (by decide)
      (Nat.lt_of_lt_of_le (Nat.sub_lt hf.stripe_pos Nat.one_pos) hf.stripe_le) hne
    rw [getNextUnprunedBlockHeight_of_pruned hf (by omega) hH htip hne]
    generalize Stripes.nextChunk (2 ^ logStripes) (h / cryptonotePruningStripeSize) (stripe - 1) *
      cryptonotePruningStripeSize = n at hleast ⊢
    obtain ⟨⟨hhn, hnstripe⟩, hnleast⟩ := hleast
    refine ⟨⟨by omega, ?_⟩, ?_⟩
    · rcases Nat.le_total n (H - cryptonotePruningTipBlocks) with hn | hn
      · rw [Nat.min_eq_left hn]
        exact (hasUnprunedBlock_iff hf (hsmall n (by omega))).mpr (.inr hnstripe)
      · rw [Nat.min_eq_right hn]
        exact (hasUnprunedBlock_iff hf (hsmall _ (by omega))).mpr (.inl (by omega))
    · rintro x ⟨hx, hkx⟩
      refine Nat.le_of_not_lt fun hlt => ?_
      rcases (hasUnprunedBlock_iff hf (hsmall x (by omega))).mp hkx with hxtip | hxstripe
      · omega
      · have := hnleast ⟨hx, hxstripe⟩
        omega

/-- For a seed with a stripe, `get_next_pruned_block_height` does not throw, the heights
before its result are kept, and the result is dropped unless every height from
`block_height` to the top is kept. -/
theorem SeedFields.getNextPrunedBlockHeight_spec {h H : ℕ} (hh : h ≤ H)
    (hH : H ≤ cryptonoteMaxBlockNumber + 1) :
    ∃ p, getNextPrunedBlockHeight h H pruningSeed = .ok p ∧ h ≤ p ∧
      (∀ x, h ≤ x → x < p → hasUnprunedBlock x H pruningSeed = true) ∧
      (hasUnprunedBlock p H pruningSeed = false ∨
        ∀ x, h ≤ x → x < H → hasUnprunedBlock x H pruningSeed = true) := by
  have hs := hf.stripe_pos
  have hls := hf.logStripes_pos
  have hsmall : ∀ x, x ≤ cryptonoteMaxBlockNumber + 1 + cryptonotePruningStripeSize →
      x + cryptonotePruningTipBlocks < 2 ^ 64 := fun x hx => add_tip_lt hx
  unfold getNextPrunedBlockHeight
  dsimp only
  rw [hf.getPruningStripeOfSeed_eq, if_neg (show ¬stripe = 0 by omega),
    Word64.add_of_lt (hsmall h (by omega))]
  by_cases htip : h + cryptonotePruningTipBlocks ≥ H
  · -- the rest of the chain is the tip zone
    rw [if_pos htip]
    have hall : ∀ x, h ≤ x → x < H → hasUnprunedBlock x H pruningSeed = true := fun x hx hxH =>
      (hasUnprunedBlock_iff hf (hsmall x (by omega))).mpr (.inl (by omega))
    exact ⟨H, rfl, hh, hall, .inr hall⟩
  rw [if_neg htip, hf.getPruningLogStripes_eq, if_pos (show logStripes ≠ 0 by omega), one_shiftLeft,
    Nat.and_two_pow_sub_one_eq_mod]
  by_cases hkept : h / cryptonotePruningStripeSize % 2 ^ logStripes + 1 = stripe
  · -- `block_height` is kept: the run ends where the following stripe's first chunk starts
    rw [if_neg (show ¬(h / cryptonotePruningStripeSize % 2 ^ logStripes + 1 ≠ stripe) from
      fun h' => h' hkept), hkept, Nat.and_two_pow_sub_one_eq_mod]
    have hP : 1 < 2 ^ logStripes := Nat.one_lt_two_pow (by omega)
    have hseed' : makePruningSeed (1 + stripe % 2 ^ logStripes) logStripes =
        .ok (logStripes * 128 + (1 + stripe % 2 ^ logStripes - 1)) :=
      makePruningSeed_of_le hf.logStripes_le
        ⟨by omega, by have := Nat.mod_lt stripe (show 0 < 2 ^ logStripes by omega); omega⟩
    have hf' := SeedFields.of_makePruningSeed hseed' (by
      have : 0 < logStripes * 128 := Nat.mul_pos hls (by decide)
      omega)
    rw [hseed']
    refine ⟨_, rfl, ?_⟩
    have hl' := hf'.isLeast_getNextUnprunedBlockHeight hh hH
    generalize getNextUnprunedBlockHeight h H (logStripes * 128 + (1 + stripe % 2 ^ logStripes - 1)) = p
      at hl' ⊢
    -- the chunk after `block_height`'s is in the following stripe
    have hchunk : (h / cryptonotePruningStripeSize + 1) * cryptonotePruningStripeSize /
        cryptonotePruningStripeSize % 2 ^ logStripes = 1 + stripe % 2 ^ logStripes - 1 := by
      rw [Nat.mul_div_cancel _ (by decide), Nat.add_mod, Nat.mod_eq_of_lt hP, hkept]
      omega
    have hend : h < (h / cryptonotePruningStripeSize + 1) * cryptonotePruningStripeSize := by
      unfold cryptonotePruningStripeSize
      omega
    have hpend : p ≤ (h / cryptonotePruningStripeSize + 1) * cryptonotePruningStripeSize :=
      hl'.2 ⟨Nat.le_of_lt hend, (hasUnprunedBlock_iff hf' (hsmall _ (by
        unfold cryptonotePruningStripeSize at hend ⊢
        omega))).mpr (.inr hchunk)⟩
    have hrun : ∀ x, h ≤ x → x < p → hasUnprunedBlock x H pruningSeed = true := by
      intro x hx hxp
      have hq := Stripes.div_eq_of_mem_chunk hx (Nat.lt_of_lt_of_le hxp hpend)
      exact (hasUnprunedBlock_iff hf (hsmall x (by
        unfold cryptonotePruningStripeSize at hpend ⊢
        omega))).mpr (.inr (by rw [hq]; omega))
    refine ⟨hl'.1.1, hrun, ?_⟩
    by_cases hptip : H ≤ p + cryptonotePruningTipBlocks
    · -- the run reaches the tip zone: nothing from `block_height` on is dropped
      refine .inr fun x hx hxH => ?_
      rcases Nat.lt_or_ge x p with hxp | hxp
      · exact hrun x hx hxp
      · exact (hasUnprunedBlock_iff hf (hsmall x (by omega))).mpr (.inl (by omega))
    · -- `p` starts a chunk of the following stripe, which the seed drops
      have hshift : stripe % 2 ^ logStripes ≠ stripe - 1 := by
        rcases Nat.lt_or_ge stripe (2 ^ logStripes) with hlt | hge
        · rw [Nat.mod_eq_of_lt hlt]
          omega
        · rw [show stripe = 2 ^ logStripes by have := hf.stripe_le; omega, Nat.mod_self]
          omega
      have hpsmall : p ≤ cryptonoteMaxBlockNumber + 1 + cryptonotePruningStripeSize := by
        unfold cryptonotePruningStripeSize at hpend ⊢
        omega
      rcases (hasUnprunedBlock_iff hf' (hsmall p hpsmall)).mp hl'.1.2 with hp | hp
      · exact absurd hp hptip
      · refine .inl (Bool.eq_false_iff.mpr fun hkp => ?_)
        rcases (hasUnprunedBlock_iff hf (hsmall p hpsmall)).mp hkp with hp' | hp'
        · exact hptip hp'
        · omega
  · -- `block_height` itself is dropped
    rw [if_pos hkept]
    refine ⟨h, rfl, Nat.le_refl h, fun x hx hxh => absurd hx (Nat.not_le.mpr hxh), .inl ?_⟩
    refine Bool.eq_false_iff.mpr fun hk => ?_
    rcases (hasUnprunedBlock_iff hf (hsmall h (by omega))).mp hk with hk | hk
    · omega
    · omega

end Seed

/-- `get_next_unpruned_block_height` is the least kept height at or above `block_height`,
for a seed made by `make_pruning_seed` or the seed `0`. -/
theorem isLeast_getNextUnprunedBlockHeight {stripe logStripes pruningSeed h H : ℕ}
    (hseed : makePruningSeed stripe logStripes = .ok pruningSeed ∨ pruningSeed = 0) (hh : h ≤ H)
    (hH : H ≤ cryptonoteMaxBlockNumber + 1) :
    IsLeast {x | h ≤ x ∧ hasUnprunedBlock x H pruningSeed = true}
      (getNextUnprunedBlockHeight h H pruningSeed) := by
  by_cases h0 : pruningSeed = 0
  · subst h0
    have hnext : getNextUnprunedBlockHeight h H 0 = h := by
      unfold getNextUnprunedBlockHeight
      rw [if_neg (show ¬¬h ≤ cryptonoteMaxBlockNumber + 1 from fun h' => h' (by omega)),
        if_neg (show ¬¬H ≤ cryptonoteMaxBlockNumber + 1 from fun h' => h' hH)]
      rfl
    rw [hnext]
    exact Stripes.isLeast_self (hasUnprunedBlock_zero h H)
  · exact (SeedFields.of_makePruningSeed (hseed.resolve_right h0) h0).isLeast_getNextUnprunedBlockHeight
      hh hH

/-- `get_next_pruned_block_height` does not throw, the heights before its result are kept,
and the result is dropped unless every height from `block_height` to the top is kept, for
a seed made by `make_pruning_seed` or the seed `0`. -/
theorem getNextPrunedBlockHeight_spec {stripe logStripes pruningSeed h H : ℕ}
    (hseed : makePruningSeed stripe logStripes = .ok pruningSeed ∨ pruningSeed = 0) (hh : h ≤ H)
    (hH : H ≤ cryptonoteMaxBlockNumber + 1) :
    ∃ p, getNextPrunedBlockHeight h H pruningSeed = .ok p ∧ h ≤ p ∧
      (∀ x, h ≤ x → x < p → hasUnprunedBlock x H pruningSeed = true) ∧
      (hasUnprunedBlock p H pruningSeed = false ∨
        ∀ x, h ≤ x → x < H → hasUnprunedBlock x H pruningSeed = true) := by
  by_cases h0 : pruningSeed = 0
  · subst h0
    have hall : ∀ x, h ≤ x → x < H → hasUnprunedBlock x H 0 = true :=
      fun x _ _ => hasUnprunedBlock_zero x H
    exact ⟨H, rfl, hh, hall, .inr hall⟩
  · exact (SeedFields.of_makePruningSeed (hseed.resolve_right h0) h0).getNextPrunedBlockHeight_spec hh hH

/-- The two "next" functions agree with `has_unpruned_block`: the next unpruned height is
the least kept height at or above `block_height`, and the next pruned height ends the run of
kept heights there. -/
theorem nextBlockHeights_agree_with_hasUnprunedBlock {stripe logStripes pruningSeed blockHeight blockchainHeight : ℕ}
    (hseed : makePruningSeed stripe logStripes = .ok pruningSeed ∨ pruningSeed = 0)
    (hheight : blockHeight ≤ blockchainHeight)
    (hchain : blockchainHeight ≤ cryptonoteMaxBlockNumber + 1) :
    IsLeast {x | blockHeight ≤ x ∧ hasUnprunedBlock x blockchainHeight pruningSeed = true}
        (getNextUnprunedBlockHeight blockHeight blockchainHeight pruningSeed) ∧
      ∃ p, getNextPrunedBlockHeight blockHeight blockchainHeight pruningSeed = .ok p ∧ blockHeight ≤ p ∧
        (∀ x, blockHeight ≤ x → x < p → hasUnprunedBlock x blockchainHeight pruningSeed = true) ∧
        (hasUnprunedBlock p blockchainHeight pruningSeed = false ∨
          ∀ x, blockHeight ≤ x → x < blockchainHeight →
            hasUnprunedBlock x blockchainHeight pruningSeed = true) :=
  ⟨isLeast_getNextUnprunedBlockHeight hseed hheight hchain,
    getNextPrunedBlockHeight_spec hseed hheight hchain⟩

/-- A node keeping the first of two stripes, asked from the start of the second chunk. -/
theorem nextBlockHeights_agree_with_hasUnprunedBlock_second_chunk :
    (makePruningSeed 1 1 = .ok 128 ∨ (128 : ℕ) = 0) ∧ 2048 ≤ 100000 ∧
      100000 ≤ cryptonoteMaxBlockNumber + 1 ∧
      IsLeast {x | 2048 ≤ x ∧ hasUnprunedBlock x 100000 128 = true}
        (getNextUnprunedBlockHeight 2048 100000 128) :=
  ⟨.inl rfl, by decide, by decide,
    (@nextBlockHeights_agree_with_hasUnprunedBlock 1 1 128 2048 100000 (.inl rfl) (by decide)
      (by decide)).1⟩

example : getNextUnprunedBlockHeight 2048 100000 128 = 4096 := by decide

end Arqma.Common.Pruning
