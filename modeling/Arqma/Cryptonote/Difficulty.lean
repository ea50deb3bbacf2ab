import Arqma.Epee.IntUtil
import Mathlib.Data.Nat.Digits.Defs

/-!
# The proof-of-work check

`src/cryptonote_basic/difficulty.cpp`: `check_hash`, which accepts a block's proof-of-work
hash for a difficulty when the hash, read as a 256-bit number, times the difficulty still
fits in 256 bits. It multiplies the four 64-bit words of the hash by the difficulty one at a
time and follows the carries with `cadd` and `cadc`. The `mul` it calls is `mul128` on
x86-64 and, elsewhere, a portable one made of four 32×32-bit products.

## The model

A hash is its list of bytes. `swap64le` of the `i`-th `uint64_t` of the hash is the
little-endian value of bytes `8 i` to `8 i + 7`, and the hash as a number is the
little-endian value of all its bytes. A `uint64_t` is a natural below `2 ^ 64`, and every
operation on one is reduced modulo `2 ^ 64`, as in `IntUtil`. `mul` returns
`(low, high)`. `check_hash` takes the platform's `mul` as a parameter, so that both builds
are one definition.

## What is proved

* `mulPortable_spec`: the portable `mul` computes the exact 128-bit product, as `mul128` does.
* `checkHashWith_iff`: for a `mul` that computes the exact product, `check_hash` accepts
  exactly the hashes `H` with `H * difficulty < 2 ^ 256`. The early exit on the top word and
  the carry chain through `cadd` and `cadc` lose nothing.
* `checkHash_exact`: on both platforms `check_hash` is that comparison, so the two builds
  accept the same blocks.
-/

namespace Arqma.Cryptonote

open Arqma.Epee.IntUtil

/-! ### The two `mul` -/

/-- The portable `mul(a, b, low, high)` of `difficulty.cpp`: the four 32×32-bit partial
products, each split into 32-bit halves, then added up with two carry propagations. -/
def mulPortable (a b : ℕ) : ℕ × ℕ :=
  let aLow := a &&& 0xFFFFFFFF
  let aHigh := a >>> 32
  let bLow := b &&& 0xFFFFFFFF
  let bHigh := b >>> 32
  let res := aLow * bLow % 2 ^ 64
  let lowRes1 := res &&& 0xFFFFFFFF
  let carry := res >>> 32
  let res := (aHigh * bLow + carry) % 2 ^ 64
  let highResHigh1 := res >>> 32
  let highResLow1 := res &&& 0xFFFFFFFF
  let res := aLow * bHigh % 2 ^ 64
  let lowRes2 := res &&& 0xFFFFFFFF
  let carry := res >>> 32
  let res := (aHigh * bHigh + carry) % 2 ^ 64
  let highResHigh2 := res >>> 32
  let highResLow2 := res &&& 0xFFFFFFFF
  -- addition
  let r := (highResLow1 + lowRes2) % 2 ^ 64
  let carry := r >>> 32
  let low := (r <<< 32) % 2 ^ 64 ||| lowRes1
  let r := (highResHigh1 + highResLow2 + carry) % 2 ^ 64
  let d3 := r &&& 0xFFFFFFFF
  let carry := r >>> 32
  let r := (highResHigh2 + carry) % 2 ^ 64
  (low, d3 ||| (r <<< 32) % 2 ^ 64)

theorem and_low32 (x : ℕ) : x &&& 0xFFFFFFFF = x % 2 ^ 32 := loDword_eq x

/-- Putting a 32-bit word under a word shifted up by 32 bits is an addition. -/
theorem shiftLeft_mod_or {r x : ℕ} (hx : x < 2 ^ 32) :
    (r <<< 32) % 2 ^ 64 ||| x = r % 2 ^ 32 * 2 ^ 32 + x := by
  have hmod : (r <<< 32) % 2 ^ 64 = (r % 2 ^ 32) <<< 32 := by
    rw [Nat.shiftLeft_eq, Nat.shiftLeft_eq, show (2 : ℕ) ^ 64 = 2 ^ 32 * 2 ^ 32 by norm_num,
      Nat.mul_mod_mul_right]
  rw [hmod, ← Nat.shiftLeft_add_eq_or_of_lt hx, Nat.shiftLeft_eq]

/-- A 64-bit product of two 32-bit words: what the partial products of `mul` can reach. -/
theorem mul_lt_of_lt32 {u v : ℕ} (hu : u < 2 ^ 32) (hv : v < 2 ^ 32) :
    u * v ≤ (2 ^ 32 - 1) * (2 ^ 32 - 1) :=
  Nat.mul_le_mul (by omega) (by omega)

/-- **The portable `mul` multiplies.** On 64-bit operands it returns the product's low and
high words, the same pair as `mul128`. -/
theorem mulPortable_spec {x y : ℕ} (hx : x < 2 ^ 64) (hy : y < 2 ^ 64) :
    mulPortable x y = (x * y % 2 ^ 64, x * y / 2 ^ 64) := by
  simp only [mulPortable, and_low32, Nat.shiftRight_eq_div_pow]
  -- the halves of the operands, named as in the code
  obtain ⟨aLow, haLow⟩ : ∃ v, v = x % 2 ^ 32 := ⟨_, rfl⟩
  obtain ⟨aHigh, haHigh⟩ : ∃ v, v = x / 2 ^ 32 := ⟨_, rfl⟩
  obtain ⟨bLow, hbLow⟩ : ∃ v, v = y % 2 ^ 32 := ⟨_, rfl⟩
  obtain ⟨bHigh, hbHigh⟩ : ∃ v, v = y / 2 ^ 32 := ⟨_, rfl⟩
  rw [← haLow, ← haHigh, ← hbLow, ← hbHigh]
  have hxy : x * y = aHigh * bHigh * 2 ^ 64 + (aHigh * bLow + aLow * bHigh) * 2 ^ 32 + aLow * bLow := by
    have hx' : x = aHigh * 2 ^ 32 + aLow := by omega
    have hy' : y = bHigh * 2 ^ 32 + bLow := by omega
    rw [hx', hy']
    ring
  -- the four partial products each fit in 64 bits with room for a 32-bit carry
  have h1 := mul_lt_of_lt32 (show aLow < 2 ^ 32 by omega) (show bLow < 2 ^ 32 by omega)
  have h2 := mul_lt_of_lt32 (show aHigh < 2 ^ 32 by omega) (show bLow < 2 ^ 32 by omega)
  have h3 := mul_lt_of_lt32 (show aLow < 2 ^ 32 by omega) (show bHigh < 2 ^ 32 by omega)
  have h4 := mul_lt_of_lt32 (show aHigh < 2 ^ 32 by omega) (show bHigh < 2 ^ 32 by omega)
  rw [hxy]
  generalize aLow * bLow = ll at *
  generalize aHigh * bLow = hl at *
  generalize aLow * bHigh = lh at *
  generalize aHigh * bHigh = hh at *
  -- no sum the code reduces modulo `2 ^ 64` wraps
  simp (disch := omega) only [Nat.mod_eq_of_lt]
  -- each `|||` puts a 32-bit word under a shifted one; the high word's shift cannot wrap
  rw [shiftLeft_mod_or (Nat.mod_lt _ (by decide)), Nat.or_comm,
    ← Nat.shiftLeft_add_eq_or_of_lt (Nat.mod_lt _ (by decide)), Nat.shiftLeft_eq, Prod.mk.injEq]
  constructor
  · omega
  · omega

/-! ### `check_hash` -/

/-- `crypto::hash`: 32 bytes. -/
structure Hash where
  /-- The bytes of the hash. -/
  bytes : List UInt8
  length_eq : bytes.length = 32

/-- The `i`-th `uint64_t` of a hash through `swap64le`: bytes `8 i` to `8 i + 7`,
little-endian. -/
def Hash.word (hash : Hash) (i : ℕ) : ℕ :=
  Nat.ofDigits 256 (((hash.bytes.drop (8 * i)).take 8).map UInt8.toNat)

/-- The hash as a 256-bit number: all its bytes, little-endian. -/
def Hash.value (hash : Hash) : ℕ := Nat.ofDigits 256 (hash.bytes.map UInt8.toNat)

/-- `cadd(a, b)`: whether `a + b` carries out of 64 bits. -/
def cadd (a b : ℕ) : Bool := (a + b) % 2 ^ 64 < a

/-- `cadc(a, b, c)`: whether `a + b` with the incoming carry `c` carries out of 64 bits. -/
def cadc (a b : ℕ) (c : Bool) : Bool :=
  (a + b) % 2 ^ 64 < a || (c && (a + b) % 2 ^ 64 == 2 ^ 64 - 1)

/-- `check_hash(hash, difficulty)`, with the platform's `mul`. -/
def checkHashWith (mul : ℕ → ℕ → ℕ × ℕ) (hash : Hash) (difficulty : UInt64) : Bool :=
  -- first the highest word, which most likely fails for a random hash
  let (top, high) := mul (hash.word 3) difficulty.toNat
  if high ≠ 0 then false
  else
    let (_, cur) := mul (hash.word 0) difficulty.toNat
    let (low, high) := mul (hash.word 1) difficulty.toNat
    let carry := cadd cur low
    let cur := high
    let (low, high) := mul (hash.word 2) difficulty.toNat
    let carry := cadc cur low carry
    let carry := cadc high top carry
    !carry

/-- `check_hash` as built on x86-64, where `mul` is `mul128`. -/
def checkHash : Hash → UInt64 → Bool := checkHashWith mul128

/-- `check_hash` as built elsewhere, with the portable `mul`. -/
def checkHashPortable : Hash → UInt64 → Bool := checkHashWith mulPortable

/-- A `mul` that returns the low and high words of the exact product. -/
def ExactMul (mul : ℕ → ℕ → ℕ × ℕ) : Prop :=
  ∀ x y, x < 2 ^ 64 → y < 2 ^ 64 → mul x y = (x * y % 2 ^ 64, x * y / 2 ^ 64)

theorem exactMul_mul128 : ExactMul mul128 := fun _ _ hx hy => mul128_spec hx hy

theorem exactMul_mulPortable : ExactMul mulPortable := fun _ _ hx hy => mulPortable_spec hx hy

/-- `cadd` is the carry of the sum. -/
theorem cadd_toNat {a b : ℕ} (ha : a < 2 ^ 64) (hb : b < 2 ^ 64) :
    (cadd a b).toNat = (a + b) / 2 ^ 64 := by
  have hiff : cadd a b = true ↔ 2 ^ 64 ≤ a + b := by
    simp only [cadd, decide_eq_true_eq]
    omega
  by_cases h : 2 ^ 64 ≤ a + b
  · rw [hiff.mpr h, Bool.toNat_true]
    omega
  · rw [Bool.eq_false_iff.mpr (mt hiff.mp h), Bool.toNat_false]
    omega

/-- `cadc` is the carry of the sum with the incoming carry: a sum of `2 ^ 64 - 1` carries
exactly when a carry comes in. -/
theorem cadc_toNat {a b : ℕ} (c : Bool) (ha : a < 2 ^ 64) (hb : b < 2 ^ 64) :
    (cadc a b c).toNat = (a + b + c.toNat) / 2 ^ 64 := by
  have hc := Bool.toNat_le c
  have hiff : cadc a b c = true ↔ 2 ^ 64 ≤ a + b + c.toNat := by
    cases c <;> simp [cadc] <;> omega
  by_cases h : 2 ^ 64 ≤ a + b + c.toNat
  · rw [hiff.mpr h, Bool.toNat_true]
    omega
  · rw [Bool.eq_false_iff.mpr (mt hiff.mp h), Bool.toNat_false]
    omega

theorem Hash.word_lt (hash : Hash) (i : ℕ) : hash.word i < 2 ^ 64 := by
  have hlt := Nat.ofDigits_lt_base_pow_length (b := 256) (by norm_num)
    (l := ((hash.bytes.drop (8 * i)).take 8).map UInt8.toNat) fun x hx => by
      obtain ⟨y, -, rfl⟩ := List.mem_map.mp hx
      exact y.toNat_lt
  have hlen : (((hash.bytes.drop (8 * i)).take 8).map UInt8.toNat).length ≤ 8 := by simp
  calc hash.word i < 256 ^ (((hash.bytes.drop (8 * i)).take 8).map UInt8.toNat).length := hlt
    _ ≤ 256 ^ 8 := Nat.pow_le_pow_right (by norm_num) hlen
    _ = 2 ^ 64 := by norm_num

/-- The bytes from `8 i` on are the `i`-th word and, above it, the bytes from `8 (i + 1)` on. -/
theorem ofDigits_drop_word (hash : Hash) (i : ℕ) (hi : 8 * (i + 1) ≤ 32) :
    Nat.ofDigits 256 ((hash.bytes.drop (8 * i)).map UInt8.toNat) =
      hash.word i + 2 ^ 64 * Nat.ofDigits 256 ((hash.bytes.drop (8 * (i + 1))).map UInt8.toNat) := by
  have hsplit : hash.bytes.drop (8 * i) =
      (hash.bytes.drop (8 * i)).take 8 ++ hash.bytes.drop (8 * (i + 1)) := by
    rw [Nat.mul_succ, ← List.drop_drop, List.take_append_drop]
  have hlen8 : ((hash.bytes.drop (8 * i)).take 8).length = 8 := by
    simp only [List.length_take, List.length_drop, hash.length_eq]
    omega
  rw [hsplit, List.map_append, Nat.ofDigits_append, List.length_map, hlen8, Hash.word]
  norm_num

/-- A hash is its four words. -/
theorem Hash.value_eq (hash : Hash) :
    hash.value = hash.word 0 + 2 ^ 64 * (hash.word 1 + 2 ^ 64 * (hash.word 2 + 2 ^ 64 * hash.word 3)) := by
  have h0 : Nat.ofDigits 256 ((hash.bytes.drop 0).map UInt8.toNat) =
      hash.word 0 + 2 ^ 64 * Nat.ofDigits 256 ((hash.bytes.drop 8).map UInt8.toNat) :=
    ofDigits_drop_word hash 0 (by norm_num)
  have h1 : Nat.ofDigits 256 ((hash.bytes.drop 8).map UInt8.toNat) =
      hash.word 1 + 2 ^ 64 * Nat.ofDigits 256 ((hash.bytes.drop 16).map UInt8.toNat) :=
    ofDigits_drop_word hash 1 (by norm_num)
  have h2 : Nat.ofDigits 256 ((hash.bytes.drop 16).map UInt8.toNat) =
      hash.word 2 + 2 ^ 64 * Nat.ofDigits 256 ((hash.bytes.drop 24).map UInt8.toNat) :=
    ofDigits_drop_word hash 2 (by norm_num)
  have h3 : Nat.ofDigits 256 ((hash.bytes.drop 24).map UInt8.toNat) =
      hash.word 3 + 2 ^ 64 * Nat.ofDigits 256 ((hash.bytes.drop 32).map UInt8.toNat) :=
    ofDigits_drop_word hash 3 (by norm_num)
  have hend : hash.bytes.drop 32 = [] := List.drop_eq_nil_of_le (by rw [hash.length_eq])
  rw [Hash.value, ← List.drop_zero (l := hash.bytes), h0, h1, h2, h3, hend]
  simp

/-- **What `check_hash` computes.** With a `mul` that returns the exact product, it accepts
exactly when the hash times the difficulty fits in 256 bits. The product is
`p₀ + 2⁶⁴ p₁ + 2¹²⁸ p₂ + 2¹⁹² p₃` with `pᵢ` the `i`-th word times the difficulty. The early
exit is the top word's high half, and the carries out of words 1, 2 and 3 are `cadd` and
the two `cadc`. -/
theorem checkHashWith_iff {mul : ℕ → ℕ → ℕ × ℕ} (hmul : ExactMul mul) (hash : Hash)
    (difficulty : UInt64) :
    checkHashWith mul hash difficulty = true ↔ hash.value * difficulty.toNat < 2 ^ 256 := by
  have hd := difficulty.toNat_lt
  have hw := hash.word_lt
  unfold checkHashWith
  rw [hmul _ _ (hw 3) hd, hmul _ _ (hw 0) hd, hmul _ _ (hw 1) hd, hmul _ _ (hw 2) hd]
  -- the four products of a word and the difficulty, each below `2 ^ 128`
  have hp : ∀ i, hash.word i * difficulty.toNat < 2 ^ 64 * 2 ^ 64 := fun i =>
    Nat.mul_lt_mul'' (hw i) hd
  have hvalue : hash.value * difficulty.toNat =
      hash.word 0 * difficulty.toNat + 2 ^ 64 * (hash.word 1 * difficulty.toNat) +
        2 ^ 128 * (hash.word 2 * difficulty.toNat) + 2 ^ 192 * (hash.word 3 * difficulty.toNat) := by
    rw [Hash.value_eq]
    ring
  rw [hvalue]
  have hp0 := hp 0
  have hp1 := hp 1
  have hp2 := hp 2
  have hp3 := hp 3
  generalize hash.word 0 * difficulty.toNat = p₀ at *
  generalize hash.word 1 * difficulty.toNat = p₁ at *
  generalize hash.word 2 * difficulty.toNat = p₂ at *
  generalize hash.word 3 * difficulty.toNat = p₃ at *
  dsimp only
  split_ifs with htop
  · -- the top word alone overflows
    simp only [false_iff, not_lt]
    have : 1 ≤ p₃ / 2 ^ 64 := Nat.one_le_iff_ne_zero.mpr htop
    omega
  · -- the carries out of words 1, 2 and 3, in turn
    have hc₁ := cadd_toNat (a := p₀ / 2 ^ 64) (b := p₁ % 2 ^ 64) (by omega) (Nat.mod_lt _ (by norm_num))
    have hc₂ := cadc_toNat (a := p₁ / 2 ^ 64) (b := p₂ % 2 ^ 64) (cadd (p₀ / 2 ^ 64) (p₁ % 2 ^ 64))
      (by omega) (Nat.mod_lt _ (by norm_num))
    have hc₃ := cadc_toNat (a := p₂ / 2 ^ 64) (b := p₃ % 2 ^ 64)
      (cadc (p₁ / 2 ^ 64) (p₂ % 2 ^ 64) (cadd (p₀ / 2 ^ 64) (p₁ % 2 ^ 64))) (by omega)
      (Nat.mod_lt _ (by norm_num))
    rw [Bool.not_eq_true', ← Bool.toNat_eq_zero, hc₃, hc₂, hc₁]
    omega

/-- **`check_hash` is exact on both platforms.** The x86-64 build accepts a hash for a
difficulty exactly when the hash times the difficulty is below `2 ^ 256`, and the portable
build accepts the same hashes. -/
theorem checkHash_exact (hash : Hash) (difficulty : UInt64) :
    (checkHash hash difficulty = true ↔ hash.value * difficulty.toNat < 2 ^ 256) ∧
      checkHashPortable hash difficulty = checkHash hash difficulty := by
  have hx86 := checkHashWith_iff exactMul_mul128 hash difficulty
  have hportable := checkHashWith_iff exactMul_mulPortable hash difficulty
  refine ⟨hx86, ?_⟩
  rw [Bool.eq_iff_iff]
  exact hportable.trans hx86.symm

end Arqma.Cryptonote
