import Arqma.Lib.Radix
import Arqma.Epee.IntUtil
import Arqma.Common.Varint

/-!
# Base58

`tools::base58::encode` and `tools::base58::decode` (`src/common/base58.cpp`), the
address codec. The data is cut into blocks of 8 bytes, each written as 11 digits
of the 58-letter alphabet; a last, shorter block of `k` bytes takes
`encoded_block_sizes[k]` digits. `encode_block` writes the big-endian value of a
block from the right, leaving the leading positions at `'1'`, the zero digit.
`decode_block` rejects a block whose length is no entry of the size table, a
letter outside the alphabet, a value past `2 ^ 64` (the `mul128` carry checks) and,
for a short block, a value past `2 ^ (8 * res_size)`.

## The model

Strings are byte lists. `reverse_alphabet` is the index of a letter in the
alphabet (`none` for its `-1`), `decoded_block_sizes` the index of a length in
`encoded_block_sizes`. The C++ code writes every block into its slice of one
preallocated buffer; the slices are disjoint and cover the buffer, so the model
concatenates the blocks. `decode` returns `none` where the code returns `false`.

`encode_addr` and `decode_addr` frame a payload as the varint of a tag, the payload
and a four-byte checksum. `cn_fast_hash` is a parameter: a function from bytes to the
32 bytes of a `crypto::hash`.

Results:
* `decode_encode`: every byte string survives the round trip.
* `encode_of_decode`: whatever `decode` accepts is what `encode` writes, block by
  block, so the encoding is canonical.
* `decodeAddr_encodeAddr_and_accepted_forms`: for every hash, every tag and payload survive
  `encode_addr` and `decode_addr`. Whatever `decode_addr` accepts is `encode_addr` of its
  result, except a tag whose varint runs into the checksum. That one has no payload, and
  `read_varint` accepts it because it accepts a varint cut short.
-/

namespace Arqma.Common.Base58

open Arqma.Epee.IntUtil Arqma.Common.Varint

/-! ### Tables -/

/-- `alphabet`: the digits `0 … 57`. -/
def alphabet : List UInt8 :=
  ['1', '2', '3', '4', '5', '6', '7', '8', '9', 'A', 'B', 'C', 'D', 'E', 'F', 'G', 'H', 'J',
    'K', 'L', 'M', 'N', 'P', 'Q', 'R', 'S', 'T', 'U', 'V', 'W', 'X', 'Y', 'Z', 'a', 'b', 'c',
    'd', 'e', 'f', 'g', 'h', 'i', 'j', 'k', 'm', 'n', 'o', 'p', 'q', 'r', 's', 't', 'u', 'v',
    'w', 'x', 'y', 'z'].map Char.toUInt8

/-- `alphabet_size`. -/
def alphabetSize : ℕ := 58

/-- `encoded_block_sizes`: the number of digits for a block of `k` bytes. -/
def encodedBlockSizes : List ℕ := [0, 2, 3, 5, 6, 7, 9, 10, 11]

/-- `full_block_size`. -/
def fullBlockSize : ℕ := 8

/-- `full_encoded_block_size`. -/
def fullEncodedBlockSize : ℕ := 11

/-- The letter of digit `d`: `alphabet[d]`. -/
def alphabetAt (d : ℕ) : UInt8 := alphabet.getD d 0

/-- `reverse_alphabet::instance(letter)`: the digit of a letter, `none` for `-1`. -/
def reverseAlphabet (letter : UInt8) : Option ℕ := alphabet.idxOf? letter

/-- `decoded_block_sizes::instance(size)`: the bytes of a block of `size` digits,
`none` for `-1`. -/
def decodedBlockSizes (encodedBlockSize : ℕ) : Option ℕ := encodedBlockSizes.idxOf? encodedBlockSize

theorem reverseAlphabet_alphabetAt : ∀ d < 58, reverseAlphabet (alphabetAt d) = some d := by
  decide

theorem reverseAlphabet_eq_some {c : UInt8} {d : ℕ} (h : reverseAlphabet c = some d) :
    d < 58 ∧ alphabetAt d = c := by
  obtain ⟨hd, hc, -⟩ := List.idxOf?_eq_some_iff.mp h
  refine ⟨by simpa [alphabet] using hd, ?_⟩
  rw [alphabetAt, List.getD_eq_getElem _ _ hd, hc]

/-- The table of sizes, inverted: the sizes `decode` accepts are those `encode` writes. -/
theorem decodedBlockSizes_encodedBlockSizes :
    ∀ k ≤ 8, decodedBlockSizes (encodedBlockSizes.getD k 0) = some k := by
  decide

theorem encodedBlockSizes_of_decoded {n k : ℕ} (h : decodedBlockSizes n = some k) :
    k ≤ 8 ∧ encodedBlockSizes.getD k 0 = n := by
  obtain ⟨hk, hn, -⟩ := List.idxOf?_eq_some_iff.mp h
  refine ⟨by simpa [encodedBlockSizes] using Nat.lt_succ_iff.mp hk, ?_⟩
  rw [List.getD_eq_getElem _ _ hk, hn]

/-- The size table where the proofs read it: only a full block takes 11 digits, and
only the empty one none. -/
theorem encodedBlockSizes_bounds : ∀ k ≤ 8,
    (encodedBlockSizes.getD k 0 < 11 ↔ k < 8) ∧ (0 < encodedBlockSizes.getD k 0 ↔ 0 < k) ∧
      encodedBlockSizes.getD k 0 ≤ 11 := by
  decide

/-- A block of `k` bytes fits in its digits: `256 ^ k ≤ 58 ^ encoded_block_sizes[k]`. -/
theorem pow_le_pow_encodedBlockSizes : ∀ k ≤ 8, 256 ^ k ≤ 58 ^ encodedBlockSizes.getD k 0 := by
  decide

/-! ### Blocks -/

/-- `uint_8be_to_64`: the big-endian value of the bytes. -/
def uint8beTo64 (data : List UInt8) : ℕ := Nat.ofDigits 256 (data.reverse.map UInt8.toNat)

/-- `uint_64_to_8be(num, size)`: the `size` low bytes of `num`, big-endian. -/
def uint64To8be (num size : ℕ) : List UInt8 := ((Radix.digits 256 size num).map UInt8.ofNat).reverse

/-- The `while (0 < num)` loop of `encode_block`: write the last digit of `num` at
position `i` of `res`, and go on leftwards with the rest. -/
def encodeBlockLoop (num i : ℕ) (res : List UInt8) : List UInt8 :=
  if 0 < num then encodeBlockLoop (num / alphabetSize) (i - 1) (res.set i (alphabetAt (num % alphabetSize)))
  else res
termination_by num
decreasing_by simp only [alphabetSize]; omega

/-- `encode_block(block, size, res)`: the block's slice of the result, which starts
as `alphabet[0]` repeated. -/
def encodeBlock (block : List UInt8) : List UInt8 :=
  let n := encodedBlockSizes.getD block.length 0
  encodeBlockLoop (uint8beTo64 block) (n - 1) (List.replicate n (alphabetAt 0))

/-- The loop of `decode_block`, from the last letter of the block: add
`order * digit`, computed by `mul128`, and fail on a carry out of either. -/
def decodeBlockLoop (resNum order : ℕ) : List UInt8 → Option ℕ
  | [] => some resNum
  | letter :: rest =>
    match reverseAlphabet letter with
    | none => none
    | some digit =>
      let product := mul128 order digit
      let tmp := (resNum + product.1) % 2 ^ 64
      if tmp < resNum ∨ product.2 ≠ 0 then none
      else decodeBlockLoop tmp (order * alphabetSize % 2 ^ 64) rest

/-- `decode_block(block, size, res)`: the bytes of a block, or `none` for `false`. -/
def decodeBlock (block : List UInt8) : Option (List UInt8) :=
  match decodedBlockSizes block.length with
  | none => none
  | some resSize =>
    if resSize = 0 then none
    else
      match decodeBlockLoop 0 1 block.reverse with
      | none => none
      | some resNum =>
        if resSize < fullBlockSize ∧ 2 ^ (8 * resSize) ≤ resNum then none
        else some (uint64To8be resNum resSize)

/-! ### The codec -/

/-- `tools::base58::encode`. -/
def encode (data : List UInt8) : List UInt8 :=
  if data.isEmpty then []
  else
    let fullBlockCount := data.length / fullBlockSize
    let lastBlockSize := data.length % fullBlockSize
    (List.range fullBlockCount).flatMap
        (fun i => encodeBlock ((data.drop (i * fullBlockSize)).take fullBlockSize)) ++
      if 0 < lastBlockSize then encodeBlock (data.drop (fullBlockCount * fullBlockSize)) else []

/-- `tools::base58::decode`: the data, or `none` for `false`. -/
def decode (enc : List UInt8) : Option (List UInt8) :=
  if enc.isEmpty then some []
  else
    let fullBlockCount := enc.length / fullEncodedBlockSize
    let lastBlockSize := enc.length % fullEncodedBlockSize
    match decodedBlockSizes lastBlockSize with
    | none => none
    | some _ =>
      match (List.range fullBlockCount).mapM
          (fun i => decodeBlock ((enc.drop (i * fullEncodedBlockSize)).take fullEncodedBlockSize)) with
      | none => none
      | some full =>
        if 0 < lastBlockSize then
          (decodeBlock (enc.drop (fullBlockCount * fullEncodedBlockSize))).map (full.flatten ++ ·)
        else some full.flatten

/-! ### Blocks as numbers -/

theorem uint8beTo64_lt (data : List UInt8) : uint8beTo64 data < 256 ^ data.length := by
  have h := Nat.ofDigits_lt_base_pow_length (b := 256) (l := data.reverse.map UInt8.toNat) (by decide)
    (by simp only [List.mem_map]; rintro _ ⟨x, -, rfl⟩; exact x.toNat_lt)
  rw [uint8beTo64]
  simpa using h

@[simp] theorem length_uint64To8be (num size : ℕ) : (uint64To8be num size).length = size := by
  simp [uint64To8be]

theorem uint64To8be_uint8beTo64 (data : List UInt8) :
    uint64To8be (uint8beTo64 data) data.length = data := by
  have hlt : ∀ d ∈ data.reverse.map UInt8.toNat, d < 256 := by
    simp only [List.mem_map]; rintro _ ⟨x, -, rfl⟩; exact x.toNat_lt
  have hlen : (data.reverse.map UInt8.toNat).length = data.length := by simp
  rw [uint64To8be, uint8beTo64, ← hlen, Radix.digits_ofDigits hlt, List.map_map]
  simp [Function.comp_def]

theorem uint8beTo64_uint64To8be (num size : ℕ) :
    uint8beTo64 (uint64To8be num size) = num % 256 ^ size := by
  have hlt := Radix.digits_lt (b := 256) (by decide) size num
  rw [uint8beTo64, uint64To8be, List.reverse_reverse, List.map_map, ← Radix.ofDigits_digits]
  congr 1
  conv_rhs => rw [← List.map_id (Radix.digits 256 size num)]
  exact List.map_congr_left fun d hd => by simp [Nat.mod_eq_of_lt (hlt d hd)]

/-! ### `encode_block` -/

theorem encodeBlockLoop_zero (i : ℕ) (res : List UInt8) : encodeBlockLoop 0 i res = res := by
  rw [encodeBlockLoop]; simp

theorem set_replicate_append {α : Type*} (a x : α) (i : ℕ) (tail : List α) :
    (List.replicate (i + 1) a ++ tail).set i x = List.replicate i a ++ x :: tail := by
  rw [List.replicate_succ', List.append_assoc, List.set_append_right _ _ (by simp)]
  simp

/-- The loop writes the `i + 1` digits of `num`, most significant first, over the
leading `'1'`s of the slice. -/
theorem encodeBlockLoop_spec (i : ℕ) :
    ∀ (num : ℕ) (tail : List UInt8), num < 58 ^ (i + 1) →
      encodeBlockLoop num i (List.replicate (i + 1) (alphabetAt 0) ++ tail) =
        (Radix.digits 58 (i + 1) num).reverse.map alphabetAt ++ tail := by
  induction i with
  | zero =>
    intro num tail hnum
    rcases Nat.eq_zero_or_pos num with rfl | hpos
    · simp [encodeBlockLoop_zero]
    · -- one digit: the loop writes it and stops
      rw [encodeBlockLoop, if_pos hpos, set_replicate_append,
        Nat.div_eq_of_lt (by simpa [alphabetSize] using hnum), encodeBlockLoop_zero]
      simp [Radix.digits, alphabetSize, Nat.mod_eq_of_lt (by simpa using hnum : num < 58)]
  | succ i ih =>
    intro num tail hnum
    rcases Nat.eq_zero_or_pos num with rfl | hpos
    · simp [encodeBlockLoop_zero]
    · have hrest : num / 58 < 58 ^ (i + 1) := by
        rw [Nat.div_lt_iff_lt_mul (by decide), ← Nat.pow_succ]; exact hnum
      rw [encodeBlockLoop, if_pos hpos, set_replicate_append, Nat.add_sub_cancel]
      simp only [alphabetSize]
      rw [ih _ _ hrest]
      conv_rhs => rw [Radix.digits]
      simp

/-! ### `decode_block` -/

theorem pow58_lt {j : ℕ} (hj : j ≤ 10) : 58 ^ j < 2 ^ 64 :=
  calc 58 ^ j ≤ 58 ^ 10 := Nat.pow_le_pow_right (by decide) hj
    _ < 2 ^ 64 := by decide

/-- The two overflow tests of the loop, on a sum `res_num + order * digit` whose
product `p` is split by `mul128`: together they fail exactly past 64 bits. -/
theorem add_product_overflow_iff {acc p : ℕ} (hacc : acc < 2 ^ 64) :
    ((acc + p % 2 ^ 64) % 2 ^ 64 < acc ∨ p / 2 ^ 64 ≠ 0) ↔ 2 ^ 64 ≤ acc + p := by
  omega

/-- The loop of `decode_block` from digit position `j` on: it fails exactly on a
letter outside the alphabet or on a value past 64 bits. -/
theorem decodeBlockLoop_spec :
    ∀ (cs : List UInt8) (acc j : ℕ), acc < 2 ^ 64 → j + cs.length ≤ 11 →
      decodeBlockLoop acc (58 ^ j % 2 ^ 64) cs =
        (cs.mapM reverseAlphabet).bind fun ds =>
          if acc + 58 ^ j * Nat.ofDigits 58 ds < 2 ^ 64 then
            some (acc + 58 ^ j * Nat.ofDigits 58 ds)
          else none := by
  intro cs
  induction cs with
  | nil =>
    intro acc j hacc _
    simp [decodeBlockLoop, -Nat.reducePow, hacc]
  | cons c cs ih =>
    intro acc j hacc hj
    have hj' : 58 ^ j < 2 ^ 64 := pow58_lt (by simp at hj; omega)
    rw [decodeBlockLoop]
    cases hc : reverseAlphabet c with
    | none => simp [List.mapM_cons, hc]
    | some d =>
      have hd := (reverseAlphabet_eq_some hc).1
      simp only [Radix.mapM_cons_of_eq_some hc, Nat.mod_eq_of_lt hj',
        mul128_spec hj' (by omega : d < 2 ^ 64), add_product_overflow_iff hacc, alphabetSize]
      split_ifs with hover
      · -- a carry out: whatever the rest, the value is past 64 bits
        cases cs.mapM reverseAlphabet with
        | none => rfl
        | some ds =>
          have : 2 ^ 64 ≤ acc + 58 ^ j * Nat.ofDigits 58 (d :: ds) := by
            rw [Nat.ofDigits_cons, Nat.mul_add]; omega
          rw [Option.map_some, Option.bind_some, if_neg (by omega)]
      · have hsum : (acc + 58 ^ j * d % 2 ^ 64) % 2 ^ 64 = acc + 58 ^ j * d := by omega
        rw [hsum, ← Nat.pow_succ, ih _ _ (by omega) (by simp at hj; omega)]
        cases cs.mapM reverseAlphabet with
        | none => rfl
        | some ds =>
          have : acc + 58 ^ j * d + 58 ^ (j + 1) * Nat.ofDigits 58 ds =
              acc + 58 ^ j * Nat.ofDigits 58 (d :: ds) := by
            rw [Nat.ofDigits_cons, Nat.pow_succ]; ring
          rw [Option.map_some, Option.bind_some, Option.bind_some, this]

/-- The loop as `decode_block` starts it, on a block of at most 11 letters. -/
theorem decodeBlockLoop_start (cs : List UInt8) (h : cs.length ≤ 11) :
    decodeBlockLoop 0 1 cs =
      (cs.mapM reverseAlphabet).bind fun ds =>
        if Nat.ofDigits 58 ds < 2 ^ 64 then some (Nat.ofDigits 58 ds) else none := by
  simpa using decodeBlockLoop_spec cs 0 0 (by decide) (by omega)

/-! ### A block round trip -/

/-- `encode_block` in numbers: the digits of the block's value, most significant
first, as many as the table gives for its length. -/
theorem encodeBlock_eq (block : List UInt8) (h1 : 0 < block.length) (h8 : block.length ≤ 8) :
    encodeBlock block =
      (Radix.digits 58 (encodedBlockSizes.getD block.length 0) (uint8beTo64 block)).reverse.map
        alphabetAt := by
  obtain ⟨-, hpos, -⟩ := encodedBlockSizes_bounds _ h8
  have hn : encodedBlockSizes.getD block.length 0 - 1 + 1 = encodedBlockSizes.getD block.length 0 := by
    have := hpos.mpr h1; omega
  have hlt : uint8beTo64 block < 58 ^ (encodedBlockSizes.getD block.length 0 - 1 + 1) := by
    rw [hn]; exact lt_of_lt_of_le (uint8beTo64_lt block) (pow_le_pow_encodedBlockSizes _ h8)
  have h := encodeBlockLoop_spec _ _ [] hlt
  rw [hn, List.append_nil, List.append_nil] at h
  exact h

theorem pow_eight_mul (k : ℕ) : 2 ^ (8 * k) = 256 ^ k := by
  rw [Nat.pow_mul]

theorem decodeBlock_encodeBlock (block : List UInt8) (h1 : 0 < block.length) (h8 : block.length ≤ 8) :
    decodeBlock (encodeBlock block) = some block := by
  obtain ⟨-, -, hle⟩ := encodedBlockSizes_bounds _ h8
  have hv := uint8beTo64_lt block
  have hfit : 256 ^ block.length ≤ 2 ^ 64 :=
    calc 256 ^ block.length ≤ 256 ^ 8 := Nat.pow_le_pow_right (by decide) h8
      _ = 2 ^ 64 := by norm_num
  have hvn : uint8beTo64 block < 58 ^ encodedBlockSizes.getD block.length 0 :=
    lt_of_lt_of_le hv (pow_le_pow_encodedBlockSizes _ h8)
  have hdig := Radix.digits_lt (b := 58) (by decide) (encodedBlockSizes.getD block.length 0)
    (uint8beTo64 block)
  -- the letters, read back from the right, are the digits of the value
  have hrev : ((Radix.digits 58 (encodedBlockSizes.getD block.length 0) (uint8beTo64 block)).reverse.map
      alphabetAt).reverse =
        (Radix.digits 58 (encodedBlockSizes.getD block.length 0) (uint8beTo64 block)).map alphabetAt := by
    rw [List.map_reverse, List.reverse_reverse]
  have hmapM := Radix.mapM_map_of_inverse (f := reverseAlphabet) (g := alphabetAt) _
    fun d hd => reverseAlphabet_alphabetAt d (hdig d hd)
  rw [encodeBlock_eq block h1 h8, decodeBlock]
  simp only [List.length_map, List.length_reverse, Radix.length_digits,
    decodedBlockSizes_encodedBlockSizes _ h8]
  rw [if_neg (by omega), hrev, decodeBlockLoop_start _ (by simpa using hle), hmapM, Option.bind_some,
    Radix.ofDigits_digits, Nat.mod_eq_of_lt hvn, if_pos (by omega)]
  dsimp only
  rw [if_neg (by rw [pow_eight_mul]; omega), uint64To8be_uint8beTo64]

/-- What `decode_block` accepts is what `encode_block` writes for the decoded bytes,
whose count is the one the table gives for the block's length. -/
theorem encodeBlock_of_decodeBlock {block out : List UInt8} (h : decodeBlock block = some out) :
    decodedBlockSizes block.length = some out.length ∧ 0 < out.length ∧ encodeBlock out = block := by
  unfold decodeBlock at h
  cases hk : decodedBlockSizes block.length with
  | none => simp [hk] at h
  | some k =>
    obtain ⟨hk8, hn⟩ := encodedBlockSizes_of_decoded hk
    obtain ⟨hlt11, hpos, hle⟩ := encodedBlockSizes_bounds k hk8
    rw [hk] at h
    dsimp only at h
    split_ifs at h with hk0
    rw [decodeBlockLoop_start _ (by simp; omega)] at h
    cases hds : block.reverse.mapM reverseAlphabet with
    | none => simp [hds] at h
    | some ds =>
      -- the digits spell the block, read from the right
      have hmap : ds.map alphabetAt = block.reverse :=
        Radix.map_of_mapM_eq_some (fun _ _ hc => (reverseAlphabet_eq_some hc).2) _ _ hds
      have hlt : ∀ d ∈ ds, d < 58 :=
        Radix.mem_of_mapM_eq_some _ _ (fun _ _ _ hc => (reverseAlphabet_eq_some hc).1) hds
      have hlen : ds.length = block.length := by simpa using congrArg List.length hmap
      rw [hds, Option.bind_some] at h
      split_ifs at h with hv
      dsimp only at h
      split_ifs at h with hsmall
      cases h
      -- the value fits in the bytes: by the bound for a short block, by 64 bits for a full one
      have hfit : Nat.ofDigits 58 ds < 256 ^ k := by
        rcases Nat.lt_or_ge k 8 with h8 | h8
        · rw [← pow_eight_mul]; exact Nat.lt_of_not_le fun h => hsmall ⟨h8, h⟩
        · have : k = 8 := by omega
          subst this; simpa using hv
      refine ⟨by simp, by simp; omega, ?_⟩
      rw [encodeBlock_eq _ (by simp; omega) (by simp; omega), length_uint64To8be,
        uint8beTo64_uint64To8be, Nat.mod_eq_of_lt hfit, hn, ← hlen, Radix.digits_ofDigits hlt,
        List.map_reverse, hmap, List.reverse_reverse]

/-! ### The codec -/

/-- `encode` cut into blocks: the full blocks of 8 bytes, then the rest. -/
theorem encode_eq (data : List UInt8) (h : data ≠ []) :
    encode data = (Radix.blocks 8 (data.length / 8) data).flatMap encodeBlock ++
      if 0 < data.length % 8 then encodeBlock (data.drop (data.length / 8 * 8)) else [] := by
  rw [encode, if_neg (by simpa using h)]
  simp only [fullBlockSize, Radix.range_flatMap_slice]
  rfl

/-- `decode` cut into blocks: the full blocks of 11 letters, then the rest. -/
theorem decode_eq (enc : List UInt8) (h : enc ≠ []) :
    decode enc =
      match decodedBlockSizes (enc.length % 11) with
      | none => none
      | some _ =>
        match (Radix.blocks 11 (enc.length / 11) enc).mapM decodeBlock with
        | none => none
        | some full =>
          if 0 < enc.length % 11 then (decodeBlock (enc.drop (enc.length / 11 * 11))).map (full.flatten ++ ·)
          else some full.flatten := by
  rw [decode, if_neg (by simpa using h)]
  simp only [fullEncodedBlockSize, Radix.range_mapM_slice]
  rfl

theorem decode_encode (data : List UInt8) : decode (encode data) = some data := by
  by_cases hne : data = []
  · subst hne; rfl
  have hq : data.length / 8 * 8 ≤ data.length := Nat.div_mul_le_self _ _
  have hD8 : ∀ b ∈ Radix.blocks 8 (data.length / 8) data, b.length = 8 := Radix.length_of_mem_blocks hq
  have hE11 : ∀ e ∈ (Radix.blocks 8 (data.length / 8) data).map encodeBlock, e.length = 11 := by
    simp only [List.mem_map]
    rintro _ ⟨b, hb, rfl⟩
    rw [encodeBlock_eq b (by rw [hD8 b hb]; omega) (hD8 b hb).le]
    simp [hD8 b hb]
    rfl
  -- the encoded last block: as many letters as the table gives for the rest
  have hL : (if 0 < data.length % 8 then encodeBlock (data.drop (data.length / 8 * 8)) else []).length =
      encodedBlockSizes.getD (data.length % 8) 0 := by
    split_ifs with hr
    · have hlen : (data.drop (data.length / 8 * 8)).length = data.length % 8 := by simp; omega
      rw [encodeBlock_eq _ (by omega) (by omega), hlen]
      simp
    · rw [show data.length % 8 = 0 by omega]; rfl
  obtain ⟨hr11, hrpos, -⟩ := encodedBlockSizes_bounds (data.length % 8) (by omega)
  have hflat : ((Radix.blocks 8 (data.length / 8) data).flatMap encodeBlock).length =
      data.length / 8 * 11 := by
    rw [List.flatMap_def, Radix.length_flatten_of_length_eq _ hE11]; simp
  rw [encode_eq data hne]
  set D := Radix.blocks 8 (data.length / 8) data with hD
  set L := (if 0 < data.length % 8 then encodeBlock (data.drop (data.length / 8 * 8)) else []) with hLdef
  have hlen : (D.flatMap encodeBlock ++ L).length = data.length / 8 * 11 + L.length := by
    rw [List.length_append, hflat]
  have hne' : D.flatMap encodeBlock ++ L ≠ [] := by
    intro h0
    have := congrArg List.length h0
    rw [hlen, List.length_nil] at this
    have : data.length % 8 = 0 := by
      by_contra hr; have := hrpos.mpr (by omega); omega
    exact hne (List.eq_nil_of_length_eq_zero (by omega))
  -- the full blocks of the encoding are the encoded full blocks
  have hblocks : Radix.blocks 11 (data.length / 8) (D.flatMap encodeBlock ++ L) = D.map encodeBlock := by
    have hn : data.length / 8 = (D.map encodeBlock).length := by simp [hD]
    rw [List.flatMap_def, hn, Radix.blocks_flatten _ _ hE11]
  have hdrop : (D.flatMap encodeBlock ++ L).drop (data.length / 8 * 11) = L := List.drop_left' hflat
  have hfull : (D.map encodeBlock).mapM decodeBlock = some D :=
    Radix.mapM_map_of_inverse _ fun b hb => decodeBlock_encodeBlock b (by rw [hD8 b hb]; omega) (hD8 b hb).le
  rw [decode_eq _ hne', hlen, show (data.length / 8 * 11 + L.length) % 11 = L.length by omega,
    show (data.length / 8 * 11 + L.length) / 11 = data.length / 8 by omega, hblocks, hdrop, hfull, hL,
    decodedBlockSizes_encodedBlockSizes _ (by omega)]
  dsimp only
  rw [hD, Radix.flatten_blocks]
  split_ifs with hr
  · -- a short last block: it decodes to the rest of the data
    have hr' : 0 < data.length % 8 := hrpos.mp hr
    rw [hLdef, if_pos hr', decodeBlock_encodeBlock _ (by simp; omega) (by simp; omega), Option.map_some,
      List.take_append_drop]
  · have hr' : data.length % 8 = 0 := by by_contra h'; exact hr (hrpos.mpr (by omega))
    rw [List.take_of_length_le (by omega)]
/-- What `decode` accepts is what `encode` writes for the decoded data. -/
theorem encode_of_decode {enc data : List UInt8} (h : decode enc = some data) : encode data = enc := by
  by_cases hne : enc = []
  · subst hne
    simp only [decode, List.isEmpty_nil, if_true, Option.some.injEq] at h
    subst h; rfl
  rw [decode_eq enc hne] at h
  cases hk : decodedBlockSizes (enc.length % 11) with
  | none => simp [hk] at h
  | some r =>
    rw [hk] at h
    dsimp only at h
    cases hfull : (Radix.blocks 11 (enc.length / 11) enc).mapM decodeBlock with
    | none => simp [hfull] at h
    | some full =>
      rw [hfull] at h
      dsimp only at h
      -- each full block is the encoding of the 8 bytes it decodes to
      have hB11 : ∀ b ∈ Radix.blocks 11 (enc.length / 11) enc, b.length = 11 :=
        Radix.length_of_mem_blocks (Nat.div_mul_le_self _ _)
      have hmap : full.map encodeBlock = Radix.blocks 11 (enc.length / 11) enc :=
        Radix.map_of_mapM_eq_some (fun _ _ hb => (encodeBlock_of_decodeBlock hb).2.2) _ _ hfull
      have hfull8 : ∀ a ∈ full, a.length = 8 := by
        refine Radix.mem_of_mapM_eq_some _ _ (fun b hb a ha => ?_) hfull
        have hsize := (encodeBlock_of_decodeBlock ha).1
        rw [hB11 b hb, show decodedBlockSizes 11 = some 8 from rfl, Option.some.injEq] at hsize
        exact hsize.symm
      have hlenfull : full.length = enc.length / 11 := by simpa using congrArg List.length hmap
      have hflat8 : full.flatten.length = enc.length / 11 * 8 := by
        rw [Radix.length_flatten_of_length_eq _ hfull8, hlenfull]
      have henc : full.flatMap encodeBlock = enc.take (enc.length / 11 * 11) := by
        rw [List.flatMap_def, hmap, Radix.flatten_blocks]
      split_ifs at h with hr
      · -- a short last block, decoding to between 1 and 7 bytes
        cases hlast : decodeBlock (enc.drop (enc.length / 11 * 11)) with
        | none => simp [hlast] at h
        | some last =>
          rw [hlast, Option.map_some, Option.some.injEq] at h
          subst h
          obtain ⟨hsize, hpos, hlastenc⟩ := encodeBlock_of_decodeBlock hlast
          have hdl : (enc.drop (enc.length / 11 * 11)).length = enc.length % 11 := by simp; omega
          rw [hdl] at hsize
          obtain ⟨h8, htab⟩ := encodedBlockSizes_of_decoded hsize
          have hl8 : last.length < 8 := (encodedBlockSizes_bounds _ h8).1.mp (by omega)
          have hdata : (full.flatten ++ last).length = enc.length / 11 * 8 + last.length := by
            rw [List.length_append, hflat8]
          have hbl : Radix.blocks 8 (enc.length / 11) (full.flatten ++ last) = full := by
            rw [← hlenfull]; exact Radix.blocks_flatten _ _ hfull8
          rw [encode_eq _ (by rw [← List.length_pos_iff]; omega), hdata,
            show (enc.length / 11 * 8 + last.length) / 8 = enc.length / 11 by omega,
            show (enc.length / 11 * 8 + last.length) % 8 = last.length by omega, if_pos hpos, hbl,
            List.drop_left' hflat8, henc, hlastenc, List.take_append_drop]
      · -- no last block: the full blocks cover the whole string
        cases h
        have hq : 0 < enc.length / 11 := by
          have := List.length_pos_iff.mpr hne; omega
        have hbl : Radix.blocks 8 (enc.length / 11) full.flatten = full := by
          have := Radix.blocks_flatten full [] hfull8
          rwa [List.append_nil, hlenfull] at this
        rw [encode_eq _ (by rw [← List.length_pos_iff]; omega), hflat8,
          show enc.length / 11 * 8 / 8 = enc.length / 11 by omega,
          show enc.length / 11 * 8 % 8 = 0 by omega, if_neg (by omega), List.append_nil, hbl, henc,
          List.take_of_length_le (by omega)]

/-- The codec is a bijection between byte strings and the strings `decode` accepts. -/
theorem decode_eq_some_iff {enc data : List UInt8} : decode enc = some data ↔ encode data = enc := by
  constructor
  · exact encode_of_decode
  · rintro rfl
    exact decode_encode data

/-! ### Lengths -/

theorem length_encodeBlockLoop (num i : ℕ) (res : List UInt8) :
    (encodeBlockLoop num i res).length = res.length := by
  induction num using Nat.strong_induction_on generalizing i res with
  | _ num ih =>
    rw [encodeBlockLoop]
    split
    · rw [ih _ (by simp only [alphabetSize]; omega), List.length_set]
    · rfl

@[simp] theorem length_encodeBlock (block : List UInt8) :
    (encodeBlock block).length = encodedBlockSizes.getD block.length 0 := by
  simp [encodeBlock, length_encodeBlockLoop]

/-- Eleven letters for each full block of 8 bytes, and the table's count for the rest. -/
theorem length_encode (data : List UInt8) :
    (encode data).length = 11 * (data.length / 8) + encodedBlockSizes.getD (data.length % 8) 0 := by
  by_cases hne : data = []
  · subst hne
    rfl
  have hfull : ∀ b ∈ Radix.blocks 8 (data.length / 8) data, (encodeBlock b).length = 11 := by
    intro b hb
    rw [length_encodeBlock, Radix.length_of_mem_blocks (by omega) b hb]
    rfl
  rw [encode_eq _ hne, List.length_append, List.length_flatMap, List.map_congr_left hfull,
    List.map_const', Radix.length_blocks, List.sum_replicate_nat, Nat.mul_comm]
  split
  · rw [length_encodeBlock, List.length_drop, show data.length - data.length / 8 * 8 = data.length % 8 by omega]
  · rw [show data.length % 8 = 0 by omega]
    rfl

/-! ### Addresses -/

/-- `addr_checksum_size`. -/
def addrChecksumSize : ℕ := 4

/-- `tools::base58::encode_addr(tag, data)`: the varint of the tag, then the data, then the
first `addr_checksum_size` bytes of `cn_fast_hash` of the two, all in base 58. The hash is a
parameter: the 32 bytes of `crypto::hash`. -/
def encodeAddr (cnFastHash : List UInt8 → Vector UInt8 32) (tag : UInt64) (data : List UInt8) :
    List UInt8 :=
  let buf := writeVarint tag.toNat ++ data
  encode (buf ++ (cnFastHash buf).toList.take addrChecksumSize)

/-- `tools::base58::decode_addr(addr, tag, data)`: the tag and the data, or `none` where the
code returns `false`. -/
def decodeAddr (cnFastHash : List UInt8 → Vector UInt8 32) (addr : List UInt8) :
    Option (UInt64 × List UInt8) :=
  match decode addr with
  | none => none
  | some addrData =>
    if addrData.length ≤ addrChecksumSize then none
    else
      let checksum := addrData.drop (addrData.length - addrChecksumSize)
      let addrData := addrData.take (addrData.length - addrChecksumSize)
      if (cnFastHash addrData).toList.take addrChecksumSize ≠ checksum then none
      else
        let (read, tag) := readVarint 64 addrData
        if read ≤ 0 then none
        else some (UInt64.ofNat tag, addrData.drop read.toNat)

/-- The checked payload of an address, split back into what was hashed and the checksum. -/
theorem decodeAddr_of_decode {cnFastHash : List UInt8 → Vector UInt8 32} {addr buf : List UInt8}
    (hdec : decode addr = some (buf ++ (cnFastHash buf).toList.take addrChecksumSize)) :
    decodeAddr cnFastHash addr =
      if buf = [] then none
      else
        let (read, tag) := readVarint 64 buf
        if read ≤ 0 then none else some (UInt64.ofNat tag, buf.drop read.toNat) := by
  have hcs : ((cnFastHash buf).toList.take addrChecksumSize).length = addrChecksumSize := by
    simp [addrChecksumSize]
  have hsplit : (buf ++ (cnFastHash buf).toList.take addrChecksumSize).length - addrChecksumSize =
      buf.length := by
    rw [List.length_append, hcs, Nat.add_sub_cancel]
  unfold decodeAddr
  rw [hdec]
  dsimp only
  rw [hsplit, List.drop_left' rfl, List.take_left' rfl, List.length_append, hcs]
  by_cases hbuf : buf = []
  · rw [if_pos (by simp [hbuf]), if_pos hbuf]
  · rw [if_neg (by simpa [addrChecksumSize] using hbuf), if_neg hbuf, if_neg fun h => h rfl]

/-- **`decode_addr` reads back what `encode_addr` writes**, for every tag, every payload and
every hash. -/
theorem decodeAddr_encodeAddr (cnFastHash : List UInt8 → Vector UInt8 32) (tag : UInt64)
    (data : List UInt8) : decodeAddr cnFastHash (encodeAddr cnFastHash tag data) = some (tag, data) := by
  simp only [encodeAddr]
  rw [decodeAddr_of_decode (decode_encode _), if_neg (by simp [writeVarint_ne_nil]),
    readVarint_writeVarint_append 64 tag.toNat tag.toNat_lt data]
  dsimp only
  rw [if_neg (by have := writeVarint_ne_nil tag.toNat; simp [this]),
    Int.toNat_natCast, List.drop_left' rfl, UInt64.ofNat_toNat]

/-- **What `decode_addr` accepts.** The address is `encode_addr` of the tag and the data it
returns; or the data is empty and the hashed part is a run of continuation bytes, a varint cut
short by the checksum, which `read_varint` accepts. -/
theorem decodeAddr_eq_some {cnFastHash : List UInt8 → Vector UInt8 32} {addr : List UInt8}
    {tag : UInt64} {data : List UInt8} (h : decodeAddr cnFastHash addr = some (tag, data)) :
    encodeAddr cnFastHash tag data = addr ∨
      data = [] ∧ ∃ buf, buf ≠ [] ∧ (∀ b ∈ buf, 128 ≤ b.toNat) ∧
        readVarint 64 buf = ((buf.length : ℤ), tag.toNat) ∧
        encode (buf ++ (cnFastHash buf).toList.take addrChecksumSize) = addr := by
  unfold decodeAddr at h
  rcases hdec : decode addr with _ | addrData
  · rw [hdec] at h
    cases h
  rw [hdec] at h
  dsimp only at h
  have henc := encode_of_decode hdec
  -- the hashed part, followed by its checksum
  set buf := addrData.take (addrData.length - addrChecksumSize)
  obtain ⟨-, h⟩ := Option.ite_none_left_eq_some.mp h
  obtain ⟨hcs, h⟩ := Option.ite_none_left_eq_some.mp h
  have hsplit : addrData = buf ++ (cnFastHash buf).toList.take addrChecksumSize := by
    rw [not_not.mp hcs, List.take_append_drop]
  rcases hread : readVarint 64 buf with ⟨read, v⟩
  rw [hread] at h
  dsimp only at h
  obtain ⟨hpos, h⟩ := Option.ite_none_left_eq_some.mp h
  simp only [Option.some.injEq, Prod.mk.injEq] at h
  obtain ⟨rfl, rfl⟩ := h
  have hv : v < 2 ^ 64 := by simpa [hread] using readVarint_lt 64 buf
  have htag : (UInt64.ofNat v).toNat = v := by rw [UInt64.toNat_ofNat', Nat.mod_eq_of_lt hv]
  rcases readVarint_canonical_or_truncated 64 buf read v hread (by omega) with hw | ⟨hn, hcont⟩
  · -- the varint is the writer's: the address is written back as it was read
    left
    have hbuf : writeVarint v ++ buf.drop read.toNat = buf := by rw [hw, List.take_append_drop]
    simp only [encodeAddr]
    rw [htag, hbuf, ← hsplit, henc]
  · -- the varint runs into the checksum
    right
    refine ⟨by rw [hn, List.drop_length], buf, ?_, hcont, ?_, by rw [← hsplit, henc]⟩
    · rw [← List.length_pos_iff]
      omega
    · rw [hread, htag, ← hn, Int.toNat_of_nonneg (by omega)]

/-- **The address codec.** For every hash, `decode_addr` reads back what `encode_addr` writes,
and whatever it accepts is `encode_addr` of its result, or else a varint cut short by the
checksum, with no data. The second case does happen: the payload `0x81` with its checksum reads
as the tag 1 with no data, though `encode_addr(1, "")` is another string. -/
theorem decodeAddr_encodeAddr_and_accepted_forms (cnFastHash : List UInt8 → Vector UInt8 32) :
    (∀ tag data, decodeAddr cnFastHash (encodeAddr cnFastHash tag data) = some (tag, data)) ∧
    (∀ addr tag data, decodeAddr cnFastHash addr = some (tag, data) →
      encodeAddr cnFastHash tag data = addr ∨
        data = [] ∧ ∃ buf, buf ≠ [] ∧ (∀ b ∈ buf, 128 ≤ b.toNat) ∧
          readVarint 64 buf = ((buf.length : ℤ), tag.toNat) ∧
          encode (buf ++ (cnFastHash buf).toList.take addrChecksumSize) = addr) ∧
    decodeAddr cnFastHash (encode ([0x81] ++ (cnFastHash [0x81]).toList.take addrChecksumSize)) =
        some (1, []) ∧
      encodeAddr cnFastHash 1 [] ≠ encode ([0x81] ++ (cnFastHash [0x81]).toList.take addrChecksumSize) := by
  refine ⟨decodeAddr_encodeAddr cnFastHash, fun _ _ _ => decodeAddr_eq_some, ?_, ?_⟩
  · have hread : readVarint 64 [0x81] = (1, 1) := by decide
    rw [decodeAddr_of_decode (decode_encode _), if_neg (by simp), hread]
    rfl
  · -- base 58 is injective, and the two payloads differ in their first byte
    intro h
    have hdec := congrArg decode h
    simp only [encodeAddr, decode_encode, Option.some.injEq] at hdec
    rw [writeVarint_of_lt (by decide)] at hdec
    simp at hdec

end Arqma.Common.Base58
