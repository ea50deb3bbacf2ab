import Mathlib.Data.Nat.Bitwise
import Mathlib.Tactic.Ring

/-!
# Varints

`tools::write_varint` and `tools::read_varint` (`src/common/varint.h`), the
base-128 little-endian integer encoding under every consensus blob: seven
bits of the value per byte, least significant group first, and the high bit
`0x80` set on every byte that has a successor.

`read_varint<bits>` reads into an unsigned integer of `bits` bits. It stops
with `EVARINT_OVERFLOW` when a byte would carry bits at or above `bits`, with
`EVARINT_REPRESENT` on a zero byte after the first one, and otherwise returns
the number of bytes read, leaving the value in its out-parameter. When the
input ends before a byte without the high bit, it returns the bytes read so
far: a varint cut short at the end of the input is accepted.

## The model

Bytes are `UInt8`, the value is a natural number below `2 ^ bits` (the code's
unsigned `T`), and the shifted group is reduced modulo `2 ^ bits` as the
assignment to `T` does. `readVarint bits s` returns the pair of the return
code and the final value of `write`.

Results:
* `readVarint_writeVarint_append`: for every width, every value that fits
  and any trailing bytes, the reader decodes the writer's output, reporting
  exactly its length.
* `readVarint_canonical_or_truncated`: whatever the reader accepts either is
  the writer's encoding of the value read, or is a run of continuation bytes
  reaching the end of the input.
-/

namespace Arqma.Common.Varint

/-! ### Bytes -/

theorem and_0x7f_toNat (b : UInt8) : (b &&& 0x7f).toNat = b.toNat % 128 := by
  rw [UInt8.toNat_and]
  exact Nat.and_two_pow_sub_one_eq_mod b.toNat 7

theorem or_0x80_toNat (b : UInt8) : ((b &&& 0x7f) ||| 0x80).toNat = b.toNat % 128 + 128 := by
  rw [UInt8.toNat_or, and_0x7f_toNat]
  exact Nat.or_two_pow_eq_add_of_lt (n := 7) (Nat.mod_lt _ (by decide))

theorem and_128_eq_zero_iff {x : ℕ} (hx : x < 256) : x &&& 128 = 0 ↔ x < 128 := by
  constructor
  · intro h
    by_contra hc
    have h7 : x.testBit 7 = true := by
      rw [Nat.testBit_eq_decide_div_mod_eq]; simp; omega
    have : (x &&& 128).testBit 7 = true := by
      rw [Nat.testBit_and, h7]; decide
    rw [h] at this; simp at this
  · intro h
    apply Nat.eq_of_testBit_eq
    intro j
    rw [Nat.testBit_and, Nat.zero_testBit]
    by_cases hj : j = 7
    · subst hj; rw [Nat.testBit_lt_two_pow (by simpa using h)]; rfl
    · rw [show (128 : ℕ) = 2 ^ 7 from rfl, Nat.testBit_two_pow]; simp [Ne.symm hj]

/-- The test `(byte & 0x80) == 0`: the byte has no successor. -/
theorem and_0x80_eq_zero_iff (b : UInt8) : b &&& 0x80 = 0 ↔ b.toNat < 128 := by
  rw [← UInt8.toNat_inj, UInt8.toNat_and]
  exact and_128_eq_zero_iff b.toNat_lt

/-! ### The writer -/

/-- `tools::write_varint`: while `i >= 0x80`, emit `(i & 0x7f) | 0x80` and shift
`i` right by seven; then emit the rest. -/
def writeVarint (i : ℕ) : List UInt8 :=
  if 0x80 ≤ i then ((UInt8.ofNat i &&& 0x7f) ||| 0x80) :: writeVarint (i >>> 7)
  else [UInt8.ofNat i]
termination_by i
decreasing_by rw [Nat.shiftRight_eq_div_pow]; omega

theorem writeVarint_of_lt {i : ℕ} (h : i < 128) : writeVarint i = [UInt8.ofNat i] := by
  rw [writeVarint, if_neg (by omega)]

theorem writeVarint_of_le {i : ℕ} (h : 128 ≤ i) :
    writeVarint i = UInt8.ofNat (i % 128 + 128) :: writeVarint (i / 128) := by
  rw [writeVarint, if_pos h, Nat.shiftRight_eq_div_pow]
  congr 1
  apply UInt8.toNat_inj.mp
  rw [or_0x80_toNat, UInt8.toNat_ofNat', UInt8.toNat_ofNat']
  omega

theorem writeVarint_ne_nil (i : ℕ) : writeVarint i ≠ [] := by
  rw [writeVarint]; split <;> simp

/-- A value below `128 ^ (n + 1)` takes at most `n + 1` bytes. -/
theorem length_writeVarint_le : ∀ (n x : ℕ), x < 128 ^ (n + 1) → (writeVarint x).length ≤ n + 1 := by
  intro n
  induction n with
  | zero =>
    intro x hx
    rw [writeVarint_of_lt (by simpa using hx)]
    rfl
  | succ n ih =>
    intro x hx
    by_cases h : x < 128
    · rw [writeVarint_of_lt h]
      simp
    · have hrest : x / 128 < 128 ^ (n + 1) := by
        rw [Nat.div_lt_iff_lt_mul (by decide), ← Nat.pow_succ]
        exact hx
      rw [writeVarint_of_le (by omega), List.length_cons]
      have := ih (x / 128) hrest
      omega

/-! ### The reader -/

/-- `EVARINT_OVERFLOW`: the value does not fit in `bits` bits. -/
def evarintOverflow : ℤ := -1

/-- `EVARINT_REPRESENT`: a zero byte after the first one, a non-canonical form. -/
def evarintRepresent : ℤ := -2

/-- The loop of `read_varint<bits>` from `shift`, with `read` bytes read and `write`
accumulated so far: the return code and the final `write`. -/
def readVarintLoop (bits : ℕ) (shift read write : ℕ) : List UInt8 → ℤ × ℕ
  | [] => (read, write)
  | byte :: rest =>
    if shift + 7 ≥ bits ∧ 2 ^ (bits - shift) ≤ byte.toNat then (evarintOverflow, write)
    else if byte = 0 ∧ shift ≠ 0 then (evarintRepresent, write)
    else
      let write := write ||| ((byte &&& 0x7f).toNat <<< shift) % 2 ^ bits
      if byte &&& 0x80 = 0 then (read + 1, write)
      else readVarintLoop bits (shift + 7) (read + 1) write rest

/-- `tools::read_varint<bits>` over the bytes `s`: the return code (bytes read, or a
negative error) and the value left in `write`. -/
def readVarint (bits : ℕ) (s : List UInt8) : ℤ × ℕ := readVarintLoop bits 0 0 0 s

/-- A value whose shifted form fits in `b` bits has at most `b - s` bits. -/
theorem lt_two_pow_sub_of_mul_lt {r s b : ℕ} (h : r * 2 ^ s < 2 ^ b) : r < 2 ^ (b - s) := by
  by_cases hsb : s ≤ b
  · have e : 2 ^ b = 2 ^ (b - s) * 2 ^ s := by rw [← Nat.pow_add, Nat.sub_add_cancel hsb]
    rw [e] at h
    exact Nat.lt_of_mul_lt_mul_right h
  · have : 2 ^ b < 2 ^ s := Nat.pow_lt_pow_right (by decide) (by omega)
    have : r = 0 := by
      by_contra hr
      have : 2 ^ s ≤ r * 2 ^ s := Nat.le_mul_of_pos_left _ (by omega)
      omega
    rw [this]
    exact Nat.two_pow_pos _

/-- Placing a group above the bits already read adds it. -/
theorem or_shiftLeft_mod_eq_add {acc x shift bits : ℕ} (ha : acc < 2 ^ shift)
    (hx : x * 2 ^ shift < 2 ^ bits) : acc ||| (x <<< shift) % 2 ^ bits = acc + x * 2 ^ shift := by
  rw [Nat.mod_eq_of_lt (by rwa [Nat.shiftLeft_eq]), Nat.or_comm,
    ← Nat.shiftLeft_add_eq_or_of_lt ha, Nat.shiftLeft_eq]
  omega

/-! ### Reading what was written -/

/-- The loop reads the encoding of the remaining value `r` at `shift`: the bits read so
far are below `shift`, the whole value fits, and a group after the first is not zero. -/
theorem readVarintLoop_writeVarint (bits : ℕ) (rest : List UInt8) :
    ∀ r shift read acc, acc < 2 ^ shift → acc + r * 2 ^ shift < 2 ^ bits →
      (shift ≠ 0 → r ≠ 0) →
      readVarintLoop bits shift read acc (writeVarint r ++ rest) =
        (((read + (writeVarint r).length : ℕ) : ℤ), acc + r * 2 ^ shift) := by
  intro r
  induction r using Nat.strong_induction_on with
  | _ r ih =>
  intro shift read acc ha hfit hz
  have hr : r < 2 ^ (bits - shift) := lt_two_pow_sub_of_mul_lt (by omega)
  by_cases hlt : r < 128
  · -- the last byte: `r` itself, without the high bit
    have hb : (UInt8.ofNat r).toNat = r := by rw [UInt8.toNat_ofNat']; omega
    rw [writeVarint_of_lt hlt, List.singleton_append, readVarintLoop,
      if_neg (by rw [hb]; omega), if_neg (by
        rintro ⟨h0, hs⟩
        exact hz hs (by simpa [hb] using congrArg UInt8.toNat h0)),
      if_pos ((and_0x80_eq_zero_iff _).mpr (by omega)), and_0x7f_toNat, hb,
      Nat.mod_eq_of_lt hlt, or_shiftLeft_mod_eq_add ha (by omega)]
    simp
  · -- a continuation byte carrying `r % 128`; the rest is `r / 128` at `shift + 7`
    have hb : (UInt8.ofNat (r % 128 + 128)).toNat = r % 128 + 128 := by
      rw [UInt8.toNat_ofNat']; omega
    have hshift : shift + 7 < bits := by
      by_contra hc
      have : 2 ^ (bits - shift) ≤ 2 ^ 7 := Nat.pow_le_pow_right (by decide) (by omega)
      omega
    have hsplit : r % 128 * 2 ^ shift + r / 128 * 2 ^ (shift + 7) = r * 2 ^ shift := by
      conv_rhs => rw [← Nat.mod_add_div r 128]
      ring
    have hpow : 2 ^ (shift + 7) ≤ 2 ^ bits := Nat.pow_le_pow_right (by decide) (by omega)
    have hacc : acc + r % 128 * 2 ^ shift < 2 ^ (shift + 7) := by
      rw [Nat.pow_add]
      have : r % 128 * 2 ^ shift ≤ 127 * 2 ^ shift := Nat.mul_le_mul_right _ (by omega)
      omega
    rw [writeVarint_of_le (by omega), List.cons_append, readVarintLoop,
      if_neg (by omega), if_neg (by
        rintro ⟨h0, -⟩
        have := congrArg UInt8.toNat h0
        rw [hb] at this
        simp at this),
      if_neg (by rw [and_0x80_eq_zero_iff]; omega), and_0x7f_toNat, hb,
      show (r % 128 + 128) % 128 = r % 128 by omega, or_shiftLeft_mod_eq_add ha (by omega)]
    rw [ih (r / 128) (by omega) (shift + 7) (read + 1) _ hacc (by omega) (by omega)]
    simp only [List.length_cons, Prod.mk.injEq]
    constructor <;> omega

/-- **Round trip.** For every width `bits` and every value `x` that fits, `read_varint`
over the bytes of `write_varint(x)`, followed by anything, returns the number of bytes
written and the value `x`. -/
theorem readVarint_writeVarint_append (bits x : ℕ) (hx : x < 2 ^ bits) (rest : List UInt8) :
    readVarint bits (writeVarint x ++ rest) = (((writeVarint x).length : ℤ), x) := by
  have := readVarintLoop_writeVarint bits rest x 0 0 0 (by simp) (by simpa using hx) (by simp)
  simpa [readVarint] using this

/-! ### What the reader accepts -/

/-- A byte that passed the overflow check contributes its low seven bits without
leaving the `bits`-bit value. -/
theorem group_fits {bits shift : ℕ} {b : UInt8} (h : ¬(shift + 7 ≥ bits ∧ 2 ^ (bits - shift) ≤ b.toNat)) :
    b.toNat % 128 * 2 ^ shift < 2 ^ bits := by
  by_cases hs : shift + 7 < bits
  · have : 2 ^ (shift + 7) ≤ 2 ^ bits := Nat.pow_le_pow_right (by decide) (by omega)
    have : b.toNat % 128 * 2 ^ shift < 2 ^ (shift + 7) := by
      rw [Nat.pow_add, Nat.mul_comm (2 ^ shift)]
      exact Nat.mul_lt_mul_of_pos_right (by omega) (Nat.two_pow_pos _)
    omega
  · have hb : b.toNat < 2 ^ (bits - shift) := by omega
    by_cases hsb : shift ≤ bits
    · have e : 2 ^ bits = 2 ^ (bits - shift) * 2 ^ shift := by rw [← Nat.pow_add, Nat.sub_add_cancel hsb]
      rw [e]
      exact Nat.mul_lt_mul_of_pos_right (by omega) (Nat.two_pow_pos _)
    · rw [show bits - shift = 0 by omega] at hb
      simp at hb
      simp [hb]

/-- What one run of the loop accepts: a prefix `p` of the input, which is either the
writer's encoding of the groups it carries (not starting with a zero group after the
first byte), or a run of continuation bytes that reaches the end of the input. -/
theorem readVarintLoop_accepts (bits : ℕ) : ∀ (s : List UInt8) (shift read acc : ℕ) (n : ℤ) (v : ℕ),
    acc < 2 ^ shift → readVarintLoop bits shift read acc s = (n, v) → 0 ≤ n →
    ∃ p rest r, s = p ++ rest ∧ n = ((read + p.length : ℕ) : ℤ) ∧ v = acc + r * 2 ^ shift ∧
      ((writeVarint r = p ∧ (shift ≠ 0 → r ≠ 0)) ∨ (rest = [] ∧ ∀ b ∈ p, 128 ≤ b.toNat)) := by
  intro s
  induction s with
  | nil =>
    intro shift read acc n v _ h _
    simp only [readVarintLoop, Prod.mk.injEq] at h
    obtain ⟨rfl, rfl⟩ := h
    exact ⟨[], [], 0, rfl, by simp, by simp, .inr ⟨rfl, by simp⟩⟩
  | cons byte rest ih =>
    intro shift read acc n v ha h hn
    rw [readVarintLoop] at h
    split at h
    · -- `EVARINT_OVERFLOW`
      simp only [Prod.mk.injEq] at h; rw [← h.1] at hn; simp [evarintOverflow] at hn
    split at h
    · -- `EVARINT_REPRESENT`
      simp only [Prod.mk.injEq] at h; rw [← h.1] at hn; simp [evarintRepresent] at hn
    next hover hrep =>
    rw [and_0x7f_toNat, or_shiftLeft_mod_eq_add ha (group_fits hover)] at h
    have hbyte := byte.toNat_lt
    split at h
    · -- a byte without the high bit ends the varint
      next hlast =>
      rw [and_0x80_eq_zero_iff] at hlast
      simp only [Prod.mk.injEq] at h
      obtain ⟨rfl, rfl⟩ := h
      refine ⟨[byte], rest, byte.toNat, rfl, by simp, by rw [Nat.mod_eq_of_lt hlast], .inl ⟨?_, ?_⟩⟩
      · rw [writeVarint_of_lt hlast, UInt8.ofNat_toNat]
      · intro hs h0
        exact hrep ⟨UInt8.toNat_inj.mp (by simpa using h0), hs⟩
    · -- a continuation byte: the rest is read at `shift + 7`
      next hcont =>
      rw [and_0x80_eq_zero_iff] at hcont
      have hacc : acc + byte.toNat % 128 * 2 ^ shift < 2 ^ (shift + 7) := by
        have : byte.toNat % 128 * 2 ^ shift ≤ 127 * 2 ^ shift := Nat.mul_le_mul_right _ (by omega)
        rw [Nat.pow_add]
        omega
      obtain ⟨p, rest', r, rfl, hn', hv, hcase⟩ := ih (shift + 7) (read + 1) _ n v hacc h hn
      refine ⟨byte :: p, rest', byte.toNat % 128 + 128 * r, rfl, by rw [hn']; simp; omega, ?_, ?_⟩
      · rw [hv, Nat.pow_add]; ring
      · rcases hcase with ⟨hw, hr⟩ | ⟨hrest, hp⟩
        · left
          have hr0 : r ≠ 0 := hr (by omega)
          refine ⟨?_, fun _ => by omega⟩
          rw [writeVarint_of_le (by omega), show (byte.toNat % 128 + 128 * r) / 128 = r by omega,
            hw, show (byte.toNat % 128 + 128 * r) % 128 + 128 = byte.toNat by omega, UInt8.ofNat_toNat]
        · right
          refine ⟨hrest, ?_⟩
          intro b hb
          rcases List.mem_cons.mp hb with rfl | hb
          · omega
          · exact hp b hb

/-- Whatever `read_varint` accepts, the `n > 0` bytes it reports either are
`write_varint` of the value it returns, or are the whole input, all of them
continuation bytes: a varint cut short at the end of the input. -/
theorem readVarint_canonical_or_truncated (bits : ℕ) (s : List UInt8) (n : ℤ) (v : ℕ)
    (h : readVarint bits s = (n, v)) (hn : 0 < n) :
    writeVarint v = s.take n.toNat ∨ (n.toNat = s.length ∧ ∀ b ∈ s, 128 ≤ b.toNat) := by
  obtain ⟨p, rest, r, rfl, rfl, hv, hcase⟩ :=
    readVarintLoop_accepts bits s 0 0 0 n v (by simp) h (by omega)
  simp only [pow_zero, Nat.mul_one, Nat.zero_add] at hv
  subst hv
  rcases hcase with ⟨hw, -⟩ | ⟨rfl, hp⟩
  · left
    simp [hw]
  · right
    simpa using hp

/-- The value the loop leaves in `write` stays a `bits`-bit number, as the code's `T` does. -/
theorem readVarintLoop_lt (bits : ℕ) : ∀ (s : List UInt8) (shift read write : ℕ),
    write < 2 ^ bits → (readVarintLoop bits shift read write s).2 < 2 ^ bits := by
  intro s
  induction s with
  | nil =>
    intro shift read write hw
    exact hw
  | cons byte rest ih =>
    intro shift read write hw
    have hor : write ||| ((byte &&& 0x7f).toNat <<< shift) % 2 ^ bits < 2 ^ bits :=
      Nat.or_lt_two_pow hw (Nat.mod_lt _ (Nat.two_pow_pos _))
    rw [readVarintLoop]
    split
    · exact hw
    split
    · exact hw
    split
    · exact hor
    · exact ih _ _ _ hor

theorem readVarint_lt (bits : ℕ) (s : List UInt8) : (readVarint bits s).2 < 2 ^ bits :=
  readVarintLoop_lt bits s 0 0 0 (Nat.two_pow_pos _)

/-! ### The codec as a whole -/

/-- **The varint codec, as the code has it.** For every width and every value that
fits, reading the written bytes, followed by any bytes, returns their number and the
value; and every input
the reader accepts with `n > 0` bytes either is the writer's encoding of the value
read, or is a run of continuation bytes cut short by the end of the input. -/
theorem varint_round_trip_and_accepted_forms :
    (∀ bits x, x < 2 ^ bits → ∀ rest : List UInt8,
      readVarint bits (writeVarint x ++ rest) = (((writeVarint x).length : ℤ), x)) ∧
    (∀ bits s n v, readVarint bits s = (n, v) → 0 < n →
      writeVarint v = s.take n.toNat ∨ (n.toNat = s.length ∧ ∀ b ∈ s, 128 ≤ b.toNat)) :=
  ⟨fun bits x hx rest => readVarint_writeVarint_append bits x hx rest, readVarint_canonical_or_truncated⟩

/-- A lone continuation byte `0x81` is accepted as the value `1`, one byte read,
though `write_varint(1)` is the single byte `0x01`. -/
theorem readVarint_lone_continuation_byte :
    ¬ ∀ s n v, readVarint 64 s = (n, v) → 0 < n → writeVarint v = s.take n.toNat := by
  intro h
  have := h [0x81] 1 1 (by decide) (by decide)
  rw [writeVarint_of_lt (by decide)] at this
  simp at this

end Arqma.Common.Varint
