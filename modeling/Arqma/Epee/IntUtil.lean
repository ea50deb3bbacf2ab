import Mathlib.Data.Nat.Bitwise
import Mathlib.Tactic.Ring

/-!
# 128-bit helpers of `int-util.h`

`mul128`, `div128_64` and `div128_32` (`src/contrib/epee/include/int-util.h`),
the portable 128-bit arithmetic behind stake portions, reward splits, block
rewards and base58 digits.

## The model

A `uint64_t` is a natural number below `2 ^ 64`; every operation the code
does on one is reduced modulo `2 ^ 64` here, and a comparison of a sum with
an addend detects the carry exactly as in the code. `mul128` returns the
pair `(product_lo, product_hi)`; `div128_64` and `div128_32` return
`(quotient_hi, quotient_lo, remainder)`.

Results:
* `mul128_spec`: `mul128` is the exact 128-bit product, split into its low and
  high words.
* `div128_64_spec`: the 128-step shift-and-subtract loop of `div128_64` yields
  the exact quotient and remainder for every non-zero divisor.
-/

namespace Arqma.Epee.IntUtil

/-- `hi_dword`. -/
def hiDword (val : ℕ) : ℕ := val >>> 32

/-- `lo_dword`. -/
def loDword (val : ℕ) : ℕ := val &&& 0xFFFFFFFF

theorem hiDword_eq (val : ℕ) : hiDword val = val / 2 ^ 32 := Nat.shiftRight_eq_div_pow val 32

theorem loDword_eq (val : ℕ) : loDword val = val % 2 ^ 32 := Nat.and_two_pow_sub_one_eq_mod val 32

/-- `mul128(multiplier, multiplicand, &product_hi)`: four 32×32-bit partial
products, the middle two summed with their carry, the low word with its carry. -/
def mul128 (multiplier multiplicand : ℕ) : ℕ × ℕ :=
  let a := hiDword multiplier
  let b := loDword multiplier
  let c := hiDword multiplicand
  let d := loDword multiplicand
  let ac := a * c % 2 ^ 64
  let ad := a * d % 2 ^ 64
  let bc := b * c % 2 ^ 64
  let bd := b * d % 2 ^ 64
  let adbc := (ad + bc) % 2 ^ 64
  let adbcCarry := if adbc < ad then 1 else 0
  let productLo := (bd + (adbc <<< 32) % 2 ^ 64) % 2 ^ 64
  let productLoCarry := if productLo < bd then 1 else 0
  (productLo, (ac + (adbc >>> 32) + (adbcCarry <<< 32) % 2 ^ 64 + productLoCarry) % 2 ^ 64)

/-- **`mul128` multiplies.** For 64-bit operands the low word is the product modulo
`2 ^ 64` and the high word the rest: no bit is lost in the partial products. -/
theorem mul128_spec {x y : ℕ} (hx : x < 2 ^ 64) (hy : y < 2 ^ 64) :
    mul128 x y = (x * y % 2 ^ 64, x * y / 2 ^ 64) := by
  simp only [mul128, hiDword_eq, loDword_eq, Nat.shiftLeft_eq, Nat.shiftRight_eq_div_pow]
  -- name the four partial products; everything after them is linear
  obtain ⟨a, ha⟩ : ∃ a, a = x / 2 ^ 32 := ⟨_, rfl⟩
  obtain ⟨b, hb⟩ : ∃ b, b = x % 2 ^ 32 := ⟨_, rfl⟩
  obtain ⟨c, hc⟩ : ∃ c, c = y / 2 ^ 32 := ⟨_, rfl⟩
  obtain ⟨d, hd⟩ : ∃ d, d = y % 2 ^ 32 := ⟨_, rfl⟩
  rw [← ha, ← hb, ← hc, ← hd]
  have ha' : a < 2 ^ 32 := by omega
  have hb' : b < 2 ^ 32 := by omega
  have hc' : c < 2 ^ 32 := by omega
  have hd' : d < 2 ^ 32 := by omega
  have hxy : x * y = a * c * 2 ^ 64 + (a * d + b * c) * 2 ^ 32 + b * d := by
    have hx' : x = a * 2 ^ 32 + b := by omega
    have hy' : y = c * 2 ^ 32 + d := by omega
    rw [hx', hy']; ring
  have hbound : ∀ u v : ℕ, u < 2 ^ 32 → v < 2 ^ 32 → u * v ≤ (2 ^ 32 - 1) * (2 ^ 32 - 1) :=
    fun u v hu hv => Nat.mul_le_mul (by omega) (by omega)
  have h1 := hbound a c ha' hc'
  have h2 := hbound a d ha' hd'
  have h3 := hbound b c hb' hc'
  have h4 := hbound b d hb' hd'
  rw [hxy]
  generalize a * c = ac at *
  generalize a * d = ad at *
  generalize b * c = bc at *
  generalize b * d = bd at *
  have hlt : (2 ^ 32 - 1) * (2 ^ 32 - 1) < 2 ^ 64 := by decide
  rw [Nat.mod_eq_of_lt (show ac < 2 ^ 64 by omega), Nat.mod_eq_of_lt (show ad < 2 ^ 64 by omega),
    Nat.mod_eq_of_lt (show bc < 2 ^ 64 by omega), Nat.mod_eq_of_lt (show bd < 2 ^ 64 by omega)]
  simp only [Prod.mk.injEq]
  constructor
  · omega
  · split_ifs <;> omega

/-! ### Long division -/

/-- `shl128(&hi, &lo)`: shift the 128-bit pair left by one bit; returns the bit
shifted out of `hi` and the new pair. -/
def shl128 (hi lo : ℕ) : Bool × ℕ × ℕ :=
  (hi >>> 63 ≠ 0, ((hi <<< 1) % 2 ^ 64 + (lo >>> 63)) % 2 ^ 64, (lo <<< 1) % 2 ^ 64)

/-- One iteration of the loop of `div128_64` on `(dividend_hi, dividend_lo, remainder)`:
shift the remainder and the dividend left together, and subtract the divisor when
the remainder reaches it, setting the quotient bit that the shift freed. -/
def div128_64Step (divisor : ℕ) (st : ℕ × ℕ × ℕ) : ℕ × ℕ × ℕ :=
  let carry := st.2.2 >>> 63 ≠ 0
  let remainder := (st.2.2 <<< 1) % 2 ^ 64
  let shifted := shl128 st.1 st.2.1
  let remainder := if shifted.1 then remainder ||| 1 else remainder
  if carry ∨ remainder ≥ divisor then
    (shifted.2.1, shifted.2.2 ||| 1, (remainder + 2 ^ 64 - divisor) % 2 ^ 64)
  else (shifted.2.1, shifted.2.2, remainder)

/-- `div128_64(dividend_hi, dividend_lo, divisor, &quotient_hi, &quotient_lo)`:
`(quotient_hi, quotient_lo, remainder)` after the 128 iterations. -/
def div128_64 (dividendHi dividendLo divisor : ℕ) : ℕ × ℕ × ℕ :=
  (div128_64Step divisor)^[128] (dividendHi, dividendLo, 0)

theorem shl128_spec {hi lo : ℕ} (hh : hi < 2 ^ 64) (hl : lo < 2 ^ 64) :
    shl128 hi lo = (decide (2 ^ 127 ≤ hi * 2 ^ 64 + lo),
      2 * (hi * 2 ^ 64 + lo) % 2 ^ 128 / 2 ^ 64, 2 * (hi * 2 ^ 64 + lo) % 2 ^ 128 % 2 ^ 64) := by
  simp only [shl128, Nat.shiftRight_eq_div_pow, Nat.shiftLeft_eq, Prod.mk.injEq]
  refine ⟨?_, by omega, by omega⟩
  by_cases h : 2 ^ 127 ≤ hi * 2 ^ 64 + lo
  · simp only [h, decide_true, decide_eq_true_eq]; omega
  · simp only [h, decide_false, decide_eq_false_iff_not, not_not]; omega

theorem shiftLeft_one_eq (x : ℕ) : x <<< 1 = 2 * x := by
  rw [Nat.shiftLeft_eq, Nat.pow_one, Nat.mul_comm]

/-- Setting the low bit of an even number adds one. -/
theorem or_one_of_even {x : ℕ} (h : x % 2 = 0) : x ||| 1 = x + 1 := by
  have := Nat.two_pow_add_eq_or_of_lt (i := 1) (b := 1) (by decide) (x / 2)
  rw [show 2 ^ 1 * (x / 2) = x by omega] at this
  exact this.symm

/-- The remainder half of an iteration: the doubled remainder with the next dividend
bit brought in; a remainder that overflowed 64 bits is always past the divisor, and the
unsigned subtraction then lands on the true difference. -/
theorem doubled_remainder {divisor R b : ℕ} (hd : divisor < 2 ^ 64) (hR : R < divisor)
    (hb : b ≤ 1) :
    ((R / 2 ^ 63 ≠ 0 ∨ 2 * R % 2 ^ 64 + b ≥ divisor) ↔ divisor ≤ 2 * R + b) ∧
      (divisor ≤ 2 * R + b →
        (2 * R % 2 ^ 64 + b + 2 ^ 64 - divisor) % 2 ^ 64 = 2 * R + b - divisor) ∧
      (¬divisor ≤ 2 * R + b → 2 * R % 2 ^ 64 + b = 2 * R + b) := by
  refine ⟨⟨?_, fun h => ?_⟩, fun h => by omega, fun h => by omega⟩
  · rintro (h | h) <;> omega
  · by_cases h' : R / 2 ^ 63 = 0
    · exact .inr (by omega)
    · exact .inl h'

/-- The register half of an iteration: the doubled register is even, so setting the
quotient bit touches only its low word. -/
theorem doubled_register (reg : ℕ) :
    (2 * reg % 2 ^ 128 + 1) / 2 ^ 64 = 2 * reg % 2 ^ 128 / 2 ^ 64 ∧
      (2 * reg % 2 ^ 128 + 1) % 2 ^ 64 = 2 * reg % 2 ^ 128 % 2 ^ 64 + 1 := by
  constructor <;> omega

/-- One iteration in numbers: the 128-bit register `reg` is doubled, its top bit
enters the doubled remainder, and the divisor is subtracted when reached, the quotient
bit being set in the freed low bit. -/
theorem div128_64Step_spec {divisor H L R : ℕ} (hd : divisor < 2 ^ 64) (hH : H < 2 ^ 64)
    (hL : L < 2 ^ 64) (hR : R < divisor) :
    div128_64Step divisor (H, L, R) =
      if divisor ≤ 2 * R + (H * 2 ^ 64 + L) / 2 ^ 127 then
        ((2 * (H * 2 ^ 64 + L) % 2 ^ 128 + 1) / 2 ^ 64, (2 * (H * 2 ^ 64 + L) % 2 ^ 128 + 1) % 2 ^ 64,
          2 * R + (H * 2 ^ 64 + L) / 2 ^ 127 - divisor)
      else (2 * (H * 2 ^ 64 + L) % 2 ^ 128 / 2 ^ 64, 2 * (H * 2 ^ 64 + L) % 2 ^ 128 % 2 ^ 64,
        2 * R + (H * 2 ^ 64 + L) / 2 ^ 127) := by
  have hlo : 2 * (H * 2 ^ 64 + L) % 2 ^ 128 % 2 ^ 64 % 2 = 0 := by omega
  have hrem : 2 * R % 2 ^ 64 % 2 = 0 := by omega
  -- the bit shifted out of the register is the one that enters the remainder
  have hin : (if decide (2 ^ 127 ≤ H * 2 ^ 64 + L) = true then 2 * R % 2 ^ 64 ||| 1
      else 2 * R % 2 ^ 64) = 2 * R % 2 ^ 64 + (H * 2 ^ 64 + L) / 2 ^ 127 := by
    rw [or_one_of_even hrem]
    split_ifs with h
    · simp only [decide_eq_true_eq] at h; omega
    · simp only [decide_eq_true_eq] at h; omega
  obtain ⟨hcond, hsub, hkeep⟩ :=
    doubled_remainder (b := (H * 2 ^ 64 + L) / 2 ^ 127) hd hR (by omega)
  obtain ⟨hdiv, hmod⟩ := doubled_register (H * 2 ^ 64 + L)
  simp only [div128_64Step, shl128_spec hH hL, Nat.shiftRight_eq_div_pow, shiftLeft_one_eq,
    or_one_of_even hlo, hin, hcond]
  split_ifs with h
  · rw [hsub h, hdiv, hmod]
  · rw [hkeep h]

/-- Dividing `2 * t + bit` from the quotient and remainder of `t`: the remainder is
doubled, and the divisor is taken off once when reached. -/
theorem div_mod_double {t divisor bit : ℕ} (hd : 0 < divisor) (hbit : bit ≤ 1) :
    (divisor ≤ 2 * (t % divisor) + bit →
      (2 * t + bit) / divisor = 2 * (t / divisor) + 1 ∧
        (2 * t + bit) % divisor = 2 * (t % divisor) + bit - divisor) ∧
    (¬divisor ≤ 2 * (t % divisor) + bit →
      (2 * t + bit) / divisor = 2 * (t / divisor) ∧ (2 * t + bit) % divisor = 2 * (t % divisor) + bit) := by
  have ht := Nat.mod_add_div t divisor
  have hr := Nat.mod_lt t hd
  have e : divisor * (2 * (t / divisor) + 1) = 2 * (divisor * (t / divisor)) + divisor := by ring
  have e' : divisor * (2 * (t / divisor)) = 2 * (divisor * (t / divisor)) := by ring
  refine ⟨fun h => (Nat.div_mod_unique hd).mpr ⟨?_, ?_⟩, fun h => (Nat.div_mod_unique hd).mpr ⟨?_, ?_⟩⟩
  · rw [e]; omega
  · omega
  · rw [e']; omega
  · omega

/-- What holds after `k` iterations: the dividend splits into its top bits `t`,
already divided, and the `128 - k` bits `u` still to come; the register holds `u`
above the quotient bits of `t`, and the remainder is that of `t`. -/
def Div128Inv (dividend divisor k : ℕ) (st : ℕ × ℕ × ℕ) : Prop :=
  ∃ t u, dividend = t * 2 ^ (128 - k) + u ∧ u < 2 ^ (128 - k) ∧ st.1 < 2 ^ 64 ∧ st.2.1 < 2 ^ 64 ∧
    st.1 * 2 ^ 64 + st.2.1 = u * 2 ^ k + t / divisor ∧ st.2.2 = t % divisor

/-- One iteration moves the next dividend bit from `u` to `t`. -/
theorem Div128Inv.step {dividend divisor k : ℕ} {st : ℕ × ℕ × ℕ} (hk : k < 128) (hd : 0 < divisor)
    (hd' : divisor < 2 ^ 64) (hD : dividend < 2 ^ 128) (h : Div128Inv dividend divisor k st) :
    Div128Inv dividend divisor (k + 1) (div128_64Step divisor st) := by
  obtain ⟨H, L, R⟩ := st
  obtain ⟨t, u, hDtu, hu, hH, hL, hreg, hR⟩ := h
  simp only at hH hL hreg hR
  rw [div128_64Step_spec hd' hH hL (hR ▸ Nat.mod_lt _ hd)]
  -- the powers of two at this step
  obtain ⟨M, hM⟩ : ∃ M, M = 2 ^ (127 - k) := ⟨_, rfl⟩
  obtain ⟨P, hP⟩ : ∃ P, P = 2 ^ k := ⟨_, rfl⟩
  have h2M : 2 ^ (128 - k) = 2 * M := by
    rw [hM, show 128 - k = 127 - k + 1 by omega, Nat.pow_succ, Nat.mul_comm]
  have h2P : 2 ^ (k + 1) = 2 * P := by rw [hP, Nat.pow_succ, Nat.mul_comm]
  have hMP : M * P = 2 ^ 127 := by rw [hM, hP, ← Nat.pow_add]; congr 1; omega
  rw [h2M] at hDtu hu
  rw [← hP] at hreg
  have hMpos : 0 < M := hM ▸ Nat.two_pow_pos _
  have hPpos : 0 < P := hP ▸ Nat.two_pow_pos _
  -- the bit leaving `u`, and what stays
  have hu' := Nat.div_add_mod u M
  have hbit : u / M ≤ 1 := by
    have : u / M < 2 := Nat.div_lt_of_lt_mul (by rw [Nat.mul_comm]; exact hu)
    omega
  have htP : t < P := by
    have h1 : t * (2 * M) < P * (2 * M) := by
      have : P * (2 * M) = 2 ^ 128 := by
        rw [show P * (2 * M) = 2 * (M * P) by ring, hMP]; rfl
      omega
    exact Nat.lt_of_mul_lt_mul_right h1
  have hq : t / divisor < P := Nat.lt_of_le_of_lt (Nat.div_le_self _ _) htP
  have hX : u % M * P + t / divisor < M * P := by
    have : u % M * P ≤ (M - 1) * P := Nat.mul_le_mul_right _ (by have := Nat.mod_lt u hMpos; omega)
    have e : (M - 1) * P + P = M * P := by
      rw [← Nat.succ_mul, Nat.succ_eq_add_one, Nat.sub_add_cancel hMpos]
    omega
  have hregX : H * 2 ^ 64 + L = u / M * (M * P) + (u % M * P + t / divisor) := by
    rw [hreg]; conv_lhs => rw [← hu']
    ring
  have htop : (H * 2 ^ 64 + L) / 2 ^ 127 = u / M := by
    rw [hregX, ← hMP]
    rw [Nat.add_comm, Nat.add_mul_div_right _ _ (by omega), Nat.div_eq_of_lt hX, Nat.zero_add]
  have hdouble : 2 * (H * 2 ^ 64 + L) % 2 ^ 128 = 2 * (u % M * P + t / divisor) := by
    have h128 : 2 * (M * P) = 2 ^ 128 := by rw [hMP]; rfl
    rw [hregX, ← h128]
    have : 2 * (u / M * (M * P) + (u % M * P + t / divisor)) =
        2 * (u % M * P + t / divisor) + u / M * (2 * (M * P)) := by ring
    rw [this, Nat.add_mul_mod_self_right, Nat.mod_eq_of_lt]
    omega
  rw [htop, hdouble]
  subst hR
  obtain ⟨hsub, hkeep⟩ := div_mod_double (t := t) hd hbit
  refine ⟨2 * t + u / M, u % M, ?_, ?_, ?_⟩
  · rw [show 128 - (k + 1) = 127 - k by omega, ← hM, hDtu]
    conv_lhs => rw [← hu']
    ring
  · rw [show 128 - (k + 1) = 127 - k by omega, ← hM]; exact Nat.mod_lt _ hMpos
  · rw [h2P]
    have e : u % M * (2 * P) = 2 * (u % M * P) := by ring
    -- only linear facts are left for `omega`
    clear hM hP h2M h2P hDtu hreg hregX htop hdouble hu'
    rw [hMP] at hX
    split_ifs with hc
    · obtain ⟨hq', hr'⟩ := hsub hc
      simp only
      refine ⟨by omega, by omega, by omega, hr'.symm⟩
    · obtain ⟨hq', hr'⟩ := hkeep hc
      simp only
      refine ⟨by omega, by omega, by omega, hr'.symm⟩

/-- The invariant holds after every number of iterations up to 128, starting from the
dividend in the register and a zero remainder. -/
theorem div128_64_iterate {hi lo divisor : ℕ} (hd : 0 < divisor) (hd' : divisor < 2 ^ 64)
    (hhi : hi < 2 ^ 64) (hlo : lo < 2 ^ 64) :
    ∀ k ≤ 128, Div128Inv (hi * 2 ^ 64 + lo) divisor k ((div128_64Step divisor)^[k] (hi, lo, 0)) := by
  intro k
  induction k with
  | zero =>
    intro _
    exact ⟨0, hi * 2 ^ 64 + lo, by simp, by simp; omega, hhi, hlo, by simp, by simp⟩
  | succ k ih =>
    intro hk
    rw [Function.iterate_succ_apply']
    exact (ih (by omega)).step (by omega) hd hd' (by omega)

/-- **`div128_64` divides.** For every non-zero 64-bit divisor, the 128 iterations leave
the exact quotient of the 128-bit dividend, split into its high and low words, and the
exact remainder. -/
theorem div128_64_spec {hi lo divisor : ℕ} (hd : 0 < divisor) (hd' : divisor < 2 ^ 64)
    (hhi : hi < 2 ^ 64) (hlo : lo < 2 ^ 64) :
    div128_64 hi lo divisor =
      ((hi * 2 ^ 64 + lo) / divisor / 2 ^ 64, (hi * 2 ^ 64 + lo) / divisor % 2 ^ 64,
        (hi * 2 ^ 64 + lo) % divisor) := by
  obtain ⟨t, u, hDtu, hu, hH, hL, hreg, hR⟩ := div128_64_iterate hd hd' hhi hlo 128 le_rfl
  simp only [Nat.sub_self, pow_zero, Nat.mul_one] at hDtu hu
  have hu0 : u = 0 := by omega
  subst hu0
  rw [Nat.add_zero] at hDtu
  subst hDtu
  rw [Nat.zero_mul, Nat.zero_add] at hreg
  rw [div128_64]
  ext
  · simp only; omega
  · simp only; omega
  · exact hR

/-- The pattern `lo = mul128(a, b, &hi); div128_64(hi, lo, divisor, &qhi, &qlo)` used
throughout for `a * b / divisor`: the low quotient word is the exact quotient modulo
`2 ^ 64`. -/
theorem div128_64_mul128 {a b divisor : ℕ} (ha : a < 2 ^ 64) (hb : b < 2 ^ 64) (hd : 0 < divisor)
    (hd' : divisor < 2 ^ 64) :
    (div128_64 (mul128 a b).2 (mul128 a b).1 divisor).2.1 = a * b / divisor % 2 ^ 64 := by
  have hab : a * b < 2 ^ 64 * 2 ^ 64 := Nat.mul_lt_mul'' ha hb
  rw [mul128_spec ha hb, div128_64_spec hd hd' (by simp only; omega) (Nat.mod_lt _ (by decide))]
  simp only
  congr 2
  omega

/-- The pattern the code repeats for stake shares, `lo = mul128(a, b, &hi);
div128_64(hi, lo, divisor, &resulthi, &resultlo)`, read at `resultlo`. -/
def mulDiv128Lo (a b divisor : ℕ) : ℕ := (div128_64 (mul128 a b).2 (mul128 a b).1 divisor).2.1

theorem mulDiv128Lo_eq {a b divisor : ℕ} (ha : a < 2 ^ 64) (hb : b < 2 ^ 64) (hd : 0 < divisor)
    (hd' : divisor < 2 ^ 64) : mulDiv128Lo a b divisor = a * b / divisor % 2 ^ 64 :=
  div128_64_mul128 ha hb hd hd'

/-- A share `a * b / divisor` of a word `b`, for `a ≤ divisor`, comes out exactly. -/
theorem mulDiv128Lo_of_le {a b divisor : ℕ} (hb : b < 2 ^ 64) (hd : 0 < divisor)
    (hd' : divisor < 2 ^ 64) (hab : a ≤ divisor) : mulDiv128Lo a b divisor = a * b / divisor := by
  have hle : a * b / divisor ≤ b := Nat.div_le_of_le_mul (Nat.mul_le_mul_right b hab)
  rw [mulDiv128Lo_eq (by omega) hb hd hd', Nat.mod_eq_of_lt (by omega)]

/-- A share of a word `a` by a part `b ≤ divisor` comes out exactly. -/
theorem mulDiv128Lo_of_le_right {a b divisor : ℕ} (ha : a < 2 ^ 64) (hd : 0 < divisor)
    (hd' : divisor < 2 ^ 64) (hbd : b ≤ divisor) : mulDiv128Lo a b divisor = a * b / divisor := by
  have hle : a * b / divisor ≤ a := Nat.div_le_of_le_mul (by
    rw [Nat.mul_comm divisor a]
    exact Nat.mul_le_mul_left a hbd)
  rw [mulDiv128Lo_eq ha (by omega) hd hd', Nat.mod_eq_of_lt (by omega)]

/-! ### Division by a 32-bit word -/

/-- `div_with_reminder(dividend, divisor, &remainder)`: one digit of the long division
in base `2 ^ 32`, the running remainder shifted in above the digit. Returns the
quotient and the new remainder. -/
def divWithReminder (dividend divisor remainder : ℕ) : ℕ × ℕ :=
  let dividend := dividend ||| (remainder <<< 32) % 2 ^ 64
  (dividend / divisor, dividend % divisor)

/-- `div128_32(dividend_hi, dividend_lo, divisor, &quotient_hi, &quotient_lo)`: the long
division of the four 32-bit digits, most significant first;
`(quotient_hi, quotient_lo, remainder)`. -/
def div128_32 (dividendHi dividendLo divisor : ℕ) : ℕ × ℕ × ℕ :=
  let (q3, r) := divWithReminder (hiDword dividendHi) divisor 0
  let (q2, r) := divWithReminder (loDword dividendHi) divisor r
  let (q1, r) := divWithReminder (hiDword dividendLo) divisor r
  let (q0, r) := divWithReminder (loDword dividendLo) divisor r
  ((q3 <<< 32) % 2 ^ 64 ||| q2, (q1 <<< 32) % 2 ^ 64 ||| q0, r)

end Arqma.Epee.IntUtil
