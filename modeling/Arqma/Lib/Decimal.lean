import Mathlib.Data.Nat.Init
import Mathlib.Data.List.Basic

/-!
# Decimal text

Naturals written in decimal as a C++ stream writes them (`Nat.toDigits 10`, as bytes), and
read back as `std::istream >> n` reads an unsigned number that starts with a digit: the
longest run of digits, accumulated from the left. The round trip is `readDigits_decimal`:
the text of `n`, followed by anything that is not a digit, reads back as `n`.
-/

namespace Decimal

/-- Whether a byte is one of `'0'` to `'9'`. -/
def isDigit (c : UInt8) : Bool := 48 ≤ c && c ≤ 57

/-- The decimal text of `n`. -/
def decimal (n : ℕ) : List UInt8 := (Nat.toDigits 10 n).map Char.toUInt8

/-- One digit more: the value read so far, shifted one place, plus the digit. -/
def digitStep (acc : ℕ) (c : UInt8) : ℕ := acc * 10 + (c.toNat - 48)

/-- Reads the longest run of digits onto `acc`: the value and the bytes after the run. -/
def readDigits : List UInt8 → ℕ → ℕ × List UInt8
  | [], acc => (acc, [])
  | c :: rest, acc => if isDigit c then readDigits rest (digitStep acc c) else (acc, c :: rest)

/-- The digit characters, as bytes, are digits with their own values. -/
theorem digitChar_toUInt8 : ∀ d < 10,
    isDigit (Nat.digitChar d).toUInt8 = true ∧ (Nat.digitChar d).toUInt8.toNat - 48 = d := by
  decide

theorem decimal_eq_if (n : ℕ) :
    decimal n = if n < 10 then [(Nat.digitChar n).toUInt8]
      else decimal (n / 10) ++ [(Nat.digitChar (n % 10)).toUInt8] := by
  unfold decimal
  rw [Nat.toDigits_eq_if (by decide)]
  split <;> simp

theorem isDigit_of_mem_decimal {n : ℕ} : ∀ c ∈ decimal n, isDigit c = true := by
  induction n using Nat.strong_induction_on with
  | _ n ih =>
    rw [decimal_eq_if]
    split
    · intro c hc
      rw [List.mem_singleton.mp hc]
      exact (digitChar_toUInt8 n ‹_›).1
    · intro c hc
      rcases List.mem_append.mp hc with hc | hc
      · exact ih (n / 10) (Nat.div_lt_self (by omega) (by decide)) c hc
      · rw [List.mem_singleton.mp hc]
        exact (digitChar_toUInt8 (n % 10) (Nat.mod_lt n (by decide))).1

theorem foldl_digitStep_decimal (n : ℕ) : (decimal n).foldl digitStep 0 = n := by
  induction n using Nat.strong_induction_on with
  | _ n ih =>
    rw [decimal_eq_if]
    split
    · simp only [List.foldl_cons, List.foldl_nil, digitStep, (digitChar_toUInt8 n ‹_›).2]
      omega
    · rw [List.foldl_append, ih (n / 10) (Nat.div_lt_self (by omega) (by decide))]
      simp only [List.foldl_cons, List.foldl_nil, digitStep,
        (digitChar_toUInt8 (n % 10) (Nat.mod_lt n (by decide))).2]
      omega

/-- A run of digits is read through, each one a `digitStep`. -/
theorem readDigits_append {ds : List UInt8} (hds : ∀ c ∈ ds, isDigit c = true) (rest : List UInt8) :
    ∀ acc, readDigits (ds ++ rest) acc = readDigits rest (ds.foldl digitStep acc) := by
  induction ds with
  | nil => intro acc; rfl
  | cons c ds ih =>
    intro acc
    rw [List.cons_append, readDigits, if_pos (hds c List.mem_cons_self),
      ih (fun c' hc' => hds c' (List.mem_cons_of_mem c hc')), List.foldl_cons]

/-- Reading stops at a byte that is not a digit, or at the end. -/
theorem readDigits_stop {rest : List UInt8} (hrest : ∀ c ∈ rest.head?, isDigit c = false) (acc : ℕ) :
    readDigits rest acc = (acc, rest) := by
  cases rest with
  | nil => rfl
  | cons c rest => rw [readDigits, if_neg (by simp [hrest c rfl])]

/-- The decimal text of `n`, then a byte that is not a digit or nothing, reads back as `n`. -/
theorem readDigits_decimal (n : ℕ) (rest : List UInt8) (hrest : ∀ c ∈ rest.head?, isDigit c = false) :
    readDigits (decimal n ++ rest) 0 = (n, rest) := by
  rw [readDigits_append isDigit_of_mem_decimal, foldl_digitStep_decimal, readDigits_stop hrest]

end Decimal
