import Mathlib.Tactic.Positivity

/-!
# Unsigned 64-bit arithmetic on naturals

C's `uint64_t` addition and subtraction, as operations on `ℕ` that wrap modulo
`2 ^ 64`, and the lemmas that drop the wrap where the operands stay in range. A
model keeps its 64-bit fields as naturals below `2 ^ 64` and writes `Word64.add` and
`Word64.sub` exactly where the source adds or subtracts unsigned words, so that a
wrap the source can make is one the model makes.
-/

namespace Word64

/-- `a + b` on `uint64_t`. -/
def add (a b : ℕ) : ℕ := (a + b) % 2 ^ 64

/-- `a - b` on `uint64_t` (for `b < 2 ^ 64`). -/
def sub (a b : ℕ) : ℕ := (a + 2 ^ 64 - b) % 2 ^ 64

variable {a b : ℕ}

theorem sub_lt (a b : ℕ) : sub a b < 2 ^ 64 := Nat.mod_lt _ (by positivity)

/-- A sum that fits does not wrap. -/
theorem add_of_lt (h : a + b < 2 ^ 64) : add a b = a + b := Nat.mod_eq_of_lt h

/-- A difference that is not negative does not wrap. -/
theorem sub_of_le (hb : b ≤ a) (ha : a < 2 ^ 64) : sub a b = a - b := by
  unfold sub; omega

/-- A running sum that stays below `2 ^ 64` never wraps. -/
theorem foldl_add_of_lt (xs : List ℕ) (acc : ℕ) (h : acc + xs.sum < 2 ^ 64) :
    xs.foldl add acc = acc + xs.sum := by
  induction xs generalizing acc with
  | nil => simp
  | cons x xs ih =>
    rw [List.sum_cons] at h ⊢
    rw [List.foldl_cons, add_of_lt (by omega), ih _ (by omega), Nat.add_assoc]

end Word64
