import Mathlib

/-!
# Sums over lists under pointwise updates

Two facts about sums of list entries that an accounting model uses wherever a
record in a list is updated in place or a total is split into floored shares.

* `sum_map_set_add`: writing `b` at a position holding `a` changes the sum of
  `g` by `g b - g a`, stated without subtraction.
* `sum_map_mul_div_le`: floored shares `c * x / d` of the entries add up to at
  most the floored share of their sum.
-/

namespace ListSums

variable {α : Type*}

/-- Writing `b` where `a` was moves a sum by the difference of the two. -/
theorem sum_map_set_add (g : α → ℕ) {l : List α} {i : ℕ} {a : α} (h : l[i]? = some a) (b : α) :
    ((l.set i b).map g).sum + g a = (l.map g).sum + g b := by
  obtain ⟨hi, rfl⟩ := List.getElem?_eq_some_iff.mp h
  have hsplit : l = l.take i ++ l[i] :: l.drop (i + 1) := by
    rw [List.getElem_cons_drop, List.take_append_drop]
  rw [List.set_eq_take_append_cons_drop, if_pos hi]
  conv_rhs => rw [hsplit]
  simp only [List.map_append, List.map_cons, List.sum_append, List.sum_cons]
  omega

/-- Floored shares of the entries add up to at most the floored share of the total. -/
theorem sum_map_mul_div_le (c d : ℕ) (l : List ℕ) :
    (l.map fun x => c * x / d).sum ≤ c * l.sum / d := by
  induction l with
  | nil => simp
  | cons x l ih =>
    simp only [List.map_cons, List.sum_cons, Nat.mul_add]
    calc c * x / d + (l.map fun x => c * x / d).sum ≤ c * x / d + c * l.sum / d := by omega
      _ ≤ (c * x + c * l.sum) / d := Nat.div_add_div_le_add_div

end ListSums
