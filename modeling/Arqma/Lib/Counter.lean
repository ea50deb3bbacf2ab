import Mathlib

/-!
# Counters modulo a word size

An array of machine counters, one per value, that counts the values held in a list:
`inc` when a value comes in, `dec` when one goes out, each modulo `m` as an unsigned
word does. `Counts m c l` says that `c` counts the list `l` modulo `m`; the lemmas
say which update keeps it when the list gains or loses an element at either end.

## What is proved

* `Counts.zero`, `Counts.concat`, `Counts.cons`: the zero array counts the empty list,
  and `inc` counts a value pushed at either end.
* `Counts.tail`, `Counts.dropLast`: `dec` counts the list once its first or its last
  value is gone.
* `Counts.eq_count`: below `m` values, the counter is the number itself.
* `Counts.unique`: two arrays that count one list are equal.
-/

namespace Counter

variable {α : Type*} [DecidableEq α]

/-- `++c[a]` on an unsigned counter of `m` values. -/
def inc (m : ℕ) (c : α → ℕ) (a : α) : α → ℕ := Function.update c a ((c a + 1) % m)

/-- `--c[a]` on an unsigned counter of `m` values. -/
def dec (m : ℕ) (c : α → ℕ) (a : α) : α → ℕ := Function.update c a ((c a + m - 1) % m)

/-- `c` counts the values of `l` modulo `m`. -/
def Counts (m : ℕ) (c : α → ℕ) (l : List α) : Prop := ∀ a, c a = l.count a % m

variable {m : ℕ} {c : α → ℕ} {l : List α}

theorem Counts.zero (m : ℕ) : Counts m (fun _ : α => 0) [] := by
  intro a
  simp

/-- One more occurrence of `a`, counted modulo `m`. -/
theorem inc_apply_of_counts (h : Counts m c l) (a b : α) :
    inc m c a b = (if b = a then l.count b + 1 else l.count b) % m := by
  unfold inc
  by_cases hb : b = a
  · subst hb
    rw [Function.update_self, h b, if_pos rfl, Nat.mod_add_mod]
  · rw [Function.update_of_ne hb, h b, if_neg hb]

theorem Counts.concat (h : Counts m c l) (a : α) : Counts m (inc m c a) (l ++ [a]) := by
  intro b
  rw [inc_apply_of_counts h, List.count_append, List.count_singleton]
  by_cases hb : b = a
  · simp [hb]
  · simp [hb, Ne.symm hb]

theorem Counts.cons (h : Counts m c l) (a : α) : Counts m (inc m c a) (a :: l) := by
  intro b
  rw [inc_apply_of_counts h, List.count_cons]
  by_cases hb : b = a
  · simp [hb]
  · simp [hb, Ne.symm hb]

/-- Taking one back from a counter that was one more. -/
theorem add_one_mod_add_sub_one (n : ℕ) (hm : 0 < m) : ((n + 1) % m + m - 1) % m = n % m := by
  have hsplit : (n + 1) % m + m - 1 = (n + 1) % m + (m - 1) := by omega
  rw [hsplit, Nat.mod_add_mod, show n + 1 + (m - 1) = n + m by omega, Nat.add_mod_right]

/-- `dec` after the list lost one occurrence of `a`, given the counts with it. -/
theorem Counts.dec_of_count (h : Counts m c l) (hm : 0 < m) {l' : List α} (a : α)
    (hcount : ∀ b, l.count b = if b = a then l'.count b + 1 else l'.count b) :
    Counts m (dec m c a) l' := by
  intro b
  unfold dec
  by_cases hb : b = a
  · subst hb
    rw [Function.update_self, h b, hcount b, if_pos rfl]
    exact add_one_mod_add_sub_one _ hm
  · rw [Function.update_of_ne hb, h b, hcount b, if_neg hb]

theorem Counts.tail {a : α} (h : Counts m c (a :: l)) (hm : 0 < m) : Counts m (dec m c a) l := by
  refine h.dec_of_count hm a fun b => ?_
  rw [List.count_cons]
  by_cases hb : b = a
  · simp [hb]
  · simp [hb, Ne.symm hb]

theorem Counts.dropLast (h : Counts m c l) (hm : 0 < m) {a : α} (hlast : l.getLast? = some a) :
    Counts m (dec m c a) l.dropLast := by
  obtain ⟨init, rfl⟩ : ∃ init, l = init ++ [a] := by
    rw [List.getLast?_eq_some_iff] at hlast
    exact hlast
  rw [List.dropLast_concat]
  refine h.dec_of_count hm a fun b => ?_
  rw [List.count_append, List.count_singleton]
  by_cases hb : b = a
  · simp [hb]
  · simp [hb, Ne.symm hb]

theorem Counts.eq_count (h : Counts m c l) (hl : l.length < m) (a : α) : c a = l.count a := by
  rw [h a, Nat.mod_eq_of_lt (lt_of_le_of_lt (List.count_le_length) hl)]

theorem Counts.unique {c₁ c₂ : α → ℕ} (h₁ : Counts m c₁ l) (h₂ : Counts m c₂ l) : c₁ = c₂ :=
  funext fun a => (h₁ a).trans (h₂ a).symm

end Counter
