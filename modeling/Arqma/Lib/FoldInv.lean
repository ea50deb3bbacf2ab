import Mathlib.Logic.Basic

/-!
# Invariants of folds

A loop of the source written as `List.foldl`, or as `List.foldlM` in `Option` where
the loop can throw, keeps a property of its accumulator when each step does: the
induction done once, so that a model's invariant proofs are about one step.
-/

namespace FoldInv

variable {α β : Type*}

/-- A property that every step keeps holds after a `foldl`. -/
theorem foldl {P : β → Prop} {f : β → α → β} (l : List α) {init : β} (hinit : P init)
    (hstep : ∀ acc x, x ∈ l → P acc → P (f acc x)) : P (l.foldl f init) := by
  induction l generalizing init with
  | nil => exact hinit
  | cons x l ih =>
    rw [List.foldl_cons]
    exact ih (hstep init x List.mem_cons_self hinit)
      fun acc y hy hacc => hstep acc y (List.mem_cons_of_mem _ hy) hacc

/-- A property that every step keeps, where it does not fail, holds after a `foldlM`
in `Option` that does not fail. -/
theorem foldlM_option {P : β → Prop} {f : β → α → Option β} (l : List α) {init res : β}
    (h : l.foldlM f init = some res) (hinit : P init)
    (hstep : ∀ acc x acc', x ∈ l → f acc x = some acc' → P acc → P acc') : P res := by
  induction l generalizing init with
  | nil =>
    simp only [List.foldlM_nil, Option.pure_def, Option.some.injEq] at h
    exact h ▸ hinit
  | cons x l ih =>
    rw [List.foldlM_cons] at h
    cases hx : f init x with
    | none => simp [hx] at h
    | some acc =>
      rw [hx, Option.bind_eq_bind, Option.bind_some] at h
      exact ih h (hstep init x acc List.mem_cons_self hx hinit)
        fun acc y acc' hy hf hacc => hstep acc y acc' (List.mem_cons_of_mem _ hy) hf hacc

end FoldInv
