import Mathlib.Logic.Basic

/-!
# Running `Except` computations

The rules that step through a `do` block in `Except ε`: a value runs the continuation and
an error stops it (the simp lemmas `ok_bind` and `error_bind`, with `pure_eq` and
`throw_eq`), and a success of a bind had a success at its first step
(`bind_eq_ok`), which is how a success of a whole block is taken apart one step at a time.
-/

namespace Except

variable {ε α β : Type}

@[simp] theorem ok_bind (a : α) (f : α → Except ε β) : (Except.ok a >>= f) = f a := rfl

@[simp] theorem error_bind (e : ε) (f : α → Except ε β) : (Except.error e >>= f) = .error e := rfl

@[simp] theorem pure_eq (a : α) : (pure a : Except ε α) = .ok a := rfl

@[simp] theorem throw_eq (e : ε) : (throw e : Except ε α) = .error e := rfl

/-- A bind that succeeds had a success at its first step. -/
theorem bind_eq_ok {x : Except ε α} {f : α → Except ε β} {b : β} :
    x >>= f = .ok b ↔ ∃ a, x = .ok a ∧ f a = .ok b := by
  cases x with
  | error e => simp
  | ok a => simp

end Except
