import Mathlib.Data.Nat.Digits.Defs

/-!
# Fixed-width digits and block-wise maps

Two pieces of general infrastructure for block codecs.

* `Radix.digits b n v`: the `n` lowest base-`b` digits of `v`, least significant
  first, zeros included. Together with Mathlib's `Nat.ofDigits` it is a bijection
  between values below `b ^ n` and digit lists of length `n`.
* `Radix.blocks k n xs`: the first `n` blocks of `k` items of `xs`, the shape of a
  C loop `for (i = 0; i < n; ++i) f(data + i * k)`, and the lemmas that turn such a
  loop, written over `List.range`, into a recursion on the blocks.
-/

namespace Radix

/-! ### Digits -/

/-- The `n` lowest base-`b` digits of `v`, least significant first. -/
def digits (b : ℕ) : ℕ → ℕ → List ℕ
  | 0, _ => []
  | n + 1, v => v % b :: digits b n (v / b)

variable {b : ℕ}

@[simp] theorem length_digits (n v : ℕ) : (digits b n v).length = n := by
  induction n generalizing v with
  | zero => rfl
  | succ n ih => simp [digits, ih]

theorem digits_lt (hb : 0 < b) (n v : ℕ) : ∀ d ∈ digits b n v, d < b := by
  induction n generalizing v with
  | zero => simp [digits]
  | succ n ih =>
    intro d hd
    rcases List.mem_cons.mp hd with rfl | hd
    · exact Nat.mod_lt _ hb
    · exact ih _ d hd

/-- The digits read back give the value modulo `b ^ n`. -/
theorem ofDigits_digits (n v : ℕ) : Nat.ofDigits b (digits b n v) = v % b ^ n := by
  induction n generalizing v with
  | zero => simp [digits, Nat.mod_one]
  | succ n ih =>
    rw [digits, Nat.ofDigits_cons, ih, Nat.pow_succ, Nat.mul_comm (b ^ n) b, Nat.mod_mul]

/-- A list of digits is the digits of its value. -/
theorem digits_ofDigits {ds : List ℕ} (hds : ∀ d ∈ ds, d < b) :
    digits b ds.length (Nat.ofDigits b ds) = ds := by
  induction ds with
  | nil => rfl
  | cons d ds ih =>
    have hd : d < b := hds d (by simp)
    have hb : 0 < b := by omega
    simp only [List.length_cons, digits, Nat.ofDigits_cons]
    rw [Nat.add_mul_mod_self_left, Nat.mod_eq_of_lt hd, Nat.add_mul_div_left _ _ hb,
      Nat.div_eq_of_lt hd, Nat.zero_add, ih fun x hx => hds x (by simp [hx])]

@[simp] theorem digits_zero_right (n : ℕ) : digits b n 0 = List.replicate n 0 := by
  induction n with
  | zero => rfl
  | succ n ih => simp [digits, ih, List.replicate_succ]

/-! ### Blocks -/

/-- The first `n` blocks of `k` items. -/
def blocks {α : Type*} (k : ℕ) : ℕ → List α → List (List α)
  | 0, _ => []
  | n + 1, xs => xs.take k :: blocks k n (xs.drop k)

variable {α β : Type*}

/-- The slices of the loop `for i < n: f(xs + i * k)`, taken over `List.range`, are
the blocks. -/
theorem range_map_slice (k : ℕ) :
    ∀ (n : ℕ) (xs : List α), (List.range n).map (fun i => (xs.drop (i * k)).take k) = blocks k n xs := by
  intro n
  induction n with
  | zero => intro xs; rfl
  | succ n ih =>
    intro xs
    rw [List.range_succ_eq_map, List.map_cons, List.map_map, blocks, ← ih (xs.drop k)]
    congr 1
    · simp
    · apply List.map_congr_left
      intro i _
      simp only [Function.comp, List.drop_drop, Nat.succ_mul]
      rw [Nat.add_comm]

theorem range_flatMap_slice {β : Type*} (f : List α → List β) (k n : ℕ) (xs : List α) :
    (List.range n).flatMap (fun i => f ((xs.drop (i * k)).take k)) = (blocks k n xs).flatMap f := by
  rw [← range_map_slice, List.flatMap_map]

theorem range_mapM_slice {β : Type*} (f : List α → Option β) (k n : ℕ) (xs : List α) :
    (List.range n).mapM (fun i => f ((xs.drop (i * k)).take k)) = (blocks k n xs).mapM f := by
  rw [← range_map_slice, List.mapM_map]
  rfl

@[simp] theorem length_blocks (k n : ℕ) (xs : List α) : (blocks k n xs).length = n := by
  induction n generalizing xs with
  | zero => rfl
  | succ n ih => simp [blocks, ih]

/-- Blocks of an exact concatenation of `n` blocks of length `k` are those blocks. -/
theorem blocks_flatten {k : ℕ} :
    ∀ (bs : List (List α)) (rest : List α), (∀ b ∈ bs, b.length = k) →
      blocks k bs.length (bs.flatten ++ rest) = bs := by
  intro bs
  induction bs with
  | nil => intro _ _; rfl
  | cons b bs ih =>
    intro rest h
    have hb : b.length = k := h b (by simp)
    simp only [List.length_cons, blocks, List.flatten_cons, List.append_assoc]
    rw [List.take_left' hb, List.drop_left' hb, ih rest fun x hx => h x (by simp [hx])]

theorem length_flatten_of_length_eq {k : ℕ} :
    ∀ (bs : List (List α)), (∀ b ∈ bs, b.length = k) → bs.flatten.length = bs.length * k := by
  intro bs
  induction bs with
  | nil => intro _; simp
  | cons b bs ih =>
    intro h
    rw [List.flatten_cons, List.length_append, h b (by simp), ih fun x hx => h x (by simp [hx]),
      List.length_cons, Nat.succ_mul, Nat.add_comm]

/-- The blocks put back together give the prefix they cover. -/
theorem flatten_blocks (k : ℕ) :
    ∀ (n : ℕ) (xs : List α), (blocks k n xs).flatten = xs.take (n * k) := by
  intro n
  induction n with
  | zero => intro xs; simp [blocks]
  | succ n ih =>
    intro xs
    rw [blocks, List.flatten_cons, ih, Nat.succ_mul, Nat.add_comm, ← List.take_add]

theorem length_of_mem_blocks {k n : ℕ} {xs : List α} (h : n * k ≤ xs.length) :
    ∀ b ∈ blocks k n xs, b.length = k := by
  induction n generalizing xs with
  | zero => simp [blocks]
  | succ n ih =>
    intro b hb
    rcases List.mem_cons.mp hb with rfl | hb
    · simp only [List.length_take]; rw [Nat.succ_mul] at h; omega
    · exact ih (by simp only [List.length_drop]; rw [Nat.succ_mul] at h; omega) b hb

/-! ### Maps that may fail -/

/-- Mapping with `f` after a map by a right inverse `g` of it succeeds with the list. -/
theorem mapM_map_of_inverse {f : β → Option α} {g : α → β} :
    ∀ (l : List α), (∀ a ∈ l, f (g a) = some a) → (l.map g).mapM f = some l := by
  intro l
  induction l with
  | nil => intro _; rfl
  | cons a l ih =>
    intro h
    simp only [List.map_cons, List.mapM_cons, h a (by simp), ih fun x hx => h x (by simp [hx])]
    rfl

theorem mapM_cons_of_eq_some {f : β → Option α} {b : β} {a : α} (h : f b = some a) (l : List β) :
    (b :: l).mapM f = (l.mapM f).map (a :: ·) := by
  rw [List.mapM_cons, h]
  cases l.mapM f <;> rfl

/-- What a successful map yields is sent back to its input by a left inverse `g`. -/
theorem map_of_mapM_eq_some {f : β → Option α} {g : α → β} (hg : ∀ b a, f b = some a → g a = b) :
    ∀ (l : List β) (r : List α), l.mapM f = some r → r.map g = l := by
  intro l
  induction l with
  | nil => intro r h; simp only [List.mapM_nil] at h; cases h; rfl
  | cons b l ih =>
    intro r h
    simp only [List.mapM_cons] at h
    cases hb : f b with
    | none => simp [hb] at h
    | some a =>
      cases hl : l.mapM f with
      | none => simp [hb, hl] at h
      | some r' =>
        simp only [hb, hl, Option.bind_eq_bind, Option.bind_some, Option.pure_def,
          Option.some.injEq] at h
        subst h
        rw [List.map_cons, hg b a hb, ih r' hl]

/-- A map that succeeds yields one result for each input. -/
theorem length_of_mapM_eq_some {f : β → Option α} :
    ∀ (l : List β) (r : List α), l.mapM f = some r → r.length = l.length := by
  intro l
  induction l with
  | nil => intro r h; simp only [List.mapM_nil] at h; cases h; rfl
  | cons b l ih =>
    intro r h
    simp only [List.mapM_cons] at h
    cases hb : f b with
    | none => simp [hb] at h
    | some a =>
      cases hl : l.mapM f with
      | none => simp [hb, hl] at h
      | some r' =>
        simp only [hb, hl, Option.bind_eq_bind, Option.bind_some, Option.pure_def,
          Option.some.injEq] at h
        subst h
        rw [List.length_cons, List.length_cons, ih r' hl]

theorem mem_of_mapM_eq_some {f : β → Option α} {P : α → Prop} :
    ∀ (l : List β) (r : List α), (∀ b ∈ l, ∀ a, f b = some a → P a) → l.mapM f = some r →
      ∀ a ∈ r, P a := by
  intro l
  induction l with
  | nil => intro r _ h; simp only [List.mapM_nil] at h; cases h; simp
  | cons b l ih =>
    intro r hP h
    simp only [List.mapM_cons] at h
    cases hb : f b with
    | none => simp [hb] at h
    | some a =>
      cases hl : l.mapM f with
      | none => simp [hb, hl] at h
      | some r' =>
        simp only [hb, hl, Option.bind_eq_bind, Option.bind_some, Option.pure_def,
          Option.some.injEq] at h
        subst h
        intro x hx
        rcases List.mem_cons.mp hx with rfl | hx
        · exact hP b (by simp) x hb
        · exact ih r' (fun y hy => hP y (by simp [hy])) hl x hx

end Radix
