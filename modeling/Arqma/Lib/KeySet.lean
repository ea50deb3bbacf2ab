import Mathlib.Data.List.Basic
import Mathlib.Data.List.TakeWhile

/-!
# Sets ordered by a key

A `std::set` whose comparison looks at one natural-number key of its elements, held as a list
whose keys strictly increase. `insert` puts an element in key order and leaves the set alone
when an element of that key is already there. The cuts are `takeWhile` and `dropWhile` on the
key: `erase(next(find(k)), end)` keeps the elements up to `k`, and `erase(begin, upper_bound(k))`
keeps those after it.

The lemmas say what these operations do to a sorted list: an insertion and a cut keep it
sorted, an insertion adds nothing but its element, a cut at `k` leaves the keys on its own side of `k`,
and the last element of a cut at the key of an element is that element.
-/

namespace KeySet

variable {α : Type*} (key : α → ℕ)

/-- `std::set::insert`: the element in key order, or the set unchanged when it holds an element
of that key. -/
def insert (x : α) : List α → List α
  | [] => [x]
  | y :: ys =>
    if key x < key y then x :: y :: ys
    else if key x = key y then y :: ys
    else y :: insert x ys

variable {key}

theorem mem_insert {x y : α} : ∀ {s : List α}, y ∈ insert key x s → y = x ∨ y ∈ s
  | [], h => .inl (List.mem_singleton.mp h)
  | z :: zs, h => by
    rw [insert] at h
    split_ifs at h
    · exact List.mem_cons.mp h
    · exact .inr h
    · rcases List.mem_cons.mp h with rfl | h
      · exact .inr List.mem_cons_self
      · exact (mem_insert h).imp_right (List.mem_cons_of_mem z)

/-- Insertion keeps the keys strictly increasing. -/
theorem pairwise_insert {x : α} :
    ∀ {s : List α}, s.Pairwise (fun a b => key a < key b) →
      (insert key x s).Pairwise (fun a b => key a < key b)
  | [], _ => List.pairwise_singleton _ _
  | z :: zs, hs => by
    obtain ⟨hz, hzs⟩ := List.pairwise_cons.mp hs
    rw [insert]
    split_ifs with hlt heq
    · -- in front of `z`, and so of everything after it
      refine List.pairwise_cons.mpr ⟨fun a ha => ?_, hs⟩
      rcases List.mem_cons.mp ha with rfl | ha
      · exact hlt
      · exact Nat.lt_trans hlt (hz a ha)
    · exact hs
    · refine List.pairwise_cons.mpr ⟨fun a ha => ?_, pairwise_insert hzs⟩
      rcases mem_insert ha with rfl | ha
      · omega
      · exact hz a ha

/-- In a sorted set, the cut after an element ends with that element. -/
theorem getLast?_takeWhile {x : α} :
    ∀ {s : List α}, s.Pairwise (fun a b => key a < key b) → x ∈ s →
      (s.takeWhile fun y => key y ≤ key x).getLast? = some x
  | [], _, hx => absurd hx List.not_mem_nil
  | y :: ys, hs, hx => by
    obtain ⟨hy, hys⟩ := List.pairwise_cons.mp hs
    rcases List.mem_cons.mp hx with rfl | hx
    · -- the cut stops right after `x`, the next key being larger
      have hrest : (ys.takeWhile fun y => key y ≤ key x) = [] := by
        cases ys with
        | nil => rfl
        | cons z zs =>
          have := hy z List.mem_cons_self
          rw [List.takeWhile_cons, if_neg (by simp; omega)]
      rw [List.takeWhile_cons, if_pos (by simp), hrest]
      rfl
    · have hxy := hy x hx
      rw [List.takeWhile_cons, if_pos (by simp; omega), List.getLast?_cons, getLast?_takeWhile hys hx]
      rfl

/-- The elements before the last of a sorted list have smaller keys. -/
theorem key_lt_of_mem_dropLast {s : List α} {x y : α} (hs : s.Pairwise (fun a b => key a < key b))
    (hx : s.getLast? = some x) (hy : y ∈ s.dropLast) : key y < key x := by
  have hsplit := List.dropLast_append_getLast? x hx
  rw [← hsplit, List.pairwise_append] at hs
  exact hs.2.2 y hy x List.mem_cons_self

/-- After the cut that drops the keys up to `k`, every key is above `k`: the first one left is,
and the rest come after it. -/
theorem lt_key_of_mem_dropWhile {k : ℕ} {y : α} :
    ∀ {s : List α}, s.Pairwise (fun a b => key a < key b) →
      y ∈ s.dropWhile (fun z => key z ≤ k) → k < key y
  | [], _, hy => absurd hy List.not_mem_nil
  | z :: zs, hs, hy => by
    obtain ⟨hz, hzs⟩ := List.pairwise_cons.mp hs
    rw [List.dropWhile_cons] at hy
    split_ifs at hy with hle
    · exact lt_key_of_mem_dropWhile hzs hy
    · have hkz : k < key z := by simpa using hle
      rcases List.mem_cons.mp hy with rfl | hy
      · exact hkz
      · exact Nat.lt_trans hkz (hz y hy)

theorem key_le_of_mem_takeWhile {k : ℕ} {s : List α} {y : α}
    (hy : y ∈ s.takeWhile fun z => key z ≤ k) : key y ≤ k := by
  simpa using List.mem_takeWhile_imp hy

theorem pairwise_takeWhile {s : List α} (p : α → Bool) (hs : s.Pairwise (fun a b => key a < key b)) :
    (s.takeWhile p).Pairwise (fun a b => key a < key b) :=
  hs.sublist (List.takeWhile_prefix p).sublist

theorem pairwise_dropWhile {s : List α} (p : α → Bool) (hs : s.Pairwise (fun a b => key a < key b)) :
    (s.dropWhile p).Pairwise (fun a b => key a < key b) :=
  hs.sublist (List.dropWhile_suffix p).sublist

theorem pairwise_dropLast {s : List α} (hs : s.Pairwise (fun a b => key a < key b)) :
    s.dropLast.Pairwise (fun a b => key a < key b) :=
  hs.sublist (List.dropLast_prefix s).sublist

end KeySet
