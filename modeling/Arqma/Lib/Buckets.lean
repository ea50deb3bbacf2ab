import Mathlib
import Arqma.Lib.KeyedList

/-!
# Buckets of items sorted by an index

A vector of buckets, each a key and the items filed under it, and the updates a
pool of such buckets makes.

* `insertUnique index x l`: `std::lower_bound` by `index` in a bucket sorted by it,
  and an insertion there unless the item found has the index of `x`. On a sorted
  list the binary search finds the first item whose index is not below that of `x`,
  which is what the scan `takeWhile`/`dropWhile` finds.
* `modifyOrCreate k f`: `std::find` of the bucket of key `k`, a new empty one pushed
  at the back when there is none, and `f` applied to its items.
* `modifyFirst p f`: `std::find_if` by `p` and `f` applied to the item found.

## What is proved

* `insertUnique_sorted`, `mem_insertUnique`: the insertion keeps the indexes strictly
  increasing and adds nothing but `x`.
* `length_le_of_sorted`: items with strictly increasing indexes below `n` are at most
  `n`.
* `mem_modifyOrCreate`, `itemsOf_modifyOrCreate`, `mem_modifyOrCreate_itemsOf`: what a
  find-or-create leaves in the buckets; `itemsOf_mem_or_nil`: what it finds.
-/

namespace Buckets

variable {α : Type*}

/-! ### Sorted insertion -/

section Insert

variable (index : α → ℕ)

/-- The strictly increasing order of the items' indexes. -/
def Sorted (l : List α) : Prop := l.Pairwise fun a b => index a < index b

/-- `std::lower_bound` by `index`, then an insertion of `x` at that position unless the
item there has the index of `x`; `true` when `x` went in. -/
def insertUnique (x : α) (l : List α) : List α × Bool :=
  let before := l.takeWhile fun y => index y < index x
  let after := l.dropWhile fun y => index y < index x
  if after.head?.map index = some (index x) then (l, false) else (before ++ x :: after, true)

variable {index}

theorem mem_insertUnique {x y : α} {l : List α} (hy : y ∈ (insertUnique index x l).1) : y ∈ l ∨ y = x := by
  unfold insertUnique at hy
  dsimp only at hy
  split_ifs at hy
  · exact .inl hy
  · rcases List.mem_append.mp hy with hy | hy
    · exact .inl ((List.takeWhile_sublist _).subset hy)
    · rcases List.mem_cons.mp hy with rfl | hy
      · exact .inr rfl
      · exact .inl ((List.dropWhile_sublist _).subset hy)

/-- The items after the insertion point come after `x`: the first is not below it and
does not share its index, and the others come after the first. -/
theorem lt_of_mem_dropWhile {x : α} {l : List α} (hl : Sorted index l)
    (hnew : ¬(l.dropWhile fun y => index y < index x).head?.map index = some (index x)) :
    ∀ b ∈ l.dropWhile (fun y => index y < index x), index x < index b := by
  have hsorted : Sorted index (l.dropWhile fun y => index y < index x) :=
    hl.sublist (List.dropWhile_sublist _)
  cases hafter : l.dropWhile (fun y => index y < index x) with
  | nil => simp
  | cons a rest =>
    have hfirst : ¬index a < index x := by
      have h := List.head_dropWhile_not (fun y => decide (index y < index x)) (l := l) (by simp [hafter])
      simp only [hafter, List.head_cons, decide_eq_false_iff_not] at h
      exact h
    have hne : index a ≠ index x := by
      rw [hafter] at hnew
      simpa using hnew
    rw [hafter] at hsorted
    intro b hb
    rcases List.mem_cons.mp hb with rfl | hb
    · omega
    · exact lt_trans (by omega) (List.rel_of_pairwise_cons hsorted hb)

theorem insertUnique_sorted {x : α} {l : List α} (hl : Sorted index l) : Sorted index (insertUnique index x l).1 := by
  unfold insertUnique
  dsimp only
  split_ifs with hfound
  · exact hl
  · have hbefore : ∀ a ∈ l.takeWhile (fun y => index y < index x), index a < index x := fun a ha => by
      simpa using List.mem_takeWhile_imp ha
    have hafter := lt_of_mem_dropWhile hl hfound
    have hsplit : Sorted index ((l.takeWhile fun y => index y < index x) ++ l.dropWhile fun y => index y < index x) := by
      rw [List.takeWhile_append_dropWhile]
      exact hl
    obtain ⟨hsorted₁, hsorted₂, hacross⟩ := List.pairwise_append.mp hsplit
    refine List.pairwise_append.mpr ⟨hsorted₁, List.pairwise_cons.mpr ⟨hafter, hsorted₂⟩, ?_⟩
    intro a ha b hb
    rcases List.mem_cons.mp hb with rfl | hb
    · exact hbefore a ha
    · exact hacross a ha b hb

/-- Items with strictly increasing indexes, all below `n`, are at most `n`. -/
theorem length_le_of_sorted {l : List α} {n : ℕ} (hl : Sorted index l) (hlt : ∀ a ∈ l, index a < n) :
    l.length ≤ n := by
  have hnodup : (l.map index).Nodup := (List.pairwise_map.mpr hl).imp ne_of_lt
  have hsub : (l.map index).toFinset ⊆ Finset.range n := by
    intro i hi
    obtain ⟨a, ha, rfl⟩ := List.mem_map.mp (List.mem_toFinset.mp hi)
    exact Finset.mem_range.mpr (hlt a ha)
  calc l.length = (l.map index).toFinset.card := by rw [List.toFinset_card_of_nodup hnodup, List.length_map]
    _ ≤ (Finset.range n).card := Finset.card_le_card hsub
    _ = n := Finset.card_range n

end Insert

/-! ### Finding a bucket -/

section Find

variable {κ : Type*} [DecidableEq κ]

/-- The items of the first bucket of key `k`, none when there is no such bucket. -/
def itemsOf (k : κ) (l : List (κ × List α)) : List α := ((l.find? fun b => b.1 = k).map Prod.snd).getD []

/-- `std::find` of the bucket of key `k`, a new empty bucket pushed at the back when
there is none, and `f` applied to its items. -/
def modifyOrCreate (k : κ) (f : List α → List α) : List (κ × List α) → List (κ × List α)
  | [] => [(k, f [])]
  | b :: rest => if b.1 = k then (b.1, f b.2) :: rest else b :: modifyOrCreate k f rest

/-- `std::find_if` by `p` and `f` applied to the item found. -/
def modifyFirst (p : α → Bool) (f : α → α) : List α → List α
  | [] => []
  | a :: rest => if p a then f a :: rest else a :: modifyFirst p f rest

/-- The first bucket of key `k` erased, as `erase` of the iterator `std::find` gives. -/
def eraseKey (k : κ) (l : List (κ × List α)) : List (κ × List α) := l.eraseP fun b => b.1 = k

variable {k : κ} {f : List α → List α}

theorem mem_modifyOrCreate {b : κ × List α} :
    ∀ {l : List (κ × List α)}, b ∈ modifyOrCreate k f l → b ∈ l ∨ b = (k, f (itemsOf k l))
  | [], hb => by simpa [modifyOrCreate, itemsOf] using hb
  | c :: rest, hb => by
    unfold modifyOrCreate at hb
    split_ifs at hb with hc
    · rcases List.mem_cons.mp hb with rfl | hb
      · exact .inr (by simp [itemsOf, hc])
      · exact .inl (List.mem_cons_of_mem _ hb)
    · rcases List.mem_cons.mp hb with rfl | hb
      · exact .inl List.mem_cons_self
      · rcases mem_modifyOrCreate hb with hb | rfl
        · exact .inl (List.mem_cons_of_mem _ hb)
        · exact .inr (by simp [itemsOf, hc])

theorem itemsOf_modifyOrCreate :
    ∀ l : List (κ × List α), itemsOf k (modifyOrCreate k f l) = f (itemsOf k l)
  | [] => by simp [modifyOrCreate, itemsOf]
  | c :: rest => by
    unfold modifyOrCreate
    split_ifs with hc
    · simp [itemsOf, hc]
    · simpa [itemsOf, hc] using itemsOf_modifyOrCreate rest

theorem mem_modifyFirst {p : α → Bool} {g : α → α} {a : α} :
    ∀ {l : List α}, a ∈ modifyFirst p g l → a ∈ l ∨ ∃ b ∈ l, a = g b
  | [], ha => by simp [modifyFirst] at ha
  | c :: rest, ha => by
    unfold modifyFirst at ha
    split_ifs at ha
    · rcases List.mem_cons.mp ha with rfl | ha
      · exact .inr ⟨c, List.mem_cons_self, rfl⟩
      · exact .inl (List.mem_cons_of_mem _ ha)
    · rcases List.mem_cons.mp ha with rfl | ha
      · exact .inl List.mem_cons_self
      · rcases mem_modifyFirst ha with ha | ⟨b, hb, rfl⟩
        · exact .inl (List.mem_cons_of_mem _ ha)
        · exact .inr ⟨b, List.mem_cons_of_mem _ hb, rfl⟩

/-- An update that keeps what `g` reads leaves the list as `g` sees it. -/
theorem map_modifyFirst {β : Type*} {p : α → Bool} {f : α → α} {g : α → β} (hg : ∀ a, g (f a) = g a) :
    ∀ l : List α, (modifyFirst p f l).map g = l.map g
  | [] => rfl
  | c :: rest => by
    unfold modifyFirst
    split_ifs
    · simp [hg]
    · simp [map_modifyFirst hg rest]

/-- The items of key `k` are those of a bucket of the list, or none. -/
theorem itemsOf_mem_or_nil (k : κ) (l : List (κ × List α)) : (k, itemsOf k l) ∈ l ∨ itemsOf k l = [] := by
  cases hfind : l.find? fun b => b.1 = k with
  | none => exact .inr (by simp [itemsOf, hfind])
  | some b =>
    have hkey : b.1 = k := by simpa using List.find?_some hfind
    refine .inl ?_
    rw [itemsOf, hfind, Option.map_some, Option.getD_some, ← hkey]
    exact List.mem_of_find?_eq_some hfind

theorem mem_eraseKey {b : κ × List α} {l : List (κ × List α)} (hb : b ∈ eraseKey k l) : b ∈ l :=
  List.mem_of_mem_eraseP hb

/-! With distinct keys the buckets are a map from keys to items. -/

theorem itemsOf_of_not_mem {l : List (κ × List α)} (h : k ∉ l.map Prod.fst) : itemsOf k l = [] := by
  simp [itemsOf, KeyedList.find?_key_eq_none h]

theorem itemsOf_of_mem {l : List (κ × List α)} (hl : (l.map Prod.fst).Nodup) {b : κ × List α} (hb : b ∈ l) :
    itemsOf b.1 l = b.2 := by
  simp [itemsOf, KeyedList.find?_key_of_mem hl hb]

theorem itemsOf_modifyOrCreate_of_ne {k' : κ} (hk : k' ≠ k) :
    ∀ l : List (κ × List α), itemsOf k' (modifyOrCreate k f l) = itemsOf k' l
  | [] => by simp [modifyOrCreate, itemsOf, Ne.symm hk]
  | c :: rest => by
    unfold modifyOrCreate
    split_ifs with hc
    · have hck : c.1 ≠ k' := hc ▸ Ne.symm hk
      simp [itemsOf, hck]
    · have ih := itemsOf_modifyOrCreate_of_ne hk rest
      by_cases hck : c.1 = k'
      · simp [itemsOf, hck]
      · simp only [itemsOf, List.find?_cons, hck, decide_false] at ih ⊢
        exact ih

/-- What `modifyOrCreate k f` leaves under each key. -/
theorem itemsOf_modifyOrCreate_eq {k' : κ} (l : List (κ × List α)) :
    itemsOf k' (modifyOrCreate k f l) = if k' = k then f (itemsOf k l) else itemsOf k' l := by
  split_ifs with hk
  · rw [hk, itemsOf_modifyOrCreate]
  · exact itemsOf_modifyOrCreate_of_ne hk l

theorem map_fst_modifyOrCreate : ∀ l : List (κ × List α),
    (modifyOrCreate k f l).map Prod.fst = if k ∈ l.map Prod.fst then l.map Prod.fst else l.map Prod.fst ++ [k]
  | [] => by simp [modifyOrCreate]
  | c :: rest => by
    unfold modifyOrCreate
    split_ifs with hc hmem hmem
    · simp [hc]
    · simp [hc] at hmem
    · have ih := map_fst_modifyOrCreate rest
      have hrest : k ∈ rest.map Prod.fst := by simpa [Ne.symm hc] using hmem
      simp [ih, hrest]
    · have ih := map_fst_modifyOrCreate rest
      have hrest : k ∉ rest.map Prod.fst := by simpa [Ne.symm hc] using hmem
      simp [ih, hrest]

theorem nodup_modifyOrCreate {l : List (κ × List α)} (hl : (l.map Prod.fst).Nodup) :
    ((modifyOrCreate k f l).map Prod.fst).Nodup := by
  rw [map_fst_modifyOrCreate]
  split_ifs with hk
  · exact hl
  · exact hl.append (List.nodup_singleton k) (by simpa using hk)

theorem map_fst_eraseKey (l : List (κ × List α)) : (eraseKey k l).map Prod.fst = (l.map Prod.fst).erase k :=
  KeyedList.map_fst_eraseP_key l

theorem itemsOf_eraseKey_of_ne {k' : κ} (hk : k' ≠ k) :
    ∀ l : List (κ × List α), itemsOf k' (eraseKey k l) = itemsOf k' l
  | [] => rfl
  | c :: rest => by
    by_cases hc : c.1 = k
    · have hck : c.1 ≠ k' := hc ▸ Ne.symm hk
      simp [eraseKey, hc, itemsOf, Ne.symm hk]
    · have ih := itemsOf_eraseKey_of_ne hk rest
      simp only [eraseKey, itemsOf] at ih
      by_cases hck : c.1 = k'
      · simp [eraseKey, itemsOf, hck, hk]
      · simp [eraseKey, hc, itemsOf, hck, ih]

theorem itemsOf_eraseKey_self {l : List (κ × List α)} (hl : (l.map Prod.fst).Nodup) : itemsOf k (eraseKey k l) = [] := by
  refine itemsOf_of_not_mem ?_
  rw [map_fst_eraseKey]
  exact List.Nodup.not_mem_erase hl

theorem modifyOrCreate_modifyOrCreate {g : List α → List α} :
    ∀ l : List (κ × List α), modifyOrCreate k g (modifyOrCreate k f l) = modifyOrCreate k (g ∘ f) l
  | [] => by simp [modifyOrCreate]
  | c :: rest => by
    unfold modifyOrCreate
    split_ifs with hc
    · simp [modifyOrCreate, hc]
    · simp [modifyOrCreate, hc, modifyOrCreate_modifyOrCreate rest]

/-- Buckets of distinct keys, each holding a nonempty set of distinct items: an
`unordered_map` of `unordered_set`s that erases a set once it is empty. -/
structure SetMap (l : List (κ × List α)) : Prop where
  keys_nodup : (l.map Prod.fst).Nodup
  nonempty : ∀ b ∈ l, b.2 ≠ []
  nodup : ∀ b ∈ l, b.2.Nodup

omit [DecidableEq κ] in
theorem SetMap.nil : SetMap ([] : List (κ × List α)) := ⟨List.nodup_nil, by simp, by simp⟩

theorem SetMap.itemsOf_nodup {l : List (κ × List α)} (h : SetMap l) (k : κ) : (itemsOf k l).Nodup := by
  rcases itemsOf_mem_or_nil k l with hmem | hnil
  · exact h.nodup _ hmem
  · rw [hnil]
    exact List.nodup_nil

/-- A key is in the map exactly when it has items. -/
theorem SetMap.mem_keys_iff {l : List (κ × List α)} (h : SetMap l) (k : κ) :
    k ∈ l.map Prod.fst ↔ itemsOf k l ≠ [] := by
  constructor
  · intro hk
    obtain ⟨b, hb, rfl⟩ := List.mem_map.mp hk
    rw [itemsOf_of_mem h.keys_nodup hb]
    exact h.nonempty b hb
  · intro hk
    by_contra hnot
    exact hk (itemsOf_of_not_mem hnot)

/-- Setting the items of a key to a nonempty set of distinct items. -/
theorem SetMap.modifyOrCreate {l : List (κ × List α)} (h : SetMap l) {g : List α → List α}
    (hne : g (itemsOf k l) ≠ []) (hnodup : (g (itemsOf k l)).Nodup) : SetMap (Buckets.modifyOrCreate k g l) := by
  have hkeys := nodup_modifyOrCreate (k := k) (f := g) h.keys_nodup
  have hentry : ∀ b ∈ Buckets.modifyOrCreate k g l, b ∈ l ∨ b = (k, g (itemsOf k l)) := fun b hb => by
    by_cases hbk : b.1 = k
    · refine .inr (Prod.ext hbk ?_)
      rw [← itemsOf_of_mem hkeys hb, hbk, itemsOf_modifyOrCreate]
    · exact mem_modifyOrCreate hb
  refine ⟨hkeys, fun b hb => ?_, fun b hb => ?_⟩
  · rcases hentry b hb with hb | rfl
    · exact h.nonempty b hb
    · exact hne
  · rcases hentry b hb with hb | rfl
    · exact h.nodup b hb
    · exact hnodup

theorem SetMap.eraseKey {l : List (κ × List α)} (h : SetMap l) : SetMap (Buckets.eraseKey k l) := by
  refine ⟨?_, fun b hb => h.nonempty b (mem_eraseKey hb), fun b hb => h.nodup b (mem_eraseKey hb)⟩
  rw [map_fst_eraseKey]
  exact h.keys_nodup.erase k

end Find

end Buckets
