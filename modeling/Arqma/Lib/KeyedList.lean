import Mathlib

/-!
# Keyed lists

A vector of records, each filed under a key, as a database table or a map is when the
keys are distinct: the lookup of a key by `find?`, its removal by `eraseP`, and what
they do to the keys and to a sum over the records.
-/

namespace KeyedList

variable {ι γ : Type*} [DecidableEq ι] {l : List (ι × γ)} {i : ι} {e : ι × γ}

/-- A lookup by key finds a record of that key. -/
theorem mem_of_find?_key (h : l.find? (fun x => x.1 = i) = some e) : e ∈ l ∧ e.1 = i :=
  ⟨List.mem_of_find?_eq_some h, by simpa using List.find?_some h⟩

/-- With distinct keys, a lookup finds the record of its key. -/
theorem find?_key_of_mem (hl : (l.map Prod.fst).Nodup) (he : e ∈ l) : l.find? (fun x => x.1 = e.1) = some e := by
  cases hfind : l.find? (fun x => x.1 = e.1) with
  | none => simpa using List.find?_eq_none.mp hfind e he
  | some e' =>
    obtain ⟨he', hkey⟩ := mem_of_find?_key hfind
    exact congrArg some (List.inj_on_of_nodup_map hl he' he hkey)

theorem find?_key_eq_none (h : i ∉ l.map Prod.fst) : l.find? (fun x => x.1 = i) = none := by
  refine List.find?_eq_none.mpr fun x hx hxi => h ?_
  exact List.mem_map.mpr ⟨x, hx, by simpa using hxi⟩

/-- Removing the first record of a key takes that key out of the keys once, whatever
field holds the key. -/
theorem map_eraseP_key {α : Type*} (f : α → ι) :
    ∀ l : List α, (l.eraseP fun x => f x = i).map f = (l.map f).erase i
  | [] => rfl
  | x :: rest => by
    by_cases hx : f x = i
    · simp [hx]
    · have hne : (f x == i) = false := beq_false_of_ne hx
      simp [hx, hne, map_eraseP_key f rest]

theorem map_fst_eraseP_key (l : List (ι × γ)) : (l.eraseP fun x => x.1 = i).map Prod.fst = (l.map Prod.fst).erase i :=
  map_eraseP_key Prod.fst l

/-- Erasing a member takes its image out of the images once. -/
theorem map_erase_perm {α : Type*} [BEq α] [LawfulBEq α] (f : α → ι) {l : List α} {a : α} (ha : a ∈ l) :
    List.Perm ((l.erase a).map f) ((l.map f).erase (f a)) := by
  have hperm : List.Perm (l.map f) (f a :: (l.erase a).map f) := by
    simpa using (List.perm_cons_erase ha).map f
  simpa using (hperm.erase (f a)).symm

/-- With distinct keys, the removal of a key takes out its record and no other. -/
theorem mem_eraseP_key (hl : (l.map Prod.fst).Nodup) : e ∈ l.eraseP (fun x => x.1 = i) ↔ e ∈ l ∧ e.1 ≠ i := by
  by_cases hei : e.1 = i
  · refine ⟨fun he => absurd hei ?_, fun he => absurd hei he.2⟩
    have hkeys : e.1 ∈ ((l.map Prod.fst).erase i) := by
      rw [← map_fst_eraseP_key]
      exact List.mem_map_of_mem he
    rw [hei] at hkeys
    exact fun _ => (List.Nodup.not_mem_erase hl) hkeys
  · rw [List.mem_eraseP_of_neg (by simpa using hei)]
    exact ⟨fun he => ⟨he, hei⟩, fun he => he.1⟩

/-- With distinct keys, removing the key of a record takes its value out of a sum. -/
theorem sum_eraseP_key {g : ι × γ → ℕ} :
    ∀ {l : List (ι × γ)}, (l.map Prod.fst).Nodup → e ∈ l → ((l.eraseP fun x => x.1 = e.1).map g).sum + g e = (l.map g).sum
  | [], _, he => absurd he List.not_mem_nil
  | x :: rest, hl, he => by
    obtain ⟨hx, hrest⟩ := List.nodup_cons.mp hl
    by_cases hkey : x.1 = e.1
    · have hxe : x = e := by
        rcases List.mem_cons.mp he with h | h
        · exact h.symm
        · exact absurd (hkey ▸ List.mem_map_of_mem h) hx
      subst hxe
      simp [add_comm]
    · have he' : e ∈ rest := by
        rcases List.mem_cons.mp he with h | h
        · exact absurd (congrArg Prod.fst h).symm hkey
        · exact h
      have ih : ((rest.eraseP fun x => x.1 = e.1).map g).sum + g e = (rest.map g).sum := sum_eraseP_key hrest he'
      rw [List.eraseP_cons_of_neg (p := fun y : ι × γ => decide (y.1 = e.1)) (by simpa using hkey)]
      simp only [List.map_cons, List.sum_cons]
      omega

end KeyedList
