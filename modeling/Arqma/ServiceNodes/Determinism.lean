import Arqma.ServiceNodes.Quorum
import Arqma.ServiceNodes.Winner
import Arqma.Lib.ArgMinFold

/-!
# The block winner does not depend on the enumeration of the map

`service_nodes_infos` is an `std::unordered_map`, whose enumeration order differs from
node to node, and every node must still agree on the block winner. This module proves
that `get_block_winner` is a function of the map and not of its enumeration: two states
that hold the same key and record pairs, with distinct keys, in any two orders, give the
same winner (`getBlockWinner_perm`).

## The argument

`get_block_winner` keeps the node of least waiting position, and the key is part of
that position: positions are distinct, so the loop commutes (`ArgMinFold`).
-/

namespace Arqma.ServiceNodes

variable {π α κ : Type}

/-! ### The winner -/

section Winner

variable [LinearOrder π]

/-- `operator<` of the waiting positions, as a relation. -/
def WaitingLt (a b : ℕ × ℕ × π) : Prop := waitingLt a b = true

instance : DecidableRel (WaitingLt (π := π)) := fun a b =>
  inferInstanceAs (Decidable (waitingLt a b = true))

theorem waitingLt_iff (a b : ℕ × ℕ × π) :
    WaitingLt a b ↔ a.1 < b.1 ∨ a.1 = b.1 ∧ (a.2.1 < b.2.1 ∨ a.2.1 = b.2.1 ∧ a.2.2 < b.2.2) := by
  simp [WaitingLt, waitingLt]

/-- The waiting positions are ordered lexicographically, a strict total order. -/
instance : IsStrictTotalOrder (ℕ × ℕ × π) WaitingLt where
  irrefl a := by simp [waitingLt_iff]
  trans a b c hab hbc := by
    rw [waitingLt_iff] at hab hbc ⊢
    rcases hab with h | ⟨h, h' | ⟨h', h''⟩⟩ <;> rcases hbc with g | ⟨g, g' | ⟨g', g''⟩⟩
    all_goals first
      | (left; omega)
      | (right; exact ⟨by omega, by left; omega⟩)
      | (right; exact ⟨by omega, by right; exact ⟨by omega, lt_trans h'' g''⟩⟩)
  trichotomous a b hab hba := by
    obtain ⟨a₁, a₂, a₃⟩ := a
    obtain ⟨b₁, b₂, b₃⟩ := b
    simp only [waitingLt_iff] at hab hba
    -- neither position comes first, so each component is equal in turn
    have h₁ : a₁ = b₁ := by
      rcases lt_trichotomy a₁ b₁ with h | h | h
      · exact absurd (.inl h) hab
      · exact h
      · exact absurd (.inl h) hba
    subst h₁
    have h₂ : a₂ = b₂ := by
      rcases lt_trichotomy a₂ b₂ with h | h | h
      · exact absurd (.inr ⟨rfl, .inl h⟩) hab
      · exact h
      · exact absurd (.inr ⟨rfl, .inl h⟩) hba
    subst h₂
    rcases lt_trichotomy a₃ b₃ with h | h | h
    · exact absurd (.inr ⟨rfl, .inr ⟨rfl, h⟩⟩) hab
    · rw [h]
    · exact absurd (.inr ⟨rfl, .inr ⟨rfl, h⟩⟩) hba

/-- A node's waiting position: its last reward's height and transaction index, and its key. -/
def waitingKey (e : π × ServiceNodeInfo α κ) : ℕ × ℕ × π :=
  (e.2.lastRewardBlockHeight, e.2.lastRewardTransactionIndex, e.1)

/-- The loop of `get_block_winner` keeps the active node of least waiting position. -/
theorem oldestWaitingStep_eq (acc : (ℕ × ℕ × π) × Option (ServiceNodeInfo α κ)) (e : π × ServiceNodeInfo α κ) :
    oldestWaitingStep acc e = ArgMinFold.step WaitingLt (fun e => e.2.isActive) waitingKey Prod.snd acc e := by
  unfold oldestWaitingStep ArgMinFold.step WaitingLt waitingKey
  by_cases hactive : e.2.isActive <;> simp [hactive]

/-- Two enumerations of one map wait in the same order. -/
theorem oldestWaiting_perm (nullPkey : π) {l₁ l₂ : List (π × ServiceNodeInfo α κ)} (h : l₁.Perm l₂)
    (hnodup : (l₁.map Prod.fst).Nodup) : oldestWaiting nullPkey l₁ = oldestWaiting nullPkey l₂ := by
  have hstep : (oldestWaitingStep : _ → π × ServiceNodeInfo α κ → _) =
      ArgMinFold.step WaitingLt (fun e => e.2.isActive) waitingKey Prod.snd :=
    funext fun acc => funext fun e => oldestWaitingStep_eq acc e
  unfold oldestWaiting
  rw [hstep]
  -- the key is part of the waiting position
  exact ArgMinFold.foldl_perm h
    (fun x hx y hy hxy => List.inj_on_of_nodup_map hnodup hx hy (congrArg (fun w => w.2.2) hxy)) _

/-- **The winner is a function of the map.** Two enumerations of one map of distinct keys
give the same block winner. -/
theorem getBlockWinner_perm [DecidableEq α] (nullPkey : π) (nullAddress : α) {st₁ st₂ : State π α κ}
    (h : st₁.serviceNodesInfos.Perm st₂.serviceNodesInfos)
    (hnodup : (st₁.serviceNodesInfos.map Prod.fst).Nodup) :
    st₁.getBlockWinner nullPkey nullAddress = st₂.getBlockWinner nullPkey nullAddress := by
  unfold State.getBlockWinner
  rw [oldestWaiting_perm nullPkey h hnodup]

end Winner

/-- The two nodes of `twoActiveNodesState`, enumerated the other way round. -/
def twoActiveNodesSwapped : State ℕ ℕ ℕ := ⟨[(2, activeNodeInfo), (1, activeNodeInfo)], [], 10⟩

/-- Both nodes last won at one height and index, so the key decides: node `1` wins though
the swapped enumeration meets node `2` first. -/
theorem getBlockWinner_perm_two_active_nodes :
    twoActiveNodesState.serviceNodesInfos.Perm twoActiveNodesSwapped.serviceNodesInfos ∧
      (twoActiveNodesState.serviceNodesInfos.map Prod.fst).Nodup ∧
      twoActiveNodesState.getBlockWinner 0 0 = twoActiveNodesSwapped.getBlockWinner 0 0 ∧
      (twoActiveNodesSwapped.getBlockWinner 0 0).key = 1 :=
  ⟨List.Perm.swap _ _ _, by decide,
    getBlockWinner_perm 0 0 (List.Perm.swap _ _ _) (by decide), by decide⟩

end Arqma.ServiceNodes
