import Arqma.ServiceNodes.State

/-!
# The block winner

`state_t::get_block_winner` (`service_node_list.cpp`): the active node that has
waited longest for a reward, ties broken by the reward transaction index and then
by the key, and the payouts of its reward, in portions of `STAKING_SHARE_PARTS`.

## The model

The loop keeps the code's sentinel `(UINT64_MAX, UINT32_MAX, null_pkey)` and
compares waiting positions as `std::tuple` does. Each contributor is paid its
amount's share of what the operator leaves, computed with `mul128` and
`div128_64`, and the operator's address also gets the operator's cut.

Results:
* `getBlockWinner_payouts`: the payouts are those of the null winner or those of a
  record the list holds.
-/

namespace Arqma.ServiceNodes

open Arqma.Epee.IntUtil

/-- `payout_entry`. -/
structure PayoutEntry (α : Type) where
  /-- `address`. -/
  address : α
  /-- `portions`. -/
  portions : ℕ
  deriving DecidableEq, Repr

/-- `block_winner`. -/
structure BlockWinner (π α : Type) where
  /-- `key`. -/
  key : π
  /-- `payouts`. -/
  payouts : List (PayoutEntry α)
  deriving DecidableEq, Repr

variable {π α κ : Type}

/-- `null_winner`: the whole reward to `null_address`. -/
def nullWinner (nullAddress : α) : List (PayoutEntry α) := [⟨nullAddress, stakingShareParts⟩]

/-- `null_block_winner`: the null key, with the whole reward to `null_address`. -/
def nullBlockWinner (nullPkey : π) (nullAddress : α) : BlockWinner π α :=
  ⟨nullPkey, [⟨nullAddress, stakingShareParts⟩]⟩

/-- `operator<` of `std::tuple<uint64_t, uint32_t, crypto::public_key>`. -/
def waitingLt [LinearOrder π] (a b : ℕ × ℕ × π) : Bool :=
  a.1 < b.1 || (a.1 = b.1 && (a.2.1 < b.2.1 || (a.2.1 = b.2.1 && a.2.2 < b.2.2)))

/-- One entry of the loop of `get_block_winner`: an active node that has waited
longer than the best so far replaces it. -/
def oldestWaitingStep [LinearOrder π] (acc : (ℕ × ℕ × π) × Option (ServiceNodeInfo α κ))
    (e : π × ServiceNodeInfo α κ) : (ℕ × ℕ × π) × Option (ServiceNodeInfo α κ) :=
  if e.2.isActive then
    let waitingSince := (e.2.lastRewardBlockHeight, e.2.lastRewardTransactionIndex, e.1)
    if waitingLt waitingSince acc.1 then (waitingSince, some e.2) else acc
  else acc

/-- The loop of `get_block_winner`: the waiting position of the active node that has
waited longest, and its record. -/
def oldestWaiting [LinearOrder π] (nullPkey : π) (infos : List (π × ServiceNodeInfo α κ)) :
    (ℕ × ℕ × π) × Option (ServiceNodeInfo α κ) :=
  infos.foldl oldestWaitingStep ((uint64Max, uint32Max, nullPkey), none)

/-- The payouts of `get_block_winner` for the winner's record. -/
def winnerPayouts [DecidableEq α] (info : ServiceNodeInfo α κ) : List (PayoutEntry α) :=
  let remainingPortions := Word64.sub stakingShareParts info.portionsForOperator
  info.contributors.map fun contributor =>
    let resultlo := mulDiv128Lo contributor.amount remainingPortions info.stakingRequirement
    ⟨contributor.address,
      if contributor.address = info.operatorAddress then Word64.add resultlo info.portionsForOperator
      else resultlo⟩

/-- `state_t::get_block_winner`. -/
def State.getBlockWinner [LinearOrder π] [DecidableEq α] (nullPkey : π) (nullAddress : α)
    (st : State π α κ) : BlockWinner π α :=
  let (oldest, info) := oldestWaiting nullPkey st.serviceNodesInfos
  if oldest.2.2 = nullPkey then nullBlockWinner nullPkey nullAddress
  else
    match info with
    -- a key other than the null one comes with its record
    | none => nullBlockWinner nullPkey nullAddress
    | some info => ⟨oldest.2.2, winnerPayouts info⟩

/-- One entry keeps the record so far or takes its own. -/
theorem oldestWaitingStep_snd [LinearOrder π] (acc : (ℕ × ℕ × π) × Option (ServiceNodeInfo α κ))
    (e : π × ServiceNodeInfo α κ) :
    (oldestWaitingStep acc e).2 = acc.2 ∨ (oldestWaitingStep acc e).2 = some e.2 := by
  unfold oldestWaitingStep
  dsimp only
  split_ifs <;> simp

/-- The record the loop keeps is one of the list's. -/
theorem oldestWaiting_mem [LinearOrder π] (nullPkey : π) (infos : List (π × ServiceNodeInfo α κ))
    {info : ServiceNodeInfo α κ} (h : (oldestWaiting nullPkey infos).2 = some info) :
    ∃ key, (key, info) ∈ infos := by
  -- the loop keeps its start or an entry it has passed
  suffices hkeep : ∀ (l : List (π × ServiceNodeInfo α κ)) (acc : (ℕ × ℕ × π) × Option (ServiceNodeInfo α κ)),
      (∀ i, acc.2 = some i → ∃ key, (key, i) ∈ infos) → (∀ e ∈ l, e ∈ infos) →
      ∀ i, (l.foldl oldestWaitingStep acc).2 = some i → ∃ key, (key, i) ∈ infos from
    hkeep infos _ (by simp) (fun _ he => he) info h
  intro l
  induction l with
  | nil => intro acc hacc _ i hi; exact hacc i hi
  | cons e l ih =>
    intro acc hacc hl i hi
    rw [List.foldl_cons] at hi
    refine ih _ ?_ (fun x hx => hl x (List.mem_cons_of_mem _ hx)) i hi
    intro j hj
    rcases oldestWaitingStep_snd acc e with hs | hs
    · exact hacc j (hs ▸ hj)
    · rw [hs, Option.some.injEq] at hj
      exact ⟨e.1, hj ▸ hl e List.mem_cons_self⟩

/-- The payouts are those of the null winner, or those of a record the list holds. -/
theorem getBlockWinner_payouts [LinearOrder π] [DecidableEq α] (nullPkey : π) (nullAddress : α)
    (st : State π α κ) :
    (st.getBlockWinner nullPkey nullAddress).payouts = (nullBlockWinner nullPkey nullAddress).payouts ∨
      ∃ key info, (key, info) ∈ st.serviceNodesInfos ∧
        (st.getBlockWinner nullPkey nullAddress).payouts = winnerPayouts info := by
  unfold State.getBlockWinner
  cases hw : oldestWaiting nullPkey st.serviceNodesInfos with
  | mk oldest info =>
    dsimp only
    split_ifs
    · exact .inl rfl
    · cases info with
      | none => exact .inl rfl
      | some info =>
        obtain ⟨key, hkey⟩ := oldestWaiting_mem nullPkey st.serviceNodesInfos (by rw [hw])
        exact .inr ⟨key, info, hkey, rfl⟩

end Arqma.ServiceNodes
