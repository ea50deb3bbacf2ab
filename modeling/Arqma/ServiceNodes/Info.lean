import Arqma.ServiceNodes.Rules

/-!
# Service-node records and their stake accounting

`service_node_info` (`service_node_list.h`) with its contributors, the predicates
the list reads off it, and the stake accounting that `process_contribution_tx`
(`service_node_list.cpp`) does on one record once a contribution has passed its
checks.

## The model

Addresses `α` and key images `κ` are left abstract: the list only compares them.
The record keeps the fields that the modelled functions read or write; those of
the uptime proofs, the decommission counters, the IP change height and the
version are left out. The accounting is transcribed with the code's unsigned
arithmetic, so that a state in which more is reserved than required would wrap
exactly as the code does.

`StakeInv` is the accounting invariant of one record: the totals are the sums over
the contributors, no contributor has paid more than it reserved, nothing is
reserved beyond the requirement, the contributors' addresses are distinct with
the operator first, and the operator's cut is at most the whole stake.

Results:
* `StakeInv.contributeAt`, `StakeInv.addContributor`: the accounting of a
  contribution keeps the invariant, for a known contributor and for a new one.
* `StakeInv.totalContributed_le`: nothing is contributed beyond the requirement.
-/

namespace Arqma.ServiceNodes

/-- `service_node_info::contribution_t`: a locked key image and the amount it locks. -/
structure Contribution (κ : Type) where
  /-- `key_image`. -/
  keyImage : κ
  /-- `amount`. -/
  amount : ℕ
  deriving DecidableEq, Repr

/-- `service_node_info::contributor_t`. -/
structure Contributor (α κ : Type) where
  /-- `amount`: what the contributor has staked. -/
  amount : ℕ
  /-- `reserved`: what the contributor is entitled to stake. -/
  reserved : ℕ
  /-- `address`. -/
  address : α
  /-- `locked_contributions`. -/
  lockedContributions : List (Contribution κ)
  deriving DecidableEq, Repr

/-- `service_node_info`. -/
structure ServiceNodeInfo (α κ : Type) where
  /-- `registration_height`. -/
  registrationHeight : ℕ
  /-- `requested_unlock_height`. -/
  requestedUnlockHeight : ℕ
  /-- `last_reward_block_height`. -/
  lastRewardBlockHeight : ℕ
  /-- `last_reward_transaction_index`. -/
  lastRewardTransactionIndex : ℕ
  /-- `active_since_height`: negative while decommissioned. -/
  activeSinceHeight : ℤ
  /-- `contributors`. -/
  contributors : List (Contributor α κ)
  /-- `total_contributed`. -/
  totalContributed : ℕ
  /-- `total_reserved`. -/
  totalReserved : ℕ
  /-- `staking_requirement`. -/
  stakingRequirement : ℕ
  /-- `portions_for_operator`. -/
  portionsForOperator : ℕ
  /-- `swarm_id`. -/
  swarmId : ℕ
  /-- `operator_address`. -/
  operatorAddress : α
  deriving DecidableEq, Repr

variable {α κ : Type}

namespace ServiceNodeInfo

/-- `is_fully_funded`. -/
def isFullyFunded (info : ServiceNodeInfo α κ) : Bool :=
  info.stakingRequirement ≤ info.totalContributed

/-- `is_decommissioned`. -/
def isDecommissioned (info : ServiceNodeInfo α κ) : Bool := info.activeSinceHeight < 0

/-- `is_active`. -/
def isActive (info : ServiceNodeInfo α κ) : Bool := info.isFullyFunded && !info.isDecommissioned

/-- `total_num_locked_contributions`. -/
def totalNumLockedContributions (info : ServiceNodeInfo α κ) : ℕ :=
  (info.contributors.map fun c => c.lockedContributions.length).sum

/-- The accounting of `process_contribution_tx` on the contributor at `position`,
from `can_increase_reserved_by` to the bump of `reserved`: the contributor takes at
most what is left of the requirement beyond its own reservation, and a
reservation it overpays grows to its amount. -/
def contributeAt (info : ServiceNodeInfo α κ) (position transferred : ℕ)
    (locked : List (Contribution κ)) : ServiceNodeInfo α κ :=
  match info.contributors[position]? with
  -- the code only contributes at the position of a contributor
  | none => info
  | some contributor =>
    let canIncreaseReservedBy := Word64.sub info.stakingRequirement info.totalReserved
    let maxAmount := Word64.add contributor.reserved canIncreaseReservedBy
    let transferred := min (Word64.sub maxAmount contributor.amount) transferred
    let amount := Word64.add contributor.amount transferred
    let grows := decide (contributor.reserved < amount)
    { info with
      contributors := info.contributors.set position
        { contributor with
          amount
          reserved := if grows then amount else contributor.reserved
          lockedContributions := contributor.lockedContributions ++ locked }
      totalContributed := Word64.add info.totalContributed transferred
      totalReserved :=
        if grows then Word64.add info.totalReserved (Word64.sub amount contributor.reserved)
        else info.totalReserved }

end ServiceNodeInfo

/-! ### The accounting invariant -/

open ServiceNodeInfo

/-- The stake accounting of one record. -/
structure StakeInv (info : ServiceNodeInfo α κ) : Prop where
  stakingRequirement_pos : 0 < info.stakingRequirement
  stakingRequirement_lt : info.stakingRequirement < 2 ^ 64
  totalReserved_eq : info.totalReserved = (info.contributors.map Contributor.reserved).sum
  totalReserved_le : info.totalReserved ≤ info.stakingRequirement
  amount_le_reserved : ∀ c ∈ info.contributors, c.amount ≤ c.reserved
  totalContributed_eq : info.totalContributed = (info.contributors.map Contributor.amount).sum
  addresses_nodup : (info.contributors.map Contributor.address).Nodup
  operator_first : (info.contributors.map Contributor.address).head? = some info.operatorAddress
  portionsForOperator_le : info.portionsForOperator ≤ stakingShareParts

namespace StakeInv

variable {info : ServiceNodeInfo α κ}

/-- The invariant reads the accounting fields only: an update of the others keeps it. -/
theorem congr {info' : ServiceNodeInfo α κ} (h : StakeInv info)
    (hc : info'.contributors = info.contributors) (htc : info'.totalContributed = info.totalContributed)
    (htr : info'.totalReserved = info.totalReserved)
    (hs : info'.stakingRequirement = info.stakingRequirement)
    (hp : info'.portionsForOperator = info.portionsForOperator)
    (ho : info'.operatorAddress = info.operatorAddress) : StakeInv info' := by
  obtain ⟨h1, h2, h3, h4, h5, h6, h7, h8, h9⟩ := h
  exact ⟨hs ▸ h1, hs ▸ h2, hc ▸ htr ▸ h3, hs ▸ htr ▸ h4, hc ▸ h5, hc ▸ htc ▸ h6, hc ▸ h7,
    hc ▸ ho ▸ h8, hp ▸ h9⟩

/-- A contributor's outstanding reservation is part of the whole: what the others
have paid, plus what this one reserved, is at most the total reserved. -/
theorem totalContributed_add_reserved_le (h : StakeInv info) {c : Contributor α κ}
    (hc : c ∈ info.contributors) : info.totalContributed + c.reserved ≤ info.totalReserved + c.amount := by
  have hgap : c.reserved - c.amount ≤ (info.contributors.map fun d => d.reserved - d.amount).sum :=
    List.le_sum_of_mem (List.mem_map_of_mem hc)
  have hsplit : (info.contributors.map fun d => d.reserved - d.amount).sum + info.totalContributed =
      info.totalReserved := by
    rw [h.totalContributed_eq, h.totalReserved_eq, ← List.sum_map_add]
    congr 1
    exact List.map_congr_left fun d hd => Nat.sub_add_cancel (h.amount_le_reserved d hd)
  have hca := h.amount_le_reserved c hc
  omega

/-- Nothing is contributed beyond what is reserved, so beyond the requirement. -/
theorem totalContributed_le (h : StakeInv info) : info.totalContributed ≤ info.stakingRequirement := by
  have hle : info.totalContributed ≤ info.totalReserved := by
    rw [h.totalContributed_eq, h.totalReserved_eq]
    exact List.sum_le_sum h.amount_le_reserved
  exact le_trans hle h.totalReserved_le

theorem reserved_le (h : StakeInv info) {c : Contributor α κ} (hc : c ∈ info.contributors) :
    c.reserved ≤ info.totalReserved := by
  rw [h.totalReserved_eq]
  exact List.le_sum_of_mem (List.mem_map_of_mem hc)

/-- The operator heads the contributors, and no other contributor has its address. -/
theorem operator_cons (h : StakeInv info) : ∃ c rest, info.contributors = c :: rest ∧
    c.address = info.operatorAddress ∧ info.operatorAddress ∉ rest.map Contributor.address := by
  have hfirst := h.operator_first
  have hnodup := h.addresses_nodup
  cases hcs : info.contributors with
  | nil => simp [hcs] at hfirst
  | cons c rest =>
    simp only [hcs, List.map_cons, List.head?_cons, Option.some.injEq, List.nodup_cons] at hfirst hnodup
    exact ⟨c, rest, rfl, hfirst, hfirst ▸ hnodup.1⟩

/-- A new contributor, with nothing reserved and nothing paid, at the end. -/
theorem addContributor (h : StakeInv info) {address : α}
    (haddr : address ∉ info.contributors.map Contributor.address) :
    StakeInv { info with contributors := info.contributors ++ [⟨0, 0, address, []⟩] } := by
  obtain ⟨c, rest, hcs, -, -⟩ := h.operator_cons
  obtain ⟨h1, h2, h3, h4, h5, h6, h7, h8, h9⟩ := h
  refine ⟨h1, h2, ?_, h4, ?_, ?_, ?_, ?_, h9⟩
  · simpa using h3
  · intro c hc
    rcases List.mem_append.mp hc with hc | hc
    · exact h5 c hc
    · simp at hc; simp [hc]
  · simpa using h6
  · rw [List.map_append, List.nodup_append]
    refine ⟨h7, by simp, fun a ha b hb => ?_⟩
    rw [List.map_singleton, List.mem_singleton] at hb
    rintro rfl
    rw [hb] at ha
    exact haddr ha
  · -- the operator is already first, so appending keeps the head
    simpa [hcs] using h8

end StakeInv

/-! ### A contribution keeps the accounting -/

/-- Writing back a contributor with its address unchanged leaves the addresses alone. -/
theorem map_address_set {l : List (Contributor α κ)} {i : ℕ} {c c' : Contributor α κ}
    (hc : l[i]? = some c) (haddr : c'.address = c.address) :
    (l.set i c').map Contributor.address = l.map Contributor.address := by
  obtain ⟨hi, rfl⟩ := List.getElem?_eq_some_iff.mp hc
  rw [List.map_set, haddr]
  have hi' : i < (l.map Contributor.address).length := by simpa using hi
  have : (l.map Contributor.address)[i] = l[i].address := List.getElem_map _
  rw [← this, List.set_getElem_self]

/-- The room a contributor has, `max_amount - contributor.amount`, on a record that
keeps the invariant: no unsigned operation on the way wraps. -/
theorem contribution_room_eq {S TR r a : ℕ} (hS : S < 2 ^ 64) (hTR : TR ≤ S) (hr : r ≤ TR)
    (ha : a ≤ r) : Word64.sub (Word64.add r (Word64.sub S TR)) a = r + (S - TR) - a := by
  have hmax : Word64.add r (Word64.sub S TR) = r + (S - TR) := by
    rw [Word64.sub_of_le hTR hS]; exact Word64.add_of_lt (by omega)
  rw [hmax]
  exact Word64.sub_of_le (by omega) (by omega)

namespace StakeInv

variable {info : ServiceNodeInfo α κ}

/-- Writing back one contributor, with its address, keeps the invariant when the
totals move with it and the reservation stays within the requirement. -/
theorem setContributor (h : StakeInv info) {i : ℕ} {c c' : Contributor α κ}
    (hc : info.contributors[i]? = some c) (haddr : c'.address = c.address)
    (hc' : c'.amount ≤ c'.reserved) {tc tr : ℕ}
    (htr : tr + c.reserved = info.totalReserved + c'.reserved) (htrle : tr ≤ info.stakingRequirement)
    (htc : tc + c.amount = info.totalContributed + c'.amount) :
    StakeInv { info with
      contributors := info.contributors.set i c'
      totalContributed := tc
      totalReserved := tr } := by
  have hreserved := ListSums.sum_map_set_add Contributor.reserved hc c'
  have hpaid := ListSums.sum_map_set_add Contributor.amount hc c'
  have haddrs := map_address_set hc haddr
  refine ⟨h.stakingRequirement_pos, h.stakingRequirement_lt, ?_, htrle, ?_, ?_, ?_, ?_,
    h.portionsForOperator_le⟩
  · have := h.totalReserved_eq
    dsimp only
    omega
  · intro d hd
    rcases List.mem_or_eq_of_mem_set hd with hd | rfl
    · exact h.amount_le_reserved d hd
    · exact hc'
  · have := h.totalContributed_eq
    dsimp only
    omega
  · dsimp only; rw [haddrs]; exact h.addresses_nodup
  · dsimp only; rw [haddrs]; exact h.operator_first

/-- The accounting of `process_contribution_tx` keeps the invariant, whatever the
amount transferred. -/
theorem contributeAt (h : StakeInv info) (position transferred : ℕ) (locked : List (Contribution κ)) :
    StakeInv (info.contributeAt position transferred locked) := by
  unfold ServiceNodeInfo.contributeAt
  cases hc : info.contributors[position]? with
  | none => exact h
  | some c =>
    have hmem : c ∈ info.contributors := List.mem_of_getElem? hc
    have hS := h.stakingRequirement_lt
    have hTR := h.totalReserved_le
    have hr := h.reserved_le hmem
    have ha := h.amount_le_reserved c hmem
    have hTC := h.totalContributed_add_reserved_le hmem
    dsimp only
    rw [contribution_room_eq hS hTR hr ha]
    -- what the contributor pays is at most its room
    generalize ht : min (c.reserved + (info.stakingRequirement - info.totalReserved) - c.amount)
      transferred = t'
    have ht' : t' ≤ c.reserved + (info.stakingRequirement - info.totalReserved) - c.amount := by
      rw [← ht]; exact min_le_left _ _
    have hamount : Word64.add c.amount t' = c.amount + t' := Word64.add_of_lt (by omega)
    have hpaid : Word64.add info.totalContributed t' = info.totalContributed + t' :=
      Word64.add_of_lt (by omega)
    rw [hamount, hpaid]
    by_cases hg : c.reserved < c.amount + t'
    · -- an overpaid reservation grows to the amount, and the total with it
      have hgrow : Word64.add info.totalReserved (Word64.sub (c.amount + t') c.reserved) =
          info.totalReserved + (c.amount + t' - c.reserved) := by
        rw [Word64.sub_of_le (by omega) (by omega)]
        exact Word64.add_of_lt (by omega)
      simp only [hg, decide_true, if_true, hgrow]
      refine h.setContributor hc ?_ le_rfl ?_ ?_ ?_
      · rfl
      · dsimp only; omega
      · omega
      · dsimp only; omega
    · simp only [hg, decide_false, Bool.false_eq_true, if_false]
      refine h.setContributor hc ?_ ?_ ?_ hTR ?_
      · rfl
      · dsimp only; omega
      · rfl
      · dsimp only; omega

end StakeInv

end Arqma.ServiceNodes
