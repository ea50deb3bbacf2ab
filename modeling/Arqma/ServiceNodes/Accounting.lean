import Arqma.ServiceNodes.Winner
import Arqma.Lib.FoldInv

/-!
# The stake accounting over whole runs

Every record that block processing leaves in the list keeps the stake accounting
(`StakeInv`), whatever the blocks: registrations, contributions, state changes,
key-image unlocks, expiries, the rotation of the winner and the swarm updates, in
any order. And so the reward of every block winner is split into at most
`STAKING_SHARE_PARTS` portions.

## The argument

Each transition is one lemma: a registration builds a record that keeps the
invariant (`isRegistrationTx_stakeInv`), a contribution updates one with
`contributeAt` (`StakeInv.contributeAt`), and every other transition erases a
record or writes fields the invariant does not read (`StakeInv.congr`). The loops
of `update_from_block` keep it by `FoldInv`, and the runs by induction.

The payouts of a record that keeps the invariant pay each contributor its amount's
share of `STAKING_SHARE_PARTS - portions_for_operator`, and the operator, who is
exactly one contributor, its cut on top: since nothing is contributed beyond the
requirement, the shares add up to at most what the operator leaves.
-/

namespace Arqma.ServiceNodes

open Arqma.Epee.IntUtil

variable {π α κ : Type}

/-- Every record of the list keeps the stake accounting. -/
def State.AllStakeInv (st : State π α κ) : Prop := ∀ e ∈ st.serviceNodesInfos, StakeInv e.2

/-! ### The map operations -/

namespace State.AllStakeInv

variable {st : State π α κ} {key : π} {info : ServiceNodeInfo α κ}

theorem append (h : st.AllStakeInv) (hi : StakeInv info) :
    ({ st with serviceNodesInfos := st.serviceNodesInfos ++ [(key, info)] } : State π α κ).AllStakeInv := by
  intro e he
  rcases List.mem_append.mp he with he | he
  · exact h e he
  · rw [List.mem_singleton] at he
    subst he
    exact hi

variable [DecidableEq π]

theorem findInfo (h : st.AllStakeInv) (hf : st.findInfo key = some info) : StakeInv info :=
  h _ (State.findInfo_mem hf)

theorem setInfo (h : st.AllStakeInv) (hi : StakeInv info) : (st.setInfo key info).AllStakeInv := by
  intro e he
  simp only [State.setInfo, List.mem_map] at he
  obtain ⟨e', he', rfl⟩ := he
  split_ifs
  · exact hi
  · exact h e' he'

/-- Writing fields of a record that the accounting does not read. -/
theorem setInfoOf (h : st.AllStakeInv) (hf : st.findInfo key = some info) {info' : ServiceNodeInfo α κ}
    (hc : info'.contributors = info.contributors) (htc : info'.totalContributed = info.totalContributed)
    (htr : info'.totalReserved = info.totalReserved)
    (hs : info'.stakingRequirement = info.stakingRequirement)
    (hp : info'.portionsForOperator = info.portionsForOperator)
    (ho : info'.operatorAddress = info.operatorAddress) : (st.setInfo key info').AllStakeInv :=
  h.setInfo ((h.findInfo hf).congr hc htc htr hs hp ho)

theorem eraseInfo (h : st.AllStakeInv) : (st.eraseInfo key).AllStakeInv :=
  fun e he => h e (List.mem_of_mem_filter he)

end State.AllStakeInv

/-! ### Transactions -/

section Transactions

variable [DecidableEq π] {st : State π α κ}

theorem processRegistrationTx_allStakeInv [DecidableEq α] (nettype : NetworkType) (block : Block π)
    (tx : TransferTx π α κ) (index : ℕ) (h : st.AllStakeInv) :
    (processRegistrationTx nettype block tx index st).2.AllStakeInv := by
  unfold processRegistrationTx
  cases hreg : isRegistrationTx nettype block.timestamp block.height index tx with
  | none => exact h
  | some entry =>
    obtain ⟨key, info⟩ := entry
    dsimp only
    cases st.findInfo key with
    | some _ => exact h
    | none => exact h.append (isRegistrationTx_stakeInv hreg)

/-- The contributor list a contribution goes to keeps the invariant: a new
contributor has an address no other has. -/
theorem StakeInv.withContributorPosition [DecidableEq α] {info : ServiceNodeInfo α κ} (h : StakeInv info) (address : α) :
    StakeInv { info with contributors := (contributorPosition info.contributors address).1 } := by
  unfold contributorPosition
  cases hpos : info.contributors.findIdx? (fun c => c.address = address) with
  | some position => exact h
  | none =>
    apply h.addContributor
    rw [List.findIdx?_eq_none_iff] at hpos
    simp only [List.mem_map, not_exists, not_and]
    intro c hc hca
    simpa [hca] using hpos c hc

theorem processContributionTx_allStakeInv [DecidableEq α] (block : Block π) (tx : TransferTx π α κ) (index : ℕ)
    (h : st.AllStakeInv) : (processContributionTx block tx index st).2.AllStakeInv := by
  unfold processContributionTx
  split
  · rename_i pubkey contribution _ _
    cases hf : st.findInfo pubkey with
    | none => exact h
    | some curinfo =>
      dsimp only
      have hcontributed := ((h.findInfo hf).withContributorPosition contribution.address).contributeAt
        (contributorPosition curinfo.contributors contribution.address).2 contribution.transferred
        contribution.lockedContributions
      split_ifs
      · exact h
      · exact h
      · exact h
      · -- the reward fields and the activation height are outside the accounting
        exact h.setInfo (hcontributed.congr rfl rfl rfl rfl rfl rfl)
      · exact h.setInfo (hcontributed.congr rfl rfl rfl rfl rfl rfl)
  · exact h

theorem processStateChangeTx_allStakeInv (nettype : NetworkType) (block : Block π)
    (change : Option (π × NewState)) (h : st.AllStakeInv) :
    (processStateChangeTx nettype block change st).2.AllStakeInv := by
  unfold processStateChangeTx
  cases change with
  | none => exact h
  | some c =>
    obtain ⟨key, newState⟩ := c
    dsimp only
    cases hf : st.findInfo key with
    | none => exact h
    | some info =>
      cases newState <;> dsimp only
      case deregister => exact h.eraseInfo
      all_goals
        split_ifs
        · exact h
        · exact h.setInfoOf hf rfl rfl rfl rfl rfl rfl

theorem processKeyImageUnlockTx_allStakeInv [DecidableEq κ] (nettype : NetworkType) (blockHeight : ℕ)
    (tx : KeyImageUnlockTx π κ) (h : st.AllStakeInv) :
    (processKeyImageUnlockTx nettype blockHeight tx st).2.AllStakeInv := by
  unfold processKeyImageUnlockTx
  cases tx.serviceNodePubkey with
  | none => exact h
  | some key =>
    dsimp only
    cases hf : st.findInfo key with
    | none => exact h
    | some info =>
      dsimp only
      split_ifs
      · exact h
      · cases tx.unlock with
        | none => exact h
        | some unlock =>
          dsimp only
          split_ifs
          · exact h.setInfoOf hf rfl rfl rfl rfl rfl rfl
          · exact h
          · exact h

end Transactions

/-! ### Blocks and runs -/

section Blocks

variable [LinearOrder π] {st : State π α κ}

theorem expireNodes_allStakeInv (expired : List π) (needSwarmUpdate : Bool) (h : st.AllStakeInv) :
    (expireNodes expired needSwarmUpdate st).2.AllStakeInv := by
  unfold expireNodes
  refine FoldInv.foldl (P := fun acc : Bool × State π α κ => acc.2.AllStakeInv) expired h ?_
  intro acc key _ hacc
  cases acc.2.findInfo key with
  | none => exact hacc
  | some info => exact hacc.eraseInfo

theorem advanceWinner_allStakeInv (block : Block π) (h : st.AllStakeInv) :
    (advanceWinner block st).AllStakeInv := by
  unfold advanceWinner
  cases hf : st.findInfo block.serviceNodeWinner with
  | none => exact h
  | some info => exact h.setInfoOf hf rfl rfl rfl rfl rfl rfl

theorem processTx_allStakeInv [DecidableEq α] [DecidableEq κ] (nettype : NetworkType) (block : Block π) (acc : Bool × State π α κ)
    (entry : Tx π α κ × ℕ) (h : acc.2.AllStakeInv) : (processTx nettype block acc entry).2.AllStakeInv := by
  obtain ⟨tx, index⟩ := entry
  cases tx with
  | transfer tx =>
    exact processContributionTx_allStakeInv block tx index
      (processRegistrationTx_allStakeInv nettype block tx index h)
  | stateChange change => exact processStateChangeTx_allStakeInv nettype block change h
  | keyImageUnlock tx => exact processKeyImageUnlockTx_allStakeInv nettype block.height tx h
  | other => exact h

theorem applySwarms_allStakeInv {swarms : List (ℕ × List π)} {st' : State π α κ}
    (h : applySwarms swarms st = some st') (hst : st.AllStakeInv) : st'.AllStakeInv := by
  unfold applySwarms at h
  -- the outer loop over the swarms and the inner one over their nodes keep it alike
  refine FoldInv.foldlM_option swarms h hst ?_
  intro acc entry acc' _ hentry hacc
  refine FoldInv.foldlM_option entry.2 hentry hacc ?_
  intro s snode s' _ hs hs'
  cases hf : s.findInfo snode with
  | none => simp [hf] at hs
  | some info =>
    simp only [hf, Option.some.injEq] at hs
    subst hs
    split_ifs
    · exact hs'
    · exact hs'.setInfoOf hf rfl rfl rfl rfl rfl rfl

/-- One block keeps the accounting of every record. -/
theorem updateFromBlock_allStakeInv [DecidableEq α] [DecidableEq κ] {nettype : NetworkType}
    {swarmUpdate : List (π × ServiceNodeInfo α κ) → ℕ → Option (List (ℕ × List π))}
    {block : Block π} {txs : List (Tx π α κ)} {st' : State π α κ}
    (h : updateFromBlock nettype swarmUpdate block txs st = some st') (hst : st.AllStakeInv) :
    st'.AllStakeInv := by
  unfold updateFromBlock at h
  -- the stages of the block, each with what it keeps
  extract_lets st₀ at h
  have h₀ : st₀.AllStakeInv := hst
  split at h
  next needSwarmUpdate₁ st₁ hE =>
  have h₁ : st₁.AllStakeInv := by
    have h := expireNodes_allStakeInv (st₀.getExpiredNodes block.height) false h₀
    rwa [hE] at h
  extract_lets st₁' at h
  have h₁' : ((needSwarmUpdate₁, st₁') : Bool × State π α κ).2.AllStakeInv :=
    advanceWinner_allStakeInv block h₁
  split at h
  next needSwarmUpdate₂ st₂ hT =>
  have h₂ : st₂.AllStakeInv := by
    have h := FoldInv.foldl (P := fun acc : Bool × State π α κ => acc.2.AllStakeInv) txs.zipIdx h₁'
      fun acc entry _ hacc => processTx_allStakeInv nettype block acc entry hacc
    rwa [hT] at h
  split at h
  · split at h
    · exact absurd h (by simp)
    · exact applySwarms_allStakeInv h h₂
  · rw [Option.some.injEq] at h
    exact h ▸ h₂

/-- Every state that a run of blocks reaches keeps the accounting of every record. -/
theorem Reachable.allStakeInv [DecidableEq α] [DecidableEq κ] {nettype : NetworkType}
    {swarmUpdate : List (π × ServiceNodeInfo α κ) → ℕ → Option (List (ℕ × List π))}
    (h : Reachable nettype swarmUpdate st) : st.AllStakeInv := by
  induction h with
  | init keyImageBlacklist height => exact fun e he => absurd he List.not_mem_nil
  | step block txs _ hupdate ih => exact updateFromBlock_allStakeInv hupdate ih

end Blocks

/-! ### The payouts of a block winner -/

section Payouts

variable [DecidableEq α] {info : ServiceNodeInfo α κ}

/-- A floored share of `remaining` by a part of the whole is at most `remaining`. -/
theorem share_le {amount remaining whole : ℕ} (ha : amount ≤ whole) :
    amount * remaining / whole ≤ remaining :=
  Nat.div_le_of_le_mul (Nat.mul_le_mul_right remaining ha)

/-- The operator's cut is paid once: the operator is exactly one contributor. -/
theorem StakeInv.sum_operatorCut (h : StakeInv info) (cut : ℕ) :
    (info.contributors.map fun c => if c.address = info.operatorAddress then cut else 0).sum = cut := by
  obtain ⟨c, rest, hcs, hop, hrest⟩ := h.operator_cons
  rw [hcs, List.map_cons, List.sum_cons, if_pos hop, List.sum_eq_zero, Nat.add_zero]
  simp only [List.mem_map]
  rintro _ ⟨d, hd, rfl⟩
  rw [if_neg]
  rintro hd'
  exact hrest (hd' ▸ List.mem_map_of_mem hd)

/-- Each payout of a record that keeps the accounting is the contributor's floored
share of what the operator leaves, with the operator's cut on the operator's
address: the 128-bit arithmetic and the unsigned sums do not wrap. -/
theorem StakeInv.portions_winnerPayouts (h : StakeInv info) {c : Contributor α κ} (hc : c ∈ info.contributors) :
    (let resultlo := mulDiv128Lo c.amount (Word64.sub stakingShareParts info.portionsForOperator)
        info.stakingRequirement
      if c.address = info.operatorAddress then Word64.add resultlo info.portionsForOperator else resultlo) =
      c.amount * (stakingShareParts - info.portionsForOperator) / info.stakingRequirement +
        if c.address = info.operatorAddress then info.portionsForOperator else 0 := by
  have hshare := stakingShareParts_lt
  have hop := h.portionsForOperator_le
  have hamount : c.amount ≤ info.stakingRequirement :=
    (h.amount_le_reserved c hc).trans ((h.reserved_le hc).trans h.totalReserved_le)
  have hlo : mulDiv128Lo c.amount (Word64.sub stakingShareParts info.portionsForOperator)
      info.stakingRequirement = c.amount * (stakingShareParts - info.portionsForOperator) /
        info.stakingRequirement := by
    rw [Word64.sub_of_le hop hshare]
    exact mulDiv128Lo_of_le (by omega) h.stakingRequirement_pos h.stakingRequirement_lt hamount
  have hle : c.amount * (stakingShareParts - info.portionsForOperator) / info.stakingRequirement ≤
      stakingShareParts - info.portionsForOperator := share_le hamount
  dsimp only
  rw [hlo]
  split_ifs
  · -- the share and the cut add up to at most the whole stake, so below 2 ^ 64
    exact Word64.add_of_lt (by omega)
  · rfl

/-- The payouts of a record that keeps the accounting add up to the contributors'
floored shares of what the operator leaves, plus the operator's cut. -/
theorem StakeInv.sum_winnerPayouts (h : StakeInv info) :
    ((winnerPayouts info).map PayoutEntry.portions).sum =
      (info.contributors.map fun c =>
        c.amount * (stakingShareParts - info.portionsForOperator) / info.stakingRequirement).sum +
        info.portionsForOperator := by
  have hentries : (winnerPayouts info).map PayoutEntry.portions = info.contributors.map fun c =>
      c.amount * (stakingShareParts - info.portionsForOperator) / info.stakingRequirement +
        if c.address = info.operatorAddress then info.portionsForOperator else 0 := by
    rw [winnerPayouts, List.map_map]
    exact List.map_congr_left fun c hc => h.portions_winnerPayouts hc
  rw [hentries, List.sum_map_add, h.sum_operatorCut]

/-- The payouts of a record that keeps the accounting split at most the whole stake. -/
theorem StakeInv.sum_winnerPayouts_le (h : StakeInv info) :
    ((winnerPayouts info).map PayoutEntry.portions).sum ≤ stakingShareParts := by
  set remaining := stakingShareParts - info.portionsForOperator
  have hcontributed : (info.contributors.map Contributor.amount).sum ≤ info.stakingRequirement :=
    h.totalContributed_eq ▸ h.totalContributed_le
  rw [h.sum_winnerPayouts]
  calc (info.contributors.map fun c => c.amount * remaining / info.stakingRequirement).sum +
        info.portionsForOperator
      = ((info.contributors.map Contributor.amount).map fun x =>
          remaining * x / info.stakingRequirement).sum + info.portionsForOperator := by
        simp only [List.map_map, Function.comp_def, Nat.mul_comm]
    _ ≤ remaining * (info.contributors.map Contributor.amount).sum / info.stakingRequirement +
        info.portionsForOperator := by
        gcongr
        exact ListSums.sum_map_mul_div_le _ _ _
    _ ≤ remaining * info.stakingRequirement / info.stakingRequirement + info.portionsForOperator := by
        gcongr
    _ = stakingShareParts := by
        rw [Nat.mul_div_cancel _ h.stakingRequirement_pos]
        exact Nat.sub_add_cancel h.portionsForOperator_le

variable [LinearOrder π] {st : State π α κ}

/-- Where every record keeps the accounting, the block winner's payouts split at most
the whole stake. -/
theorem State.AllStakeInv.sum_getBlockWinner_le (h : st.AllStakeInv) (nullPkey : π) (nullAddress : α) :
    ((st.getBlockWinner nullPkey nullAddress).payouts.map PayoutEntry.portions).sum ≤ stakingShareParts := by
  rcases getBlockWinner_payouts nullPkey nullAddress st with hp | ⟨key, info, hmem, hp⟩
  · -- the null winner takes the whole stake
    simp [hp, nullBlockWinner]
  · rw [hp]
    exact (h _ hmem).sum_winnerPayouts_le

end Payouts

/-! ### Runs -/

/-- Along every run of blocks, every record keeps the stake accounting, with nothing
contributed beyond the requirement, and whichever node wins a block, its reward is
split into at most `STAKING_SHARE_PARTS` portions. -/
theorem reachable_stakeInv_and_payouts_le [LinearOrder π] [DecidableEq α] [DecidableEq κ]
    {nettype : NetworkType} {swarmUpdate : List (π × ServiceNodeInfo α κ) → ℕ → Option (List (ℕ × List π))}
    {st : State π α κ} (h : Reachable nettype swarmUpdate st) :
    (∀ e ∈ st.serviceNodesInfos, StakeInv e.2 ∧ e.2.totalContributed ≤ e.2.stakingRequirement) ∧
      ∀ (nullPkey : π) (nullAddress : α),
        ((st.getBlockWinner nullPkey nullAddress).payouts.map PayoutEntry.portions).sum ≤ stakingShareParts := by
  have hinv := h.allStakeInv
  exact ⟨fun e he => ⟨hinv e he, (hinv e he).totalContributed_le⟩, hinv.sum_getBlockWinner_le⟩

/-- The registration of node 7 by operator 1, who reserves half of the stake and stakes it with
the registration. -/
def registrationTx : Tx ℕ ℕ ℕ :=
  .transfer ⟨some 7, some ⟨[1], 0, [stakingShareParts / 2], 100, true⟩,
    some ⟨1, 50000 * arqma, [⟨3, 50000 * arqma⟩]⟩⟩

/-- A contribution of the other half to node 7, from address 2. -/
def contributionTx : Tx ℕ ℕ ℕ :=
  .transfer ⟨some 7, none, some ⟨2, 50000 * arqma, [⟨4, 50000 * arqma⟩]⟩⟩

/-- A block of version 16 at height 1 with the two transactions. -/
def registrationBlock : Block ℕ := ⟨16, 0, 1, 0, 0⟩

/-- The list after that block, on the main network, where the swarm update assigns no swarm. -/
def registeredState : State ℕ ℕ ℕ :=
  (updateFromBlock .mainnet (fun _ _ => some []) registrationBlock [registrationTx, contributionTx]
    ⟨[], [], 0⟩).getD ⟨[], [], 0⟩

theorem updateFromBlock_registrationBlock :
    updateFromBlock .mainnet (fun _ _ => some []) registrationBlock [registrationTx, contributionTx]
      (⟨[], [], 0⟩ : State ℕ ℕ ℕ) = some registeredState := by
  have hsome : (updateFromBlock .mainnet (fun _ _ => some []) registrationBlock [registrationTx, contributionTx]
      (⟨[], [], 0⟩ : State ℕ ℕ ℕ)).isSome = true := by
    decide +kernel
  obtain ⟨st, h⟩ := Option.isSome_iff_exists.mp hsome
  unfold registeredState
  rw [h]
  rfl

/-- After the block, node 7 is fully funded by its two contributors and active, wins the next
block, and pays each of them half of the stake; the accounting holds. -/
theorem reachable_stakeInv_and_payouts_le_registered :
    Reachable .mainnet (fun _ _ => some []) registeredState ∧
      (registeredState.serviceNodesInfos.map fun e => (e.1, e.2.totalContributed, e.2.isActive)) =
        [(7, 100000 * arqma, true)] ∧
      ((registeredState.getBlockWinner 0 0).payouts.map fun p => (p.address, p.portions)) =
        [(1, stakingShareParts / 2), (2, stakingShareParts / 2)] ∧
      ((∀ e ∈ registeredState.serviceNodesInfos,
          StakeInv e.2 ∧ e.2.totalContributed ≤ e.2.stakingRequirement) ∧
        ∀ (nullPkey : ℕ) (nullAddress : ℕ),
          ((registeredState.getBlockWinner nullPkey nullAddress).payouts.map
            PayoutEntry.portions).sum ≤ stakingShareParts) := by
  have hreach : Reachable .mainnet (fun _ _ => some []) registeredState :=
    .step registrationBlock [registrationTx, contributionTx] (.init [] 0) updateFromBlock_registrationBlock
  exact ⟨hreach, by decide +kernel, by decide +kernel, reachable_stakeInv_and_payouts_le hreach⟩

end Arqma.ServiceNodes
