import Arqma.ServiceNodes.Registration

/-!
# The service node list's state and its block processing

`service_node_list::state_t` (`service_node_list.{h,cpp}`) and
`state_t::update_from_block`: the expiry of nodes, the rotation of the reward
winner, the registrations, contributions, state changes and key-image unlocks of a
block's transactions, and the reassignment of swarms; and `get_block_winner`, which
reads the state.

## The model

`service_nodes_infos`, an `std::unordered_map`, is a list of key and record pairs,
in the order in which the map happens to enumerate them. A lookup is `find?` on the
key; a write replaces the record of the entries with that key; a new node goes at
the end. Keys `π` carry a linear order standing for `memcmp` on their 32 bytes,
with `nullPkey` for `crypto::null_pkey`.

Transactions are seen through what the list reads from them (`Tx`). A state
change arrives with the key and the new state its quorum names, or `none` where no
stored quorum verifies its votes; an unlock arrives with its key image and whether
its signature checks. The swarm computation of `update_from_block` (the swarm map
of the active nodes, then `calc_swarm_changes` with the block-hash seed) is a
parameter `swarmUpdate`, from the sorted active nodes and the seed to the new swarm
map, `none` where it throws; its result is written back as the code does.
`update_from_block` returns `none` where the code throws.

Each `process_*` function returns its `bool` and the state it leaves.
-/

namespace Arqma.ServiceNodes

/-- `key_image_blacklist_entry`. -/
structure KeyImageBlacklistEntry (κ : Type) where
  /-- `key_image`. -/
  keyImage : κ
  /-- `unlock_height`. -/
  unlockHeight : ℕ
  /-- `amount`. -/
  amount : ℕ
  deriving DecidableEq, Repr

/-- `service_node_list::state_t`, the parts that block processing reads and writes. -/
structure State (π α κ : Type) where
  /-- `service_nodes_infos`, in enumeration order. -/
  serviceNodesInfos : List (π × ServiceNodeInfo α κ)
  /-- `key_image_blacklist`. -/
  keyImageBlacklist : List (KeyImageBlacklistEntry κ)
  /-- `height`. -/
  height : ℕ

/-- `service_node_info::new_state` of a state change. -/
inductive NewState where
  | deregister
  | decommission
  | recommission
  | ipChangePenalty
  deriving DecidableEq, Repr

/-- `tx_extra_tx_key_image_unlock`, as the list reads it. -/
structure KeyImageUnlockTx (π κ : Type) where
  /-- `get_service_node_pubkey_from_tx_extra`. -/
  serviceNodePubkey : Option π
  /-- `get_tx_key_image_unlock_from_tx_extra`: the key image, and whether the
  unlock's signature checks against the key of the contribution that locks it. -/
  unlock : Option (κ × Bool)
  deriving DecidableEq, Repr

/-- A transaction of a block, as the list reads it. -/
inductive Tx (π α κ : Type) where
  /-- `tx.is_transfer()`. -/
  | transfer (tx : TransferTx π α κ)
  /-- `txtype::state_change`: the node and its new state, as the verified quorum names
  them. -/
  | stateChange (change : Option (π × NewState))
  /-- `txtype::key_image_unlock`. -/
  | keyImageUnlock (tx : KeyImageUnlockTx π κ)
  /-- Any other type. -/
  | other

/-- A block, as the list reads it. -/
structure Block (π : Type) where
  /-- `major_version`. -/
  majorVersion : ℕ
  /-- `timestamp`. -/
  timestamp : ℕ
  /-- `get_block_height(block)`. -/
  height : ℕ
  /-- `get_service_node_winner_from_tx_extra(block.miner_tx.extra)`. -/
  serviceNodeWinner : π
  /-- The first eight bytes of the block hash, as a little-endian `uint64_t`. -/
  seed : ℕ

variable {π α κ : Type}

namespace State

section Map

variable [DecidableEq π]

/-- `service_nodes_infos.find(key)`. -/
def findInfo (st : State π α κ) (key : π) : Option (ServiceNodeInfo α κ) :=
  (st.serviceNodesInfos.find? fun e => e.1 = key).map Prod.snd

/-- Writing the record of `key`. -/
def setInfo (st : State π α κ) (key : π) (info : ServiceNodeInfo α κ) : State π α κ :=
  { st with serviceNodesInfos := st.serviceNodesInfos.map fun e => if e.1 = key then (key, info) else e }

/-- `service_nodes_infos.erase(key)`. -/
def eraseInfo (st : State π α κ) (key : π) : State π α κ :=
  { st with serviceNodesInfos := st.serviceNodesInfos.filter fun e => e.1 ≠ key }

theorem findInfo_mem {st : State π α κ} {key : π} {info : ServiceNodeInfo α κ}
    (h : st.findInfo key = some info) : (key, info) ∈ st.serviceNodesInfos := by
  obtain ⟨e, he, rfl⟩ := Option.map_eq_some_iff.mp h
  have hkey : e.1 = key := by simpa using List.find?_some he
  have hmem := List.mem_of_find?_eq_some he
  rwa [← hkey]

end Map

end State

/-! ### Transactions -/

section Transactions

variable [DecidableEq π] [DecidableEq α]

/-- `state_t::process_registration_tx`: a registration of a node the list does not
hold yet adds it. -/
def processRegistrationTx (nettype : NetworkType) (block : Block π) (tx : TransferTx π α κ)
    (index : ℕ) (st : State π α κ) : Bool × State π α κ :=
  match isRegistrationTx nettype block.timestamp block.height index tx with
  | none => (false, st)
  | some (key, info) =>
    match st.findInfo key with
    | some _ => (false, st)
    | none => (true, { st with serviceNodesInfos := st.serviceNodesInfos ++ [(key, info)] })

/-- The contributor a contribution goes to, in `process_contribution_tx`: the first
with its address, or a new one at the end. -/
def contributorPosition (contributors : List (Contributor α κ)) (address : α) :
    List (Contributor α κ) × ℕ :=
  match contributors.findIdx? fun c => c.address = address with
  | some position => (contributors, position)
  | none => (contributors ++ [⟨0, 0, address, []⟩], contributors.length)

/-- `state_t::process_contribution_tx`: `true` when the contribution completes the
stake. The check of the tx secret key is left out: `get_contribution` has made it. -/
def processContributionTx (block : Block π) (tx : TransferTx π α κ) (index : ℕ)
    (st : State π α κ) : Bool × State π α κ :=
  match tx.serviceNodePubkey, tx.contribution with
  | some pubkey, some contribution =>
    match st.findInfo pubkey with
    | none => (false, st)
    | some curinfo =>
      if curinfo.isFullyFunded then (false, st)
      else if maxNumberOfContributors <
          curinfo.totalNumLockedContributions + contribution.lockedContributions.length then (false, st)
      else if contribution.transferred < getMinNodeContribution curinfo.stakingRequirement
          curinfo.totalReserved curinfo.totalNumLockedContributions then (false, st)
      else
        let (contributors, position) := contributorPosition curinfo.contributors contribution.address
        let info := { curinfo with contributors }.contributeAt position contribution.transferred
          contribution.lockedContributions
        let info := { info with lastRewardBlockHeight := block.height, lastRewardTransactionIndex := index }
        if info.isFullyFunded then
          (true, st.setInfo pubkey { info with activeSinceHeight := block.height })
        else (false, st.setInfo pubkey info)
  | _, _ => (false, st)

/-- `state_t::process_state_change_tx`, once a stored quorum has verified the votes
and named the node. -/
def processStateChangeTx (nettype : NetworkType) (block : Block π) (change : Option (π × NewState))
    (st : State π α κ) : Bool × State π α κ :=
  match change with
  | none => (false, st)
  | some (key, newState) =>
    match st.findInfo key with
    | none => (false, st)
    | some info =>
      match newState with
      | .deregister =>
        let blacklisted :=
          if 16 ≤ block.majorVersion then
            info.contributors.flatMap fun c => c.lockedContributions.map fun contribution =>
              ⟨contribution.keyImage, block.height + stakingNumLockBlocks nettype, contribution.amount⟩
          else []
        (true, { st.eraseInfo key with keyImageBlacklist := st.keyImageBlacklist ++ blacklisted })
      | .decommission =>
        if info.isDecommissioned then (false, st)
        else (true, st.setInfo key
          { info with activeSinceHeight := -info.activeSinceHeight, swarmId := unassignedSwarmId })
      | .recommission =>
        if !info.isDecommissioned then (false, st)
        else (true, st.setInfo key
          { info with
            activeSinceHeight := block.height
            lastRewardBlockHeight := block.height
            lastRewardTransactionIndex := uint32Max })
      | .ipChangePenalty =>
        if info.isDecommissioned then (false, st)
        else (true, st.setInfo key
          { info with lastRewardBlockHeight := block.height, lastRewardTransactionIndex := uint32Max })

/-- `state_t::process_key_image_unlock_tx`. -/
def processKeyImageUnlockTx [DecidableEq κ] (nettype : NetworkType) (blockHeight : ℕ)
    (tx : KeyImageUnlockTx π κ) (st : State π α κ) : Bool × State π α κ :=
  match tx.serviceNodePubkey with
  | none => (false, st)
  | some key =>
    match st.findInfo key with
    | none => (false, st)
    | some info =>
      if info.requestedUnlockHeight ≠ keyImageAwaitingUnlockHeight then (false, st)
      else
        match tx.unlock with
        | none => (false, st)
        | some (keyImage, signatureValid) =>
          let unlockHeight :=
            getLockedKeyImageUnlockHeight nettype info.registrationHeight blockHeight
          if info.contributors.any fun c => c.lockedContributions.any fun l => l.keyImage = keyImage then
            if signatureValid then
              (true, st.setInfo key { info with requestedUnlockHeight := unlockHeight })
            else (false, st)
          else (false, st)

end Transactions

/-! ### Blocks -/

section Blocks

variable [LinearOrder π] [DecidableEq α] [DecidableEq κ]

/-- `sort_and_filter`: the entries whose record satisfies `p`, ordered by key. -/
def sortAndFilter (infos : List (π × ServiceNodeInfo α κ)) (p : ServiceNodeInfo α κ → Bool) :
    List (π × ServiceNodeInfo α κ) :=
  (infos.filter fun e => p e.2).mergeSort fun a b => decide (a.1 ≤ b.1)

/-- `state_t::active_service_nodes_infos`. -/
def State.activeServiceNodesInfos (st : State π α κ) : List (π × ServiceNodeInfo α κ) :=
  sortAndFilter st.serviceNodesInfos ServiceNodeInfo.isActive

/-- `state_t::get_expired_nodes`: the nodes whose unlock height has passed. -/
def State.getExpiredNodes (st : State π α κ) (blockHeight : ℕ) : List π :=
  st.serviceNodesInfos.filterMap fun e =>
    if e.2.requestedUnlockHeight ≠ keyImageAwaitingUnlockHeight ∧ e.2.requestedUnlockHeight < blockHeight
    then some e.1 else none

/-- The loop of `update_from_block` that expires nodes, and whether an active one went. -/
def expireNodes (expired : List π) (needSwarmUpdate : Bool) (st : State π α κ) : Bool × State π α κ :=
  expired.foldl (fun acc key =>
    match acc.2.findInfo key with
    | none => acc
    | some info => (acc.1 || info.isActive, acc.2.eraseInfo key)) (needSwarmUpdate, st)

/-- The step of `update_from_block` that moves the block's winner to the back of the
reward queue. -/
def advanceWinner (block : Block π) (st : State π α κ) : State π α κ :=
  match st.findInfo block.serviceNodeWinner with
  | none => st
  | some info => st.setInfo block.serviceNodeWinner
      { info with lastRewardBlockHeight := block.height, lastRewardTransactionIndex := uint32Max }

/-- One transaction of the loop of `update_from_block`. -/
def processTx (nettype : NetworkType) (block : Block π) (acc : Bool × State π α κ)
    (entry : Tx π α κ × ℕ) : Bool × State π α κ :=
  match entry with
  | (.transfer tx, index) =>
    let st := (processRegistrationTx nettype block tx index acc.2).2
    let (contributed, st) := processContributionTx block tx index st
    (acc.1 || contributed, st)
  | (.stateChange change, _) =>
    let (changed, st) := processStateChangeTx nettype block change acc.2
    (acc.1 || changed, st)
  | (.keyImageUnlock tx, _) => (acc.1, (processKeyImageUnlockTx nettype block.height tx acc.2).2)
  | (.other, _) => acc

/-- The loop of `update_from_block` that writes the new swarm ids; `service_nodes_infos.at`
throws on a node the list does not hold. -/
def applySwarms (swarms : List (ℕ × List π)) (st : State π α κ) : Option (State π α κ) :=
  swarms.foldlM (fun st entry => entry.2.foldlM (fun st snode =>
    match st.findInfo snode with
    | none => none
    | some info =>
      some (if info.swarmId = entry.1 then st else st.setInfo snode { info with swarmId := entry.1 }))
    st) st

/-- `state_t::update_from_block`. -/
def updateFromBlock (nettype : NetworkType)
    (swarmUpdate : List (π × ServiceNodeInfo α κ) → ℕ → Option (List (ℕ × List π)))
    (block : Block π) (txs : List (Tx π α κ)) (st : State π α κ) : Option (State π α κ) :=
  let st := { st with
    height := st.height + 1
    keyImageBlacklist := st.keyImageBlacklist.filter fun e => block.height < e.unlockHeight }
  let (needSwarmUpdate, st) := expireNodes (st.getExpiredNodes block.height) false st
  let st := advanceWinner block st
  let (needSwarmUpdate, st) := txs.zipIdx.foldl (processTx nettype block) (needSwarmUpdate, st)
  if needSwarmUpdate then
    match swarmUpdate st.activeServiceNodesInfos block.seed with
    | none => none
    | some swarms => applySwarms swarms st
  else some st

/-- The states that `update_from_block` reaches, block after block, from a list that
holds no node. -/
inductive Reachable (nettype : NetworkType)
    (swarmUpdate : List (π × ServiceNodeInfo α κ) → ℕ → Option (List (ℕ × List π))) :
    State π α κ → Prop where
  | init (keyImageBlacklist : List (KeyImageBlacklistEntry κ)) (height : ℕ) :
      Reachable nettype swarmUpdate ⟨[], keyImageBlacklist, height⟩
  | step {st st' : State π α κ} (block : Block π) (txs : List (Tx π α κ)) :
      Reachable nettype swarmUpdate st → updateFromBlock nettype swarmUpdate block txs st = some st' →
      Reachable nettype swarmUpdate st'

end Blocks

end Arqma.ServiceNodes
