import Arqma.ServiceNodes.Voting
import Arqma.Lib.KeySet
import Arqma.Lib.Buckets
import Arqma.Lib.FoldInv

/-!
# The history of the service node list

`service_node_list::process_block`, `block_added`, `blockchain_detached`,
`rescan_starting_from_curr_state`, `init` and `reset` (`src/cryptonote_core/service_node_list.cpp`):
how the list keeps its state in step with the chain while blocks come and go.

Before `process_block` applies a block, it files the current state in a short-term history, a set
ordered by height. States more than `6 * STATE_CHANGE_TX_LIFETIME_IN_BLOCKS` blocks old leave the
history. Those at a multiple of `STORE_LONG_TERM_STATE_INTERVAL` move to a long-term archive, and
so do those just before such a multiple, because later votes need their quorums. The latter are
cleared down to their quorums and marked `only_loaded_quorums`. When blocks are popped,
`blockchain_detached` takes the state of the new top from the history. Failing that, it takes the
archived interval state below it and rescans the chain from there, and failing that it starts
again from the fork to version 16.

## The model

A state's contents apart from its height and its `only_loaded_quorums` flag are a type `σ`. What
the history needs of the rest of the list is a `HistoryEnv`: `update_from_block` on the contents,
the clearing of a state to its quorums, the contents `state_t{this}` starts with, and the height
of the fork to version 16 that `get_hard_fork_voting_info` gives. The chain is the list of its
blocks, block `h` at height `h`, and the hard fork version of a height is the major version of
its block. `init` is the case where `load` finds nothing stored. The database (`store`, `load`),
the old quorum states kept for queries and the alternative-chain states are left out.

## What is proved

The specification is `chainState`: every block of the chain from the fork on, applied in turn to
the state `reset` starts from. The invariant `HistoryInv` says that the list's state is
`chainState` of the chain, that every full state it keeps for a rollback is `chainState` of the
chain up to that state's height, and how the two sets lie below the top. Each operation keeps it:
`process_block` and `block_added` one block at a time, the rescan batch by batch on its fuel, and
`blockchain_detached` on each of its three paths. By induction on the run,
`HistoryReachable.historyInv` gives it over every run of block additions, detachments and
re-initialisations, and with it:

* `historyReachable_state_eq_chainState`: the state, and every state a rollback restores, is the
  replay of its chain;
* `historyReachable_length_stateHistory_lt`: the short-term history never holds
  `6 * STATE_CHANGE_TX_LIFETIME_IN_BLOCKS` states.
-/

namespace Arqma.ServiceNodes

/-! ### The state and its sets -/

/-- `STORE_LONG_TERM_STATE_INTERVAL`. -/
def storeLongTermStateInterval : ℕ := 10000

/-- `short_term_state_cull_height`: states up to this height leave the short-term history. Its
hard fork version argument is not read. -/
def shortTermStateCullHeight (blockHeight : ℕ) : ℕ :=
  let defaultShortTermStateHistory := 6 * stateChangeTxLifetimeInBlocks
  if blockHeight < defaultShortTermStateHistory then 0 else blockHeight - defaultShortTermStateHistory

/-- `service_node_list::state_t` as the history keeps it. -/
structure StateEntry (σ : Type) where
  /-- Everything but the height and the flag. -/
  contents : σ
  /-- `height`: of the last block applied. -/
  height : ℕ
  /-- `only_loaded_quorums`: the nodes were cleared, and only the quorums are left. -/
  onlyLoadedQuorums : Bool

/-- A block of the chain with the version it was mined under. -/
structure ChainBlock (β : Type) where
  majorVersion : ℕ
  block : β

/-- The service node list: `m_state`, and `m_transient.state_history` and
`m_transient.state_archive`, each a set ordered by height. -/
structure ServiceNodeList (σ : Type) where
  state : StateEntry σ
  stateHistory : List (StateEntry σ)
  stateArchive : List (StateEntry σ)

/-- What the history needs of the rest of the list. -/
structure HistoryEnv (σ β : Type) where
  /-- `state_t::update_from_block` on the contents, given the block's height. -/
  update : σ → ℕ → β → σ
  /-- The clearing of `service_nodes_infos` and `key_image_blacklist`. -/
  stripToQuorums : σ → σ
  /-- The contents of `state_t{this}`. -/
  resetContents : σ
  /-- `hardfork_16_from_height`. -/
  hf16Height : ℕ

section Model

variable {σ β : Type} (env : HistoryEnv σ β)

/-- `state_t::update_from_block`: `++height`, and the contents updated by the block. -/
def StateEntry.updateFromBlock (st : StateEntry σ) (blockHeight : ℕ) (block : β) : StateEntry σ :=
  { st with contents := env.update st.contents blockHeight block, height := st.height + 1 }

/-- The body of the culling loop of `process_block` for a state leaving the history: into the
archive at a long-term interval, or cleared to its quorums when the next interval is near
enough to need them. -/
def archiveCulledState (stateArchive : List (StateEntry σ)) (st : StateEntry σ) :
    List (StateEntry σ) :=
  let nextLongTermState := (st.height / storeLongTermStateInterval + 1) * storeLongTermStateInterval
  let distToNextLongTermState := nextLongTermState - st.height
  let needQuorumForFutureStates := distToNextLongTermState ≤ voteLifetime + voteOrTxVerifyHeightBuffer
  if st.height % storeLongTermStateInterval = 0 ∨ needQuorumForFutureStates then
    let st := if needQuorumForFutureStates then
        { st with contents := env.stripToQuorums st.contents, onlyLoadedQuorums := true }
      else st
    KeySet.insert StateEntry.height st stateArchive
  else stateArchive

/-- `process_block(block, txs)` of the block at `blockHeight`, whose hard fork version is the
block's own. -/
def processBlock (blockHeight : ℕ) (b : ChainBlock β) (snl : ServiceNodeList σ) :
    ServiceNodeList σ :=
  if b.majorVersion < 16 then snl
  else
    let cullHeight := shortTermStateCullHeight blockHeight
    let culled := snl.stateHistory.takeWhile fun st => st.height ≤ cullHeight
    { state := snl.state.updateFromBlock env blockHeight b.block
      stateHistory := KeySet.insert StateEntry.height snl.state
        (snl.stateHistory.dropWhile fun st => st.height ≤ cullHeight)
      stateArchive := culled.foldl (archiveCulledState env) snl.stateArchive }

/-- `block_added(block, txs, checkpoint)`: blocks before version 16 are skipped. The
verification of a checkpoint, which changes no state, and `store` are left out. -/
def blockAdded (blockHeight : ℕ) (b : ChainBlock β) (snl : ServiceNodeList σ) : ServiceNodeList σ :=
  if b.majorVersion < 16 then snl else processBlock env blockHeight b snl

/-- `get_current_hard_fork_version`: the version of the top block. -/
def currentHardForkVersion (chain : List (ChainBlock β)) : ℕ :=
  (chain.getLast?.map ChainBlock.majorVersion).getD 0

/-- The batches of `rescan_starting_from_curr_state`: `get_blocks(m_state.height + 1, 1000)`, each
block processed in turn, until the state is at `currentHeight`, `get_blocks` fails, or a batch
leaves the height where it was. Each batch takes at least one block, so the loop runs at most once
per block of the chain, and the caller gives it that much fuel. -/
def rescanLoop (chain : List (ChainBlock β)) (currentHeight : ℕ) :
    ℕ → ServiceNodeList σ → ServiceNodeList σ
  | 0, snl => snl
  | fuel + 1, snl =>
    if snl.state.height < currentHeight then
      let startHeight := snl.state.height
      -- `get_blocks` fails from the chain's height on
      if chain.length ≤ startHeight + 1 then snl
      else
        let blocks := (chain.zipIdx.drop (startHeight + 1)).take 1000
        let snl' := blocks.foldl (fun snl p => processBlock env p.2 p.1 snl) snl
        if startHeight = snl'.state.height then snl'
        else rescanLoop chain currentHeight fuel snl'
    else snl

/-- `rescan_starting_from_curr_state(store_to_disk)`, the stores left out. -/
def rescanStartingFromCurrState (chain : List (ChainBlock β)) (snl : ServiceNodeList σ) :
    ServiceNodeList σ :=
  if currentHardForkVersion chain < 16 then snl
  else
    let currentHeight := chain.length - 1
    if snl.state.height = currentHeight then snl
    else rescanLoop env chain currentHeight chain.length snl

/-- The state `reset` leaves: `state_t{this}` just below the fork to version 16. -/
def resetState : StateEntry σ := ⟨env.resetContents, env.hf16Height - 1, false⟩

/-- `reset(true)`: no history, and the state just below the fork. -/
def reset : ServiceNodeList σ := ⟨resetState env, [], []⟩

/-- `init()` where `load` finds no stored state: `reset`, then a rescan of the chain. -/
def init (chain : List (ChainBlock β)) : ServiceNodeList σ :=
  if currentHardForkVersion chain < 16 then reset env
  else rescanStartingFromCurrState env chain (reset env)

/-- `it != set.end() && !it->only_loaded_quorums` for `it = set.find(height)`. -/
def holdsFullState (states : List (StateEntry σ)) (height : ℕ) : Bool :=
  match states.find? fun st => st.height = height with
  | some st => !st.onlyLoadedQuorums
  | none => false

/-- The end of `blockchain_detached`: the last state of the set it restores from becomes the
list's state, and the chain is rescanned from it unless it is at the new top. -/
def restoreLast (chain : List (ChainBlock β)) (revertToHeight : ℕ) (usingArchive : Bool)
    (snl : ServiceNodeList σ) : ServiceNodeList σ :=
  let history := if usingArchive then snl.stateArchive else snl.stateHistory
  match history.getLast? with
  -- not reached: the set holds the state that was found
  | none => snl
  | some st =>
    let snl := if usingArchive then { snl with state := st, stateArchive := history.dropLast }
      else { snl with state := st, stateHistory := history.dropLast }
    if snl.state.height ≠ revertToHeight then rescanStartingFromCurrState env chain snl else snl

/-- `blockchain_detached(height)`: the chain now has `height` blocks. -/
def blockchainDetached (chain : List (ChainBlock β)) (height : ℕ) (snl : ServiceNodeList σ) :
    ServiceNodeList σ :=
  let revertToHeight := height - 1
  if holdsFullState snl.stateHistory revertToHeight then
    restoreLast env chain revertToHeight false
      { snl with stateHistory := snl.stateHistory.takeWhile fun st => st.height ≤ revertToHeight }
  else
    let prevInterval := revertToHeight - revertToHeight % storeLongTermStateInterval
    if holdsFullState snl.stateArchive prevInterval then
      restoreLast env chain revertToHeight true
        { snl with stateHistory := [],
                   stateArchive := snl.stateArchive.takeWhile fun st => st.height ≤ prevInterval }
    else init env chain

/-! ### What the state should be -/

/-- The blocks from `hf16Height` on, and only they, have version 16 or more: the fork table of a
chain the daemon accepted. -/
def ValidChain (chain : List (ChainBlock β)) : Prop :=
  ∀ p ∈ chain.zipIdx, 16 ≤ p.1.majorVersion ↔ env.hf16Height ≤ p.2

instance (chain : List (ChainBlock β)) : Decidable (ValidChain env chain) := by
  unfold ValidChain
  infer_instance

/-- Every block of the chain from the fork on, applied in turn to the state `reset` starts
from: the state the list is meant to hold. -/
def chainState (chain : List (ChainBlock β)) : StateEntry σ :=
  chain.zipIdx.foldl (fun st p => if p.1.majorVersion < 16 then st else st.updateFromBlock env p.2 p.1.block)
    (resetState env)

/-- The runs of the list: `init` on a chain, then blocks added at the top, blocks popped and the
list initialised again, in any order. -/
inductive HistoryReachable : List (ChainBlock β) → ServiceNodeList σ → Prop
  | init {chain : List (ChainBlock β)} :
      ValidChain env chain → chain ≠ [] → HistoryReachable chain (init env chain)
  | blockAdded {chain : List (ChainBlock β)} {snl : ServiceNodeList σ} (b : ChainBlock β) :
      HistoryReachable chain snl → (16 ≤ b.majorVersion ↔ env.hf16Height ≤ chain.length) →
      HistoryReachable (chain ++ [b]) (blockAdded env chain.length b snl)
  | blockchainDetached {chain : List (ChainBlock β)} {snl : ServiceNodeList σ} (height : ℕ) :
      HistoryReachable chain snl → 1 ≤ height → height ≤ chain.length →
      HistoryReachable (chain.take height) (blockchainDetached env (chain.take height) height snl)
  | reinit {chain : List (ChainBlock β)} {snl : ServiceNodeList σ} :
      HistoryReachable chain snl → HistoryReachable chain (init env chain)

end Model

/-! ### The replay -/

section Replay

variable {σ β : Type} (env : HistoryEnv σ β)

@[simp] theorem chainState_nil : chainState env ([] : List (ChainBlock β)) = resetState env := rfl

/-- The replay one block at a time: a block before version 16 leaves the state alone. -/
theorem chainState_append (chain : List (ChainBlock β)) (b : ChainBlock β) :
    chainState env (chain ++ [b]) =
      if b.majorVersion < 16 then chainState env chain
      else (chainState env chain).updateFromBlock env chain.length b.block := by
  rw [chainState, List.zipIdx_append, List.foldl_append, List.zipIdx_singleton, Nat.zero_add]
  rfl

@[simp] theorem onlyLoadedQuorums_chainState (chain : List (ChainBlock β)) :
    (chainState env chain).onlyLoadedQuorums = false := by
  induction chain using List.reverseRecOn with
  | nil => rfl
  | append_singleton chain b ih =>
    rw [chainState_append]
    split
    · exact ih
    · exact ih

theorem validChain_append {chain : List (ChainBlock β)} {b : ChainBlock β} :
    ValidChain env (chain ++ [b]) ↔
      ValidChain env chain ∧ (16 ≤ b.majorVersion ↔ env.hf16Height ≤ chain.length) := by
  simp only [ValidChain, List.zipIdx_append, List.zipIdx_singleton, Nat.zero_add, List.mem_append,
    List.mem_singleton, or_imp, forall_and, forall_eq]

theorem validChain_take {chain : List (ChainBlock β)} (hv : ValidChain env chain) (k : ℕ) :
    ValidChain env (chain.take k) := by
  intro p hp
  apply hv p
  rw [List.mem_zipIdx_iff_getElem?, List.getElem?_take] at hp
  rw [List.mem_zipIdx_iff_getElem?]
  split at hp
  · exact hp
  · cases hp

theorem validChain_getElem {chain : List (ChainBlock β)} (hv : ValidChain env chain) {i : ℕ}
    (hi : i < chain.length) : 16 ≤ chain[i].majorVersion ↔ env.hf16Height ≤ i :=
  hv (chain[i], i) (List.mem_zipIdx_iff_getElem?.mpr (List.getElem?_eq_getElem hi))

/-- The top block is before the fork exactly when the whole chain is. -/
theorem currentHardForkVersion_lt_iff {chain : List (ChainBlock β)} (hv : ValidChain env chain)
    (hne : chain ≠ []) : currentHardForkVersion chain < 16 ↔ chain.length ≤ env.hf16Height := by
  have hlen : chain.length - 1 < chain.length := by
    have := List.length_pos_iff.mpr hne
    omega
  have htop := validChain_getElem env hv hlen
  rw [currentHardForkVersion, List.getLast?_eq_getElem?, List.getElem?_eq_getElem hlen,
    Option.map_some, Option.getD_some]
  omega

variable {env}

/-- From the fork on, the replay is at the top of the chain; before it, just below the fork. -/
theorem height_chainState (h1 : 1 ≤ env.hf16Height) {chain : List (ChainBlock β)}
    (hv : ValidChain env chain) :
    (chainState env chain).height = max (chain.length - 1) (env.hf16Height - 1) := by
  induction chain using List.reverseRecOn with
  | nil => simp [resetState]
  | append_singleton chain b ih =>
    obtain ⟨hv, hb⟩ := (validChain_append env).mp hv
    rw [chainState_append, List.length_append, List.length_singleton]
    split
    · rw [ih hv]
      omega
    · simp only [StateEntry.updateFromBlock]
      rw [ih hv]
      omega

/-- Before the fork the replay is the state `reset` starts from. -/
theorem chainState_of_length_le {chain : List (ChainBlock β)} (hv : ValidChain env chain)
    (hlen : chain.length ≤ env.hf16Height) : chainState env chain = resetState env := by
  induction chain using List.reverseRecOn with
  | nil => rfl
  | append_singleton chain b ih =>
    obtain ⟨hv, hb⟩ := (validChain_append env).mp hv
    rw [List.length_append, List.length_singleton] at hlen
    rw [chainState_append, if_pos (by omega)]
    exact ih hv (by omega)

/-- A state that is the replay of a prefix of the chain is at or after the state `reset`
starts from. -/
theorem hf16Height_le_of_eq_chainState {chain : List (ChainBlock β)} (h1 : 1 ≤ env.hf16Height)
    (hv : ValidChain env chain) {e : StateEntry σ}
    (he : e = chainState env (chain.take (e.height + 1))) : env.hf16Height ≤ e.height + 1 := by
  have hheight := height_chainState h1 (validChain_take env hv (e.height + 1))
  rw [← he] at hheight
  omega

end Replay

/-! ### The invariant -/

section Invariant

variable {σ β : Type} (env : HistoryEnv σ β)

/-- What every run keeps. The state is the replay of the chain. Both sets are sorted by height,
with the archive below the history and both below the top. Every state kept for a rollback, save
those cleared to their quorums, is the replay of the chain up to its height. No state of the
history is `6 * STATE_CHANGE_TX_LIFETIME_IN_BLOCKS` blocks or more below the top. -/
structure HistoryInv (chain : List (ChainBlock β)) (snl : ServiceNodeList σ) : Prop where
  state_eq : snl.state = chainState env chain
  history_sorted : snl.stateHistory.Pairwise fun a b => a.height < b.height
  archive_sorted : snl.stateArchive.Pairwise fun a b => a.height < b.height
  archive_lt_history : ∀ a ∈ snl.stateArchive, ∀ e ∈ snl.stateHistory, a.height < e.height
  history_lt : ∀ e ∈ snl.stateHistory, e.height + 1 < chain.length
  archive_lt : ∀ e ∈ snl.stateArchive, e.height + 1 < chain.length
  history_eq : ∀ e ∈ snl.stateHistory, e = chainState env (chain.take (e.height + 1))
  archive_eq : ∀ e ∈ snl.stateArchive, e.onlyLoadedQuorums = false →
    e = chainState env (chain.take (e.height + 1))
  history_recent : ∀ e ∈ snl.stateHistory, chain.length ≤ e.height + 6 * stateChangeTxLifetimeInBlocks

variable {env}

theorem HistoryInv.height_state {chain : List (ChainBlock β)} {snl : ServiceNodeList σ}
    (hinv : HistoryInv env chain snl) (h1 : 1 ≤ env.hf16Height) (hv : ValidChain env chain) :
    snl.state.height = max (chain.length - 1) (env.hf16Height - 1) := by
  rw [hinv.state_eq, height_chainState h1 hv]

/-- A state filed in the archive is the culled state, or that state cleared to its quorums. -/
theorem mem_archiveCulledState {stateArchive : List (StateEntry σ)} {st e : StateEntry σ}
    (he : e ∈ archiveCulledState env stateArchive st) :
    e ∈ stateArchive ∨ e.height = st.height ∧ (e = st ∨ e.onlyLoadedQuorums = true) := by
  unfold archiveCulledState at he
  dsimp only at he
  split_ifs at he
  · rcases KeySet.mem_insert he with rfl | he
    · exact .inr ⟨rfl, .inr rfl⟩
    · exact .inl he
  · rcases KeySet.mem_insert he with rfl | he
    · exact .inr ⟨rfl, .inl rfl⟩
    · exact .inl he
  · exact .inl he

theorem pairwise_archiveCulledState {stateArchive : List (StateEntry σ)} (st : StateEntry σ)
    (hs : stateArchive.Pairwise fun a b => a.height < b.height) :
    (archiveCulledState env stateArchive st).Pairwise fun a b => a.height < b.height := by
  unfold archiveCulledState
  dsimp only
  split_ifs
  · exact KeySet.pairwise_insert hs
  · exact KeySet.pairwise_insert hs
  · exact hs

/-- The culling loop of `process_block` keeps the archive sorted, and files nothing but the
culled states, whole or cleared to their quorums. -/
theorem foldl_archiveCulledState (culled : List (StateEntry σ)) {stateArchive : List (StateEntry σ)}
    (hs : stateArchive.Pairwise fun a b => a.height < b.height) :
    (culled.foldl (archiveCulledState env) stateArchive).Pairwise (fun a b => a.height < b.height) ∧
      ∀ e ∈ culled.foldl (archiveCulledState env) stateArchive, e ∈ stateArchive ∨
        ∃ c ∈ culled, e.height = c.height ∧ (e = c ∨ e.onlyLoadedQuorums = true) := by
  refine FoldInv.foldl (P := fun acc => acc.Pairwise (fun a b => a.height < b.height) ∧
      ∀ e ∈ acc, e ∈ stateArchive ∨ ∃ c ∈ culled, e.height = c.height ∧
        (e = c ∨ e.onlyLoadedQuorums = true)) culled ⟨hs, fun e he => .inl he⟩ ?_
  rintro acc c hc ⟨hacc, hmem⟩
  refine ⟨pairwise_archiveCulledState c hacc, fun e he => ?_⟩
  rcases mem_archiveCulledState he with he | ⟨hec, hfiled⟩
  · exact hmem e he
  · exact .inr ⟨c, hc, hec, hfiled⟩

/-- A state above the cut made at the block at `blockHeight` is fewer than
`6 * STATE_CHANGE_TX_LIFETIME_IN_BLOCKS` blocks below the chain that block ends. -/
theorem add_one_le_of_shortTermStateCullHeight_lt {blockHeight x : ℕ}
    (h : shortTermStateCullHeight blockHeight < x) :
    blockHeight + 1 ≤ x + 6 * stateChangeTxLifetimeInBlocks := by
  unfold shortTermStateCullHeight at h
  dsimp only at h
  split_ifs at h with hshort
  · omega
  · omega

/-- A block before version 16 changes neither the replay nor the list. -/
theorem historyInv_append_of_lt (h1 : 1 ≤ env.hf16Height) {chain : List (ChainBlock β)}
    {snl : ServiceNodeList σ} (hinv : HistoryInv env chain snl) (hv : ValidChain env chain)
    (hlen : chain.length < env.hf16Height) {b : ChainBlock β} (hb : b.majorVersion < 16) :
    HistoryInv env (chain ++ [b]) snl := by
  refine ⟨?_, hinv.history_sorted, hinv.archive_sorted, hinv.archive_lt_history, ?_, ?_, ?_, ?_, ?_⟩
  · rw [chainState_append, if_pos hb]
    exact hinv.state_eq
  · intro e he
    have := hinv.history_lt e he
    rw [List.length_append]
    omega
  · intro e he
    have := hinv.archive_lt e he
    rw [List.length_append]
    omega
  · intro e he
    rw [List.take_append_of_le_length (hinv.history_lt e he).le]
    exact hinv.history_eq e he
  · intro e he hfull
    rw [List.take_append_of_le_length (hinv.archive_lt e he).le]
    exact hinv.archive_eq e he hfull
  · -- before the fork the history is empty: its states are replays from the fork on
    intro e he
    have := hf16Height_le_of_eq_chainState h1 hv (hinv.history_eq e he)
    have := hinv.history_lt e he
    omega

/-- `process_block` of the block after the top, from the fork on: the old state is filed at the
top of the history, the culled states go to the archive, and the state takes the block. -/
theorem historyInv_processBlock (h1 : 1 ≤ env.hf16Height) {chain : List (ChainBlock β)}
    {snl : ServiceNodeList σ} (hinv : HistoryInv env chain snl) (hv : ValidChain env chain)
    {b : ChainBlock β} (hb : 16 ≤ b.majorVersion) (hlen : env.hf16Height ≤ chain.length) :
    HistoryInv env (chain ++ [b]) (processBlock env chain.length b snl) := by
  have hheight : snl.state.height + 1 = chain.length := by
    rw [hinv.height_state h1 hv]
    omega
  -- the states the cull keeps and those it moves to the archive
  have hkept : ∀ e ∈ snl.stateHistory.dropWhile (fun st => st.height ≤ shortTermStateCullHeight chain.length),
      e ∈ snl.stateHistory ∧ shortTermStateCullHeight chain.length < e.height :=
    fun e he => ⟨(List.dropWhile_suffix _).subset he, KeySet.lt_key_of_mem_dropWhile hinv.history_sorted he⟩
  have hculled : ∀ c ∈ snl.stateHistory.takeWhile (fun st => st.height ≤ shortTermStateCullHeight chain.length),
      c ∈ snl.stateHistory ∧ c.height ≤ shortTermStateCullHeight chain.length :=
    fun c hc => ⟨(List.takeWhile_prefix _).subset hc, KeySet.key_le_of_mem_takeWhile hc⟩
  obtain ⟨hsorted, hmem⟩ := foldl_archiveCulledState
    (snl.stateHistory.takeWhile fun st => st.height ≤ shortTermStateCullHeight chain.length)
    hinv.archive_sorted
  rw [processBlock, if_neg (by omega)]
  refine ⟨?_, ?_, hsorted, ?_, ?_, ?_, ?_, ?_, ?_⟩
  · -- the state takes the block, as the replay does
    rw [chainState_append, if_neg (by omega), hinv.state_eq]
  · exact KeySet.pairwise_insert (KeySet.pairwise_dropWhile _ hinv.history_sorted)
  · intro a ha e he
    -- an archived state is below the filed state, and below the cut when it was just culled
    have ha' : a.height + 1 < chain.length := by
      rcases hmem a ha with ha | ⟨c, hc, hac, -⟩
      · exact hinv.archive_lt a ha
      · rw [hac]
        exact hinv.history_lt c (hculled c hc).1
    rcases KeySet.mem_insert he with rfl | he
    · omega
    · rcases hmem a ha with ha | ⟨c, hc, hac, -⟩
      · exact hinv.archive_lt_history a ha e (hkept e he).1
      · have := (hculled c hc).2
        have := (hkept e he).2
        omega
  · intro e he
    rw [List.length_append, List.length_singleton]
    rcases KeySet.mem_insert he with rfl | he
    · omega
    · have := hinv.history_lt e (hkept e he).1
      omega
  · intro a ha
    rw [List.length_append, List.length_singleton]
    rcases hmem a ha with ha | ⟨c, hc, hac, -⟩
    · have := hinv.archive_lt a ha
      omega
    · have := hinv.history_lt c (hculled c hc).1
      omega
  · intro e he
    rcases KeySet.mem_insert he with rfl | he
    · rw [hheight, List.take_append_of_le_length le_rfl, List.take_length]
      exact hinv.state_eq
    · have he' := (hkept e he).1
      rw [List.take_append_of_le_length (hinv.history_lt e he').le]
      exact hinv.history_eq e he'
  · intro a ha hfull
    rcases hmem a ha with ha | ⟨c, hc, hac, hsame | hcleared⟩
    · rw [List.take_append_of_le_length (hinv.archive_lt a ha).le]
      exact hinv.archive_eq a ha hfull
    · rw [hsame]
      have hc' := (hculled c hc).1
      rw [List.take_append_of_le_length (hinv.history_lt c hc').le]
      exact hinv.history_eq c hc'
    · rw [hfull] at hcleared
      cases hcleared
  · -- the cut keeps the states the bound allows
    intro e he
    rw [List.length_append, List.length_singleton]
    rcases KeySet.mem_insert he with rfl | he
    · have : 0 < stateChangeTxLifetimeInBlocks := by decide
      omega
    · exact add_one_le_of_shortTermStateCullHeight_lt (hkept e he).2

/-- `block_added`: the block after the top, skipped before the fork. -/
theorem historyInv_blockAdded (h1 : 1 ≤ env.hf16Height) {chain : List (ChainBlock β)}
    {snl : ServiceNodeList σ} (hinv : HistoryInv env chain snl) (hv : ValidChain env chain)
    {b : ChainBlock β} (hb : 16 ≤ b.majorVersion ↔ env.hf16Height ≤ chain.length) :
    HistoryInv env (chain ++ [b]) (blockAdded env chain.length b snl) := by
  rw [blockAdded]
  split
  · exact historyInv_append_of_lt h1 hinv hv (by omega) ‹_›
  · exact historyInv_processBlock h1 hinv hv (by omega) (by omega)

/-- `reset`: no history, and the state the replay starts from, which is the replay of a chain
that has not reached the fork. -/
theorem historyInv_reset {chain : List (ChainBlock β)} (hv : ValidChain env chain)
    (hlen : chain.length ≤ env.hf16Height) : HistoryInv env chain (reset env) := by
  refine ⟨(chainState_of_length_le hv hlen).symm, List.Pairwise.nil, List.Pairwise.nil, ?_, ?_, ?_,
    ?_, ?_, ?_⟩
  all_goals
    intro e he
    exact absurd he List.not_mem_nil

/-- The blocks a batch of the rescan processes, from height `j` on: the invariant moves from the
chain up to `j` to the chain up to the end of the batch. The induction is on the batch size. -/
theorem historyInv_foldl_processBlock (h1 : 1 ≤ env.hf16Height) {chain : List (ChainBlock β)}
    (hv : ValidChain env chain) :
    ∀ (t j : ℕ) (snl : ServiceNodeList σ), HistoryInv env (chain.take j) snl →
      env.hf16Height ≤ j → j ≤ chain.length →
      HistoryInv env (chain.take (min (j + t) chain.length))
        (((chain.zipIdx.drop j).take t).foldl (fun snl p => processBlock env p.2 p.1 snl) snl)
  | 0, j, snl, hinv, _, hj' => by
    rw [Nat.add_zero, Nat.min_eq_left hj', List.take_zero, List.foldl_nil]
    exact hinv
  | t + 1, j, snl, hinv, hj, hj' => by
    rcases Nat.lt_or_ge j chain.length with hlt | hge
    · have hdrop : chain.zipIdx.drop j = (chain[j], j) :: chain.zipIdx.drop (j + 1) := by
        rw [List.drop_eq_getElem_cons (by simpa using hlt), List.getElem_zipIdx, Nat.zero_add]
      have htake : chain.take (j + 1) = chain.take j ++ [chain[j]] := by
        rw [List.take_add_one, List.getElem?_eq_getElem hlt, Option.toList_some]
      have hlen : (chain.take j).length = j := by
        rw [List.length_take, Nat.min_eq_left hj']
      -- the first block of the batch is the one after the top
      have hstep := historyInv_processBlock h1 hinv (validChain_take env hv j)
        ((validChain_getElem env hv hlt).mpr hj) (by omega)
      rw [hlen, ← htake] at hstep
      have hrest := historyInv_foldl_processBlock h1 hv t (j + 1) _ hstep (by omega) hlt
      rw [hdrop, List.take_succ_cons, List.foldl_cons]
      rwa [show j + 1 + t = j + (t + 1) by omega] at hrest
    · -- past the top `get_blocks` returns nothing
      have hj : j = chain.length := by omega
      subst hj
      rw [List.drop_of_length_le (by simp), List.take_nil, List.foldl_nil,
        Nat.min_eq_right (by omega)]
      exact hinv

/-- The batches of the rescan: from the chain up to `k`, they reach the top. The induction is on
the fuel, each batch moving the state's height up. -/
theorem historyInv_rescanLoop (h1 : 1 ≤ env.hf16Height) {chain : List (ChainBlock β)}
    (hv : ValidChain env chain) :
    ∀ (fuel k : ℕ) (snl : ServiceNodeList σ), HistoryInv env (chain.take k) snl →
      env.hf16Height ≤ k → k ≤ chain.length → chain.length ≤ k + fuel →
      HistoryInv env chain (rescanLoop env chain (chain.length - 1) fuel snl)
  | 0, k, snl, hinv, _, _, hfuel => by
    rw [rescanLoop]
    rwa [List.take_of_length_le (by omega)] at hinv
  | fuel + 1, k, snl, hinv, hk, hk', hfuel => by
    have hheight := hinv.height_state h1 (validChain_take env hv k)
    rw [List.length_take, Nat.min_eq_left hk'] at hheight
    rw [rescanLoop]
    by_cases hlt : k < chain.length
    · rw [if_pos (by omega), if_neg (by omega)]
      dsimp only
      rw [show snl.state.height + 1 = k by omega]
      -- a batch of up to 1000 blocks from `k` on
      have hbatch := historyInv_foldl_processBlock h1 hv 1000 k snl hinv hk hk'
      have hheight' := hbatch.height_state h1 (validChain_take env hv _)
      rw [List.length_take, Nat.min_eq_left (Nat.min_le_right _ _)] at hheight'
      rw [if_neg (by omega)]
      exact historyInv_rescanLoop h1 hv fuel _ _ hbatch (by omega) (Nat.min_le_right _ _)
        (by omega)
    · rw [if_neg (by omega)]
      rwa [List.take_of_length_le (by omega)] at hinv

/-- `rescan_starting_from_curr_state`, from a state that is the replay of the chain up to `k`. -/
theorem historyInv_rescanStartingFromCurrState (h1 : 1 ≤ env.hf16Height)
    {chain : List (ChainBlock β)} (hv : ValidChain env chain) {k : ℕ} {snl : ServiceNodeList σ}
    (hinv : HistoryInv env (chain.take k) snl) (hk : env.hf16Height ≤ k) (hk' : k ≤ chain.length) :
    HistoryInv env chain (rescanStartingFromCurrState env chain snl) := by
  have hheight := hinv.height_state h1 (validChain_take env hv k)
  rw [List.length_take, Nat.min_eq_left hk'] at hheight
  have hne : chain ≠ [] := by
    intro hnil
    rw [hnil, List.length_nil] at hk'
    omega
  rw [rescanStartingFromCurrState]
  dsimp only
  split_ifs with hver htop
  · -- a top block before the fork: the chain has not reached it, and `k` is its end
    have := (currentHardForkVersion_lt_iff env hv hne).mp hver
    rwa [List.take_of_length_le (by omega)] at hinv
  · rwa [List.take_of_length_le (by omega)] at hinv
  · exact historyInv_rescanLoop h1 hv chain.length k snl hinv hk hk' (by omega)

/-- `init` with nothing stored: `reset`, then a rescan from the fork. -/
theorem historyInv_init (h1 : 1 ≤ env.hf16Height) {chain : List (ChainBlock β)}
    (hv : ValidChain env chain) (hne : chain ≠ []) : HistoryInv env chain (init env chain) := by
  rw [init]
  split
  · exact historyInv_reset hv ((currentHardForkVersion_lt_iff env hv hne).mp ‹_›)
  · have hfork : env.hf16Height < chain.length := by
      have := (currentHardForkVersion_lt_iff env hv hne).not.mp ‹_›
      omega
    have hreset : HistoryInv env (chain.take env.hf16Height) (reset env) :=
      historyInv_reset (validChain_take env hv _) (by simp)
    exact historyInv_rescanStartingFromCurrState h1 hv hreset le_rfl hfork.le

theorem holdsFullState_eq_true {states : List (StateEntry σ)} {height : ℕ}
    (h : holdsFullState states height = true) :
    ∃ st ∈ states, st.height = height ∧ st.onlyLoadedQuorums = false := by
  unfold holdsFullState at h
  split at h
  · rename_i st hfind
    refine ⟨st, List.mem_of_find?_eq_some hfind, ?_, ?_⟩
    · simpa using List.find?_some hfind
    · simpa using h
  · cases h

/-- The end of `blockchain_detached`: a state that is the replay of the chain up to `k` is
rescanned to the top unless it is there already. -/
theorem historyInv_rescanUnlessAtTop (h1 : 1 ≤ env.hf16Height) {chain : List (ChainBlock β)}
    (hv : ValidChain env chain) {k : ℕ} {snl : ServiceNodeList σ}
    (hinv : HistoryInv env (chain.take k) snl) (hk : env.hf16Height ≤ k) (hk' : k ≤ chain.length) :
    HistoryInv env chain
      (if snl.state.height ≠ chain.length - 1 then rescanStartingFromCurrState env chain snl
        else snl) := by
  have hheight := hinv.height_state h1 (validChain_take env hv k)
  rw [List.length_take, Nat.min_eq_left hk'] at hheight
  split_ifs with htop
  · exact historyInv_rescanStartingFromCurrState h1 hv hinv hk hk'
  · rwa [List.take_of_length_le (by omega)] at hinv

/-- The cut of `blockchain_detached` at a height `r` whose full state the set holds: the set
ends with that state, and everything before it is below it. -/
theorem getLast?_takeWhile_of_holdsFullState {states : List (StateEntry σ)} {r : ℕ}
    (hs : states.Pairwise fun a b => a.height < b.height) (h : holdsFullState states r = true) :
    ∃ st ∈ states, st.height = r ∧ st.onlyLoadedQuorums = false ∧
      (states.takeWhile fun e => e.height ≤ r).getLast? = some st := by
  obtain ⟨st, hst, hr, hfull⟩ := holdsFullState_eq_true h
  refine ⟨st, hst, hr, hfull, ?_⟩
  rw [← hr]
  exact KeySet.getLast?_takeWhile hs hst

/-- `blockchain_detached` where the history holds the full state of the new top: the history is
cut after it, and it becomes the list's state. -/
theorem historyInv_restoreFromHistory {chain : List (ChainBlock β)} {snl : ServiceNodeList σ}
    (hinv : HistoryInv env chain snl) {height : ℕ} (hh : 1 ≤ height)
    (hfound : holdsFullState snl.stateHistory (height - 1) = true) :
    HistoryInv env (chain.take height) (restoreLast env (chain.take height) (height - 1) false
      { snl with stateHistory := snl.stateHistory.takeWhile fun st => st.height ≤ height - 1 }) := by
  obtain ⟨st, hst, hr, -, hlast⟩ :=
    getLast?_takeWhile_of_holdsFullState hinv.history_sorted hfound
  have htake : ∀ {m}, m ≤ height → (chain.take height).take m = chain.take m := fun hm => by
    rw [List.take_take, Nat.min_eq_left hm]
  have hst_lt := hinv.history_lt st hst
  -- what is left of the history: states of the old history below the restored one
  have hleft : ∀ e ∈ (snl.stateHistory.takeWhile fun e => e.height ≤ height - 1).dropLast,
      e ∈ snl.stateHistory ∧ e.height < st.height := fun e he =>
    ⟨(List.takeWhile_prefix _).subset ((List.dropLast_prefix _).subset he),
      KeySet.key_lt_of_mem_dropLast (KeySet.pairwise_takeWhile _ hinv.history_sorted) hlast he⟩
  simp only [restoreLast, Bool.false_eq_true, if_false, hlast]
  rw [if_neg (by simp [hr])]
  refine ⟨?_, KeySet.pairwise_dropLast (KeySet.pairwise_takeWhile _ hinv.history_sorted),
    hinv.archive_sorted, fun a ha e he => hinv.archive_lt_history a ha e (hleft e he).1, ?_, ?_, ?_, ?_,
    ?_⟩
  · calc st = chainState env (chain.take (st.height + 1)) := hinv.history_eq st hst
      _ = chainState env (chain.take height) := by rw [hr, Nat.sub_add_cancel hh]
  · intro e he
    have := (hleft e he).2
    rw [List.length_take]
    omega
  · intro a ha
    have := hinv.archive_lt_history a ha st hst
    rw [List.length_take]
    omega
  · intro e he
    have := (hleft e he).2
    rw [htake (by omega)]
    exact hinv.history_eq e (hleft e he).1
  · intro a ha hfull
    have := hinv.archive_lt_history a ha st hst
    rw [htake (by omega)]
    exact hinv.archive_eq a ha hfull
  · intro e he
    have := hinv.history_recent e (hleft e he).1
    rw [List.length_take]
    omega

/-- `blockchain_detached` where the archive holds the full state of the interval `p` below the
new top: the history is cleared, the archive cut after that state, which becomes the list's
state, and the chain rescanned from it. -/
theorem historyInv_restoreFromArchive (h1 : 1 ≤ env.hf16Height) {chain : List (ChainBlock β)}
    {snl : ServiceNodeList σ} (hinv : HistoryInv env chain snl) (hv : ValidChain env chain)
    {height p : ℕ} (hh : 1 ≤ height) (hh' : height ≤ chain.length) (hp : p ≤ height - 1)
    (hfound : holdsFullState snl.stateArchive p = true) :
    HistoryInv env (chain.take height) (restoreLast env (chain.take height) (height - 1) true
      { snl with stateHistory := [],
                 stateArchive := snl.stateArchive.takeWhile fun st => st.height ≤ p }) := by
  obtain ⟨st, hst, hr, hfull, hlast⟩ :=
    getLast?_takeWhile_of_holdsFullState hinv.archive_sorted hfound
  have hst_eq := hinv.archive_eq st hst hfull
  have hcut : (chain.take height).take (p + 1) = chain.take (p + 1) := by
    rw [List.take_take, Nat.min_eq_left (by omega)]
  have htake : ∀ {m}, m ≤ p + 1 → (chain.take (p + 1)).take m = chain.take m := fun hm => by
    rw [List.take_take, Nat.min_eq_left hm]
  have hlen : (chain.take (p + 1)).length = p + 1 := by
    rw [List.length_take]
    omega
  -- what is left of the archive: states of the old archive below the restored one
  have hleft : ∀ e ∈ (snl.stateArchive.takeWhile fun e => e.height ≤ p).dropLast,
      e ∈ snl.stateArchive ∧ e.height < st.height := fun e he =>
    ⟨(List.takeWhile_prefix _).subset ((List.dropLast_prefix _).subset he),
      KeySet.key_lt_of_mem_dropLast (KeySet.pairwise_takeWhile _ hinv.archive_sorted) hlast he⟩
  simp only [restoreLast, if_true, hlast]
  have hrestored : HistoryInv env ((chain.take height).take (p + 1))
      ⟨st, [], (snl.stateArchive.takeWhile fun e => e.height ≤ p).dropLast⟩ := by
    rw [hcut]
    refine ⟨?_, List.Pairwise.nil,
      KeySet.pairwise_dropLast (KeySet.pairwise_takeWhile _ hinv.archive_sorted), ?_, ?_, ?_, ?_, ?_,
      ?_⟩
    · rw [← hr]
      exact hst_eq
    · intro a _ e he
      exact absurd he List.not_mem_nil
    · intro e he
      exact absurd he List.not_mem_nil
    · intro e he
      have := (hleft e he).2
      rw [hlen]
      omega
    · intro e he
      exact absurd he List.not_mem_nil
    · intro e he hfull
      have := (hleft e he).2
      rw [htake (by omega)]
      exact hinv.archive_eq e (hleft e he).1 hfull
    · intro e he
      exact absurd he List.not_mem_nil
  have hrescan := historyInv_rescanUnlessAtTop h1 (validChain_take env hv height) hrestored
    (by rw [← hr]; exact hf16Height_le_of_eq_chainState h1 hv hst_eq) (by simp; omega)
  rwa [List.length_take, Nat.min_eq_left hh'] at hrescan

/-- `blockchain_detached`: the chain is cut to `height` blocks, and the list's state is restored
from the history, from the archive and a rescan, or by `init`. -/
theorem historyInv_blockchainDetached (h1 : 1 ≤ env.hf16Height) {chain : List (ChainBlock β)}
    {snl : ServiceNodeList σ} (hinv : HistoryInv env chain snl) (hv : ValidChain env chain)
    {height : ℕ} (hh : 1 ≤ height) (hh' : height ≤ chain.length) :
    HistoryInv env (chain.take height) (blockchainDetached env (chain.take height) height snl) := by
  rw [blockchainDetached]
  dsimp only
  split_ifs with hhist harch
  · exact historyInv_restoreFromHistory hinv hh hhist
  · exact historyInv_restoreFromArchive h1 hinv hv hh hh' (Nat.sub_le _ _) harch
  · refine historyInv_init h1 (validChain_take env hv height) ?_
    intro hnil
    have := congrArg List.length hnil
    rw [List.length_take, List.length_nil] at this
    omega

end Invariant

/-! ### Runs -/

section Runs

variable {σ β : Type} {env : HistoryEnv σ β}

/-- Every run keeps the invariant, on a chain that stays valid and nonempty. The induction is on
the run, one case per operation. -/
theorem HistoryReachable.historyInv (h1 : 1 ≤ env.hf16Height) {chain : List (ChainBlock β)}
    {snl : ServiceNodeList σ} (h : HistoryReachable env chain snl) :
    HistoryInv env chain snl ∧ ValidChain env chain ∧ chain ≠ [] := by
  induction h with
  | init hv hne => exact ⟨historyInv_init h1 hv hne, hv, hne⟩
  | blockAdded b _ hb ih =>
    obtain ⟨hinv, hv, -⟩ := ih
    exact ⟨historyInv_blockAdded h1 hinv hv hb, (validChain_append env).mpr ⟨hv, hb⟩,
      List.append_ne_nil_of_right_ne_nil _ (List.cons_ne_nil _ _)⟩
  | blockchainDetached height _ hh hh' ih =>
    obtain ⟨hinv, hv, -⟩ := ih
    refine ⟨historyInv_blockchainDetached h1 hinv hv hh hh', validChain_take env hv height, ?_⟩
    intro hnil
    have := congrArg List.length hnil
    rw [List.length_take, List.length_nil] at this
    omega
  | reinit _ ih =>
    obtain ⟨-, hv, hne⟩ := ih
    exact ⟨historyInv_init h1 hv hne, hv, hne⟩

/-- Over every run of block additions, detachments and re-initialisations, the list's state is
the replay of its chain, and every full state it keeps for a rollback, in the history or the
archive, is the replay of the chain up to that state's height. -/
theorem historyReachable_state_eq_chainState (h1 : 1 ≤ env.hf16Height)
    {chain : List (ChainBlock β)} {snl : ServiceNodeList σ} (h : HistoryReachable env chain snl) :
    snl.state = chainState env chain ∧
      (∀ e ∈ snl.stateHistory, e = chainState env (chain.take (e.height + 1))) ∧
      ∀ e ∈ snl.stateArchive, e.onlyLoadedQuorums = false →
        e = chainState env (chain.take (e.height + 1)) := by
  obtain ⟨hinv, -, -⟩ := h.historyInv h1
  exact ⟨hinv.state_eq, hinv.history_eq, hinv.archive_eq⟩

/-- Contents that add up the blocks applied, with the fork at height 1. -/
def blockSumEnv : HistoryEnv ℕ ℕ := ⟨fun s _ b => s + b, fun _ => 0, 0, 1⟩

/-- A chain of a block before the fork and one after it. -/
def twoBlocks : List (ChainBlock ℕ) := [⟨15, 3⟩, ⟨16, 5⟩]

/-- The chain after a third block is added to `twoBlocks` and popped again. -/
def poppedChain : List (ChainBlock ℕ) := (twoBlocks ++ [ChainBlock.mk 16 7]).take 2

/-- The list after `init` on `twoBlocks`, the third block added, and that block popped. -/
def poppedList : ServiceNodeList ℕ :=
  blockchainDetached blockSumEnv poppedChain 2
    (blockAdded blockSumEnv twoBlocks.length (ChainBlock.mk 16 7) (init blockSumEnv twoBlocks))

theorem historyReachable_popped : HistoryReachable blockSumEnv poppedChain poppedList :=
  .blockchainDetached 2 (.blockAdded (ChainBlock.mk 16 7) (.init (by decide) (List.cons_ne_nil _ _)) (by decide))
    (by decide) (by decide)

theorem historyReachable_state_eq_chainState_popped :
    1 ≤ blockSumEnv.hf16Height ∧ poppedList.state = chainState blockSumEnv poppedChain :=
  ⟨by decide, (historyReachable_state_eq_chainState (by decide) historyReachable_popped).1⟩

/-- Over every run the short-term history holds fewer than
`6 * STATE_CHANGE_TX_LIFETIME_IN_BLOCKS` states: their heights are distinct, and lie between that
many blocks below the top and the top. -/
theorem historyReachable_length_stateHistory_lt (h1 : 1 ≤ env.hf16Height)
    {chain : List (ChainBlock β)} {snl : ServiceNodeList σ} (h : HistoryReachable env chain snl) :
    snl.stateHistory.length < 6 * stateChangeTxLifetimeInBlocks := by
  obtain ⟨hinv, -, -⟩ := h.historyInv h1
  have hS : 0 < stateChangeTxLifetimeInBlocks := by decide
  -- the heights counted from the lowest one the bound allows
  have hsorted : Buckets.Sorted
      (fun e : StateEntry σ => e.height - (chain.length - 6 * stateChangeTxLifetimeInBlocks))
      snl.stateHistory := by
    refine hinv.history_sorted.imp_of_mem fun ha hb hab => ?_
    have := hinv.history_recent _ ha
    have := hinv.history_recent _ hb
    dsimp only
    omega
  have hbound : ∀ e ∈ snl.stateHistory,
      e.height - (chain.length - 6 * stateChangeTxLifetimeInBlocks) < 6 * stateChangeTxLifetimeInBlocks - 1 := by
    intro e he
    have := hinv.history_recent e he
    have := hinv.history_lt e he
    omega
  have hlen := Buckets.length_le_of_sorted hsorted hbound
  omega

theorem historyReachable_length_stateHistory_lt_popped :
    1 ≤ blockSumEnv.hf16Height ∧ poppedList.stateHistory.length < 6 * stateChangeTxLifetimeInBlocks :=
  ⟨by decide, historyReachable_length_stateHistory_lt (by decide) historyReachable_popped⟩

end Runs

end Arqma.ServiceNodes
