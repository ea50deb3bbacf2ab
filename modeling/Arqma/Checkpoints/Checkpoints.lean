import Mathlib.Data.List.Sort

/-!
# The checkpoint store

`src/checkpoints/checkpoints.cpp` and the `block_checkpoints` table of
`src/blockchain_db/lmdb/db_lmdb.cpp`. A checkpoint pins the hash of the block at a height:
the mainnet table `HARDCODED_MAINNET_CHECKPOINTS`, added by `checkpoints::init`, and the
service-node checkpoints that quorums sign every `CHECKPOINT_INTERVAL = 4` blocks.
`block_added` culls the service-node checkpoints below the immutable one, keeping those at
multiples of `CHECKPOINT_STORE_PERSISTENTLY_INTERVAL = 60`. `blockchain_detached(height)`
drops the checkpoints of detached blocks, walking down from the top checkpoint in steps of
4.

## The model

The table is a list of checkpoints sorted by height, its key (`CheckpointDb`). Removal is a
filter, and `update_block_checkpoint` puts a checkpoint at its height, replacing one
already there. The database tells a service-node checkpoint by its signatures, and the
model keeps the type in their place. `get_checkpoints_range(start, 0, n)`, the only form
`get_immutable_checkpoint` asks for, is the first `n` checkpoints at or below `start`
clamped to the stored range, from the top down. The state of `checkpoints` is the table and
`m_last_cull_height`. The database calls that can throw are taken to succeed. The
`try`/`catch` around them only logs. The hash type is a parameter.

## What is proved

* `blockchainDetached_checkpoints`: `blockchain_detached(height)` removes exactly the
  checkpoints from `max height 4` up to the top one whose heights are congruent modulo 4 to
  the top checkpoint's, whatever their type.
* `cullLoop_checkpoints`: the loop of `block_added` removes exactly the heights it steps
  through that are no multiple of 60, whatever their type.

From the hardcoded top `1831366`, congruent to 2 modulo 4, the walk of `blockchain_detached`
removes that hardcoded checkpoint and misses every service-node checkpoint above `height`
(`blockchainDetached_from_hardcoded_top`).
-/

namespace Arqma.Checkpoints

/-! ### Checkpoints and their table -/

/-- `checkpoint_type`. -/
inductive CheckpointType
  | hardcoded
  | serviceNode
  deriving DecidableEq, Repr

/-- `checkpoint_t`, with its type in place of its signatures. -/
structure Checkpoint (η : Type) where
  type : CheckpointType
  height : ℕ
  blockHash : η
  deriving DecidableEq, Repr

/-- The `block_checkpoints` table, keyed and ordered by height. -/
structure CheckpointDb (η : Type) where
  checkpoints : List (Checkpoint η)
  sorted : checkpoints.Pairwise fun a b => a.height < b.height

/-- `service_nodes::CHECKPOINT_INTERVAL`. -/
def checkpointInterval : ℕ := 4

/-- `service_nodes::CHECKPOINT_STORE_PERSISTENTLY_INTERVAL`. -/
def checkpointStorePersistentlyInterval : ℕ := 60

/-- `network_version_16`, the fork that brings service-node checkpoints. -/
def networkVersion16 : ℕ := 16

/-- `HARDCODED_MAINNET_CHECKPOINTS`: heights and block hashes. -/
def hardcodedMainnetCheckpoints : List (ℕ × String) :=
  [(0, "60077b4d5cd49a1278d448c58b6854993d127fcaedbdeab82acff7f7fd86e328"),
   (1731481, "94b47df7c0895399f85dff9f7a1d7c2e67f8809e2a2b5fb14bc9714a2bb1490d"),
   (1731482, "942d66af0c7fd6f366e35f18dbb1ca668693a4ad37a6058d61bc920550fe10b7"),
   (1773359, "9c3aedb9eeace5a282d70507ac2ea1d26d61c907b80abd135e462371e3f99d82"),
   (1773360, "c6e832846ec8cbdf3f8f34695a21b995c74a25e279289746c9c4e3a06b659bbc"),
   (1773364, "839c5bb521bd9b28f313f8fb4cc84f6064c60db318468c234357a91af04c8774"),
   (1773368, "51691e50f463b42740a683a84b6c795b548b2aee7d61211577db04d3f3f1998a"),
   (1773372, "3e8f3cb068db474c2390e6650dfa6d7c60eaf69da9e79080a60cda46ebfb8a3e"),
   (1773376, "c7fb0080b04ce76097c9b65f73580b60622818aa5ff23115402f500ef933ab3d"),
   (1773380, "aded871574abcb5aec263582d733db61b5f6ac8fe2219d5238e2f77ee6b732b5"),
   (1773384, "e590456ea57b1a880365c5a107cbdb2ff70fe740fde00638c920b7eb8fa75927"),
   (1773388, "b53a8aa326bef07b7afccd31deb534e82e51fba08b0f2e7bd241e23bff644e32"),
   (1773392, "c859e9132646f5f41f0bf8569c8e42701b93446a06d85c672807735adc684a2c"),
   (1773396, "1a01e3ad21b6c5c2d20b367f055d73bf39743116241008601549a0bbd0b00d14"),
   (1780836, "15e361852639e4b53deb5d1d77acf41650cd33d389db853e2b4ebd8f87c2eb9d"),
   (1781040, "c93dbc218726f9afc4ebc6c67b9bedc80d52aedd9ab8ce7998015fbe34d5b4e1"),
   (1784352, "59732f183678346c2506a1de4e11dc8eb097a17557a28ab1fbb0fae13fe1cf9a"),
   (1831366, "d775b62de808b578d907d524dd8d38da641b6fe020d8c23cc6e3ebb828d591a3")]

namespace CheckpointDb

variable {η : Type}

/-- `get_block_checkpoint`. -/
def getBlockCheckpoint (db : CheckpointDb η) (height : ℕ) : Option (Checkpoint η) :=
  db.checkpoints.find? (·.height = height)

/-- `get_top_checkpoint`: the last key, `MDB_LAST`. -/
def getTopCheckpoint (db : CheckpointDb η) : Option (Checkpoint η) :=
  db.checkpoints.getLast?

/-- `remove_block_checkpoint`: deletes the checkpoint at `height`, if there is one. -/
def removeBlockCheckpoint (height : ℕ) (db : CheckpointDb η) : CheckpointDb η :=
  ⟨db.checkpoints.filter (·.height ≠ height), db.sorted.filter _⟩

/-- A checkpoint put at its height into a list sorted by height. -/
def putCheckpoint (c : Checkpoint η) : List (Checkpoint η) → List (Checkpoint η)
  | [] => [c]
  | x :: xs =>
    if c.height < x.height then c :: x :: xs
    else if c.height = x.height then c :: xs
    else x :: putCheckpoint c xs

theorem mem_putCheckpoint {c x : Checkpoint η} :
    ∀ {l : List (Checkpoint η)}, x ∈ putCheckpoint c l → x = c ∨ x ∈ l
  | [], h => .inl (List.mem_singleton.mp h)
  | y :: ys, h => by
    unfold putCheckpoint at h
    split at h
    · exact (List.mem_cons.mp h).imp id id
    · split at h
      · rcases List.mem_cons.mp h with h | h
        · exact .inl h
        · exact .inr (List.mem_cons_of_mem y h)
      · rcases List.mem_cons.mp h with h | h
        · exact .inr (h ▸ List.mem_cons_self)
        · exact (mem_putCheckpoint h).imp id (List.mem_cons_of_mem y)

theorem pairwise_putCheckpoint (c : Checkpoint η) :
    ∀ {l : List (Checkpoint η)}, l.Pairwise (fun a b => a.height < b.height) →
      (putCheckpoint c l).Pairwise (fun a b => a.height < b.height)
  | [], _ => List.pairwise_singleton _ c
  | y :: ys, h => by
    obtain ⟨hy, hys⟩ := List.pairwise_cons.mp h
    unfold putCheckpoint
    split
    · exact List.Pairwise.cons (fun b hb => by
        rcases List.mem_cons.mp hb with rfl | hb
        · assumption
        · exact Nat.lt_trans ‹_› (hy b hb)) h
    · split
      · exact List.Pairwise.cons (fun b hb => by rename_i heq; rw [heq]; exact hy b hb) hys
      · refine List.Pairwise.cons (fun b hb => ?_) (pairwise_putCheckpoint c hys)
        rcases mem_putCheckpoint hb with rfl | hb
        · omega
        · exact hy b hb

/-- `update_block_checkpoint`: `mdb_cursor_put` writes the checkpoint under its height,
over one already there. -/
def updateBlockCheckpoint (c : Checkpoint η) (db : CheckpointDb η) : CheckpointDb η :=
  ⟨putCheckpoint c db.checkpoints, pairwise_putCheckpoint c db.sorted⟩

/-- `get_checkpoints_range(start, 0, num)`: the first `num` checkpoints at or below `start`,
clamped between the bottom and the top checkpoint, from the top down. -/
def getCheckpointsRange (db : CheckpointDb η) (start num : ℕ) : List (Checkpoint η) :=
  match db.getTopCheckpoint, db.checkpoints.head? with
  | some top, some bottom =>
    let start := if start < bottom.height then bottom.height
      else if start > top.height then top.height else start
    ((db.checkpoints.filter (·.height ≤ start)).reverse).take num
  | _, _ => []

/-- `BlockchainDB::get_immutable_checkpoint(block_height)`: the newest checkpoint at or below
`block_height` if it is not a service-node one, otherwise the one before it. -/
def getImmutableCheckpoint (db : CheckpointDb η) (blockHeight : ℕ) : Option (Checkpoint η) :=
  match db.getCheckpointsRange blockHeight 2 with
  | [] => none
  | c :: rest =>
    if c.type ≠ .serviceNode then some c
    else match rest with
      | c' :: _ => some c'
      | [] => none

end CheckpointDb

/-! ### The `checkpoints` object -/

/-- The state of `cryptonote::checkpoints` that its two hooks use. -/
structure State (η : Type) where
  db : CheckpointDb η
  lastCullHeight : ℕ

variable {η : Type}

/-- `checkpoints::add_checkpoint`, with the hash already parsed: a height already
checkpointed must keep its hash, otherwise a hardcoded checkpoint is put there. -/
def addCheckpoint [DecidableEq η] (height : ℕ) (hash : η) (st : State η) : Bool × State η :=
  match st.db.getBlockCheckpoint height with
  | some checkpoint => (hash = checkpoint.blockHash, st)
  | none => (true, { st with db := st.db.updateBlockCheckpoint ⟨.hardcoded, height, hash⟩ })

/-- The loop of `checkpoints::init` over `HARDCODED_MAINNET_CHECKPOINTS`: `ADD_CHECKPOINT`
returns `false` at the first failure. -/
def addCheckpoints [DecidableEq η] : List (ℕ × η) → State η → Bool × State η
  | [], st => (true, st)
  | (height, hash) :: rest, st =>
    let (ok, st) := addCheckpoint height hash st
    if ok then addCheckpoints rest st else (false, st)

/-- `checkpoints::update_checkpoint`: the database write is taken to succeed. -/
def updateCheckpoint (checkpoint : Checkpoint η) (st : State η) : Bool × State η :=
  (true, { st with db := st.db.updateBlockCheckpoint checkpoint })

/-- The culling loop of `block_added`: from `m_last_cull_height` up to `end_cull_height` in
steps of 4, every height that is no multiple of 60 is removed. -/
def cullLoop (endCullHeight : ℕ) (db : CheckpointDb η) (lastCullHeight : ℕ) : ℕ × CheckpointDb η :=
  if lastCullHeight < endCullHeight then
    cullLoop endCullHeight
      (if lastCullHeight % checkpointStorePersistentlyInterval = 0 then db
        else db.removeBlockCheckpoint lastCullHeight)
      (lastCullHeight + checkpointInterval)
  else (lastCullHeight, db)
termination_by endCullHeight - lastCullHeight
decreasing_by unfold checkpointInterval; omega

/-- `checkpoints::block_added` for a block at `height` of `majorVersion`, with the
checkpoint it brings, if any. -/
def blockAdded (height majorVersion : ℕ) (checkpoint : Option (Checkpoint η)) (st : State η) :
    State η :=
  if height < checkpointStorePersistentlyInterval ∨ majorVersion < networkVersion16 then st
  else
    let endCullHeight := match st.db.getImmutableCheckpoint (height + 1) with
      | some immutableCheckpoint => immutableCheckpoint.height
      | none => 0
    let startCullHeight := if endCullHeight < checkpointStorePersistentlyInterval then 0
      else endCullHeight - checkpointStorePersistentlyInterval
    let startCullHeight := if startCullHeight % checkpointInterval > 0
      then startCullHeight + (checkpointInterval - startCullHeight % checkpointInterval)
      else startCullHeight
    let (lastCullHeight, db) := cullLoop endCullHeight st.db (max st.lastCullHeight startCullHeight)
    let st : State η := { db, lastCullHeight }
    match checkpoint with
    | some c => (updateCheckpoint c st).2
    | none => st

/-- The loop of `blockchain_detached`: from `delete_height` down in steps of
`CHECKPOINT_INTERVAL = 4`, while it is at least `height` and at least 4. -/
def detachLoop (height : ℕ) : ℕ → CheckpointDb η → CheckpointDb η
  | deleteHeight + 4, db =>
    if deleteHeight + 4 ≥ height then
      detachLoop height deleteHeight (db.removeBlockCheckpoint (deleteHeight + 4))
    else db
  | _, db => db

/-- `checkpoints::blockchain_detached(height)`. -/
def blockchainDetached (height : ℕ) (st : State η) : State η :=
  let lastCullHeight := min st.lastCullHeight height
  match st.db.getTopCheckpoint with
  | some topCheckpoint => { db := detachLoop height topCheckpoint.height st.db, lastCullHeight }
  | none => { st with lastCullHeight }

/-! ### What `blockchain_detached` removes -/

/-- A filter that no checkpoint fails keeps the whole table. -/
theorem filter_of_forall_not {l : List (Checkpoint η)} {p : Checkpoint η → Prop} [DecidablePred p]
    (h : ∀ c, ¬ p c) : (l.filter fun c => ¬ p c) = l :=
  List.filter_eq_self.mpr fun c _ => by simpa using h c

/-- Removing the checkpoint at `h` and then filtering is one filter, which also drops `h`. -/
theorem CheckpointDb.filter_removeBlockCheckpoint {db : CheckpointDb η} {h : ℕ}
    {p q : Checkpoint η → Prop} [DecidablePred p] [DecidablePred q] (hq : ∀ c, q c ↔ p c ∨ c.height = h) :
    ((db.removeBlockCheckpoint h).checkpoints.filter fun c => ¬ p c) =
      db.checkpoints.filter fun c => ¬ q c := by
  rw [CheckpointDb.removeBlockCheckpoint, List.filter_filter]
  refine List.filter_congr fun c _ => ?_
  rw [← Bool.decide_and, decide_eq_decide, hq, not_or]

/-- The heights that the walk of `blockchain_detached` from `top` visits: from `max height 4`
up to `top`, congruent to `top` modulo 4. -/
def detachedBy (height top x : ℕ) : Prop := max height 4 ≤ x ∧ x ≤ top ∧ x % 4 = top % 4

instance (height top x : ℕ) : Decidable (detachedBy height top x) :=
  inferInstanceAs (Decidable (_ ∧ _ ∧ _))

/-- The walk removes exactly the heights it visits. -/
theorem detachLoop_checkpoints (height : ℕ) :
    ∀ (deleteHeight : ℕ) (db : CheckpointDb η), (detachLoop height deleteHeight db).checkpoints =
      db.checkpoints.filter fun c => ¬ detachedBy height deleteHeight c.height
  | deleteHeight + 4, db => by
    unfold detachLoop
    split
    · -- one step: `deleteHeight + 4` goes, and the walk goes on from `deleteHeight`
      rename_i hge
      rw [detachLoop_checkpoints height deleteHeight]
      exact CheckpointDb.filter_removeBlockCheckpoint fun c => by unfold detachedBy; omega
    · -- below `height` the walk stops, and no height it would visit is at or above `height`
      rename_i hlt
      symm
      exact filter_of_forall_not fun c hc => by unfold detachedBy at hc; omega
  | 0, db | 1, db | 2, db | 3, db => by
    symm
    exact filter_of_forall_not fun c hc => by unfold detachedBy at hc; omega

/-- `blockchain_detached(height)` removes exactly the checkpoints at the heights its walk
from the top checkpoint visits, whatever their type. -/
theorem blockchainDetached_checkpoints {height : ℕ} {st : State η} {top : Checkpoint η}
    (htop : st.db.getTopCheckpoint = some top) :
    (blockchainDetached height st).db.checkpoints =
      st.db.checkpoints.filter fun c => ¬ detachedBy height top.height c.height := by
  unfold blockchainDetached
  rw [htop]
  exact detachLoop_checkpoints height top.height st.db

/-- Service-node checkpoints at `4`, `8` and `12` and a hardcoded one at `10`. -/
def fourCheckpointsState : State ℕ :=
  ⟨⟨[⟨.serviceNode, 4, 0⟩, ⟨.serviceNode, 8, 1⟩, ⟨.hardcoded, 10, 2⟩, ⟨.serviceNode, 12, 3⟩],
    by decide⟩, 0⟩

/-- A detach at `6` walks down from `12` through `8`: the checkpoints at `4` and `10` stay. -/
theorem blockchainDetached_checkpoints_from_twelve :
    fourCheckpointsState.db.getTopCheckpoint = some ⟨.serviceNode, 12, 3⟩ ∧
      (blockchainDetached 6 fourCheckpointsState).db.checkpoints =
        fourCheckpointsState.db.checkpoints.filter (fun c => ¬ detachedBy 6 12 c.height) ∧
      (blockchainDetached 6 fourCheckpointsState).db.checkpoints.map Checkpoint.height = [4, 10] :=
  ⟨rfl, @blockchainDetached_checkpoints ℕ 6 fourCheckpointsState ⟨.serviceNode, 12, 3⟩ rfl, by decide⟩

/-- The store of a mainnet node at its start, with no checkpoint yet. -/
def emptyState : State η := ⟨⟨[], List.Pairwise.nil⟩, 0⟩

/-- From the mainnet table, a service-node checkpoint at `1831364` under the hardcoded top
`1831366`, and a detach at `1831300`: the walk from `1831366` removes that hardcoded
checkpoint, steps over `1831364`, and the service-node checkpoint above `1831300` stays. -/
theorem blockchainDetached_from_hardcoded_top :
    (addCheckpoints hardcodedMainnetCheckpoints (emptyState : State String)).1 = true ∧
      ∃ st : State String,
        st = (updateCheckpoint ⟨.serviceNode, 1831364, "sn"⟩
          (addCheckpoints hardcodedMainnetCheckpoints emptyState).2).2 ∧
        (∃ c ∈ st.db.checkpoints, c.type = .hardcoded ∧ c.height = 1831366) ∧
        (∃ c ∈ (blockchainDetached 1831300 st).db.checkpoints,
          c.type = .serviceNode ∧ c.height = 1831364) ∧
        ¬ ∃ c ∈ (blockchainDetached 1831300 st).db.checkpoints, c.height = 1831366 := by
  refine ⟨by decide, _, rfl, ?_⟩
  decide

/-! ### What `block_added` removes -/

/-- The culling loop removes exactly the heights from `m_last_cull_height` below
`end_cull_height` that it steps through and that are no multiple of 60, whatever their type. -/
theorem cullLoop_checkpoints (endCullHeight : ℕ) (db : CheckpointDb η) (lastCullHeight : ℕ) :
    (cullLoop endCullHeight db lastCullHeight).2.checkpoints =
      db.checkpoints.filter fun c => ¬ (lastCullHeight ≤ c.height ∧ c.height < endCullHeight ∧
        c.height % 4 = lastCullHeight % 4 ∧ c.height % 60 ≠ 0) := by
  induction db, lastCullHeight using cullLoop.induct endCullHeight with
  | case1 db lastCullHeight hlt ih =>
    rw [dite_eq_ite] at ih
    rw [cullLoop, if_pos hlt, ih]
    unfold checkpointStorePersistentlyInterval checkpointInterval
    by_cases h60 : lastCullHeight % 60 = 0
    · -- a multiple of 60 is kept
      rw [if_pos h60]
      refine List.filter_congr fun c _ => ?_
      rw [decide_eq_decide]
      omega
    · rw [if_neg h60]
      exact CheckpointDb.filter_removeBlockCheckpoint fun c => by omega
  | case2 db lastCullHeight hge =>
    rw [cullLoop, if_neg hge]
    symm
    exact filter_of_forall_not fun c => by omega

end Arqma.Checkpoints
