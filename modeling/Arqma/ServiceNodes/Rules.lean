import Arqma.Epee.IntUtil
import Arqma.Lib.Word64
import Arqma.Lib.ListSums

/-!
# Service-node rules

The constants and the stake arithmetic of `service_node_rules.{h,cpp}` and
`cryptonote_config.h`: the staking requirement, the minimum contribution, the
portion checks of a registration (`check_service_node_portions`, and the walk over
the portions in `get_registration_hash`, `cryptonote_format_utils.cpp`) and the
conversion of portions to atomic amounts.

## The model

Amounts and portions are `uint64_t`: naturals below `2 ^ 64`, with the code's
unsigned sums and differences written as `Word64.add` and `Word64.sub`, so that
`get_min_node_contribution` on a total past the requirement wraps as in the code.
`get_registration_hash` is modelled by its checks only: whether it returns a hash,
not which one (the hash is signed, and the signature check is outside the model).

Results:
* `getRegistrationHash_iff`: a registration hashes exactly when it has one portion
  per address and its portions add up to at most `STAKING_SHARE_PARTS`.
* `sum_portionsToAmount_le`: such portions reserve at most the staking requirement
  between them.
-/

namespace Arqma.ServiceNodes

open Arqma.Epee.IntUtil

/-- `cryptonote::network_type`. -/
inductive NetworkType where
  | mainnet
  | testnet
  | stagenet
  | fakechain
  | undefined
  deriving DecidableEq, Repr

/-! ### Constants -/

/-- `arqma_bc::ARQMA`: atomic units in one coin. -/
def arqma : ℕ := 1000000000

/-- `STAKING_SHARE_PARTS`: the whole of a node's stake, in portions. -/
def stakingShareParts : ℕ := 0xfffffffffffffffc

/-- `MAX_NUMBER_OF_CONTRIBUTORS`. -/
def maxNumberOfContributors : ℕ := 12

/-- `UINT64_MAX`. -/
def uint64Max : ℕ := 2 ^ 64 - 1

/-- `UINT32_MAX`. -/
def uint32Max : ℕ := 2 ^ 32 - 1

/-- `UNASSIGNED_SWARM_ID`. -/
def unassignedSwarmId : ℕ := uint64Max

/-- `KEY_IMAGE_AWAITING_UNLOCK_HEIGHT`. -/
def keyImageAwaitingUnlockHeight : ℕ := 0

/-- `DIFFICULTY_TARGET_V16`, which is `DIFFICULTY_TARGET_V11`: seconds per block. -/
def difficultyTargetV16 : ℕ := 120

/-- `BLOCKS_EXPECTED_IN_HOURS(val)`. -/
def blocksExpectedInHours (val : ℕ) : ℕ := 3600 / difficultyTargetV16 * val

/-- `BLOCKS_EXPECTED_IN_DAYS(val)`. -/
def blocksExpectedInDays (val : ℕ) : ℕ := blocksExpectedInHours 24 * val

/-- `staking_num_lock_blocks`. -/
def stakingNumLockBlocks : NetworkType → ℕ
  | .testnet | .stagenet => blocksExpectedInDays 2
  | _ => blocksExpectedInDays 30

/-- `get_staking_requirement`: the stake of one node, in atomic units. -/
def getStakingRequirement (nettype : NetworkType) (_height : ℕ) : ℕ :=
  if nettype ≠ .mainnet then 1000 * arqma else 100000 * arqma

/-- `get_locked_key_image_unlock_height`. -/
def getLockedKeyImageUnlockHeight (nettype : NetworkType) (_nodeRegisterHeight currHeight : ℕ) : ℕ :=
  currHeight + stakingNumLockBlocks nettype / 2

theorem getStakingRequirement_pos (nettype : NetworkType) (height : ℕ) :
    0 < getStakingRequirement nettype height := by
  unfold getStakingRequirement arqma; split_ifs <;> decide

theorem getStakingRequirement_lt (nettype : NetworkType) (height : ℕ) :
    getStakingRequirement nettype height < 2 ^ 64 := by
  unfold getStakingRequirement arqma; split_ifs <;> decide

theorem stakingShareParts_lt : stakingShareParts < 2 ^ 64 := by decide

/-! ### Stake arithmetic -/

/-- `portions_to_amount`: the part of `staking_requirement` that `portions` stand for,
rounded down. `is_registration_tx` repeats its body inline. -/
def portionsToAmount (portions stakingRequirement : ℕ) : ℕ :=
  mulDiv128Lo stakingRequirement portions stakingShareParts

/-- `get_min_node_contribution`: what is still needed, shared between the places left.
The subtraction is unsigned. -/
def getMinNodeContribution (stakingRequirement totalReserved numContributions : ℕ) : ℕ :=
  let needed := Word64.sub stakingRequirement totalReserved
  if maxNumberOfContributors ≤ numContributions then uint64Max
  else needed / (maxNumberOfContributors - numContributions)

/-- `get_portions_to_make_amount`: the portions that make up `amount` of
`staking_requirement`, rounded up: `amount * STAKING_SHARE_PARTS + (staking_requirement - 1)`
in 128 bits, with the carry of the low word, divided by `staking_requirement`. -/
def getPortionsToMakeAmount (stakingRequirement amount : ℕ) : ℕ :=
  let product := mul128 amount stakingShareParts
  let hi := if product.1 > uint64Max - Word64.sub stakingRequirement 1 then Word64.add product.2 1
    else product.2
  let lo := Word64.add product.1 (Word64.sub stakingRequirement 1)
  (div128_64 hi lo stakingRequirement).2.1

/-- `get_min_node_contribution_in_portions`: the minimum contribution, in portions;
`UINT64_MAX` stays the mark of no place left. -/
def getMinNodeContributionInPortions (stakingRequirement totalReserved numContributions : ℕ) : ℕ :=
  let atomicAmount := getMinNodeContribution stakingRequirement totalReserved numContributions
  if atomicAmount = uint64Max then uint64Max else getPortionsToMakeAmount stakingRequirement atomicAmount

/-- The loop of `check_service_node_portions`, at position `i` with the running
total `reserved` (a `uint64_t`). -/
def checkServiceNodePortionsLoop (i reserved : ℕ) : List ℕ → Bool
  | [] => decide (reserved ≤ stakingShareParts)
  | portion :: rest =>
    if portion < getMinNodeContribution stakingShareParts reserved i then false
    else checkServiceNodePortionsLoop (i + 1) (Word64.add reserved portion) rest

/-- `check_service_node_portions`. -/
def checkServiceNodePortions (portions : List ℕ) : Bool :=
  if maxNumberOfContributors < portions.length then false
  else checkServiceNodePortionsLoop 0 0 portions

/-- The loop of `get_registration_hash` over the portions, with `portions_left`. -/
def getRegistrationHashLoop (portionsLeft : ℕ) : List ℕ → Bool
  | [] => true
  | portion :: rest =>
    if portionsLeft < portion then false
    else getRegistrationHashLoop (portionsLeft - portion) rest

/-- Whether `get_registration_hash` succeeds: one portion per address, and portions
that never run past what is left of `STAKING_SHARE_PARTS`. -/
def getRegistrationHash (numAddresses : ℕ) (portions : List ℕ) : Bool :=
  numAddresses = portions.length && getRegistrationHashLoop stakingShareParts portions

theorem getRegistrationHashLoop_iff (portionsLeft : ℕ) (portions : List ℕ) :
    getRegistrationHashLoop portionsLeft portions = true ↔ portions.sum ≤ portionsLeft := by
  induction portions generalizing portionsLeft with
  | nil => simp [getRegistrationHashLoop]
  | cons portion rest ih =>
    rw [getRegistrationHashLoop, List.sum_cons]
    split_ifs with h
    · simp only [false_iff]; omega
    · rw [ih]; omega

/-- The walk of `get_registration_hash` bounds the true sum of the portions: a
registration that hashes does not ask for more than the whole stake. -/
theorem getRegistrationHash_iff (numAddresses : ℕ) (portions : List ℕ) :
    getRegistrationHash numAddresses portions = true ↔
      numAddresses = portions.length ∧ portions.sum ≤ stakingShareParts := by
  simp [getRegistrationHash, getRegistrationHashLoop_iff]

/-- Below `2 ^ 64`, a share of the requirement is the exact floored fraction. -/
theorem portionsToAmount_eq {portions stakingRequirement : ℕ} (hp : portions ≤ stakingShareParts)
    (hs : stakingRequirement < 2 ^ 64) :
    portionsToAmount portions stakingRequirement = stakingRequirement * portions / stakingShareParts := by
  have hle : stakingRequirement * portions / stakingShareParts ≤ stakingRequirement :=
    Nat.div_le_of_le_mul (by rw [Nat.mul_comm]; exact Nat.mul_le_mul_right _ hp)
  have hp' : portions < 2 ^ 64 := lt_of_le_of_lt hp stakingShareParts_lt
  rw [portionsToAmount, mulDiv128Lo_eq hs hp' (by decide) stakingShareParts_lt, Nat.mod_eq_of_lt (by omega)]

/-- Portions that add up to at most the whole stake reserve at most the requirement. -/
theorem sum_portionsToAmount_le {portions : List ℕ} {stakingRequirement : ℕ}
    (hsum : portions.sum ≤ stakingShareParts) (hs : stakingRequirement < 2 ^ 64) :
    (portions.map (portionsToAmount · stakingRequirement)).sum ≤ stakingRequirement := by
  have heach : ∀ p ∈ portions, p ≤ stakingShareParts :=
    fun p hp => le_trans (List.le_sum_of_mem hp) hsum
  calc (portions.map (portionsToAmount · stakingRequirement)).sum
      = (portions.map fun p => stakingRequirement * p / stakingShareParts).sum := by
        rw [List.map_congr_left fun p hp => portionsToAmount_eq (heach p hp) hs]
    _ ≤ stakingRequirement * portions.sum / stakingShareParts := ListSums.sum_map_mul_div_le _ _ _
    _ ≤ stakingRequirement * stakingShareParts / stakingShareParts :=
        Nat.div_le_div_right (Nat.mul_le_mul_left _ hsum)
    _ = stakingRequirement := Nat.mul_div_cancel _ (by decide)

end Arqma.ServiceNodes
