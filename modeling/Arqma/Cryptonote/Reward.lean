import Arqma.ServiceNodes.Winner

/-!
# Block rewards

The base reward of a block (`get_base_block_reward`, `cryptonote_basic_impl.cpp`) and
its split (`get_arqma_block_reward`, `cryptonote_tx_utils.cpp`): the service nodes'
share, cut into the winner's payouts by `get_portion_of_reward`, the governance,
development and network funds, and what is left to the miner.

## The model

Every amount is a `uint64_t` and every block weight a `size_t`: naturals below
`2 ^ 64`, with each sum, difference and product of the code reduced as the code
reduces it (`Word64`, `% 2 ^ 64`). `block_reward_parts` is the record of the nine
amounts, and the context the fields of `arqma_block_reward_context` that the split
reads: the height, the fee, and the payouts, which the validator leaves at
`null_winner`. `get_arqma_block_reward` is cut where the base reward is known:
`arqmaBlockRewardParts` splits a given base reward, so that what is proved of it holds
of every base reward.

Results:
* `getPortionOfReward_eq`: a portion of at most `STAKING_SHARE_PARTS` is the exact
  floored share of the total.
* `calculateSumOfPortions_eq`, `calculateSumOfPortions_le`: payouts of at most
  `STAKING_SHARE_PARTS` between them are paid the sum of their shares, at most the
  total, and the running sum does not wrap.
* `arqmaBlockRewardParts_spec`: the split of any base reward, field by field.
* `arqmaBlockRewardParts_split`: for every base reward and payouts of at most the
  whole stake, the payouts are paid the sum of their portions, at most the service
  nodes' total, itself at most the base reward, and the miner's part does not wrap.
* `getBaseBlockReward_of_fork`: from version 16 on, the base reward is the premine at
  height 1 and `HF16_BL_REWARD` everywhere else.
-/

namespace Arqma.Cryptonote

open Arqma.Epee.IntUtil Arqma.ServiceNodes

variable {α : Type}

/-! ### Constants -/

/-- `MONEY_SUPPLY`. -/
def moneySupply : ℕ := 50000000000000000

/-- `EMISSION_SPEED_FACTOR_PER_MINUTE`. -/
def emissionSpeedFactorPerMinute : ℕ := 22

/-- `FINAL_SUBSIDY_PER_MINUTE`. -/
def finalSubsidyPerMinute : ℕ := 300000000

/-- `DIFFICULTY_TARGET_V2`: seconds per block. -/
def difficultyTargetV2 : ℕ := 240

/-- `CRYPTONOTE_BLOCK_GRANTED_FULL_REWARD_ZONE_V5`. -/
def cryptonoteBlockGrantedFullRewardZoneV5 : ℕ := 300000

/-- `arqma_bc::MINIMUM_BLOCK_SIZE_LIMIT`. -/
def minimumBlockSizeLimit : ℕ := 1048576

/-- `arqma_bc::PREMINE`. -/
def premine : ℕ := 7500000000000000

/-- `arqma_bc::PREMINE_BURN`. -/
def premineBurn : ℕ := 5100000000000000

/-- `arqma_bc::HF16_BL_REWARD`. -/
def hf16BlReward : ℕ := 20 * arqma

/-- `config::governance::gr`: each fund's percentage of the base reward. -/
def governanceGr : ℕ := 15

/-- `config::governance::sn`: the service nodes' share is the base reward divided by it. -/
def governanceSn : ℕ := 2

/-! ### The base reward -/

/-- `get_min_block_weight`. -/
def getMinBlockWeight (hardForkVersion : ℕ) : ℕ :=
  if hardForkVersion < 13 then cryptonoteBlockGrantedFullRewardZoneV5 else minimumBlockSizeLimit

/-- `get_base_block_reward`: the reward, or `none` for `false` where the block weighs
more than twice the median. The penalty for a block above the median is computed
with `mul128` and two divisions by the median as a 32-bit word. -/
def getBaseBlockReward (medianWeight currentBlockWeight alreadyGeneratedCoins hardForkVersion height : ℕ) :
    Option ℕ :=
  let targetMinutes := difficultyTargetV2 / 60
  let emissionSpeedFactor := emissionSpeedFactorPerMinute - (targetMinutes - 3)
  if height = 1 then some premine
  else
    let alreadyGeneratedCoins :=
      if 12 < hardForkVersion then Word64.sub alreadyGeneratedCoins premineBurn else alreadyGeneratedCoins
    if 15 < hardForkVersion then some hf16BlReward
    else
      let baseReward := Word64.sub moneySupply alreadyGeneratedCoins >>> emissionSpeedFactor
      let baseReward := if baseReward < finalSubsidyPerMinute * targetMinutes
        then finalSubsidyPerMinute * targetMinutes else baseReward
      let fullRewardZone := getMinBlockWeight hardForkVersion
      let medianWeight := if medianWeight < fullRewardZone then fullRewardZone else medianWeight
      if currentBlockWeight ≤ medianWeight then some baseReward
      else if 2 * medianWeight % 2 ^ 64 < currentBlockWeight then none
      else
        let multiplicand := Word64.sub (2 * medianWeight % 2 ^ 64) currentBlockWeight * currentBlockWeight % 2 ^ 64
        let product := mul128 baseReward multiplicand
        let reward := div128_32 product.2 product.1 (medianWeight % 2 ^ 32)
        let reward := div128_32 reward.1 reward.2.1 (medianWeight % 2 ^ 32)
        some reward.2.1

/-- From version 16 on the base reward is fixed: the premine at height 1, and
`HF16_BL_REWARD` everywhere else, whatever the weights. -/
theorem getBaseBlockReward_of_fork {medianWeight currentBlockWeight alreadyGeneratedCoins hardForkVersion : ℕ}
    (height : ℕ) (hfork : 16 ≤ hardForkVersion) :
    getBaseBlockReward medianWeight currentBlockWeight alreadyGeneratedCoins hardForkVersion height =
      some (if height = 1 then premine else hf16BlReward) := by
  unfold getBaseBlockReward
  split_ifs <;> first | rfl | omega

/-! ### The split -/

/-- `block_reward_parts`. -/
structure BlockRewardParts where
  /-- `service_node_total`. -/
  serviceNodeTotal : ℕ
  /-- `service_node_paid`. -/
  serviceNodePaid : ℕ
  /-- `gov`. -/
  gov : ℕ
  /-- `dev`. -/
  dev : ℕ
  /-- `net`. -/
  net : ℕ
  /-- `base_miner`. -/
  baseMiner : ℕ
  /-- `base_miner_fee`. -/
  baseMinerFee : ℕ
  /-- `adjusted_base_reward`. -/
  adjustedBaseReward : ℕ
  /-- `original_base_reward`. -/
  originalBaseReward : ℕ
  deriving DecidableEq, Repr

/-- `block_reward_parts::miner_reward`. -/
def BlockRewardParts.minerReward (parts : BlockRewardParts) : ℕ :=
  Word64.add parts.baseMiner parts.baseMinerFee

/-- The fields of `arqma_block_reward_context` that `get_arqma_block_reward` reads. -/
structure ArqmaBlockRewardContext (α : Type) where
  /-- `height`. -/
  height : ℕ
  /-- `fee`. -/
  fee : ℕ
  /-- `service_node_payouts`. -/
  serviceNodePayouts : List (PayoutEntry α)
  deriving DecidableEq, Repr

/-- `dev_reward_formula`: the share of each fund, from version 16 on. -/
def devRewardFormula (baseReward hardForkVersion : ℕ) : ℕ :=
  if 16 ≤ hardForkVersion then baseReward * governanceGr % 2 ^ 64 / 100 else 0

/-- `service_node_reward_formula`: the service nodes' total, from version 16 on. -/
def serviceNodeRewardFormula (baseReward hardForkVersion : ℕ) : ℕ :=
  if 16 ≤ hardForkVersion then baseReward / governanceSn else 0

/-- `get_portion_of_reward`: `portions` of `STAKING_SHARE_PARTS` of the total, by
`mul128` and `div128_64`, as `portions_to_amount` computes a share of the stake. -/
def getPortionOfReward (portions totalServiceNodeReward : ℕ) : ℕ :=
  mulDiv128Lo totalServiceNodeReward portions stakingShareParts

/-- `calculate_sum_of_portions`, with its `uint64_t` running sum. -/
def calculateSumOfPortions (payouts : List (PayoutEntry α)) (totalServiceNodeReward : ℕ) : ℕ :=
  payouts.foldl (fun reward payout =>
    Word64.add reward (getPortionOfReward payout.portions totalServiceNodeReward)) 0

/-- `get_arqma_block_reward` once `get_base_block_reward` has given `baseReward`:
the parts, or `none` for `false`. Before any coin is generated the whole base reward
goes to the miner, and nothing else is set. -/
def arqmaBlockRewardParts (baseReward alreadyGeneratedCoins hardForkVersion : ℕ)
    (arqmaContext : ArqmaBlockRewardContext α) : Option BlockRewardParts :=
  if baseReward = 0 then none
  else if alreadyGeneratedCoins = 0 then
    some ⟨0, 0, 0, 0, 0, baseReward, 0, baseReward, baseReward⟩
  else
    let serviceNodeTotal := serviceNodeRewardFormula baseReward hardForkVersion
    let serviceNodePaid := calculateSumOfPortions arqmaContext.serviceNodePayouts serviceNodeTotal
    let fund := devRewardFormula baseReward hardForkVersion
    let parts : BlockRewardParts :=
      { serviceNodeTotal
        serviceNodePaid
        gov := fund
        dev := fund
        net := fund
        baseMiner := Word64.sub baseReward serviceNodePaid
        baseMinerFee := arqmaContext.fee
        adjustedBaseReward := Word64.add baseReward (Word64.add (Word64.add fund fund) fund)
        originalBaseReward := baseReward }
    -- the one block that pays the funds an extra endowment
    if arqmaContext.height = 1731482 then
      some { parts with
        gov := Word64.add fund (2000000 * arqma)
        dev := Word64.add fund (500000 * arqma)
        net := Word64.add fund (500000 * arqma) }
    else some parts

/-- A portion of at most the whole stake is the exact floored share of the total. -/
theorem getPortionOfReward_eq {portions totalServiceNodeReward : ℕ} (hp : portions ≤ stakingShareParts)
    (htotal : totalServiceNodeReward < 2 ^ 64) :
    getPortionOfReward portions totalServiceNodeReward =
      totalServiceNodeReward * portions / stakingShareParts :=
  mulDiv128Lo_of_le_right htotal (by decide) stakingShareParts_lt hp

section Payouts

variable {payouts : List (PayoutEntry α)} {totalServiceNodeReward : ℕ}

/-- Payouts of at most the whole stake between them are paid at most the total. -/
theorem sum_getPortionOfReward_le (hsum : (payouts.map PayoutEntry.portions).sum ≤ stakingShareParts)
    (htotal : totalServiceNodeReward < 2 ^ 64) :
    (payouts.map fun payout => getPortionOfReward payout.portions totalServiceNodeReward).sum ≤
      totalServiceNodeReward := by
  -- a portion of the reward is computed as a share of the stake is
  have h := sum_portionsToAmount_le hsum htotal
  rw [List.map_map] at h
  exact h

/-- The running sum of `calculate_sum_of_portions` does not wrap: it is the sum of
the payouts' portions of the total. -/
theorem calculateSumOfPortions_eq (hsum : (payouts.map PayoutEntry.portions).sum ≤ stakingShareParts)
    (htotal : totalServiceNodeReward < 2 ^ 64) :
    calculateSumOfPortions payouts totalServiceNodeReward =
      (payouts.map fun payout => getPortionOfReward payout.portions totalServiceNodeReward).sum := by
  have hle := sum_getPortionOfReward_le hsum htotal
  have hfold : calculateSumOfPortions payouts totalServiceNodeReward =
      (payouts.map fun payout => getPortionOfReward payout.portions totalServiceNodeReward).foldl
        Word64.add 0 := by
    rw [List.foldl_map]
    rfl
  rw [hfold, Word64.foldl_add_of_lt _ 0 (by omega), Nat.zero_add]

theorem calculateSumOfPortions_le (hsum : (payouts.map PayoutEntry.portions).sum ≤ stakingShareParts)
    (htotal : totalServiceNodeReward < 2 ^ 64) :
    calculateSumOfPortions payouts totalServiceNodeReward ≤ totalServiceNodeReward :=
  calculateSumOfPortions_eq hsum htotal ▸ sum_getPortionOfReward_le hsum htotal

end Payouts

/-- Each fund's share is at most the base reward, even where the product wraps. -/
theorem devRewardFormula_le (baseReward hardForkVersion : ℕ) :
    devRewardFormula baseReward hardForkVersion ≤ baseReward := by
  unfold devRewardFormula governanceGr
  split_ifs
  · have hmod := Nat.mod_le (baseReward * 15) (2 ^ 64)
    omega
  · exact Nat.zero_le _

theorem serviceNodeRewardFormula_le (baseReward hardForkVersion : ℕ) :
    serviceNodeRewardFormula baseReward hardForkVersion ≤ baseReward := by
  unfold serviceNodeRewardFormula governanceSn
  split_ifs <;> omega

/-- The split of a base reward, field by field, once some coin is generated. -/
theorem arqmaBlockRewardParts_spec {baseReward alreadyGeneratedCoins : ℕ} (hardForkVersion : ℕ)
    (arqmaContext : ArqmaBlockRewardContext α) (hbase : baseReward ≠ 0) (hcoins : alreadyGeneratedCoins ≠ 0) :
    ∃ parts, arqmaBlockRewardParts baseReward alreadyGeneratedCoins hardForkVersion arqmaContext = some parts ∧
      parts.originalBaseReward = baseReward ∧
      parts.serviceNodeTotal = serviceNodeRewardFormula baseReward hardForkVersion ∧
      parts.serviceNodePaid = calculateSumOfPortions arqmaContext.serviceNodePayouts parts.serviceNodeTotal ∧
      parts.baseMiner = Word64.sub baseReward parts.serviceNodePaid ∧
      parts.baseMinerFee = arqmaContext.fee ∧
      (parts.gov, parts.dev, parts.net) =
        let fund := devRewardFormula baseReward hardForkVersion
        if arqmaContext.height = 1731482 then
          (Word64.add fund (2000000 * arqma), Word64.add fund (500000 * arqma), Word64.add fund (500000 * arqma))
        else (fund, fund, fund) := by
  unfold arqmaBlockRewardParts
  rw [if_neg hbase, if_neg hcoins]
  dsimp only
  split_ifs with hheight
  · exact ⟨_, rfl, rfl, rfl, rfl, rfl, rfl, rfl⟩
  · exact ⟨_, rfl, rfl, rfl, rfl, rfl, rfl, rfl⟩

/-- The service nodes' split of every base reward: the payouts are paid the sum of
their portions, at most the service nodes' total, itself at most the base reward, and
the miner keeps the rest without a wrap. -/
theorem arqmaBlockRewardParts_split {baseReward alreadyGeneratedCoins hardForkVersion : ℕ}
    {arqmaContext : ArqmaBlockRewardContext α} {parts : BlockRewardParts} (hbase : baseReward < 2 ^ 64)
    (hsum : (arqmaContext.serviceNodePayouts.map PayoutEntry.portions).sum ≤ stakingShareParts)
    (h : arqmaBlockRewardParts baseReward alreadyGeneratedCoins hardForkVersion arqmaContext = some parts) :
    parts.originalBaseReward = baseReward ∧
      parts.serviceNodePaid = (arqmaContext.serviceNodePayouts.map fun payout =>
        getPortionOfReward payout.portions parts.serviceNodeTotal).sum ∧
      parts.serviceNodePaid ≤ parts.serviceNodeTotal ∧ parts.serviceNodeTotal ≤ baseReward ∧
      parts.baseMiner = baseReward - parts.serviceNodePaid := by
  by_cases hzero : baseReward = 0
  · simp [arqmaBlockRewardParts, hzero] at h
  by_cases hcoins : alreadyGeneratedCoins = 0
  · -- before any coin is generated, nothing goes to the service nodes
    simp only [arqmaBlockRewardParts, hzero, hcoins, if_false, if_true, Option.some.injEq] at h
    subst h
    have hshares : ∀ payout ∈ arqmaContext.serviceNodePayouts, getPortionOfReward payout.portions 0 = 0 :=
      fun payout hp => by
        rw [getPortionOfReward_eq (le_trans (List.le_sum_of_mem (List.mem_map_of_mem hp)) hsum) (by decide)]
        simp
    refine ⟨rfl, ?_, le_rfl, Nat.zero_le _, by simp⟩
    rw [List.map_congr_left hshares]
    simp
  obtain ⟨parts', hparts, horig, htotal, hpaid, hminer, -, -⟩ :=
    arqmaBlockRewardParts_spec hardForkVersion arqmaContext hzero hcoins
  rw [hparts, Option.some.injEq] at h
  subst h
  have htotal_le : parts'.serviceNodeTotal ≤ baseReward := htotal ▸ serviceNodeRewardFormula_le _ _
  have htotal_lt : parts'.serviceNodeTotal < 2 ^ 64 := by omega
  have hpaid_le := calculateSumOfPortions_le hsum htotal_lt
  refine ⟨horig, hpaid.trans (calculateSumOfPortions_eq hsum htotal_lt), hpaid ▸ hpaid_le, htotal_le, ?_⟩
  rw [hminer, Word64.sub_of_le (by omega) hbase]

/-- Each fund is paid at most the base reward and the endowment of the one block that
has one. -/
theorem arqmaBlockRewardParts_funds_le {baseReward alreadyGeneratedCoins hardForkVersion : ℕ}
    {arqmaContext : ArqmaBlockRewardContext α} {parts : BlockRewardParts}
    (h : arqmaBlockRewardParts baseReward alreadyGeneratedCoins hardForkVersion arqmaContext = some parts) :
    parts.gov ≤ baseReward + 2000000 * arqma ∧ parts.dev ≤ baseReward + 2000000 * arqma ∧
      parts.net ≤ baseReward + 2000000 * arqma := by
  by_cases hzero : baseReward = 0
  · simp [arqmaBlockRewardParts, hzero] at h
  by_cases hcoins : alreadyGeneratedCoins = 0
  · simp only [arqmaBlockRewardParts, hzero, hcoins, if_false, if_true, Option.some.injEq] at h
    subst h
    simp
  obtain ⟨parts', hparts, -, -, -, -, -, hfunds⟩ :=
    arqmaBlockRewardParts_spec hardForkVersion arqmaContext hzero hcoins
  rw [hparts, Option.some.injEq] at h
  subst h
  have hfund := devRewardFormula_le baseReward hardForkVersion
  -- an unsigned sum is at most the true one
  have hwrap : ∀ x y : ℕ, Word64.add x y ≤ x + y := fun x y => Nat.mod_le _ _
  have h500 : Word64.add (devRewardFormula baseReward hardForkVersion) (500000 * arqma) ≤
      baseReward + 2000000 * arqma := by
    have := hwrap (devRewardFormula baseReward hardForkVersion) (500000 * arqma)
    unfold arqma at *
    omega
  have h2000 : Word64.add (devRewardFormula baseReward hardForkVersion) (2000000 * arqma) ≤
      baseReward + 2000000 * arqma := by
    have := hwrap (devRewardFormula baseReward hardForkVersion) (2000000 * arqma)
    omega
  split_ifs at hfunds
  · simp only [Prod.mk.injEq] at hfunds
    obtain ⟨hg, hd, hn⟩ := hfunds
    exact ⟨hg ▸ h2000, hd ▸ h500, hn ▸ h500⟩
  · simp only [Prod.mk.injEq] at hfunds
    obtain ⟨hg, hd, hn⟩ := hfunds
    exact ⟨by omega, by omega, by omega⟩

/-- `get_arqma_block_reward`. -/
def getArqmaBlockReward (medianWeight currentBlockWeight alreadyGeneratedCoins hardForkVersion : ℕ)
    (arqmaContext : ArqmaBlockRewardContext α) : Option BlockRewardParts :=
  (getBaseBlockReward medianWeight currentBlockWeight alreadyGeneratedCoins hardForkVersion
    arqmaContext.height).bind fun baseReward =>
      arqmaBlockRewardParts baseReward alreadyGeneratedCoins hardForkVersion arqmaContext

/-- From version 16 on, the reward is the split of the fixed base reward. -/
theorem getArqmaBlockReward_of_fork {medianWeight currentBlockWeight alreadyGeneratedCoins hardForkVersion : ℕ}
    (arqmaContext : ArqmaBlockRewardContext α) (hfork : 16 ≤ hardForkVersion) :
    getArqmaBlockReward medianWeight currentBlockWeight alreadyGeneratedCoins hardForkVersion arqmaContext =
      arqmaBlockRewardParts (if arqmaContext.height = 1 then premine else hf16BlReward)
        alreadyGeneratedCoins hardForkVersion arqmaContext := by
  rw [getArqmaBlockReward, getBaseBlockReward_of_fork _ hfork, Option.bind_some]

end Arqma.Cryptonote
