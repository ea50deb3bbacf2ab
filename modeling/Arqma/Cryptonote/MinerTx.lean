import Arqma.Cryptonote.Reward

/-!
# The miner transaction

What `construct_miner_tx` (`cryptonote_tx_utils.cpp`) pays, and the amount checks a
block's miner transaction meets: those of `Blockchain::validate_miner_transaction`
(`blockchain.cpp`) and those of the service node list's hook,
`service_node_list::validate_miner_tx` (`service_node_list.cpp`).

## The model

A miner transaction is the list of its output amounts, in order. The builder pays the
miner first, then, from version 16 on, one output per payout of the winner, and the
governance, development and network funds last; the validators look for the funds at
the last three positions and for the payouts from the second on. The one-time output
keys, the tx extra, the unlock times and the transaction's type and version are
outside the model; so is the read of the winner's key from the extra, which the hook
receives as an input. An index the code reads outside the outputs (undefined) fails
the check.

The validator splits the reward with the context's default payouts, `null_winner`,
and not with the winner's, and the hook checks the winner's payouts against the
service nodes' total recomputed from `original_base_reward`.

Results:
* `minerTx_split_and_accepted`: from version 16 on, once coins are generated, for a
  fee within the money supply and payouts of at most the whole stake, the split pays
  the payouts their exact floored shares, at most the service nodes' total; the
  builder's outputs add up without a wrap to the miner's reward plus the payouts and
  the funds; and both validators accept them.
-/

namespace Arqma.Cryptonote

open Arqma.ServiceNodes

variable {π α : Type}

/-! ### Building and checking -/

/-- The output amounts of `construct_miner_tx` for the winner's `payouts`, or `none`
for `false`. -/
def constructMinerTx (height medianWeight alreadyGeneratedCoins currentBlockWeight fee hardForkVersion : ℕ)
    (payouts : List (PayoutEntry α)) : Option (List ℕ) :=
  match getArqmaBlockReward medianWeight currentBlockWeight alreadyGeneratedCoins hardForkVersion
      ⟨height, fee, payouts⟩ with
  | none => none
  | some rewardParts =>
    let vout := [rewardParts.minerReward] ++
      (if 16 ≤ hardForkVersion then
        payouts.map fun payout => getPortionOfReward payout.portions rewardParts.serviceNodeTotal
      else []) ++
      (if 16 ≤ hardForkVersion then [rewardParts.gov, rewardParts.dev, rewardParts.net] else [])
    let summaryAmounts := vout.foldl Word64.add 0
    let expectedAmount := Word64.add (Word64.add (Word64.add (Word64.add rewardParts.minerReward
      rewardParts.serviceNodePaid) rewardParts.gov) rewardParts.dev) rewardParts.net
    if summaryAmounts = expectedAmount then some vout else none

/-- `within_one`. -/
def withinOne (a b : ℕ) : Bool := (if b < a then a - b else b - a) ≤ 1

/-- The amount checks of `service_node_list::validate_miner_tx` against the `winner`
of the list's state: the winner's key is the one the block names, and each payout is
paid within one of its portion of the service nodes' total, from the second output on. -/
def validateMinerTx [DecidableEq π] (winner : BlockWinner π α) (checkWinnerPubkey : π) (vout : List ℕ)
    (hardForkVersion : ℕ) (rewardParts : BlockRewardParts) : Bool :=
  if hardForkVersion < 16 then true
  else
    let totalServiceNodeReward := serviceNodeRewardFormula rewardParts.originalBaseReward hardForkVersion
    if winner.key ≠ checkWinnerPubkey then false
    else if Word64.sub vout.length 3 < winner.payouts.length then false
    else winner.payouts.zipIdx.all fun (payout, i) =>
      match vout[i + 1]? with
      | none => false
      | some amount => withinOne amount (getPortionOfReward payout.portions totalServiceNodeReward)

/-- The amount checks of `Blockchain::validate_miner_transaction`, with the hooks
`m_validate_miner_tx_hooks` as one check of the reward parts and `null_address` for
the default payouts of the reward context: the `base_reward` it sets, or `none` for
`false`. -/
def validateMinerTransaction (vout : List ℕ)
    (height medianWeight cumulativeBlockWeight fee alreadyGeneratedCoins hardForkVersion : ℕ)
    (nullAddress : α) (hook : BlockRewardParts → Bool) : Option ℕ :=
  let moneyInUse := vout.foldl Word64.add 0
  if vout.length = 0 then none
  else
    match getArqmaBlockReward medianWeight cumulativeBlockWeight alreadyGeneratedCoins hardForkVersion
        ⟨height, fee, nullWinner nullAddress⟩ with
    | none => none
    | some rewardParts =>
      if !hook rewardParts then none
      else
        let voutEnd := vout.length
        if 16 ≤ hardForkVersion ∧ (vout[Word64.sub voutEnd 3]? ≠ some rewardParts.gov ∨
            vout[Word64.sub voutEnd 2]? ≠ some rewardParts.dev ∨
            vout[Word64.sub voutEnd 1]? ≠ some rewardParts.net) then none
        else
          -- one atomic unit of slack for rounding, as the code allows
          let maxBaseReward := Word64.add (Word64.add (Word64.add (Word64.add (Word64.add
            rewardParts.baseMiner rewardParts.net) rewardParts.gov) rewardParts.dev)
            rewardParts.serviceNodePaid) 1
          let maxMoneyInUse := Word64.add maxBaseReward fee
          if maxMoneyInUse < moneyInUse then none
          else if moneyInUse < fee then none
          else some (moneyInUse - fee)

/-! ### The builder's outputs, checked -/

section Outputs

variable {minerReward gov dev net : ℕ} {shares : List ℕ}

/-- The running sum of the outputs, where their total fits, is their sum. -/
theorem foldl_outputs (h : minerReward + shares.sum + gov + dev + net < 2 ^ 64) :
    ([minerReward] ++ shares ++ [gov, dev, net]).foldl Word64.add 0 =
      minerReward + shares.sum + gov + dev + net := by
  have hsum : ([minerReward] ++ shares ++ [gov, dev, net]).sum = minerReward + shares.sum + gov + dev + net := by
    simp only [List.sum_append, List.sum_cons, List.sum_nil]
    omega
  rw [Word64.foldl_add_of_lt _ 0 (by omega), hsum, Nat.zero_add]

/-- The builder's outputs from version 16 on, where the reward is split and the
outputs add up without a wrap. -/
theorem constructMinerTx_eq {height medianWeight alreadyGeneratedCoins currentBlockWeight fee hardForkVersion : ℕ}
    {payouts : List (PayoutEntry α)} {rewardParts : BlockRewardParts} (hfork : 16 ≤ hardForkVersion)
    (hparts : getArqmaBlockReward medianWeight currentBlockWeight alreadyGeneratedCoins hardForkVersion
      ⟨height, fee, payouts⟩ = some rewardParts)
    (hpaid : rewardParts.serviceNodePaid =
      (payouts.map fun payout => getPortionOfReward payout.portions rewardParts.serviceNodeTotal).sum)
    (hbound : rewardParts.minerReward + rewardParts.serviceNodePaid + rewardParts.gov + rewardParts.dev +
      rewardParts.net < 2 ^ 64) :
    constructMinerTx height medianWeight alreadyGeneratedCoins currentBlockWeight fee hardForkVersion payouts =
      some ([rewardParts.minerReward] ++
        payouts.map (fun payout => getPortionOfReward payout.portions rewardParts.serviceNodeTotal) ++
        [rewardParts.gov, rewardParts.dev, rewardParts.net]) := by
  unfold constructMinerTx
  rw [hparts]
  dsimp only
  rw [if_pos hfork, if_pos hfork, if_pos]
  -- the running sum and the expected amount are the same true sum
  rw [foldl_outputs (hpaid ▸ hbound), ← hpaid]
  simp (disch := omega) only [Word64.add, Nat.mod_eq_of_lt]

/-- The hook accepts the builder's outputs for the winner's payouts: each is its exact
portion of the total the hook recomputes. -/
theorem validateMinerTx_outputs [DecidableEq π] (winner : BlockWinner π α) {hardForkVersion : ℕ}
    (hfork : 16 ≤ hardForkVersion) (hlen : winner.payouts.length + 4 < 2 ^ 64)
    (rewardParts : BlockRewardParts) (minerReward gov dev net : ℕ) :
    validateMinerTx winner winner.key ([minerReward] ++ winner.payouts.map (fun payout =>
        getPortionOfReward payout.portions
          (serviceNodeRewardFormula rewardParts.originalBaseReward hardForkVersion)) ++ [gov, dev, net])
      hardForkVersion rewardParts = true := by
  unfold validateMinerTx
  rw [if_neg (by omega)]
  dsimp only
  have hroom : ¬ Word64.sub ([minerReward] ++ winner.payouts.map (fun payout =>
      getPortionOfReward payout.portions
        (serviceNodeRewardFormula rewardParts.originalBaseReward hardForkVersion)) ++
        [gov, dev, net]).length 3 < winner.payouts.length := by
    -- the outputs are the payouts and four more, far from a wrap of the size
    simp only [List.length_append, List.length_map, List.length_cons, List.length_nil]
    rw [Word64.sub_of_le (by omega) (by omega)]
    omega
  rw [if_neg (by simp), if_neg hroom, List.all_eq_true]
  rintro ⟨payout, i⟩ hmem
  rw [List.mem_zipIdx_iff_getElem?] at hmem
  have hi : i < winner.payouts.length := (List.getElem?_eq_some_iff.mp hmem).1
  -- the payout's output follows the miner's
  have hvout : ([minerReward] ++ winner.payouts.map (fun payout =>
      getPortionOfReward payout.portions
        (serviceNodeRewardFormula rewardParts.originalBaseReward hardForkVersion)) ++ [gov, dev, net])[i + 1]? =
      some (getPortionOfReward payout.portions
        (serviceNodeRewardFormula rewardParts.originalBaseReward hardForkVersion)) := by
    rw [List.getElem?_append_left (by simp; omega)]
    simp [hmem]
  simp only [hvout, withinOne]
  simp

/-- The validator finds the funds at the last three outputs. -/
theorem outputs_getElem?_end (minerReward gov dev net : ℕ) (shares : List ℕ) (hlen : shares.length + 4 < 2 ^ 64) :
    ([minerReward] ++ shares ++ [gov, dev, net])[Word64.sub ([minerReward] ++ shares ++ [gov, dev, net]).length 3]? =
        some gov ∧
      ([minerReward] ++ shares ++ [gov, dev, net])[Word64.sub ([minerReward] ++ shares ++ [gov, dev, net]).length 2]? =
        some dev ∧
      ([minerReward] ++ shares ++ [gov, dev, net])[Word64.sub ([minerReward] ++ shares ++ [gov, dev, net]).length 1]? =
        some net := by
  have hlength : ([minerReward] ++ shares ++ [gov, dev, net]).length = 1 + shares.length + 3 := by
    simp only [List.length_append, List.length_cons, List.length_nil]
  rw [hlength, Word64.sub_of_le (by omega) (by omega), Word64.sub_of_le (by omega) (by omega),
    Word64.sub_of_le (by omega) (by omega)]
  -- past the miner's output and the payouts' come the three funds
  have hfund : ∀ j, ([minerReward] ++ shares ++ [gov, dev, net])[([minerReward] ++ shares).length + j]? =
      [gov, dev, net][j]? := fun j => by
    rw [List.getElem?_append_right (Nat.le_add_right _ _), Nat.add_sub_cancel_left]
  have hprefix : ([minerReward] ++ shares).length = 1 + shares.length := by simp [Nat.add_comm]
  refine ⟨?_, ?_, ?_⟩
  · rw [show 1 + shares.length + 3 - 3 = ([minerReward] ++ shares).length + 0 by omega, hfund]
    rfl
  · rw [show 1 + shares.length + 3 - 2 = ([minerReward] ++ shares).length + 1 by omega, hfund]
    rfl
  · rw [show 1 + shares.length + 3 - 1 = ([minerReward] ++ shares).length + 2 by omega, hfund]
    rfl

/-- The validator accepts outputs that carry its funds last and add up, without a
wrap, to at most its maximum. -/
theorem validateMinerTransaction_outputs
    {height medianWeight cumulativeBlockWeight fee alreadyGeneratedCoins hardForkVersion : ℕ}
    {nullAddress : α} {hook : BlockRewardParts → Bool} {rewardParts : BlockRewardParts}
    (hparts : getArqmaBlockReward medianWeight cumulativeBlockWeight alreadyGeneratedCoins hardForkVersion
      ⟨height, fee, nullWinner nullAddress⟩ = some rewardParts)
    (hhook : hook rewardParts = true) (hlen : shares.length + 4 < 2 ^ 64)
    (hmax : minerReward + shares.sum + rewardParts.gov + rewardParts.dev + rewardParts.net ≤
      rewardParts.baseMiner + rewardParts.net + rewardParts.gov + rewardParts.dev +
        rewardParts.serviceNodePaid + 1 + fee)
    (hfee : fee ≤ minerReward + shares.sum + rewardParts.gov + rewardParts.dev + rewardParts.net)
    (hbound : rewardParts.baseMiner + rewardParts.net + rewardParts.gov + rewardParts.dev +
      rewardParts.serviceNodePaid + 1 + fee < 2 ^ 64) :
    validateMinerTransaction ([minerReward] ++ shares ++ [rewardParts.gov, rewardParts.dev, rewardParts.net])
        height medianWeight cumulativeBlockWeight fee alreadyGeneratedCoins hardForkVersion nullAddress hook =
      some (minerReward + shares.sum + rewardParts.gov + rewardParts.dev + rewardParts.net - fee) := by
  obtain ⟨hgov, hdev, hnet⟩ := outputs_getElem?_end minerReward rewardParts.gov rewardParts.dev rewardParts.net
    shares hlen
  unfold validateMinerTransaction
  dsimp only
  rw [if_neg (by simp), hparts]
  dsimp only
  rw [hhook, hgov, hdev, hnet, foldl_outputs (by omega)]
  simp (disch := omega) only [Word64.add, Nat.mod_eq_of_lt]
  simp only [Bool.not_true, Bool.false_eq_true, if_false, ne_eq, not_true_eq_false, or_self, and_false]
  rw [if_neg (by omega), if_neg (by omega)]

end Outputs

/-! ### Building and validating agree -/

/-- From version 16 on, the reward of a block is the split of one base reward whatever its
payouts: the premine at height 1 and `HF16_BL_REWARD` after it, neither of them zero. -/
theorem getArqmaBlockReward_eq_parts (medianWeight currentBlockWeight alreadyGeneratedCoins : ℕ)
    {hardForkVersion : ℕ} (height fee : ℕ) (hfork : 16 ≤ hardForkVersion) :
    ∃ baseReward, baseReward ≠ 0 ∧ baseReward ≤ premine ∧ ∀ payouts : List (PayoutEntry α),
      getArqmaBlockReward medianWeight currentBlockWeight alreadyGeneratedCoins hardForkVersion
          ⟨height, fee, payouts⟩ =
        arqmaBlockRewardParts baseReward alreadyGeneratedCoins hardForkVersion ⟨height, fee, payouts⟩ := by
  refine ⟨if height = 1 then premine else hf16BlReward, ?_, ?_, fun payouts => getArqmaBlockReward_of_fork _ hfork⟩
  · split_ifs <;> decide
  · split_ifs <;> decide

/-- `null_winner` pays the whole stake. -/
theorem sum_nullWinner (nullAddress : α) :
    ((nullWinner nullAddress).map PayoutEntry.portions).sum = stakingShareParts := by
  rw [nullWinner, List.map_cons, List.map_nil, List.sum_cons, List.sum_nil, Nat.add_zero]

/-- The validator's split, over `null_winner`, pays the service nodes their whole total. -/
theorem arqmaBlockRewardParts_nullWinner {baseReward alreadyGeneratedCoins hardForkVersion height fee : ℕ}
    {nullAddress : α} {rewardParts : BlockRewardParts} (hbase : baseReward < 2 ^ 64)
    (h : arqmaBlockRewardParts baseReward alreadyGeneratedCoins hardForkVersion
      ⟨height, fee, nullWinner nullAddress⟩ = some rewardParts) :
    rewardParts.serviceNodePaid = rewardParts.serviceNodeTotal := by
  obtain ⟨-, hpaid, -, htotal, -⟩ := arqmaBlockRewardParts_split hbase (sum_nullWinner nullAddress).le h
  have htotal_lt : rewardParts.serviceNodeTotal < 2 ^ 64 := lt_of_le_of_lt htotal hbase
  rw [hpaid, nullWinner, List.map_cons, List.map_nil, List.sum_cons, List.sum_nil, Nat.add_zero,
    getPortionOfReward_eq le_rfl htotal_lt]
  exact Nat.mul_div_cancel _ (by decide)

/-- The amounts of a block of version 16 on, for a fee within the money supply, are
far below `2 ^ 64`: the base reward, the fee and the three funds with the one-unit
slack of the validator. -/
theorem forkAmounts_lt {baseReward fee paid total gov dev net : ℕ} (hbase : baseReward ≤ premine)
    (hfee : fee ≤ moneySupply) (hpaid : paid ≤ total) (htotal : total ≤ baseReward)
    (hgov : gov ≤ baseReward + 2000000 * arqma) (hdev : dev ≤ baseReward + 2000000 * arqma)
    (hnet : net ≤ baseReward + 2000000 * arqma) :
    baseReward - paid + fee + paid + gov + dev + net + 1 < 2 ^ 64 := by
  have hroom : premine + moneySupply + 3 * (premine + 2000000 * arqma) + 1 < 2 ^ 64 := by decide
  omega

/-- From version 16 on, the winner's payouts (of at most the whole stake between them) are
paid the exact floored shares of the service nodes' total, at most that total, itself at
most the base reward, with the rest to the miner; the builder's outputs add up, without a
wrap, to the miner's reward, the payouts and the funds; and both validators accept them.

The two bounds on the chain are facts of every block that reaches these functions: coins
are generated from the genesis block on (its transaction pays out, and `blockchain.cpp`
carries `already_generated_coins` forward from it), and version 16 starts above height 0;
a block's fee is paid from coins in circulation, at most `MONEY_SUPPLY`. The size of the
output vector is below `2 ^ 64`. -/
theorem minerTx_split_and_accepted [DecidableEq π] (winner : BlockWinner π α) (nullAddress : α)
    {height medianWeight alreadyGeneratedCoins currentBlockWeight fee hardForkVersion : ℕ}
    (hfork : 16 ≤ hardForkVersion) (hcoins : alreadyGeneratedCoins ≠ 0) (hfee : fee ≤ moneySupply)
    (hsum : (winner.payouts.map PayoutEntry.portions).sum ≤ stakingShareParts)
    (hlen : winner.payouts.length + 4 < 2 ^ 64) :
    ∃ rewardParts vout,
      getArqmaBlockReward medianWeight currentBlockWeight alreadyGeneratedCoins hardForkVersion
        ⟨height, fee, winner.payouts⟩ = some rewardParts ∧
      rewardParts.serviceNodePaid = (winner.payouts.map fun payout =>
        getPortionOfReward payout.portions rewardParts.serviceNodeTotal).sum ∧
      (∀ payout ∈ winner.payouts, getPortionOfReward payout.portions rewardParts.serviceNodeTotal =
        rewardParts.serviceNodeTotal * payout.portions / stakingShareParts) ∧
      rewardParts.serviceNodePaid ≤ rewardParts.serviceNodeTotal ∧
      rewardParts.serviceNodeTotal ≤ rewardParts.originalBaseReward ∧
      rewardParts.baseMiner = rewardParts.originalBaseReward - rewardParts.serviceNodePaid ∧
      constructMinerTx height medianWeight alreadyGeneratedCoins currentBlockWeight fee hardForkVersion
        winner.payouts = some vout ∧
      vout.sum = rewardParts.baseMiner + rewardParts.baseMinerFee + rewardParts.serviceNodePaid +
        rewardParts.gov + rewardParts.dev + rewardParts.net ∧
      vout.sum < 2 ^ 64 ∧
      validateMinerTransaction vout height medianWeight currentBlockWeight fee alreadyGeneratedCoins
        hardForkVersion nullAddress (validateMinerTx winner winner.key vout hardForkVersion) =
          some (vout.sum - fee) := by
  -- the fixed base reward, split once for the builder and once for the validator
  obtain ⟨baseReward, hbase_ne, hbase_le, hfork_parts⟩ :=
    getArqmaBlockReward_eq_parts (α := α) medianWeight currentBlockWeight alreadyGeneratedCoins height fee hfork
  have hbase_lt : baseReward < 2 ^ 64 := lt_of_le_of_lt hbase_le (by decide)
  obtain ⟨rewardParts, hparts, horig, htotal, -, -, hfeePart, hfunds⟩ :=
    arqmaBlockRewardParts_spec hardForkVersion ⟨height, fee, winner.payouts⟩ hbase_ne hcoins
  obtain ⟨checkParts, hcheck, horig', htotal', -, -, -, hfunds'⟩ :=
    arqmaBlockRewardParts_spec hardForkVersion ⟨height, fee, nullWinner nullAddress⟩ hbase_ne hcoins
  have hget := (hfork_parts winner.payouts).trans hparts
  have hget' := (hfork_parts (nullWinner nullAddress)).trans hcheck
  obtain ⟨-, hpaidSum, hpaid_le, htotal_le, hminer⟩ := arqmaBlockRewardParts_split hbase_lt hsum hparts
  dsimp only at hfeePart hpaidSum
  have hcheckPaid := arqmaBlockRewardParts_nullWinner hbase_lt hcheck
  obtain ⟨hgov, hdev, hnet⟩ := arqmaBlockRewardParts_funds_le hparts
  -- both splits have the same total and the same funds
  have htotal_eq : checkParts.serviceNodeTotal = rewardParts.serviceNodeTotal := htotal'.trans htotal.symm
  have hfunds_eq : (checkParts.gov, checkParts.dev, checkParts.net) =
      (rewardParts.gov, rewardParts.dev, rewardParts.net) := hfunds'.trans hfunds.symm
  simp only [Prod.mk.injEq] at hfunds_eq
  obtain ⟨hgov_eq, hdev_eq, hnet_eq⟩ := hfunds_eq
  -- every amount is far below 2 ^ 64
  have hamounts := forkAmounts_lt hbase_le hfee hpaid_le htotal_le hgov hdev hnet
  have hminerReward : rewardParts.minerReward = rewardParts.baseMiner + fee := by
    rw [BlockRewardParts.minerReward, hfeePart]
    apply Word64.add_of_lt
    omega
  obtain ⟨-, -, -, -, hcheckMiner⟩ :=
    arqmaBlockRewardParts_split hbase_lt (sum_nullWinner nullAddress).le hcheck
  -- the builder's outputs
  have hbound : rewardParts.minerReward + rewardParts.serviceNodePaid + rewardParts.gov + rewardParts.dev +
      rewardParts.net < 2 ^ 64 := by
    rw [hminerReward, hminer]
    omega
  have hconstruct := constructMinerTx_eq hfork hget hpaidSum hbound
  set shares := winner.payouts.map fun payout =>
    getPortionOfReward payout.portions rewardParts.serviceNodeTotal with hshares
  have hshares_len : shares.length + 4 < 2 ^ 64 := by
    rw [hshares, List.length_map]
    exact hlen
  have hvout_sum : ([rewardParts.minerReward] ++ shares ++ [rewardParts.gov, rewardParts.dev, rewardParts.net]).sum =
      rewardParts.baseMiner + fee + rewardParts.serviceNodePaid + rewardParts.gov + rewardParts.dev +
        rewardParts.net := by
    simp only [List.sum_append, List.sum_cons, List.sum_nil, hminerReward, ← hpaidSum]
    omega
  refine ⟨rewardParts, _, hget, hpaidSum, fun payout hp => ?_, hpaid_le, horig ▸ htotal_le, horig ▸ hminer,
    hconstruct, by rw [hvout_sum, hfeePart], by rw [hvout_sum, hminer]; omega, ?_⟩
  · -- each payout's portion is at most the whole stake
    exact getPortionOfReward_eq (le_trans (List.le_sum_of_mem (List.mem_map_of_mem hp)) hsum) (by omega)
  · -- the hook accepts the payouts, against the total it recomputes from the base reward
    have hhook := validateMinerTx_outputs winner hfork hlen checkParts rewardParts.minerReward
      checkParts.gov checkParts.dev checkParts.net
    rw [horig', ← htotal] at hhook
    -- and the validator, which reads the same funds, the amounts
    rw [← hgov_eq, ← hdev_eq, ← hnet_eq] at hvout_sum ⊢
    rw [validateMinerTransaction_outputs hget' hhook hshares_len
      (by rw [hcheckMiner, hcheckPaid, hminerReward, hminer, ← hpaidSum]; omega)
      (by rw [hminerReward]; omega)
      (by rw [hcheckMiner, hcheckPaid]; omega), hvout_sum]
    rw [hminerReward, ← hpaidSum]

/-- A winner of three contributors, with a half and two quarters of the stake. -/
def threeContributorWinner : BlockWinner ℕ ℕ :=
  ⟨7, [⟨1, stakingShareParts / 2⟩, ⟨2, stakingShareParts / 4⟩, ⟨3, stakingShareParts / 4⟩]⟩

/-- A block of version 16 at height 100 with a fee of 5, won by three contributors. -/
theorem minerTx_split_and_accepted_three_contributors :
    (16 ≤ 16 ∧ (1000000 : ℕ) ≠ 0 ∧ 5 ≤ moneySupply ∧
      (threeContributorWinner.payouts.map PayoutEntry.portions).sum ≤ stakingShareParts ∧
      threeContributorWinner.payouts.length + 4 < 2 ^ 64) ∧
    ∃ rewardParts vout,
      getArqmaBlockReward 0 0 1000000 16 ⟨100, 5, threeContributorWinner.payouts⟩ = some rewardParts ∧
      rewardParts.serviceNodePaid = (threeContributorWinner.payouts.map fun payout =>
        getPortionOfReward payout.portions rewardParts.serviceNodeTotal).sum ∧
      (∀ payout ∈ threeContributorWinner.payouts,
        getPortionOfReward payout.portions rewardParts.serviceNodeTotal =
          rewardParts.serviceNodeTotal * payout.portions / stakingShareParts) ∧
      rewardParts.serviceNodePaid ≤ rewardParts.serviceNodeTotal ∧
      rewardParts.serviceNodeTotal ≤ rewardParts.originalBaseReward ∧
      rewardParts.baseMiner = rewardParts.originalBaseReward - rewardParts.serviceNodePaid ∧
      constructMinerTx 100 0 1000000 0 5 16 threeContributorWinner.payouts = some vout ∧
      vout.sum = rewardParts.baseMiner + rewardParts.baseMinerFee + rewardParts.serviceNodePaid +
        rewardParts.gov + rewardParts.dev + rewardParts.net ∧
      vout.sum < 2 ^ 64 ∧
      validateMinerTransaction vout 100 0 0 5 1000000 16 0
        (validateMinerTx threeContributorWinner threeContributorWinner.key vout 16) = some (vout.sum - 5) := by
  obtain ⟨hfork, hcoins, hfee, hsum, hlen⟩ : 16 ≤ 16 ∧ (1000000 : ℕ) ≠ 0 ∧ 5 ≤ moneySupply ∧
      (threeContributorWinner.payouts.map PayoutEntry.portions).sum ≤ stakingShareParts ∧
      threeContributorWinner.payouts.length + 4 < 2 ^ 64 :=
    ⟨le_rfl, by decide, by decide, by decide, by decide⟩
  exact ⟨⟨hfork, hcoins, hfee, hsum, hlen⟩,
    minerTx_split_and_accepted threeContributorWinner 0 hfork hcoins hfee hsum hlen⟩

end Arqma.Cryptonote
