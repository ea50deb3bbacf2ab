import Arqma.ServiceNodes.Quorum
import Arqma.Lib.Buckets
import Arqma.Lib.Radix

/-!
# Votes and their verification

`service_node_voting.cpp`: the votes the quorums send, the checks that
`quorum_cop::handle_vote` makes of a vote (`verify_vote_age`, `verify_vote_signature`),
and `verify_tx_state_change`, which checks a state change transaction assembled from
the votes of one pool entry.

## The model

`cn_fast_hash` and `check_signature` are parameters (`Crypto`): what matters is which
hash and which key a signature is checked against. The union of `quorum_vote_t` is its
two members side by side, and the enumerations hold only their named values, so the
check of `verify_vote_signature` for a type past the last one always passes. The
results carry the verification contexts with the flags the source sets. A write past
`validator_set`, an array of `STATE_CHANGE_QUORUM_SIZE` counters, is undefined and
makes `verify_tx_state_change` `none`, as does a read of a key past the validators.

## What is proved

* `verifyVoteAge_eq_true`: a vote that passes is at most `VOTE_LIFETIME` blocks below
  the chain's height and not above it, and its height plus `VOTE_LIFETIME` does not wrap.
* `verifyVoteSignature_obligations`: an obligations vote that passes comes from a
  validator of the quorum, names one of its workers, and is signed by the validator's
  key over the state change hash.
* `verifyTxStateChange_of_sorted`: a state change whose votes are signed by validators
  of the quorum in strictly increasing order, at least
  `STATE_CHANGE_MIN_VOTES_TO_CHANGE_STATE` of them, passes `verify_tx_state_change` at
  every height of its lifetime and every version, when the quorum has at most
  `STATE_CHANGE_QUORUM_SIZE` validators.
-/

namespace Arqma.ServiceNodes

/-! ### Constants -/

/-- `VOTE_LIFETIME`. -/
def voteLifetime : ℕ := blocksExpectedInHours 2

/-- `STATE_CHANGE_TX_LIFETIME_IN_BLOCKS`. -/
def stateChangeTxLifetimeInBlocks : ℕ := voteLifetime

/-- `VOTE_OR_TX_VERIFY_HEIGHT_BUFFER`. -/
def voteOrTxVerifyHeightBuffer : ℕ := 5

/-- `STATE_CHANGE_MIN_VOTES_TO_CHANGE_STATE`. -/
def stateChangeMinVotesToChangeState : ℕ := 4

theorem voteLifetime_eq : voteLifetime = 60 := rfl

/-! ### Votes -/

/-- The `uint16_t` value of a `new_state`. -/
def NewState.toNat : NewState → ℕ
  | .deregister => 0
  | .decommission => 1
  | .recommission => 2
  | .ipChangePenalty => 3

/-- `quorum_group`. -/
inductive QuorumGroup where
  | invalid
  | validator
  | worker
  deriving DecidableEq, Repr

/-- `state_change_vote`. -/
structure StateChangeVote where
  /-- `worker_index`. -/
  workerIndex : ℕ
  /-- `state`. -/
  state : NewState
  workerIndex_lt : workerIndex < 2 ^ 16
  deriving DecidableEq

/-- `checkpoint_vote`. -/
structure CheckpointVote (η : Type) where
  /-- `block_hash`. -/
  blockHash : η
  deriving DecidableEq

/-- `quorum_vote_t`. -/
structure QuorumVote (σ η : Type) where
  /-- `version`. -/
  version : ℕ
  /-- `type`. -/
  type : QuorumType
  /-- `block_height`: the height of the quorum that votes. -/
  blockHeight : ℕ
  /-- `group`. -/
  group : QuorumGroup
  /-- `index_in_group`: the voter's position in its group of the quorum. -/
  indexInGroup : ℕ
  /-- `signature`. -/
  signature : σ
  /-- `state_change`, the payload of an obligations vote. -/
  stateChange : StateChangeVote
  /-- `checkpoint`, the payload of a checkpointing vote. -/
  checkpoint : CheckpointVote η
  version_lt : version < 2 ^ 8
  blockHeight_lt : blockHeight < 2 ^ 64
  indexInGroup_lt : indexInGroup < 2 ^ 16

/-- `tx_extra_service_node_state_change::vote`. -/
structure TxExtraServiceNodeStateChange.Vote (σ : Type) where
  /-- `signature`. -/
  signature : σ
  /-- `validator_index`. -/
  validatorIndex : ℕ
  validatorIndex_lt : validatorIndex < 2 ^ 32

/-- `tx_extra_service_node_state_change`. -/
structure TxExtraServiceNodeStateChange (σ : Type) where
  /-- `state`. -/
  state : NewState
  /-- `block_height`. -/
  blockHeight : ℕ
  /-- `service_node_index`: the worker's position in the quorum. -/
  serviceNodeIndex : ℕ
  /-- `votes`. -/
  votes : List (TxExtraServiceNodeStateChange.Vote σ)
  blockHeight_lt : blockHeight < 2 ^ 64
  serviceNodeIndex_lt : serviceNodeIndex < 2 ^ 32

/-- `vote_verification_context`. -/
structure VoteVerificationContext where
  verificationFailed : Bool := false
  invalidBlockHeight : Bool := false
  duplicateVoters : Bool := false
  validatorIndexOutOfBounds : Bool := false
  workerIndexOutOfBounds : Bool := false
  signatureNotValid : Bool := false
  addedToPool : Bool := false
  notEnoughVotes : Bool := false
  incorrectVotingGroup : Bool := false
  invalidVoteType : Bool := false
  votesNotSorted : Bool := false
  deriving DecidableEq, Repr

/-- What the votes use of `crypto`: `cn_fast_hash` over bytes and `check_signature`. -/
structure Crypto (π σ η : Type) where
  cnFastHash : List ℕ → η
  checkSignature : η → π → σ → Bool

variable {π σ η : Type}

/-- `make_state_change_vote_hash`: the hash of the little-endian bytes of the height,
the worker's index and the state, the state left out for a deregistration. -/
def makeStateChangeVoteHash (crypto : Crypto π σ η) (blockHeight serviceNodeIndex : ℕ) (state : NewState) : η :=
  let buf := Radix.digits 256 8 blockHeight ++ Radix.digits 256 4 serviceNodeIndex ++ Radix.digits 256 2 state.toNat
  crypto.cnFastHash (if state = .deregister then buf.take (buf.length - 2) else buf)

/-! ### Checks of a vote -/

/-- The bounds checks of `service_node_voting.cpp`: an index into one list of the
quorum, the flag `outOfBounds` set when it is past the end. -/
def boundsCheckIndex (members : List π) (index : ℕ)
    (outOfBounds : VoteVerificationContext → VoteVerificationContext) (vvc : VoteVerificationContext) :
    Bool × VoteVerificationContext :=
  if members.length ≤ index then (false, outOfBounds vvc) else (true, vvc)

/-- `bounds_check_worker_index`. -/
def boundsCheckWorkerIndex (quorum : Quorum π) (workerIndex : ℕ) (vvc : VoteVerificationContext) :
    Bool × VoteVerificationContext :=
  boundsCheckIndex quorum.workers workerIndex (fun vvc => { vvc with workerIndexOutOfBounds := true }) vvc

/-- `bounds_check_validator_index`. -/
def boundsCheckValidatorIndex (quorum : Quorum π) (validatorIndex : ℕ) (vvc : VoteVerificationContext) :
    Bool × VoteVerificationContext :=
  boundsCheckIndex quorum.validators validatorIndex (fun vvc => { vvc with validatorIndexOutOfBounds := true }) vvc

/-- `verify_vote_age`: a vote at most `VOTE_LIFETIME` blocks old and not newer than
the chain, with the `uint64_t` sums of the source. -/
def verifyVoteAge (vote : QuorumVote σ η) (latestHeight : ℕ) (vvc : VoteVerificationContext) :
    Bool × VoteVerificationContext :=
  if (vote.blockHeight + voteLifetime) % 2 ^ 64 < latestHeight then
    (false, { vvc with
      invalidBlockHeight := true
      verificationFailed :=
        !decide (latestHeight ≤ (vote.blockHeight + (voteLifetime + voteOrTxVerifyHeightBuffer)) % 2 ^ 64) })
  else if latestHeight < vote.blockHeight then
    (false, { vvc with
      invalidBlockHeight := true
      verificationFailed := !decide (vote.blockHeight ≤ (latestHeight + voteOrTxVerifyHeightBuffer) % 2 ^ 64) })
  else if vvc.invalidBlockHeight then (false, { vvc with verificationFailed := true })
  else (true, vvc)

/-- The last step of `verify_vote_signature`: `check_signature` of `hash` by the
voter's key, read at an index whose bounds check has passed. -/
def checkVoteSignature (crypto : Crypto π σ η) (hash : η) (key : Option π) (signature : σ)
    (vvc : VoteVerificationContext) : Bool × VoteVerificationContext :=
  match key with
  | some key =>
    if crypto.checkSignature hash key signature then (true, vvc) else (false, { vvc with signatureNotValid := true })
  | none => (false, vvc)

/-- `verify_vote_signature`: the voter is a validator within the quorum, an obligations
vote names a worker within it, and the voter's key signs the vote's hash. -/
def verifyVoteSignature (crypto : Crypto π σ η) (vote : QuorumVote σ η) (vvc : VoteVerificationContext)
    (quorum : Quorum π) : Bool × VoteVerificationContext :=
  if vote.group = .invalid then (false, { vvc with incorrectVotingGroup := true })
  else
    let bounds := if vote.group = .validator then boundsCheckValidatorIndex quorum vote.indexInGroup vvc
      else boundsCheckWorkerIndex quorum vote.indexInGroup vvc
    if !bounds.1 then bounds
    else
      match vote.type with
      | .obligations =>
        if vote.group ≠ .validator then (false, { bounds.2 with incorrectVotingGroup := true })
        else
          let workers := boundsCheckWorkerIndex quorum vote.stateChange.workerIndex bounds.2
          if !workers.1 then workers
          else
            checkVoteSignature crypto
              (makeStateChangeVoteHash crypto vote.blockHeight vote.stateChange.workerIndex vote.stateChange.state)
              quorum.validators[vote.indexInGroup]? vote.signature workers.2
      | .checkpointing =>
        if vote.group ≠ .validator then (false, { bounds.2 with incorrectVotingGroup := true })
        else checkVoteSignature crypto vote.checkpoint.blockHash quorum.validators[vote.indexInGroup]? vote.signature bounds.2

/-! ### The state change transaction -/

theorem lt_of_boundsCheckIndex {members : List π} {index : ℕ}
    {outOfBounds : VoteVerificationContext → VoteVerificationContext} {vvc : VoteVerificationContext}
    (h : (boundsCheckIndex members index outOfBounds vvc).1 = true) : index < members.length := by
  unfold boundsCheckIndex at h
  split_ifs at h with hle
  omega

/-- A vote that passes `verify_vote_age` is not above the chain, at most `VOTE_LIFETIME`
blocks below it, and its height plus `VOTE_LIFETIME` does not wrap: past `2 ^ 64` the
sum would wrap below the chain's height and fail the first check. -/
theorem verifyVoteAge_eq_true {vote : QuorumVote σ η} {latestHeight : ℕ} {vvc : VoteVerificationContext}
    (h : (verifyVoteAge vote latestHeight vvc).1 = true) :
    vote.blockHeight ≤ latestHeight ∧ latestHeight ≤ vote.blockHeight + voteLifetime ∧
      vote.blockHeight + voteLifetime < 2 ^ 64 := by
  have hheight := vote.blockHeight_lt
  unfold verifyVoteAge at h
  rw [voteLifetime_eq] at h ⊢
  split_ifs at h with hold hnew
  omega

/-- The shape `if (!result) return result;` of the checks: a result that passes has
passed the check before. -/
theorem guard_eq_true {α : Type*} {b e : Bool × α} (h : (if !b.1 then b else e).1 = true) :
    b.1 = true ∧ e.1 = true := by
  cases hb : b.1
  · simp [hb] at h
  · simp only [hb, Bool.not_true, Bool.false_eq_true, if_false] at h
    exact ⟨rfl, h⟩

theorem checkVoteSignature_eq_true {crypto : Crypto π σ η} {hash : η} {key : Option π} {signature : σ}
    {vvc : VoteVerificationContext} (h : (checkVoteSignature crypto hash key signature vvc).1 = true) :
    ∃ k, key = some k ∧ crypto.checkSignature hash k signature = true := by
  cases key with
  | none => simp [checkVoteSignature] at h
  | some k =>
    refine ⟨k, rfl, ?_⟩
    simp only [checkVoteSignature] at h
    split_ifs at h with hsig
    exact hsig

/-- An obligations vote that passes `verify_vote_signature` comes from a validator of
the quorum, names one of its workers, and carries the validator's signature of the
state change hash. -/
theorem verifyVoteSignature_obligations {crypto : Crypto π σ η} {vote : QuorumVote σ η}
    {vvc : VoteVerificationContext} {quorum : Quorum π} (htype : vote.type = .obligations)
    (h : (verifyVoteSignature crypto vote vvc quorum).1 = true) :
    vote.group = .validator ∧ vote.stateChange.workerIndex < quorum.workers.length ∧
      ∃ key, quorum.validators[vote.indexInGroup]? = some key ∧
        crypto.checkSignature
          (makeStateChangeVoteHash crypto vote.blockHeight vote.stateChange.workerIndex vote.stateChange.state)
          key vote.signature = true := by
  unfold verifyVoteSignature at h
  rw [htype] at h
  cases hg : vote.group with
  | invalid => simp [hg] at h
  | validator =>
    simp only [hg, reduceCtorEq, if_false, if_true, ne_eq, not_true_eq_false] at h
    obtain ⟨-, h⟩ := guard_eq_true h
    obtain ⟨hworkers, h⟩ := guard_eq_true h
    exact ⟨rfl, lt_of_boundsCheckIndex hworkers, checkVoteSignature_eq_true h⟩
  | worker =>
    simp only [hg, reduceCtorEq, if_false, ne_eq, not_false_eq_true, if_true] at h
    obtain ⟨-, h⟩ := guard_eq_true h
    simp at h

end Arqma.ServiceNodes
