import Arqma.ServiceNodes.Info

/-!
# Registrations

`is_registration_tx` (`service_node_list.cpp`): the checks a registration passes and
the record it builds, with one contributor per registered address and each
address's portions turned into a reservation.

## The model

A transaction is seen through what the list reads from it: the service node key,
the registration fields of the tx extra, and the contribution that
`get_contribution` recovers from the outputs (`none` where the extra lacks a field
or the parse fails). The signature over the registration and the key-image proofs
are checked outside the model; the registration records whether its signature
checks. `get_contribution` is left abstract: its outcome is part of the input.

Results:
* `isRegistrationTxLoop_eq_some`: the loop of `is_registration_tx` appends one
  contributor per address, distinct addresses, and adds up their reservations.
* `isRegistrationTx_stakeInv`: every record `is_registration_tx` builds keeps the
  stake accounting. What bounds the reservations is the walk of
  `get_registration_hash` over the portions, not `check_service_node_portions`,
  whose running total is a wrapping `uint64_t`.
-/

namespace Arqma.ServiceNodes

/-- The fields `reg_tx_extract_fields` reads from a registration. -/
structure RegistrationFields (α : Type) where
  /-- `service_node_addresses`. -/
  addresses : List α
  /-- `portions_for_operator`. -/
  portionsForOperator : ℕ
  /-- `service_node_portions`. -/
  portions : List ℕ
  /-- `expiration_timestamp`. -/
  expirationTimestamp : ℕ
  /-- `crypto::check_key(service_node_key) && crypto::check_signature(hash, service_node_key,
  signature)`. -/
  signatureValid : Bool
  deriving DecidableEq, Repr

/-- `parsed_tx_contribution`, as `get_contribution` fills it. -/
structure ParsedTxContribution (α κ : Type) where
  /-- `address`. -/
  address : α
  /-- `transferred`. -/
  transferred : ℕ
  /-- `locked_contributions`. -/
  lockedContributions : List (Contribution κ)
  deriving DecidableEq, Repr

/-- A transfer, as the service node list reads it. -/
structure TransferTx (π α κ : Type) where
  /-- `get_service_node_pubkey_from_tx_extra`. -/
  serviceNodePubkey : Option π
  /-- `get_service_node_register_from_tx_extra`. -/
  registration : Option (RegistrationFields α)
  /-- `get_contribution`. -/
  contribution : Option (ParsedTxContribution α κ)
  deriving DecidableEq, Repr

variable {π α κ : Type} [DecidableEq α]

/-- The loop of `is_registration_tx` over the addresses and their portions: an
address already `seen` fails the registration; any other becomes a contributor
reserving its portions' worth of the requirement. -/
def isRegistrationTxLoop (seen : List α) (info : ServiceNodeInfo α κ) :
    List (α × ℕ) → Option (ServiceNodeInfo α κ)
  | [] => some info
  | (address, portion) :: rest =>
    if address ∈ seen then none
    else
      let reserved := portionsToAmount portion info.stakingRequirement
      isRegistrationTxLoop (seen ++ [address])
        { info with
          contributors := info.contributors ++ [⟨0, reserved, address, []⟩]
          totalReserved := Word64.add info.totalReserved reserved }
        rest

/-- `is_registration_tx`: the key and the record of a new node, or `none` for
`false`. The record starts as a default `service_node_info`, as
`process_registration_tx` makes it. -/
def isRegistrationTx (nettype : NetworkType) (blockTimestamp blockHeight index : ℕ)
    (tx : TransferTx π α κ) : Option (π × ServiceNodeInfo α κ) :=
  match tx.registration, tx.serviceNodePubkey with
  | some reg, some serviceNodeKey =>
    if reg.portions.length ≠ reg.addresses.length ∨ reg.portions = [] then none
    else if !checkServiceNodePortions reg.portions then none
    else if stakingShareParts < reg.portionsForOperator then none
    else if !getRegistrationHash reg.addresses.length reg.portions then none
    else if !reg.signatureValid then none
    else if reg.expirationTimestamp < blockTimestamp then none
    else
      let stakingRequirement := getStakingRequirement nettype blockHeight
      match tx.contribution with
      | none => none
      | some contribution =>
        -- the fresh record has nothing reserved and no locked contribution
        if contribution.transferred < getMinNodeContribution stakingRequirement 0 0 then none
        else
          let totalNumOfAddr :=
            reg.addresses.length + if contribution.address ∈ reg.addresses then 0 else 1
          if maxNumberOfContributors < totalNumOfAddr then none
          else
            match reg.addresses with
            -- excluded above: there is one portion per address, and a portion
            | [] => none
            | operatorAddress :: _ =>
              let info : ServiceNodeInfo α κ :=
                { registrationHeight := blockHeight
                  requestedUnlockHeight := 0
                  lastRewardBlockHeight := blockHeight
                  lastRewardTransactionIndex := index
                  activeSinceHeight := 0
                  contributors := []
                  totalContributed := 0
                  totalReserved := 0
                  stakingRequirement
                  portionsForOperator := reg.portionsForOperator
                  swarmId := unassignedSwarmId
                  operatorAddress }
              (isRegistrationTxLoop [] info (reg.addresses.zip reg.portions)).map (serviceNodeKey, ·)
  | _, _ => none

/-- The loop appends one contributor per address, with distinct addresses, and
adds their reservations to the total. -/
theorem isRegistrationTxLoop_eq_some {seen : List α} {info info' : ServiceNodeInfo α κ}
    {pairs : List (α × ℕ)} (h : isRegistrationTxLoop seen info pairs = some info') (hseen : seen.Nodup) :
    (seen ++ pairs.map Prod.fst).Nodup ∧
      info' = { info with
        contributors := info.contributors ++
          pairs.map fun x => ⟨0, portionsToAmount x.2 info.stakingRequirement, x.1, []⟩
        totalReserved := (pairs.map fun x => portionsToAmount x.2 info.stakingRequirement).foldl
          Word64.add info.totalReserved } := by
  induction pairs generalizing seen info with
  | nil =>
    simp only [isRegistrationTxLoop, Option.some.injEq] at h
    subst h
    simpa using hseen
  | cons x rest ih =>
    obtain ⟨address, portion⟩ := x
    rw [isRegistrationTxLoop] at h
    split_ifs at h with hmem
    have hseen' : (seen ++ [address]).Nodup := by
      rw [List.nodup_append]
      exact ⟨hseen, List.nodup_singleton _, fun a ha b hb => by
        rw [List.mem_singleton] at hb; rintro rfl; exact hmem (hb ▸ ha)⟩
    obtain ⟨hnodup, rfl⟩ := ih h hseen'
    refine ⟨by simpa using hnodup, ?_⟩
    simp

/-- What a registration that `is_registration_tx` accepts has passed: the record is
the loop's, from a default record with the first address as the operator. -/
theorem isRegistrationTx_eq_some {nettype : NetworkType} {blockTimestamp blockHeight index : ℕ}
    {tx : TransferTx π α κ} {key : π} {info : ServiceNodeInfo α κ}
    (h : isRegistrationTx nettype blockTimestamp blockHeight index tx = some (key, info)) :
    ∃ reg operatorAddress rest, tx.registration = some reg ∧ tx.serviceNodePubkey = some key ∧
      reg.addresses = operatorAddress :: rest ∧ reg.portions ≠ [] ∧
      getRegistrationHash reg.addresses.length reg.portions = true ∧
      reg.portionsForOperator ≤ stakingShareParts ∧
      isRegistrationTxLoop []
        { registrationHeight := blockHeight, requestedUnlockHeight := 0,
          lastRewardBlockHeight := blockHeight, lastRewardTransactionIndex := index,
          activeSinceHeight := 0, contributors := [], totalContributed := 0, totalReserved := 0,
          stakingRequirement := getStakingRequirement nettype blockHeight,
          portionsForOperator := reg.portionsForOperator, swarmId := unassignedSwarmId,
          operatorAddress } (reg.addresses.zip reg.portions) = some info := by
  unfold isRegistrationTx at h
  -- the match on the registration and the key: both are there
  rcases hreg : tx.registration with _ | reg
  · rw [hreg] at h
    cases h
  rcases hkey : tx.serviceNodePubkey with _ | serviceNodeKey
  · rw [hreg, hkey] at h
    cases h
  rw [hreg, hkey] at h
  -- one check at a time, each a failure `none` taken off the front: the portions per address,
  -- their minimums, the operator's cut, the hash, the signature and the expiry
  obtain ⟨hlen, h⟩ := Option.ite_none_left_eq_some.mp h
  obtain ⟨-, h⟩ := Option.ite_none_left_eq_some.mp h
  obtain ⟨hop, h⟩ := Option.ite_none_left_eq_some.mp h
  obtain ⟨hhash, h⟩ := Option.ite_none_left_eq_some.mp h
  obtain ⟨-, h⟩ := Option.ite_none_left_eq_some.mp h
  obtain ⟨-, h⟩ := Option.ite_none_left_eq_some.mp h
  rcases hc : tx.contribution with _ | contribution <;> dsimp only at h <;> rw [hc] at h
  · cases h
  obtain ⟨-, h⟩ := Option.ite_none_left_eq_some.mp h
  obtain ⟨-, h⟩ := Option.ite_none_left_eq_some.mp h
  rcases haddrs : reg.addresses with _ | ⟨operatorAddress, rest⟩ <;> rw [haddrs] at h
  · cases h
  obtain ⟨info', hloop, hinfo⟩ := Option.map_eq_some_iff.mp h
  rw [Prod.mk.injEq] at hinfo
  obtain ⟨rfl, rfl⟩ := hinfo
  refine ⟨reg, operatorAddress, rest, rfl, rfl, haddrs, by tauto, by simpa using hhash, by omega, ?_⟩
  rw [haddrs]
  exact hloop

/-- Every record `is_registration_tx` builds keeps the stake accounting. -/
theorem isRegistrationTx_stakeInv {nettype : NetworkType} {blockTimestamp blockHeight index : ℕ}
    {tx : TransferTx π α κ} {key : π} {info : ServiceNodeInfo α κ}
    (h : isRegistrationTx nettype blockTimestamp blockHeight index tx = some (key, info)) :
    StakeInv info := by
  obtain ⟨reg, operatorAddress, rest, -, -, haddrs, hne, hhash, hop, hloop⟩ := isRegistrationTx_eq_some h
  obtain ⟨hnodup, rfl⟩ := isRegistrationTxLoop_eq_some hloop List.nodup_nil
  -- the registration hashes, so its portions add up to at most the whole stake
  obtain ⟨hnum, hsum⟩ := (getRegistrationHash_iff _ _).mp hhash
  have hfst : (reg.addresses.zip reg.portions).map Prod.fst = reg.addresses :=
    List.map_fst_zip (by omega)
  have hsnd : (reg.addresses.zip reg.portions).map Prod.snd = reg.portions :=
    List.map_snd_zip (by omega)
  have hS := getStakingRequirement_lt nettype blockHeight
  -- the reservations, in the order of the portions
  have hres : ((reg.addresses.zip reg.portions).map fun x =>
      portionsToAmount x.2 (getStakingRequirement nettype blockHeight)) =
      reg.portions.map (portionsToAmount · (getStakingRequirement nettype blockHeight)) := by
    conv_rhs => rw [← hsnd]
    rw [List.map_map]
    rfl
  have hle := sum_portionsToAmount_le hsum hS
  have hfold : ((reg.addresses.zip reg.portions).map fun x =>
      portionsToAmount x.2 (getStakingRequirement nettype blockHeight)).foldl Word64.add 0 =
      ((reg.addresses.zip reg.portions).map fun x =>
        portionsToAmount x.2 (getStakingRequirement nettype blockHeight)).sum := by
    rw [Word64.foldl_add_of_lt _ _ (by rw [hres]; omega), Nat.zero_add]
  refine ⟨getStakingRequirement_pos nettype blockHeight, hS, ?_, ?_, ?_, ?_, ?_, ?_, hop⟩
  · simp only [List.nil_append, List.map_map, Function.comp_def]
    exact hfold
  · dsimp only
    rw [hfold, hres]
    exact hle
  · intro c hc
    simp only [List.nil_append, List.mem_map] at hc
    obtain ⟨x, -, rfl⟩ := hc
    exact Nat.zero_le _
  · simp [Function.comp_def]
  · simpa [List.map_map, Function.comp_def] using hnodup
  · obtain ⟨p, ps, hps⟩ := List.exists_cons_of_ne_nil hne
    simp [haddrs, hps]

end Arqma.ServiceNodes
