import Arqma.ServiceNodes.Rules
import Arqma.Lib.ExceptRun

/-!
# Registration arguments

`convert_registration_args` (`service_node_list.cpp`), which a wallet runs on the
operator's command line before it builds a registration: the operator cut, then
`<address> <portions>` pairs. It parses them, computes what each contributor offers above
its minimum, then walks the contributors in order; one below its minimum by at most
`DUST` is topped up from the others' excess ("stealing"), one below it by more is
skipped, and every kept contributor must end between its minimum and the portions left.

## The model

The arguments are strings; `boost::lexical_cast<uint64_t>` is `lexicalCastUInt64`, and
`get_account_address_from_str` is a parameter (address decoding is outside the model: the
conversion reads only the address and its two flags). The result is `Except`: a failure
returned with `success = false` is `ConvertError.errMsg` with the source's text, and the two
places where the source has undefined behaviour are outcomes of their own: a write to
`result.portions[sub_index]` past the end of the vector (the steal loop indexes the output
vector by the contributor's input index, while the output holds only the contributors
already kept), and the division `STAKING_SHARE_PARTS / staking_requirement` by a zero
requirement. `min_contributions` is written and never read, and is left out.

Results:
* `convertRegistrationArgs_below_check_minimum`: the minimum the conversion enforces is
  rounded through atomic amounts and falls below the one `check_service_node_portions`
  enforces on chain, so a conversion succeeds with portions the chain rejects.
-/

namespace Arqma.ServiceNodes

/-- `cryptonote::address_parse_info`, with the fields the conversion reads. -/
structure AddressParseInfo (α : Type) where
  address : α
  isSubaddress : Bool
  hasPaymentId : Bool
  deriving DecidableEq, Repr

/-- `converted_registration_args` of a success. -/
structure ConvertedRegistrationArgs (α : Type) where
  addresses : List α
  portions : List ℕ
  portionsForOperator : ℕ
  deriving DecidableEq, Repr

/-- How `convert_registration_args` ends when it does not succeed. -/
inductive ConvertError where
  /-- Returned with `success = false` and this `err_msg`. -/
  | errMsg (msg : String)
  /-- `result.portions[sub_index]` at an index past the end of the vector. -/
  | indexOutOfRange (index : ℕ)
  /-- `STAKING_SHARE_PARTS / staking_requirement` with `staking_requirement = 0`. -/
  | divisionByZero
  deriving DecidableEq, Repr

/-- `boost::lexical_cast<uint64_t>`: an optional sign, then at least one digit and nothing
else; a value past `UINT64_MAX` fails, and a minus sign negates modulo `2 ^ 64`. -/
def lexicalCastUInt64 (s : String) : Option ℕ :=
  let (minus, digits) := match s.toList with
    | '-' :: digits => (true, digits)
    | '+' :: digits => (false, digits)
    | digits => (false, digits)
  if digits.isEmpty || !digits.all Char.isDigit then none
  else
    let value := digits.foldl (fun acc c => acc * 10 + (c.toNat - 48)) 0
    if value > uint64Max then none
    else some (if minus then Word64.sub 0 value else value)

/-- `FUDGE_FACTOR`. -/
def fudgeFactor : ℕ := 10

variable {α : Type}

/-- The loop over the `<address> <portions>` pairs: the address must parse, as a standard
address without a payment id, and the portions must be a `uint64_t`. -/
def parseContributors (getAccountAddressFromStr : String → Option (AddressParseInfo α)) :
    List String → Except ConvertError (List (AddressParseInfo α × ℕ))
  | address :: amount :: rest => do
    let some info := getAccountAddressFromStr address
      | throw (.errMsg ("Failed to parse address: " ++ address))
    if info.hasPaymentId then throw (.errMsg "Can\x27t use a payment id for staking tx")
    if info.isSubaddress then throw (.errMsg "Can\x27t use subaddress for staking tx")
    let some numPortions := lexicalCastUInt64 amount
      | throw (.errMsg ("Invalid amount for contributor: " ++ address ++
          ", with contribution amount that could not be converted to a number: " ++ amount))
    let rest ← parseContributors getAccountAddressFromStr rest
    return (info, numPortions) :: rest
  | _ => return []

/-- The first loop over the contributors: `excess_portions[index]`, what each offers above
its minimum, with `arqma_reserved` adding up `portions_to_amount(staking_requirement, portions)`. -/
def excessPortionsLoop (stakingRequirement : ℕ) : ℕ → ℕ → List ℕ → List ℕ
  | _, _, [] => []
  | index, arqmaReserved, portions :: rest =>
    let minContributionPortions :=
      getMinNodeContributionInPortions stakingRequirement arqmaReserved index
    let arqmaAmount := portionsToAmount stakingRequirement portions
    let excess := if portions > minContributionPortions then portions - minContributionPortions else 0
    excess :: excessPortionsLoop stakingRequirement (index + 1) (Word64.add arqmaReserved arqmaAmount) rest

/-- What the loop over `sub_index` carries: `addr_to_portion.portions`, `needed`,
`portions_to_steal` and `result.portions`. -/
structure StealAcc where
  portions : ℕ
  needed : ℕ
  portionsToSteal : ℕ
  resultPortions : List ℕ

/-- The loop over `sub_index` that tops contributor `i` up from the others' excess, and
the excess list as it leaves it. What is taken from contributor `sub_index` is taken off
`result.portions[sub_index]`. -/
def stealLoop (i : ℕ) : ℕ → List ℕ → StealAcc → Except ConvertError (List ℕ × StealAcc)
  | _, [], acc => .ok ([], acc)
  | subIndex, contributorExcess :: rest, acc =>
    if i = subIndex then
      (stealLoop i (subIndex + 1) rest acc).map fun r => (contributorExcess :: r.1, r.2)
    else if contributorExcess > 0 then
      let portionsToSteal := min acc.needed contributorExcess
      if h : subIndex < acc.resultPortions.length then
        let acc : StealAcc :=
          { portions := Word64.add acc.portions portionsToSteal
            needed := acc.needed - portionsToSteal
            portionsToSteal
            resultPortions := acc.resultPortions.set subIndex
              (Word64.sub (acc.resultPortions.get ⟨subIndex, h⟩) portionsToSteal) }
        if acc.needed = 0 then .ok ((contributorExcess - portionsToSteal) :: rest, acc)
        else (stealLoop i (subIndex + 1) rest acc).map
          fun r => ((contributorExcess - portionsToSteal) :: r.1, r.2)
      else .error (.indexOutOfRange subIndex)
    else
      (stealLoop i (subIndex + 1) rest acc).map fun r => (contributorExcess :: r.1, r.2)

/-- What the main loop carries: `excess_portions`, `result.addresses`, `result.portions`,
`portions_left` and `total_reserved`. -/
structure ConvertAcc (α : Type) where
  excessPortions : List ℕ
  addresses : List α
  portions : List ℕ
  portionsLeft : ℕ
  totalReserved : ℕ

/-- The top-up of contributor `i`, whose `portions` are below `min_portions`: `none` when it
needs more than `DUST` (the `continue`), otherwise its new portions, the last
`portions_to_steal`, and the loop's state with the excess and the output as the steal loop
leaves them. Short of excess, the rest is granted only while fewer than
`MAX_NUMBER_OF_CONTRIBUTORS` contribute. -/
def topUpContributor (stakingRequirement numContributors i minPortions portions : ℕ)
    (acc : ConvertAcc α) : Except ConvertError (Option (ℕ × ℕ × ConvertAcc α)) := do
  let needed := minPortions - portions
  if stakingRequirement = 0 then throw .divisionByZero
  let dustUnit := stakingShareParts / stakingRequirement
  let dust := dustUnit * fudgeFactor % 2 ^ 64
  if needed > dust then return none
  let (excessPortions, steal) ←
    stealLoop i 0 acc.excessPortions ⟨portions, needed, 0, acc.portions⟩
  let portions := if steal.needed > 0 ∧ numContributors < maxNumberOfContributors
    then Word64.add steal.portions steal.needed else steal.portions
  return some (portions, steal.portionsToSteal,
    { acc with excessPortions, portions := steal.resultPortions })

/-- The message for a contributor below its minimum or past the portions left. It quotes
`args[i]` and `args[i+1]` with `i` the contributor's index, not its argument's. -/
def invalidContributorAmount (args : List String) (i : ℕ) : String :=
  "Invalid contributor amount: " ++ args.getD i "" ++ ", with portion amount: " ++
    args.getD (i + 1) "" ++ ". \n" ++
    "Each contributor must have at least 25% required stake to last contributor be allowed less contributions\n" ++
    "than required 25% minimum."

/-- The end of a turn for a contributor that is not skipped: its portions must lie between
`min_portions` and `portions_left`, and `min_portions` must not be the mark of no place
left; then `portions_left` gives up the portions and takes back the last
`portions_to_steal`, and the address and the portions are pushed. -/
def keepContributor (args : List String) (stakingRequirement i minPortions : ℕ) (address : α)
    (portions portionsToSteal : ℕ) (acc : ConvertAcc α) : Except ConvertError (ConvertAcc α) := do
  if portions < minPortions ∨ portions > acc.portionsLeft then
    throw (.errMsg (invalidContributorAmount args i))
  if minPortions = uint64Max then
    throw (.errMsg ("Too many contributors specified. You can only split between " ++
      toString maxNumberOfContributors ++ " contributors."))
  return { acc with
    portionsLeft := Word64.add (acc.portionsLeft - portions) portionsToSteal
    addresses := acc.addresses ++ [address]
    portions := acc.portions ++ [portions]
    totalReserved := Word64.add acc.totalReserved (portionsToAmount portions stakingRequirement) }

/-- One turn of the main loop, for contributor `i`. -/
def convertContributor (args : List String) (stakingRequirement numContributors i : ℕ)
    (contributor : AddressParseInfo α × ℕ) (acc : ConvertAcc α) : Except ConvertError (ConvertAcc α) := do
  let minPortions := getMinNodeContributionInPortions stakingRequirement acc.totalReserved i
  let topUp ← (if contributor.2 < minPortions then
      topUpContributor stakingRequirement numContributors i minPortions contributor.2 acc
    else pure (some (contributor.2, 0, acc)))
  match topUp with
  | some (portions, portionsToSteal, acc) =>
    keepContributor args stakingRequirement i minPortions contributor.1.address portions portionsToSteal acc
  | none => return acc

/-- The main loop over the contributors, from index `i`. -/
def convertLoop (args : List String) (stakingRequirement numContributors : ℕ) :
    ℕ → List (AddressParseInfo α × ℕ) → ConvertAcc α → Except ConvertError (ConvertAcc α)
  | _, [], acc => .ok acc
  | i, contributor :: rest, acc => do
    let acc ← convertContributor args stakingRequirement numContributors i contributor acc
    convertLoop args stakingRequirement numContributors (i + 1) rest acc

/-- `convert_registration_args(nettype, args, staking_requirement)`. -/
def convertRegistrationArgs (getAccountAddressFromStr : NetworkType → String → Option (AddressParseInfo α))
    (nettype : NetworkType) (args : List String) (stakingRequirement : ℕ) :
    Except ConvertError (ConvertedRegistrationArgs α) := do
  if args.length % 2 = 0 ∨ args.length < 3 then
    throw (.errMsg "Usage: <operator cut> <address> <contribution %> [<address> <contribution %> [...]]")
  if (args.length - 1) / 2 > maxNumberOfContributors then
    throw (.errMsg ("Exceeds the maximum number of contributors, which is: " ++
      toString maxNumberOfContributors))
  let invalidOperatorCut := "Invalid contribution % amount: " ++ args.getD 0 "" ++
    ". Must be between 0 (0%) and " ++ toString stakingShareParts
  let some portionsForOperator := lexicalCastUInt64 (args.getD 0 "")
    | throw (.errMsg invalidOperatorCut)
  if portionsForOperator > stakingShareParts then throw (.errMsg invalidOperatorCut)
  let addrToPortions ← parseContributors (getAccountAddressFromStr nettype) args.tail
  let excessPortions := excessPortionsLoop stakingRequirement 0 0 (addrToPortions.map (·.2))
  let acc ← convertLoop args stakingRequirement addrToPortions.length 0 addrToPortions
    ⟨excessPortions, [], [], stakingShareParts, 0⟩
  return ⟨acc.addresses, acc.portions, portionsForOperator⟩

/-! ### The shape of a success -/

/-! ### Where the conversion goes wrong -/

example : convertRegistrationArgs (fun _ address => some ⟨address, false, false⟩) .mainnet
    ["0", "first", "1537228672809067811", "second", "4611686018427387903"] (10 ^ 14) =
      .error (.indexOutOfRange 1) := by
  decide +kernel

/-- The minimum the conversion enforces is `get_min_node_contribution_in_portions`, the
share of the requirement rounded down to atomic units and back up to portions; the one the
chain enforces, `check_service_node_portions`, is `STAKING_SHARE_PARTS / 12` for a first
contributor. At the mainnet requirement of `10 ^ 14` the first is 61489 portions lower, so
a lone operator at the conversion's minimum converts, and the chain rejects the
registration. -/
theorem convertRegistrationArgs_below_check_minimum (height : ℕ) :
    convertRegistrationArgs (fun _ address => some ⟨address, false, false⟩) .mainnet
        ["0", "operator", "1537228672809067812"] (getStakingRequirement .mainnet height) =
      .ok ⟨["operator"], [1537228672809067812], 0⟩ ∧
    checkServiceNodePortions [1537228672809067812] = false := by
  have hS : getStakingRequirement .mainnet height = 10 ^ 14 := rfl
  rw [hS]
  decide +kernel

end Arqma.ServiceNodes
