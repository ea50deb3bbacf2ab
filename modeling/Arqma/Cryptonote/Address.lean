import Arqma.Common.Base58
import Arqma.ServiceNodes.Rules
import Arqma.Lib.ExceptRun

/-!
# Account addresses

`get_account_address_as_str`, `get_account_integrated_address_as_str` and
`get_account_address_from_str` (`src/cryptonote_basic/cryptonote_basic_impl.cpp`): the strings
a wallet shows for an address. An address is a pair of public keys, spend then view. An
integrated address adds an 8-byte payment id. Both are written with
`tools::base58::encode_addr` under a prefix of the network's `config_t`, and a subaddress has a
prefix of its own. The reader tells the three kinds apart by their prefix, parses the keys with
`parse_binary` and checks both with `crypto::check_key`. A string of exactly 132 characters is
read in the old format instead: the hex of a `public_address_outer_blob`, which is a version
byte, the keys and a one-byte sum.

## The model

`cn_fast_hash` and `crypto::check_key` are parameters. Keys are `Vector UInt8 32`, and a
payment id is `Vector UInt8 8`. The binary archive reads a POD field as that many raw bytes
(`readBlob`). `parse_binary` then wants the stream at its end. `get_config` throws on
`UNDEFINED`, which the model writes as `Except.error`. Inside it, `false` is `none`. The reader
writes `info.payment_id` only for an integrated address, so the model takes the caller's `info`
and keeps its payment id for the other kinds.

## What is proved

* Every address, subaddress and integrated address that passes `check_key` is read back as
  written, on every network (`getAccountAddressFromStr_getAccountAddressAsStr`).
* A string in the new format is accepted only if it is exactly what the writer gives for the
  result, and only with keys that pass `check_key`. The cut-short varint that `decode_addr`
  lets through carries no keys, so it never reaches this far (`getAccountAddressFromStr_canonical`).
* An address written for one network is refused by every network whose prefixes differ
  (`getAccountAddressFromStr_other_network`).
* The old hex format is accepted without `check_key` (`getAccountAddressFromStr_textblob`).
-/

namespace Arqma.Cryptonote

open Arqma.Common.Base58 Arqma.Common.Varint
open Arqma.ServiceNodes (NetworkType)

/-! ### Networks -/

/-- The address prefixes of `config_t`, the fields of it that these functions read. -/
structure Config where
  cryptonotePublicAddressBase58Prefix : UInt64
  cryptonotePublicIntegratedAddressBase58Prefix : UInt64
  cryptonotePublicSubaddressBase58Prefix : UInt64
  deriving DecidableEq, Repr

/-- `config::`, the main network. -/
def mainnetConfig : Config := ⟨0x2cca, 0x116bc7, 0x6847⟩

/-- `config::testnet::`. -/
def testnetConfig : Config := ⟨0x53ca, 0x504a, 0x524a⟩

/-- `config::stagenet::`. -/
def stagenetConfig : Config := ⟨0x39ca, 0x1742ca, 0x1d84ca⟩

/-- `get_config(nettype)`: `FAKECHAIN` uses the main network's, and `UNDEFINED` throws. -/
def getConfig : NetworkType → Except String Config
  | .mainnet | .fakechain => .ok mainnetConfig
  | .testnet => .ok testnetConfig
  | .stagenet => .ok stagenetConfig
  | .undefined => .error "Invalid network type"

/-! ### Keys in binary -/

/-- `crypto::public_key`. -/
abbrev PublicKey := Vector UInt8 32

/-- `crypto::hash8`. -/
abbrev Hash8 := Vector UInt8 8

/-- `account_public_address`. -/
structure AccountPublicAddress where
  spendPublicKey : PublicKey
  viewPublicKey : PublicKey
  deriving DecidableEq, Repr

/-- `integrated_address`. -/
structure IntegratedAddress where
  adr : AccountPublicAddress
  paymentId : Hash8
  deriving DecidableEq, Repr

/-- `binary_archive<false>::serialize_blob` of `n` bytes: they are taken from the stream, which
fails if it holds fewer. -/
def readBlob (n : ℕ) (s : List UInt8) : Option (Vector UInt8 n × List UInt8) :=
  if h : n ≤ s.length then some (⟨(s.take n).toArray, by simp [h]⟩, s.drop n) else none

/-- `account_public_address::do_serialize` reading: its two fields in order. -/
def readAccountPublicAddress (s : List UInt8) : Option (AccountPublicAddress × List UInt8) := do
  let (spendPublicKey, s) ← readBlob 32 s
  let (viewPublicKey, s) ← readBlob 32 s
  pure (⟨spendPublicKey, viewPublicKey⟩, s)

/-- `integrated_address::do_serialize` reading. -/
def readIntegratedAddress (s : List UInt8) : Option (IntegratedAddress × List UInt8) := do
  let (adr, s) ← readAccountPublicAddress s
  let (paymentId, s) ← readBlob 8 s
  pure (⟨adr, paymentId⟩, s)

/-- `serialization::parse_binary(blob, v)`: the object read, with nothing of the blob left
after it, as `check_stream_state` wants. -/
def parseBinary {α : Type} (read : List UInt8 → Option (α × List UInt8)) (blob : List UInt8) :
    Option α :=
  match read blob with
  | some (v, []) => some v
  | _ => none

/-- `t_serializable_object_to_blob` of an address: the bytes of the two keys. -/
def AccountPublicAddress.toBlob (adr : AccountPublicAddress) : List UInt8 :=
  adr.spendPublicKey.toList ++ adr.viewPublicKey.toList

/-- `t_serializable_object_to_blob` of an integrated address. -/
def IntegratedAddress.toBlob (iadr : IntegratedAddress) : List UInt8 :=
  iadr.adr.toBlob ++ iadr.paymentId.toList

/-! ### The old format -/

/-- `public_address_outer_blob`. -/
structure PublicAddressOuterBlob where
  mVer : UInt8
  mAddress : AccountPublicAddress
  checkSum : UInt8

/-- `sizeof(public_address_outer_blob)`: one byte, two keys, one byte. -/
def sizeofPublicAddressOuterBlob : ℕ := 66

/-- `CRYPTONOTE_PUBLIC_ADDRESS_TEXTBLOB_VER`. -/
def cryptonotePublicAddressTextblobVer : UInt8 := 0

/-- The bytes of a `public_address_outer_blob` in memory. -/
def PublicAddressOuterBlob.toBytes (bl : PublicAddressOuterBlob) : List UInt8 :=
  bl.mVer :: bl.mAddress.toBlob ++ [bl.checkSum]

/-- The `reinterpret_cast` of the buffer as a `public_address_outer_blob`. -/
def readPublicAddressOuterBlob (s : List UInt8) : Option (PublicAddressOuterBlob × List UInt8) := do
  let (mVer, s) ← readBlob 1 s
  let (mAddress, s) ← readAccountPublicAddress s
  let (checkSum, s) ← readBlob 1 s
  pure (⟨mVer[0], mAddress, checkSum[0]⟩, s)

/-- `get_account_address_checksum`: the sum, modulo 256, of every byte of the blob but the
checksum itself. -/
def getAccountAddressChecksum (bl : PublicAddressOuterBlob) : UInt8 :=
  (bl.toBytes.take (sizeofPublicAddressOuterBlob - 1)).foldl (· + ·) 0

/-- `epee::misc_utils::parse::isx`: the value of a hexadecimal digit, `0xff` for any other
byte. -/
def isx (c : UInt8) : UInt8 :=
  if 48 ≤ c ∧ c ≤ 57 then c - 48
  else if 65 ≤ c ∧ c ≤ 70 then c - 55
  else if 97 ≤ c ∧ c ≤ 102 then c - 87
  else 0xff

/-- The loop of `from_hex::to_buffer_unchecked`: two digits to a byte, the high half first. -/
def fromHexLoop : List UInt8 → Option (List UInt8)
  | [] => some []
  -- not reached: the length was checked to be even
  | [_] => none
  | a :: b :: rest =>
    let tmp := isx a
    if tmp = 0xff then none
    else
      let t2 := isx b
      if t2 = 0xff then none
      else (fromHexLoop rest).map (((tmp <<< 4) ||| t2) :: ·)

/-- `string_tools::parse_hexstr_to_binbuff`, which is `from_hex::to_string`: the bytes of an
even number of hexadecimal digits. -/
def parseHexstrToBinbuff (s : List UInt8) : Option (List UInt8) :=
  if s.length % 2 ≠ 0 then none else fromHexLoop s

/-- The digits of `write_hex`. -/
def hexDigits : List UInt8 :=
  ['0', '1', '2', '3', '4', '5', '6', '7', '8', '9', 'a', 'b', 'c', 'd', 'e', 'f'].map Char.toUInt8

/-- `epee::to_hex::string`: two lowercase digits a byte, the high half first. -/
def toHexString (src : List UInt8) : List UInt8 :=
  src.flatMap fun (byte : UInt8) =>
    [hexDigits.getD (byte >>> 4).toNat 0, hexDigits.getD (byte &&& 0x0F).toNat 0]

/-! ### Writing and reading addresses -/

/-- `address_parse_info`. -/
structure AddressParseInfo where
  address : AccountPublicAddress
  isSubaddress : Bool
  hasPaymentId : Bool
  paymentId : Hash8
  deriving DecidableEq, Repr

/-- `get_account_address_as_str(nettype, subaddress, adr)`. -/
def getAccountAddressAsStr (cnFastHash : List UInt8 → Vector UInt8 32) (nettype : NetworkType)
    (subaddress : Bool) (adr : AccountPublicAddress) : Except String (List UInt8) := do
  let config ← getConfig nettype
  let addressPrefix := if subaddress then config.cryptonotePublicSubaddressBase58Prefix
    else config.cryptonotePublicAddressBase58Prefix
  pure (encodeAddr cnFastHash addressPrefix adr.toBlob)

/-- `get_account_integrated_address_as_str(nettype, adr, payment_id)`. -/
def getAccountIntegratedAddressAsStr (cnFastHash : List UInt8 → Vector UInt8 32)
    (nettype : NetworkType) (adr : AccountPublicAddress) (paymentId : Hash8) :
    Except String (List UInt8) := do
  let config ← getConfig nettype
  let iadr : IntegratedAddress := ⟨adr, paymentId⟩
  pure (encodeAddr cnFastHash config.cryptonotePublicIntegratedAddressBase58Prefix iadr.toBlob)

/-- The prefix tests of `get_account_address_from_str`, integrated first: `is_subaddress` and
`has_payment_id` of the kind the prefix names, `none` for a wrong prefix. -/
def addressKind (config : Config) (tag : UInt64) : Option (Bool × Bool) :=
  if config.cryptonotePublicIntegratedAddressBase58Prefix = tag then some (false, true)
  else if config.cryptonotePublicAddressBase58Prefix = tag then some (false, false)
  else if config.cryptonotePublicSubaddressBase58Prefix = tag then some (true, false)
  else none

/-- The base58 branch of `get_account_address_from_str`. -/
def getAccountAddressFromBase58 (cnFastHash : List UInt8 → Vector UInt8 32)
    (checkKey : PublicKey → Bool) (info : AddressParseInfo) (config : Config) (str : List UInt8) :
    Option AddressParseInfo :=
  match decodeAddr cnFastHash str with
  | none => none
  | some (tag, data) =>
    match addressKind config tag with
    | none => none
    | some (isSubaddress, hasPaymentId) =>
      let parsed :=
        if hasPaymentId then
          (parseBinary readIntegratedAddress data).map fun iadr => (iadr.adr, iadr.paymentId)
        else (parseBinary readAccountPublicAddress data).map fun adr => (adr, info.paymentId)
      match parsed with
      | none => none
      | some (address, paymentId) =>
        if !checkKey address.spendPublicKey || !checkKey address.viewPublicKey then none
        else some ⟨address, isSubaddress, hasPaymentId, paymentId⟩

/-- The old-format branch of `get_account_address_from_str`. -/
def getAccountAddressFromTextblob (info : AddressParseInfo) (str : List UInt8) :
    Option AddressParseInfo :=
  match parseHexstrToBinbuff str with
  | none => none
  | some buff =>
    if buff.length ≠ sizeofPublicAddressOuterBlob then none
    else
      match readPublicAddressOuterBlob buff with
      | none => none
      | some (blob, _) =>
        if blob.mVer > cryptonotePublicAddressTextblobVer then none
        else if blob.checkSum ≠ getAccountAddressChecksum blob then none
        else some ⟨blob.mAddress, false, false, info.paymentId⟩

/-- `get_account_address_from_str(info, nettype, str)`: the filled `info`, or `none` where the
code returns `false`. -/
def getAccountAddressFromStr (cnFastHash : List UInt8 → Vector UInt8 32) (checkKey : PublicKey → Bool)
    (info : AddressParseInfo) (nettype : NetworkType) (str : List UInt8) :
    Except String (Option AddressParseInfo) := do
  let config ← getConfig nettype
  if 2 * sizeofPublicAddressOuterBlob ≠ str.length then
    pure (getAccountAddressFromBase58 cnFastHash checkKey info config str)
  else pure (getAccountAddressFromTextblob info str)

/-! ### The binary form read back -/

theorem readBlob_append {n : ℕ} (v : Vector UInt8 n) (rest : List UInt8) :
    readBlob n (v.toList ++ rest) = some (v, rest) := by
  have hlen : v.toList.length = n := v.length_toList
  rw [readBlob, dif_pos (by simp [hlen])]
  simp only [Option.some.injEq, Prod.mk.injEq]
  refine ⟨?_, List.drop_left' hlen⟩
  apply Vector.toList_inj.mp
  simp [List.take_left' hlen]

theorem eq_of_readBlob {n : ℕ} {s rest : List UInt8} {v : Vector UInt8 n}
    (h : readBlob n s = some (v, rest)) : s = v.toList ++ rest := by
  rw [readBlob] at h
  split at h
  · simp only [Option.some.injEq, Prod.mk.injEq] at h
    obtain ⟨rfl, rfl⟩ := h
    simp
  · cases h

theorem readAccountPublicAddress_append (adr : AccountPublicAddress) (rest : List UInt8) :
    readAccountPublicAddress (adr.toBlob ++ rest) = some (adr, rest) := by
  simp [readAccountPublicAddress, AccountPublicAddress.toBlob, readBlob_append]

theorem eq_of_readAccountPublicAddress {s rest : List UInt8} {adr : AccountPublicAddress}
    (h : readAccountPublicAddress s = some (adr, rest)) : s = adr.toBlob ++ rest := by
  simp only [readAccountPublicAddress, Option.bind_eq_bind, Option.bind_eq_some_iff] at h
  obtain ⟨⟨spend, s'⟩, hspend, ⟨view, s''⟩, hview, h⟩ := h
  simp only [Option.pure_def, Option.some.injEq, Prod.mk.injEq] at h
  obtain ⟨rfl, rfl⟩ := h
  dsimp only at hview
  rw [eq_of_readBlob hspend, eq_of_readBlob hview, AccountPublicAddress.toBlob, List.append_assoc]

theorem readIntegratedAddress_append (iadr : IntegratedAddress) (rest : List UInt8) :
    readIntegratedAddress (iadr.toBlob ++ rest) = some (iadr, rest) := by
  simp [readIntegratedAddress, IntegratedAddress.toBlob, readAccountPublicAddress_append, readBlob_append]

theorem eq_of_readIntegratedAddress {s rest : List UInt8} {iadr : IntegratedAddress}
    (h : readIntegratedAddress s = some (iadr, rest)) : s = iadr.toBlob ++ rest := by
  simp only [readIntegratedAddress, Option.bind_eq_bind, Option.bind_eq_some_iff] at h
  obtain ⟨⟨adr, s'⟩, hadr, ⟨paymentId, s''⟩, hpid, h⟩ := h
  simp only [Option.pure_def, Option.some.injEq, Prod.mk.injEq] at h
  obtain ⟨rfl, rfl⟩ := h
  dsimp only at hpid
  rw [eq_of_readAccountPublicAddress hadr, eq_of_readBlob hpid, IntegratedAddress.toBlob,
    List.append_assoc]

section ParseBinary

variable {α : Type} {read : List UInt8 → Option (α × List UInt8)} {toBlob : α → List UInt8}

/-- `parse_binary` accepts exactly the blobs that were written, when the reader reads back
what was written, whatever follows it, and reads nothing else. -/
theorem parseBinary_eq_some_iff (hread : ∀ x rest, read (toBlob x ++ rest) = some (x, rest))
    (hinv : ∀ s x rest, read s = some (x, rest) → s = toBlob x ++ rest) {blob : List UInt8} {x : α} :
    parseBinary read blob = some x ↔ blob = toBlob x := by
  constructor
  · intro h
    unfold parseBinary at h
    split at h
    · next v hv =>
      cases h
      simpa using hinv _ _ _ hv
    · cases h
  · rintro rfl
    have h := hread x []
    rw [List.append_nil] at h
    rw [parseBinary, h]

end ParseBinary

theorem parseBinary_readAccountPublicAddress {blob : List UInt8} {adr : AccountPublicAddress} :
    parseBinary readAccountPublicAddress blob = some adr ↔ blob = adr.toBlob :=
  parseBinary_eq_some_iff readAccountPublicAddress_append fun _ _ _ => eq_of_readAccountPublicAddress

theorem parseBinary_readIntegratedAddress {blob : List UInt8} {iadr : IntegratedAddress} :
    parseBinary readIntegratedAddress blob = some iadr ↔ blob = iadr.toBlob :=
  parseBinary_eq_some_iff readIntegratedAddress_append fun _ _ _ => eq_of_readIntegratedAddress

@[simp] theorem AccountPublicAddress.length_toBlob (adr : AccountPublicAddress) :
    adr.toBlob.length = 64 := by
  simp [AccountPublicAddress.toBlob]

@[simp] theorem IntegratedAddress.length_toBlob (iadr : IntegratedAddress) :
    iadr.toBlob.length = 72 := by
  simp [IntegratedAddress.toBlob]

/-! ### Hexadecimal read back -/

/-- Each of the sixteen digits reads as its own value. -/
theorem isx_hexDigits : ∀ d < 16, isx (hexDigits.getD d 0) = UInt8.ofNat d := by
  decide

/-- A byte is its high half shifted up, or its low half. -/
theorem shiftRight_shiftLeft_or_and (b : UInt8) : (b >>> 4) <<< 4 ||| (b &&& 0x0F) = b := by
  apply UInt8.toNat_inj.mp
  have hb := b.toNat_lt
  have h4 : (4 : UInt8).toNat % 8 = 4 := rfl
  have h15 : (0x0F : UInt8).toNat = 2 ^ 4 - 1 := rfl
  have hhigh : b.toNat >>> 4 <<< 4 = b.toNat / 16 * 16 := by
    rw [Nat.shiftRight_eq_div_pow, Nat.shiftLeft_eq]
  rw [UInt8.toNat_or, UInt8.toNat_shiftLeft, UInt8.toNat_shiftRight, UInt8.toNat_and, h4, h15,
    Nat.and_two_pow_sub_one_eq_mod, Nat.mod_eq_of_lt (by rw [hhigh]; omega),
    ← Nat.shiftLeft_add_eq_or_of_lt (Nat.mod_lt _ (by decide)), hhigh]
  omega

/-- `from_hex` reads back what `to_hex` writes. -/
theorem parseHexstrToBinbuff_toHexString (bytes : List UInt8) :
    parseHexstrToBinbuff (toHexString bytes) = some bytes := by
  have hloop : ∀ bytes : List UInt8, fromHexLoop (toHexString bytes) = some bytes := by
    intro bytes
    induction bytes with
    | nil => rfl
    | cons b rest ih =>
      have hhigh : (b >>> 4).toNat < 16 := by
        have h4 : (4 : UInt8).toNat % 8 = 4 := rfl
        rw [UInt8.toNat_shiftRight, h4, Nat.shiftRight_eq_div_pow]
        have := b.toNat_lt
        omega
      have hlow : (b &&& 0x0F).toNat < 16 := by
        rw [UInt8.toNat_and]
        exact Nat.lt_of_le_of_lt Nat.and_le_right (by decide)
      have hne : ∀ d < 16, UInt8.ofNat d ≠ 0xff := by decide
      simp only [toHexString, List.flatMap_cons, List.cons_append, List.nil_append] at ih ⊢
      rw [fromHexLoop, isx_hexDigits _ hhigh, isx_hexDigits _ hlow, if_neg (hne _ hhigh), if_neg (hne _ hlow),
        ih, UInt8.ofNat_toNat, UInt8.ofNat_toNat, shiftRight_shiftLeft_or_and]
      rfl
  rw [parseHexstrToBinbuff, if_neg (by simp [toHexString, List.length_flatMap]), hloop]

/-! ### The old format read back -/

theorem PublicAddressOuterBlob.length_toBytes (bl : PublicAddressOuterBlob) :
    bl.toBytes.length = sizeofPublicAddressOuterBlob := by
  simp [PublicAddressOuterBlob.toBytes, sizeofPublicAddressOuterBlob]

theorem readPublicAddressOuterBlob_toBytes (bl : PublicAddressOuterBlob) :
    readPublicAddressOuterBlob bl.toBytes = some (bl, []) := by
  have hver := readBlob_append #v[bl.mVer] (bl.mAddress.toBlob ++ [bl.checkSum])
  have hsum := readBlob_append #v[bl.checkSum] []
  simp only [Vector.toList_mk, List.singleton_append] at hver hsum
  simp [readPublicAddressOuterBlob, PublicAddressOuterBlob.toBytes, hver, readAccountPublicAddress_append, hsum]

/-- The sum covers the version and the keys, not the checksum byte. -/
theorem getAccountAddressChecksum_eq (bl : PublicAddressOuterBlob) :
    getAccountAddressChecksum bl = (bl.mVer :: bl.mAddress.toBlob).foldl (· + ·) 0 := by
  rw [getAccountAddressChecksum, PublicAddressOuterBlob.toBytes, List.cons_append,
    sizeofPublicAddressOuterBlob, List.take_succ_cons,
    List.take_left' (AccountPublicAddress.length_toBlob bl.mAddress)]

/-! ### Prefixes -/

/-- The three prefixes of a network differ. -/
def Config.Distinct (config : Config) : Prop :=
  config.cryptonotePublicIntegratedAddressBase58Prefix ≠ config.cryptonotePublicAddressBase58Prefix ∧
    config.cryptonotePublicIntegratedAddressBase58Prefix ≠ config.cryptonotePublicSubaddressBase58Prefix ∧
    config.cryptonotePublicAddressBase58Prefix ≠ config.cryptonotePublicSubaddressBase58Prefix

instance : DecidablePred Config.Distinct := fun config => by
  unfold Config.Distinct
  infer_instance

theorem getConfig_distinct {nettype : NetworkType} {config : Config} (h : getConfig nettype = .ok config) :
    config.Distinct := by
  cases nettype <;> simp only [getConfig, Except.ok.injEq, reduceCtorEq] at h <;> subst h <;> decide

theorem getConfig_of_ne_undefined {nettype : NetworkType} (h : nettype ≠ .undefined) :
    ∃ config, getConfig nettype = .ok config := by
  cases nettype <;> simp [getConfig] at h ⊢

/-- The prefix a writer uses for an address or a subaddress names that kind. -/
theorem addressKind_address {config : Config} (hc : config.Distinct) (subaddress : Bool) :
    addressKind config (if subaddress then config.cryptonotePublicSubaddressBase58Prefix
      else config.cryptonotePublicAddressBase58Prefix) = some (subaddress, false) := by
  obtain ⟨h1, h2, h3⟩ := hc
  cases subaddress
  · simp [addressKind, h1]
  · simp [addressKind, h2, h3]

theorem addressKind_integrated (config : Config) :
    addressKind config config.cryptonotePublicIntegratedAddressBase58Prefix = some (false, true) := by
  simp [addressKind]

/-- A prefix the reader accepts is the one the writer uses for the kind it names. -/
theorem addressKind_eq_some {config : Config} {tag : UInt64} {isSubaddress hasPaymentId : Bool}
    (h : addressKind config tag = some (isSubaddress, hasPaymentId)) :
    (hasPaymentId = true ∧ isSubaddress = false ∧ config.cryptonotePublicIntegratedAddressBase58Prefix = tag) ∨
      (hasPaymentId = false ∧ (if isSubaddress then config.cryptonotePublicSubaddressBase58Prefix
        else config.cryptonotePublicAddressBase58Prefix) = tag) := by
  unfold addressKind at h
  split_ifs at h with h1 h2 h3 <;> simp only [Option.some.injEq, Prod.mk.injEq] at h <;>
    obtain ⟨rfl, rfl⟩ := h
  · exact .inl ⟨rfl, rfl, h1⟩
  · exact .inr ⟨rfl, h2⟩
  · exact .inr ⟨rfl, h3⟩

/-- Networks with different configs share no prefix. -/
theorem addressKind_other_network {nettype nettype' : NetworkType} {config config' : Config}
    (hc : getConfig nettype = .ok config) (hc' : getConfig nettype' = .ok config') (hne : config ≠ config') :
    addressKind config' config.cryptonotePublicAddressBase58Prefix = none ∧
      addressKind config' config.cryptonotePublicIntegratedAddressBase58Prefix = none ∧
      addressKind config' config.cryptonotePublicSubaddressBase58Prefix = none := by
  cases nettype <;> cases nettype' <;> simp only [getConfig, Except.ok.injEq, reduceCtorEq] at hc hc' <;>
    subst hc hc' <;> first | exact absurd rfl hne | decide

/-! ### Reading the new format -/

/-- No string of the new format is 132 characters long: a payload of at most 72 bytes makes at
most 86 bytes with its tag and checksum, which take at most 120 characters. -/
theorem length_encodeAddr_ne (cnFastHash : List UInt8 → Vector UInt8 32) (tag : UInt64)
    {data : List UInt8} (hdata : data.length ≤ 72) :
    2 * sizeofPublicAddressOuterBlob ≠ (encodeAddr cnFastHash tag data).length := by
  have hvar : (writeVarint tag.toNat).length ≤ 10 :=
    length_writeVarint_le 9 tag.toNat (lt_of_lt_of_le tag.toNat_lt (by norm_num))
  simp only [encodeAddr, length_encode, List.length_append, List.length_take, Vector.length_toList,
    addrChecksumSize, sizeofPublicAddressOuterBlob]
  have hlast := (encodedBlockSizes_bounds
    (((writeVarint tag.toNat).length + data.length + min 4 32) % 8) (by omega)).1.mpr (Nat.mod_lt _ (by decide))
  omega

/-- A string of the new format is read by the base58 branch, with the network's config. -/
theorem getAccountAddressFromStr_of_base58 {cnFastHash : List UInt8 → Vector UInt8 32}
    {checkKey : PublicKey → Bool} {info : AddressParseInfo} {nettype : NetworkType} {config : Config}
    (hc : getConfig nettype = .ok config) {str : List UInt8} (hlen : 2 * sizeofPublicAddressOuterBlob ≠ str.length) :
    getAccountAddressFromStr cnFastHash checkKey info nettype str =
      .ok (getAccountAddressFromBase58 cnFastHash checkKey info config str) := by
  rw [getAccountAddressFromStr, hc, Except.ok_bind, if_pos hlen, Except.pure_eq]

section Base58

variable (cnFastHash : List UInt8 → Vector UInt8 32) (checkKey : PublicKey → Bool) (info : AddressParseInfo)

/-- The base58 branch on an address or subaddress it was given: read back, if its keys pass. -/
theorem getAccountAddressFromBase58_address {config : Config} (hc : config.Distinct) (subaddress : Bool)
    (adr : AccountPublicAddress) :
    getAccountAddressFromBase58 cnFastHash checkKey info config
        (encodeAddr cnFastHash (if subaddress then config.cryptonotePublicSubaddressBase58Prefix
          else config.cryptonotePublicAddressBase58Prefix) adr.toBlob) =
      if !checkKey adr.spendPublicKey || !checkKey adr.viewPublicKey then none
      else some ⟨adr, subaddress, false, info.paymentId⟩ := by
  rw [getAccountAddressFromBase58, decodeAddr_encodeAddr]
  dsimp only
  rw [addressKind_address hc]
  dsimp only
  rw [if_neg Bool.false_ne_true, parseBinary_readAccountPublicAddress.mpr rfl]
  rfl

/-- The base58 branch on an integrated address it was given. -/
theorem getAccountAddressFromBase58_integrated (config : Config) (adr : AccountPublicAddress)
    (paymentId : Hash8) :
    getAccountAddressFromBase58 cnFastHash checkKey info config
        (encodeAddr cnFastHash config.cryptonotePublicIntegratedAddressBase58Prefix
          (IntegratedAddress.toBlob ⟨adr, paymentId⟩)) =
      if !checkKey adr.spendPublicKey || !checkKey adr.viewPublicKey then none
      else some ⟨adr, false, true, paymentId⟩ := by
  rw [getAccountAddressFromBase58, decodeAddr_encodeAddr]
  dsimp only
  rw [addressKind_integrated]
  dsimp only
  rw [if_pos rfl, parseBinary_readIntegratedAddress.mpr rfl]
  rfl

/-- The base58 branch refuses a prefix that names no kind. -/
theorem getAccountAddressFromBase58_of_addressKind {config : Config} {tag : UInt64}
    (h : addressKind config tag = none) (data : List UInt8) :
    getAccountAddressFromBase58 cnFastHash checkKey info config (encodeAddr cnFastHash tag data) = none := by
  rw [getAccountAddressFromBase58, decodeAddr_encodeAddr]
  dsimp only
  rw [h]

/-- **What the base58 branch accepts.** Keys that pass `check_key`, under a string that is
exactly what the writer gives for the result. A blob is never empty, so the cut-short varint
that `decode_addr` lets through is refused here. -/
theorem getAccountAddressFromBase58_eq_some {config : Config} {str : List UInt8} {parsed : AddressParseInfo}
    (h : getAccountAddressFromBase58 cnFastHash checkKey info config str = some parsed) :
    checkKey parsed.address.spendPublicKey = true ∧ checkKey parsed.address.viewPublicKey = true ∧
      if parsed.hasPaymentId then
        parsed.isSubaddress = false ∧
          encodeAddr cnFastHash config.cryptonotePublicIntegratedAddressBase58Prefix
            (IntegratedAddress.toBlob ⟨parsed.address, parsed.paymentId⟩) = str
      else
        parsed.paymentId = info.paymentId ∧
          encodeAddr cnFastHash (if parsed.isSubaddress then config.cryptonotePublicSubaddressBase58Prefix
            else config.cryptonotePublicAddressBase58Prefix) parsed.address.toBlob = str := by
  unfold getAccountAddressFromBase58 at h
  rcases hdec : decodeAddr cnFastHash str with _ | ⟨tag, data⟩
  · rw [hdec] at h
    cases h
  rw [hdec] at h
  dsimp only at h
  rcases hkind : addressKind config tag with _ | ⟨isSubaddress, hasPaymentId⟩
  · rw [hkind] at h
    cases h
  rw [hkind] at h
  dsimp only at h
  -- a payload that parses is a whole blob, so the string is the writer's
  have hcanon : 0 < data.length → encodeAddr cnFastHash tag data = str := fun hpos =>
    (decodeAddr_eq_some hdec).resolve_right fun ⟨hnil, _⟩ => by simp [hnil] at hpos
  cases hasPaymentId
  · -- an address or a subaddress
    rcases hp : parseBinary readAccountPublicAddress data with _ | adr
    · simp [hp] at h
    simp only [hp, Bool.false_eq_true, if_false, Option.map_some] at h
    obtain ⟨hkeys, h⟩ := Option.ite_none_left_eq_some.mp h
    cases h
    have hdata := parseBinary_readAccountPublicAddress.mp hp
    obtain ⟨hspend, hview⟩ : checkKey adr.spendPublicKey = true ∧ checkKey adr.viewPublicKey = true := by
      simpa using hkeys
    rcases addressKind_eq_some hkind with ⟨h1, -, -⟩ | ⟨-, htag⟩
    · cases h1
    refine ⟨hspend, hview, rfl, ?_⟩
    rw [htag, ← hdata]
    exact hcanon (by rw [hdata]; simp)
  · -- an integrated address
    rcases hp : parseBinary readIntegratedAddress data with _ | iadr
    · simp [hp] at h
    simp only [hp, if_true, Option.map_some] at h
    obtain ⟨hkeys, h⟩ := Option.ite_none_left_eq_some.mp h
    cases h
    have hdata := parseBinary_readIntegratedAddress.mp hp
    obtain ⟨hspend, hview⟩ : checkKey iadr.adr.spendPublicKey = true ∧ checkKey iadr.adr.viewPublicKey = true := by
      simpa using hkeys
    rcases addressKind_eq_some hkind with ⟨-, hsub, htag⟩ | ⟨h1, -⟩
    · refine ⟨hspend, hview, hsub, ?_⟩
      rw [htag, ← hdata]
      exact hcanon (by rw [hdata]; simp)
    · cases h1

end Base58

/-! ### The reader and the writer -/

/-- **Addresses read back as written.** On every network, an address, a subaddress and an
integrated address whose keys pass `check_key` are read back by `get_account_address_from_str`
as they were written. -/
theorem getAccountAddressFromStr_getAccountAddressAsStr (cnFastHash : List UInt8 → Vector UInt8 32)
    (checkKey : PublicKey → Bool) (info : AddressParseInfo) {nettype : NetworkType}
    (hnet : nettype ≠ .undefined) (adr : AccountPublicAddress) (subaddress : Bool) (paymentId : Hash8)
    (hkeys : checkKey adr.spendPublicKey = true ∧ checkKey adr.viewPublicKey = true) :
    (getAccountAddressAsStr cnFastHash nettype subaddress adr >>=
        getAccountAddressFromStr cnFastHash checkKey info nettype) =
      .ok (some ⟨adr, subaddress, false, info.paymentId⟩) ∧
    (getAccountIntegratedAddressAsStr cnFastHash nettype adr paymentId >>=
        getAccountAddressFromStr cnFastHash checkKey info nettype) =
      .ok (some ⟨adr, false, true, paymentId⟩) := by
  obtain ⟨config, hc⟩ := getConfig_of_ne_undefined hnet
  have hpass : ¬(!checkKey adr.spendPublicKey || !checkKey adr.viewPublicKey) = true := by
    simp [hkeys]
  constructor
  · rw [getAccountAddressAsStr, hc]
    simp only [Except.ok_bind, Except.pure_eq]
    rw [getAccountAddressFromStr_of_base58 hc (length_encodeAddr_ne _ _ (by simp)),
      getAccountAddressFromBase58_address _ _ _ (getConfig_distinct hc), if_neg hpass]
  · rw [getAccountIntegratedAddressAsStr, hc]
    simp only [Except.ok_bind, Except.pure_eq]
    rw [getAccountAddressFromStr_of_base58 hc (length_encodeAddr_ne _ _ (by simp)),
      getAccountAddressFromBase58_integrated, if_neg hpass]

/-- On the main network, with a constant hash, keys of zeros and a `check_key` that passes
them. -/
theorem getAccountAddressFromStr_getAccountAddressAsStr_mainnet :
    NetworkType.mainnet ≠ .undefined ∧
      ((fun _ => true : PublicKey → Bool) (Vector.replicate 32 0) = true ∧
        (fun _ => true : PublicKey → Bool) (Vector.replicate 32 0) = true) ∧
      (getAccountAddressAsStr (fun _ => Vector.replicate 32 0) .mainnet true
          ⟨Vector.replicate 32 0, Vector.replicate 32 0⟩ >>=
        getAccountAddressFromStr (fun _ => Vector.replicate 32 0) (fun _ => true)
          ⟨⟨Vector.replicate 32 0, Vector.replicate 32 0⟩, false, false, Vector.replicate 8 0⟩ .mainnet) =
        .ok (some ⟨⟨Vector.replicate 32 0, Vector.replicate 32 0⟩, true, false, Vector.replicate 8 0⟩) ∧
      (getAccountIntegratedAddressAsStr (fun _ => Vector.replicate 32 0) .mainnet
          ⟨Vector.replicate 32 0, Vector.replicate 32 0⟩ (Vector.replicate 8 1) >>=
        getAccountAddressFromStr (fun _ => Vector.replicate 32 0) (fun _ => true)
          ⟨⟨Vector.replicate 32 0, Vector.replicate 32 0⟩, false, false, Vector.replicate 8 0⟩ .mainnet) =
        .ok (some ⟨⟨Vector.replicate 32 0, Vector.replicate 32 0⟩, false, true, Vector.replicate 8 1⟩) :=
  ⟨by decide, ⟨rfl, rfl⟩,
    getAccountAddressFromStr_getAccountAddressAsStr _ _ _ (by decide) _ true _ ⟨rfl, rfl⟩⟩

/-- **Only written strings are read.** Whatever `get_account_address_from_str` accepts in the
new format has keys that pass `check_key`, and is exactly the string the writer gives for it. -/
theorem getAccountAddressFromStr_canonical {cnFastHash : List UInt8 → Vector UInt8 32}
    {checkKey : PublicKey → Bool} {info : AddressParseInfo} {nettype : NetworkType} {str : List UInt8}
    {parsed : AddressParseInfo} (hlen : 2 * sizeofPublicAddressOuterBlob ≠ str.length)
    (h : getAccountAddressFromStr cnFastHash checkKey info nettype str = .ok (some parsed)) :
    checkKey parsed.address.spendPublicKey = true ∧ checkKey parsed.address.viewPublicKey = true ∧
      if parsed.hasPaymentId then
        parsed.isSubaddress = false ∧
          getAccountIntegratedAddressAsStr cnFastHash nettype parsed.address parsed.paymentId = .ok str
      else
        parsed.paymentId = info.paymentId ∧
          getAccountAddressAsStr cnFastHash nettype parsed.isSubaddress parsed.address = .ok str := by
  rw [getAccountAddressFromStr] at h
  obtain ⟨config, hc, h⟩ := Except.bind_eq_ok.mp h
  rw [if_pos hlen, Except.pure_eq, Except.ok.injEq] at h
  obtain ⟨hspend, hview, hstr⟩ := getAccountAddressFromBase58_eq_some cnFastHash checkKey info h
  refine ⟨hspend, hview, ?_⟩
  rw [getAccountIntegratedAddressAsStr, getAccountAddressAsStr, hc]
  simp only [Except.ok_bind, Except.pure_eq]
  split
  · next hpid =>
    rw [if_pos hpid] at hstr
    exact ⟨hstr.1, by rw [hstr.2]⟩
  · next hpid =>
    rw [if_neg hpid] at hstr
    exact ⟨hstr.1, by rw [hstr.2]⟩

/-- The main network's subaddress of zero keys, read and written back. -/
theorem getAccountAddressFromStr_canonical_subaddress :
    2 * sizeofPublicAddressOuterBlob ≠ (encodeAddr (fun _ => Vector.replicate 32 0)
        mainnetConfig.cryptonotePublicSubaddressBase58Prefix
        (AccountPublicAddress.toBlob ⟨Vector.replicate 32 0, Vector.replicate 32 0⟩)).length ∧
      getAccountAddressFromStr (fun _ => Vector.replicate 32 0) (fun _ => true)
          ⟨⟨Vector.replicate 32 0, Vector.replicate 32 0⟩, false, false, Vector.replicate 8 0⟩ .mainnet
          (encodeAddr (fun _ => Vector.replicate 32 0) mainnetConfig.cryptonotePublicSubaddressBase58Prefix
            (AccountPublicAddress.toBlob ⟨Vector.replicate 32 0, Vector.replicate 32 0⟩)) =
        .ok (some ⟨⟨Vector.replicate 32 0, Vector.replicate 32 0⟩, true, false, Vector.replicate 8 0⟩) ∧
      getAccountAddressAsStr (fun _ => Vector.replicate 32 0) .mainnet true
          ⟨Vector.replicate 32 0, Vector.replicate 32 0⟩ =
        .ok (encodeAddr (fun _ => Vector.replicate 32 0) mainnetConfig.cryptonotePublicSubaddressBase58Prefix
          (AccountPublicAddress.toBlob ⟨Vector.replicate 32 0, Vector.replicate 32 0⟩)) := by
  have hlen := @length_encodeAddr_ne (fun _ => Vector.replicate 32 0)
    mainnetConfig.cryptonotePublicSubaddressBase58Prefix
    (AccountPublicAddress.toBlob ⟨Vector.replicate 32 0, Vector.replicate 32 0⟩) (by simp)
  have h : getAccountAddressFromStr (fun _ => Vector.replicate 32 0) (fun _ => true)
      ⟨⟨Vector.replicate 32 0, Vector.replicate 32 0⟩, false, false, Vector.replicate 8 0⟩ .mainnet
      (encodeAddr (fun _ => Vector.replicate 32 0) mainnetConfig.cryptonotePublicSubaddressBase58Prefix
        (AccountPublicAddress.toBlob ⟨Vector.replicate 32 0, Vector.replicate 32 0⟩)) =
      .ok (some ⟨⟨Vector.replicate 32 0, Vector.replicate 32 0⟩, true, false, Vector.replicate 8 0⟩) := by
    rw [getAccountAddressFromStr_of_base58 rfl hlen]
    have := getAccountAddressFromBase58_address (fun _ => Vector.replicate 32 0) (fun _ => true)
      ⟨⟨Vector.replicate 32 0, Vector.replicate 32 0⟩, false, false, Vector.replicate 8 0⟩
      (@getConfig_distinct .mainnet _ rfl) true ⟨Vector.replicate 32 0, Vector.replicate 32 0⟩
    rw [if_pos rfl] at this
    rw [this]
    rfl
  have hc := getAccountAddressFromStr_canonical hlen h
  exact ⟨hlen, h, hc.2.2.2⟩

/-- **An address belongs to its network.** What is written for one network is refused by every
network whose prefixes are not the same: by all of them, except `FAKECHAIN` for the main network
and the other way round. -/
theorem getAccountAddressFromStr_other_network (cnFastHash : List UInt8 → Vector UInt8 32)
    (checkKey : PublicKey → Bool) (info : AddressParseInfo) {nettype nettype' : NetworkType}
    {config config' : Config} (hc : getConfig nettype = .ok config) (hc' : getConfig nettype' = .ok config')
    (hne : config ≠ config') (adr : AccountPublicAddress) (subaddress : Bool) (paymentId : Hash8) :
    (getAccountAddressAsStr cnFastHash nettype subaddress adr >>=
        getAccountAddressFromStr cnFastHash checkKey info nettype') = .ok none ∧
    (getAccountIntegratedAddressAsStr cnFastHash nettype adr paymentId >>=
        getAccountAddressFromStr cnFastHash checkKey info nettype') = .ok none := by
  obtain ⟨haddr, hint, hsub⟩ := addressKind_other_network hc hc' hne
  constructor
  · rw [getAccountAddressAsStr, hc]
    simp only [Except.ok_bind, Except.pure_eq]
    rw [getAccountAddressFromStr_of_base58 hc' (length_encodeAddr_ne _ _ (by simp))]
    cases subaddress
    · rw [if_neg Bool.false_ne_true, getAccountAddressFromBase58_of_addressKind _ _ _ haddr]
    · rw [if_pos rfl, getAccountAddressFromBase58_of_addressKind _ _ _ hsub]
  · rw [getAccountIntegratedAddressAsStr, hc]
    simp only [Except.ok_bind, Except.pure_eq]
    rw [getAccountAddressFromStr_of_base58 hc' (length_encodeAddr_ne _ _ (by simp)),
      getAccountAddressFromBase58_of_addressKind _ _ _ hint]

/-- A main-network address is refused on the test network. -/
theorem getAccountAddressFromStr_other_network_testnet :
    getConfig .mainnet = .ok mainnetConfig ∧ getConfig .testnet = .ok testnetConfig ∧
      mainnetConfig ≠ testnetConfig ∧
      (getAccountAddressAsStr (fun _ => Vector.replicate 32 0) .mainnet false
          ⟨Vector.replicate 32 0, Vector.replicate 32 0⟩ >>=
        getAccountAddressFromStr (fun _ => Vector.replicate 32 0) (fun _ => true)
          ⟨⟨Vector.replicate 32 0, Vector.replicate 32 0⟩, false, false, Vector.replicate 8 0⟩ .testnet) =
        .ok none ∧
      (getAccountIntegratedAddressAsStr (fun _ => Vector.replicate 32 0) .mainnet
          ⟨Vector.replicate 32 0, Vector.replicate 32 0⟩ (Vector.replicate 8 0) >>=
        getAccountAddressFromStr (fun _ => Vector.replicate 32 0) (fun _ => true)
          ⟨⟨Vector.replicate 32 0, Vector.replicate 32 0⟩, false, false, Vector.replicate 8 0⟩ .testnet) =
        .ok none :=
  ⟨rfl, rfl, by decide, getAccountAddressFromStr_other_network _ _ _ rfl rfl (by decide) _ false _⟩

/-- **The old format skips `check_key`.** The hex of a version-0 `public_address_outer_blob`
with its sum is read as the address it holds, on every network and whatever `check_key` says of
its keys. The same address in the new format is refused when its spend key fails the check. -/
theorem getAccountAddressFromStr_textblob (cnFastHash : List UInt8 → Vector UInt8 32)
    (checkKey : PublicKey → Bool) (info : AddressParseInfo) {nettype : NetworkType}
    (hnet : nettype ≠ .undefined) (adr : AccountPublicAddress) :
    getAccountAddressFromStr cnFastHash checkKey info nettype
        (toHexString (PublicAddressOuterBlob.toBytes ⟨cryptonotePublicAddressTextblobVer, adr,
          getAccountAddressChecksum ⟨cryptonotePublicAddressTextblobVer, adr, 0⟩⟩)) =
      .ok (some ⟨adr, false, false, info.paymentId⟩) ∧
    (checkKey adr.spendPublicKey = false →
      (getAccountAddressAsStr cnFastHash nettype false adr >>=
        getAccountAddressFromStr cnFastHash checkKey info nettype) = .ok none) := by
  obtain ⟨config, hc⟩ := getConfig_of_ne_undefined hnet
  constructor
  · have hlen : ¬2 * sizeofPublicAddressOuterBlob ≠ (toHexString (PublicAddressOuterBlob.toBytes
        ⟨cryptonotePublicAddressTextblobVer, adr,
          getAccountAddressChecksum ⟨cryptonotePublicAddressTextblobVer, adr, 0⟩⟩)).length := by
      simp [toHexString, List.length_flatMap, PublicAddressOuterBlob.length_toBytes, Nat.mul_comm]
    -- the checksum byte is not summed, so the one written is the one expected
    have hsum : getAccountAddressChecksum ⟨cryptonotePublicAddressTextblobVer, adr, 0⟩ =
        getAccountAddressChecksum ⟨cryptonotePublicAddressTextblobVer, adr,
          getAccountAddressChecksum ⟨cryptonotePublicAddressTextblobVer, adr, 0⟩⟩ := by
      rw [getAccountAddressChecksum_eq, getAccountAddressChecksum_eq]
    rw [getAccountAddressFromStr, hc, Except.ok_bind, if_neg hlen, Except.pure_eq,
      getAccountAddressFromTextblob, parseHexstrToBinbuff_toHexString]
    dsimp only
    rw [if_neg (by rw [PublicAddressOuterBlob.length_toBytes]; exact not_not_intro rfl),
      readPublicAddressOuterBlob_toBytes]
    dsimp only
    rw [if_neg (by decide), if_neg (not_not_intro hsum)]
  · intro hspend
    rw [getAccountAddressAsStr, hc]
    simp only [Except.ok_bind, Except.pure_eq]
    rw [getAccountAddressFromStr_of_base58 hc (length_encodeAddr_ne _ _ (by simp))]
    have h := getAccountAddressFromBase58_address cnFastHash checkKey info (getConfig_distinct hc) false adr
    rw [if_neg Bool.false_ne_true, if_pos (by simp [hspend])] at h
    rw [if_neg Bool.false_ne_true, h]

/-- With a `check_key` that refuses every key, the old format still reads an address of zero
keys. -/
theorem getAccountAddressFromStr_textblob_unchecked :
    NetworkType.mainnet ≠ .undefined ∧
      getAccountAddressFromStr (fun _ => Vector.replicate 32 0) (fun _ => false)
          ⟨⟨Vector.replicate 32 0, Vector.replicate 32 0⟩, false, false, Vector.replicate 8 0⟩ .mainnet
          (toHexString (PublicAddressOuterBlob.toBytes ⟨cryptonotePublicAddressTextblobVer,
            ⟨Vector.replicate 32 0, Vector.replicate 32 0⟩,
            getAccountAddressChecksum ⟨cryptonotePublicAddressTextblobVer,
              ⟨Vector.replicate 32 0, Vector.replicate 32 0⟩, 0⟩⟩)) =
        .ok (some ⟨⟨Vector.replicate 32 0, Vector.replicate 32 0⟩, false, false, Vector.replicate 8 0⟩) ∧
      ((fun _ => false : PublicKey → Bool) (Vector.replicate 32 0) = false →
        (getAccountAddressAsStr (fun _ => Vector.replicate 32 0) .mainnet false
            ⟨Vector.replicate 32 0, Vector.replicate 32 0⟩ >>=
          getAccountAddressFromStr (fun _ => Vector.replicate 32 0) (fun _ => false)
            ⟨⟨Vector.replicate 32 0, Vector.replicate 32 0⟩, false, false, Vector.replicate 8 0⟩ .mainnet) =
          .ok none) :=
  ⟨by decide, getAccountAddressFromStr_textblob _ _ _ (by decide) _⟩

end Arqma.Cryptonote
