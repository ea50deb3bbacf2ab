import Arqma.Lib.Decimal
import Arqma.Lib.ExceptRun
import Mathlib.Tactic.Positivity
import Mathlib.Algebra.Order.BigOperators.Group.List
import Mathlib.Tactic.NormNum

/-!
# Bencode values

`src/arqnet/bt_serialize.h` and `bt_serialize.cpp`: the bencode ("bt") codec of the
service-node network. A `bt_value` is a string, an `int64_t`, a list or a dict with string
keys. Integers travel as `i<decimal>e`, strings as `<length>:<bytes>`, lists as `l…e` and
dicts as `d…e`. `get_int<I>` takes the integer out of a `bt_value` as an integral type `I`.

## The model

A stream is the list of bytes not read yet. `is.peek()` at the end is no byte, and the
`bt_no_eof` after it throws. The exceptions are the constructors of `BtError`. Their
messages keep the code's text up to the input location, which is left out.
`maybe_signed_int64_t` is its 64 bits as a `UInt64`: `u64` is the word itself, and `i64` is
`UInt64.toInt64` of it. `is >> uval` is `Decimal.readDigits`. A value past `2 ^ 64` sets
failbit, so the `get` of the next `bt_expect` fails, and `bt_no_eof` reports an I/O error
unless the digits ran to the end. The recursive descent of `bt_deserialize<bt_value>` and
its list and dict loops take fuel, as the `readTree` of a schema decoder does. Running out is
`BtError.outOfFuel`, which is no exception of the code. `btGet` gives one unit of fuel per
byte of its input, and one more.

An integral type `I` is what `get_int<I>` reads of it: `sizeof(I)`, whether it is signed,
and `bool` apart. `static_cast<I>` of an integer is modular: the remainder modulo
`2 ^ (8 * sizeof(I))` for unsigned `I`, the two's complement wrap for signed `I`.

## What is proved

* Below 64 bits, `get_int` checks the range exactly (`getInt_of_sizeof_lt`).
* From 64 bits on, it casts without a check (`getInt_of_le_sizeof`). For signed types this
  returns the value itself. For `uint64_t` a negative value comes back modulo `2 ^ 64`.
* An integer from `-2 ^ 63` to `2 ^ 64 - 1`, written by `bt_serialize` and read back by
  `bt_get`, is held as its balanced remainder modulo `2 ^ 64` (`btGet_btSerializeInteger`).
  So `get_int<uint64_t>` returns every `uint64_t` value unchanged, which is how a vote's
  `block_height` travels, while `get_int<int64_t>` returns values past `INT64_MAX` as
  negative numbers.
* Every `bt_value` with strings and keys shorter than `2 ^ 64` bytes and distinct keys in each
  dict comes back from `bt_get(bt_serialize(v))` with each dict's pairs in key order, and
  that value is written as the same bytes (`btGet_btSerialize`). The recursion is
  `btDeserializeValue_btSerialize`, one case per kind of value, over the list and dict loops
  of `btDeserializeListLoop_flatMap` and `btDeserializeDictLoop_flatMap`.
-/

namespace Arqma.Arqnet

/-! ### Values and exceptions -/

/-- `bt_value`: a string, an integer, a list, or a dict from strings to values. -/
inductive BtValue
  | str (s : List UInt8)
  | int (i : Int64)
  | list (l : List BtValue)
  | dict (d : List (List UInt8 × BtValue))

/-- The exceptions of the codec and of `get_int`. -/
inductive BtError
  /-- `bt_deserialize_invalid`. -/
  | deserializeInvalid (what : String)
  /-- `bt_deserialize_invalid_type`, a `bt_deserialize_invalid` that a variant may retry. -/
  | deserializeInvalidType (what : String)
  /-- `std::overflow_error`. -/
  | overflowError (what : String)
  /-- `boost::bad_get`: the value holds another alternative. -/
  | badGet
  /-- Not an exception of the code: the model's recursion ran out of fuel. -/
  | outOfFuel
  deriving DecidableEq, Repr

/-- A byte as the one-character string the messages quote. -/
def charString (c : UInt8) : String := String.singleton (Char.ofNat c.toNat)

/-- `bt_no_eof` after a read at the end of the input. -/
def eofError : BtError := .deserializeInvalid "Unexpected EOF while deserializing"

/-- `bt_no_eof` after a read on a stream whose failbit is set. -/
def ioError : BtError := .deserializeInvalid "I/O error while deserializing"

/-- `bt_expect<Exception>(is, expect)`: takes the byte `expect`, or throws. -/
def btExpect (exception : String → BtError) (expect : UInt8) : List UInt8 → Except BtError (List UInt8)
  | [] => .error eofError
  | t :: rest =>
    if t ≠ expect then
      .error (exception ("Expected \x27" ++ charString expect ++ "\x27 but found \x27" ++ charString t ++ "\x27"))
    else .ok rest

/-- The list and dict loops rethrow a sub-element's `bt_deserialize_invalid_type` as a plain
`bt_deserialize_invalid`, "because the type *was* a list". -/
def rethrowInvalidType {α : Type} : Except BtError α → Except BtError α
  | .error (.deserializeInvalidType what) => .error (.deserializeInvalid what)
  | r => r

/-! ### Deserialization -/

/-- `bt_deserialize_integer`: the 64 bits of `maybe_signed_int64_t`, and whether a `-` was
read. -/
def btDeserializeInteger (is : List UInt8) : Except BtError ((UInt64 × Bool) × List UInt8) := do
  let is ← btExpect .deserializeInvalidType 'i'.toUInt8 is
  let (negative, is) : Bool × List UInt8 :=
    match is with
    | c :: rest => if c = '-'.toUInt8 then (true, rest) else (false, c :: rest)
    | [] => (false, [])
  match is with
  | [] => .error eofError
  | first :: more =>
    if ¬ Decimal.isDigit first then
      .error (.deserializeInvalid ("Expected 0-9 but found \x27" ++ charString first ++ "\x27"))
    else
      let (uval, is) := Decimal.readDigits (first :: more) 0
      if uval ≥ 2 ^ 64 ∧ is ≠ [] then .error ioError
      else do
        let is ← btExpect .deserializeInvalid 'e'.toUInt8 is
        if negative then
          if uval > 2 ^ 63 then .error (.deserializeInvalid "Found too-large negative value")
          else .ok ((-(UInt64.ofNat uval), true), is)
        else .ok ((UInt64.ofNat uval, false), is)

/-- `bt_deserialize<std::string>`. The short and the chunked reads both take `len` bytes, or
stop at the end of the input. -/
def btDeserializeString (is : List UInt8) : Except BtError (List UInt8 × List UInt8) :=
  match is with
  | [] => .error eofError
  | first :: more =>
    if ¬ Decimal.isDigit first then
      .error (.deserializeInvalidType ("Expected 0-9 but found \x27" ++ charString first ++ "\x27"))
    else
      let (len, is) := Decimal.readDigits (first :: more) 0
      -- `is.peek()` gives no byte at the end, nor after a length past `2 ^ 64` (failbit)
      match is with
      | colon :: rest =>
        if colon = ':'.toUInt8 ∧ len < 2 ^ 64 then
          if len ≤ rest.length then .ok (rest.take len, rest.drop len) else .error eofError
        else
          .error (.deserializeInvalid ("Expected : but found \x27" ++
            charString (if len < 2 ^ 64 then colon else 0xff) ++ "\x27"))
      | [] => .error (.deserializeInvalid ("Expected : but found \x27" ++ charString 0xff ++ "\x27"))

/-- The loop of the list deserializer, `readValue` reading each element, for at most `fuel`
elements. -/
def btDeserializeListLoop (readValue : List UInt8 → Except BtError (BtValue × List UInt8)) :
    ℕ → List UInt8 → List BtValue → Except BtError (List BtValue × List UInt8)
  | 0, _, _ => .error .outOfFuel
  | fuel + 1, is, acc =>
    match is with
    | [] => .error eofError
    | c :: rest =>
      -- `while (is.peek() != 'e')`; the `bt_expect(is, 'e')` after the loop takes the `e`
      if c = 'e'.toUInt8 then .ok (acc, rest)
      else do
        let (v, is) ← rethrowInvalidType (readValue (c :: rest))
        btDeserializeListLoop readValue fuel is (acc ++ [v])

/-- The loop of the dict deserializer. `unordered_map::insert` keeps the value of a key that
is there already. -/
def btDeserializeDictLoop (readValue : List UInt8 → Except BtError (BtValue × List UInt8)) :
    ℕ → List UInt8 → List (List UInt8 × BtValue) →
      Except BtError (List (List UInt8 × BtValue) × List UInt8)
  | 0, _, _ => .error .outOfFuel
  | fuel + 1, is, acc =>
    match is with
    | [] => .error eofError
    | c :: rest =>
      if c = 'e'.toUInt8 then .ok (acc, rest)
      else do
        let ((key, val), is) ← rethrowInvalidType (do
          let (key, is) ← btDeserializeString (c :: rest)
          let (val, is) ← readValue is
          pure ((key, val), is))
        btDeserializeDictLoop readValue fuel is
          (if (acc.map Prod.fst).contains key then acc else acc ++ [(key, val)])

/-- `bt_deserialize<bt_value>`, which dispatches on the next byte. -/
def btDeserializeValue : ℕ → List UInt8 → Except BtError (BtValue × List UInt8)
  | 0, _ => .error .outOfFuel
  | fuel + 1, is =>
    match is with
    | [] => .error eofError
    | next :: _ =>
      if next = 'd'.toUInt8 then do
        let is ← btExpect .deserializeInvalidType 'd'.toUInt8 is
        let (d, is) ← btDeserializeDictLoop (btDeserializeValue fuel) fuel is []
        pure (.dict d, is)
      else if next = 'l'.toUInt8 then do
        let is ← btExpect .deserializeInvalidType 'l'.toUInt8 is
        let (l, is) ← btDeserializeListLoop (btDeserializeValue fuel) fuel is []
        pure (.list l, is)
      else if next = 'i'.toUInt8 then do
        let ((bits, _), is) ← btDeserializeInteger is
        pure (.int bits.toInt64, is)
      else if Decimal.isDigit next then do
        let (s, is) ← btDeserializeString is
        pure (.str s, is)
      else
        .error (.deserializeInvalid ("Deserialize failed: encountered invalid value \x27" ++
          charString next ++ "\x27; expected one of [0-9idl]"))

/-- `bt_get(s)`: the value at the start of `s`. What follows it is not looked at. -/
def btGet (s : List UInt8) : Except BtError BtValue :=
  (btDeserializeValue (s.length + 1) s).map Prod.fst

/-! ### Serialization -/

/-- `bt_serialize<T>` of an integral `T`: `os << 'i' << val << 'e'`, with `val` in
decimal and a `-` in front of a negative one. -/
def btSerializeInteger (val : ℤ) : List UInt8 :=
  'i'.toUInt8 :: ((if val < 0 then ['-'.toUInt8] else []) ++ Decimal.decimal val.natAbs) ++ ['e'.toUInt8]

/-- `bt_serialize<std::string>`: `os << val.size() << ':' << val`. -/
def btSerializeString (val : List UInt8) : List UInt8 := Decimal.decimal val.length ++ ':'.toUInt8 :: val

/-- The comparison the dict serializer sorts its pairs with: `a.first < b.first`, the
byte-wise order of `std::string`, here as the `≤` that `mergeSort` takes. -/
def keyLe (a b : List UInt8 × BtValue) : Bool := decide (a.1 ≤ b.1)

/-- The dict serializer's `pairs` after `std::sort`: ordered by key. -/
def sortByKey (d : List (List UInt8 × BtValue)) : List (List UInt8 × BtValue) := d.mergeSort keyLe

/-- `bt_serialize` of a `bt_value`: the variant visitor calls the serializer of the alternative
held. A list is `l`, its values and `e`; a dict is `d`, its pairs sorted by key, each key as a
string followed by its value, and `e`. -/
def btSerialize : BtValue → List UInt8
  | .str s => btSerializeString s
  | .int i => btSerializeInteger i.toInt
  | .list l => 'l'.toUInt8 :: l.flatMap btSerialize ++ ['e'.toUInt8]
  | .dict d => 'd'.toUInt8 :: (sortByKey d).attach.flatMap (fun p =>
      btSerializeString p.1.1 ++ btSerialize p.1.2) ++ ['e'.toUInt8]
termination_by v => sizeOf v
decreasing_by
  · have := List.sizeOf_lt_of_mem ‹_ ∈ l›
    simp only [BtValue.list.sizeOf_spec]
    omega
  · obtain ⟨⟨key, val⟩, hp⟩ := p
    have := List.sizeOf_lt_of_mem (List.mem_mergeSort.mp hp)
    simp only [BtValue.dict.sizeOf_spec, Prod.mk.sizeOf_spec] at this ⊢
    omega

/-! ### `get_int` -/

/-- An integral type `I`, as `get_int<I>` reads it: `bool`, or a signed or unsigned integer
type of `bytes` bytes. -/
inductive IntegralType
  | bool
  | signed (bytes : ℕ) (pos : 0 < bytes)
  | unsigned (bytes : ℕ) (pos : 0 < bytes)

namespace IntegralType

/-- `sizeof(I)`. -/
def sizeof : IntegralType → ℕ
  | bool => 1
  | signed bytes _ => bytes
  | unsigned bytes _ => bytes

/-- `std::numeric_limits<I>::min()`. -/
def min : IntegralType → ℤ
  | bool => 0
  | signed bytes _ => -2 ^ (8 * bytes - 1)
  | unsigned _ _ => 0

/-- `std::numeric_limits<I>::max()`. -/
def max : IntegralType → ℤ
  | bool => 1
  | signed bytes _ => 2 ^ (8 * bytes - 1) - 1
  | unsigned bytes _ => 2 ^ (8 * bytes) - 1

/-- `static_cast<I>` of an integer: whether it is nonzero for `bool`, otherwise its
remainder modulo `2 ^ (8 * sizeof(I))` in the range of `I`. -/
def cast : IntegralType → ℤ → ℤ
  | bool, x => if x = 0 then 0 else 1
  | signed bytes _, x => x.bmod (2 ^ (8 * bytes))
  | unsigned bytes _, x => x % 2 ^ (8 * bytes)

end IntegralType

/-- `int64_t`. -/
def int64T : IntegralType := .signed 8 (by decide)

/-- `uint64_t`. -/
def uint64T : IntegralType := .unsigned 8 (by decide)

/-- The message of the `std::overflow_error` that `get_int` throws. -/
def overflowMessage : String :=
  "Unable to extract integer value: stored value is outside the range of the requested type"

/-- `get_int<I>`: the range check is made only below 64 bits. -/
def getInt (t : IntegralType) (v : BtValue) : Except BtError ℤ :=
  match v with
  | .int x =>
    let value := x.toInt
    if t.sizeof < 8 ∧ (value > t.max ∨ value < t.min) then .error (.overflowError overflowMessage)
    else .ok (t.cast value)
  | _ => .error .badGet

/-! ### Evaluation lemmas -/

@[simp] theorem toUInt8_i : 'i'.toUInt8 = 105 := rfl

@[simp] theorem toUInt8_e : 'e'.toUInt8 = 101 := rfl

@[simp] theorem toUInt8_minus : '-'.toUInt8 = 45 := rfl

@[simp] theorem toUInt8_d : 'd'.toUInt8 = 100 := rfl

@[simp] theorem toUInt8_l : 'l'.toUInt8 = 108 := rfl

@[simp] theorem toUInt8_colon : ':'.toUInt8 = 58 := rfl

/-! ### Integers on the wire -/

theorem toInt_toInt64_ofNat (u : ℕ) : (UInt64.ofNat u).toInt64.toInt = (u : ℤ).bmod (2 ^ 64) := by
  rw [← Int64.toInt_toBitVec, UInt64.toBitVec_toInt64, UInt64.toBitVec_ofNat', BitVec.toInt_ofNat']

theorem toInt_toInt64_neg_ofNat (u : ℕ) :
    (-(UInt64.ofNat u)).toInt64.toInt = (-(u : ℤ)).bmod (2 ^ 64) := by
  rw [← Int64.toInt_toBitVec, UInt64.toBitVec_toInt64, UInt64.toBitVec_neg, BitVec.toInt_neg,
    UInt64.toBitVec_ofNat', BitVec.toInt_ofNat']
  exact Int.bmod_neg_bmod

/-- The decimal text of a number starts with a digit. -/
theorem decimal_cons (u : ℕ) : ∃ c more, Decimal.decimal u = c :: more ∧ Decimal.isDigit c = true := by
  cases h : Decimal.decimal u with
  | nil => simp [Decimal.decimal] at h
  | cons c more => exact ⟨c, more, rfl, Decimal.isDigit_of_mem_decimal c (h ▸ List.mem_cons_self)⟩

/-- `bt_deserialize_integer` reads a nonnegative integer below `2 ^ 64` into `u64`. -/
theorem btDeserializeInteger_decimal {u : ℕ} (hu : u < 2 ^ 64) (rest : List UInt8) :
    btDeserializeInteger (105 :: (Decimal.decimal u ++ 101 :: rest)) =
      .ok ((UInt64.ofNat u, false), rest) := by
  obtain ⟨c, more, hdec, hc⟩ := decimal_cons u
  have hread := Decimal.readDigits_decimal u (101 :: rest) (by simp [Decimal.isDigit])
  have hminus : c ≠ 45 := fun h => by rw [h] at hc; exact absurd hc (by decide)
  rw [hdec, List.cons_append] at hread
  rw [hdec]
  simp only [btDeserializeInteger, btExpect, toUInt8_i, toUInt8_minus, toUInt8_e, ne_eq, not_true_eq_false,
    if_false, Except.ok_bind, List.cons_append, hminus, hc, hread]
  rw [if_neg (fun h => absurd h.1 (Nat.not_le.mpr hu)), if_neg Bool.false_ne_true]

/-- `bt_deserialize_integer` reads a negative integer down to `-2 ^ 63` into `i64`. -/
theorem btDeserializeInteger_neg_decimal {u : ℕ} (hu : u ≤ 2 ^ 63) (rest : List UInt8) :
    btDeserializeInteger (105 :: 45 :: (Decimal.decimal u ++ 101 :: rest)) =
      .ok ((-(UInt64.ofNat u), true), rest) := by
  obtain ⟨c, more, hdec, hc⟩ := decimal_cons u
  have hread := Decimal.readDigits_decimal u (101 :: rest) (by simp [Decimal.isDigit])
  rw [hdec, List.cons_append] at hread
  rw [hdec]
  simp only [btDeserializeInteger, btExpect, toUInt8_i, toUInt8_minus, toUInt8_e, ne_eq, not_true_eq_false,
    if_false, if_true, Except.ok_bind, List.cons_append, hc, hread]
  rw [if_neg (fun h => absurd h.1 (by omega)), if_neg (by omega)]

theorem btDeserializeValue_int (fuel : ℕ) (rest : List UInt8) :
    btDeserializeValue (fuel + 1) (105 :: rest) =
      (btDeserializeInteger (105 :: rest)).map fun r => (.int r.1.1.toInt64, r.2) := by
  simp only [btDeserializeValue, toUInt8_d, toUInt8_l, toUInt8_i]
  rw [if_neg (by decide), if_neg (by decide), if_true]
  cases btDeserializeInteger (105 :: rest) <;> rfl

/-- An integer from `-2 ^ 63` to `2 ^ 64 - 1` that `bt_serialize` writes, `bt_get` reads back
as the `int64_t` of its balanced remainder modulo `2 ^ 64`: itself below `2 ^ 63`, less
`2 ^ 64` above. -/
theorem btGet_btSerializeInteger {x : ℤ} (hlo : -2 ^ 63 ≤ x) (hhi : x < 2 ^ 64) :
    ∃ i : Int64, btGet (btSerializeInteger x) = .ok (.int i) ∧ i.toInt = x.bmod (2 ^ 64) := by
  rcases Int.lt_or_le x 0 with hneg | hpos
  · -- a negative integer travels with its `-`, and `i64 = -uval`
    obtain ⟨u, rfl⟩ : ∃ u : ℕ, x = -u := ⟨x.natAbs, by omega⟩
    have hser : btSerializeInteger (-u) = 105 :: 45 :: (Decimal.decimal u ++ [101]) := by
      simp only [btSerializeInteger, if_pos hneg, Int.natAbs_neg, Int.natAbs_natCast, toUInt8_i,
        toUInt8_minus, toUInt8_e, List.cons_append, List.nil_append]
    refine ⟨(-(UInt64.ofNat u)).toInt64, ?_, toInt_toInt64_neg_ofNat u⟩
    rw [btGet, hser, btDeserializeValue_int, btDeserializeInteger_neg_decimal (by omega)]
    rfl
  · -- a nonnegative one is read into `u64`, and `bt_value` keeps `i64`
    obtain ⟨u, rfl⟩ : ∃ u : ℕ, x = u := ⟨x.toNat, by omega⟩
    have hser : btSerializeInteger u = 105 :: (Decimal.decimal u ++ [101]) := by
      simp only [btSerializeInteger, if_neg (Int.not_lt.mpr hpos), Int.natAbs_natCast, toUInt8_i,
        toUInt8_e, List.nil_append, List.cons_append]
    refine ⟨(UInt64.ofNat u).toInt64, ?_, toInt_toInt64_ofNat u⟩
    rw [btGet, hser, btDeserializeValue_int, btDeserializeInteger_decimal (by omega)]
    rfl

/-! ### What `get_int` returns -/

/-- In range, `static_cast` keeps the value. -/
theorem IntegralType.cast_of_mem {t : IntegralType} {x : ℤ} (hmin : t.min ≤ x) (hmax : x ≤ t.max) :
    t.cast x = x := by
  cases t with
  | bool =>
    simp only [IntegralType.min, IntegralType.max, IntegralType.cast] at *
    split <;> omega
  | signed bytes pos =>
    simp only [IntegralType.min, IntegralType.max, IntegralType.cast] at *
    -- the range of `bytes` signed bytes is half of `2 ^ (8 * bytes)` on each side of `0`
    have hpow : ((2 ^ (8 * bytes) : ℕ) : ℤ) = 2 * 2 ^ (8 * bytes - 1) := by
      rw [Nat.cast_pow, Nat.cast_ofNat, ← pow_succ', show 8 * bytes - 1 + 1 = 8 * bytes by omega]
    apply Int.bmod_eq_of_le <;> rw [hpow] <;> omega
  | unsigned bytes pos =>
    simp only [IntegralType.min, IntegralType.max, IntegralType.cast] at *
    exact Int.emod_eq_of_lt hmin (by omega)

/-- Below 64 bits `get_int` throws exactly outside the range of the type, and returns the
value inside it. -/
theorem getInt_of_sizeof_lt {t : IntegralType} (h : t.sizeof < 8) (x : Int64) :
    getInt t (.int x) =
      if t.min ≤ x.toInt ∧ x.toInt ≤ t.max then .ok x.toInt else .error (.overflowError overflowMessage) := by
  unfold getInt
  dsimp only
  by_cases hr : t.min ≤ x.toInt ∧ x.toInt ≤ t.max
  · rw [if_neg (fun h' => by omega), if_pos hr, IntegralType.cast_of_mem hr.1 hr.2]
  · rw [if_pos ⟨h, by omega⟩, if_neg hr]

/-- From 64 bits on `get_int` casts without a check. -/
theorem getInt_of_le_sizeof {t : IntegralType} (h : 8 ≤ t.sizeof) (x : Int64) :
    getInt t (.int x) = .ok (t.cast x.toInt) := by
  unfold getInt
  dsimp only
  rw [if_neg (fun h' => by omega)]

/-- From 64 bits on the cast returns an `int64_t` unchanged exactly when it is in the range
of the type: always for a signed type, for a nonnegative one for an unsigned type. -/
theorem IntegralType.cast_eq_iff_of_le_sizeof {t : IntegralType} (h : 8 ≤ t.sizeof) (x : Int64) :
    t.cast x.toInt = x.toInt ↔ t.min ≤ x.toInt ∧ x.toInt ≤ t.max := by
  have hlo := Int64.le_toInt x
  have hhi := Int64.toInt_lt x
  refine ⟨fun hcast => ?_, fun hr => IntegralType.cast_of_mem hr.1 hr.2⟩
  cases t with
  | bool => exact absurd h (by decide)
  | signed bytes pos =>
    simp only [IntegralType.sizeof, IntegralType.min, IntegralType.max] at h ⊢
    have hpow : (2 : ℤ) ^ 63 ≤ 2 ^ (8 * bytes - 1) := pow_le_pow_right₀ (by decide) (by omega)
    constructor <;> omega
  | unsigned bytes pos =>
    simp only [IntegralType.sizeof, IntegralType.min, IntegralType.max, IntegralType.cast] at h hcast ⊢
    have hpow : (2 : ℤ) ^ 64 ≤ 2 ^ (8 * bytes) := pow_le_pow_right₀ (by decide) (by omega)
    have hnonneg : 0 ≤ x.toInt % 2 ^ (8 * bytes) := Int.emod_nonneg _ (by positivity)
    constructor <;> omega

/-- The range check of `get_int` is exact below 64 bits. From 64 bits on it is skipped: the
value is cast, which keeps it exactly when it is in range. A `uint64_t` written as an
integer is held as its balanced remainder modulo `2 ^ 64`; `get_int<uint64_t>` returns it
unchanged, and `get_int<int64_t>` returns that remainder. -/
theorem getInt_checks_range_below_64_bits (t : IntegralType) (x : Int64) (u : ℕ) (hu : u < 2 ^ 64) :
    (t.sizeof < 8 → getInt t (.int x) =
        if t.min ≤ x.toInt ∧ x.toInt ≤ t.max then .ok x.toInt
        else .error (.overflowError overflowMessage)) ∧
      (8 ≤ t.sizeof → getInt t (.int x) = .ok (t.cast x.toInt) ∧
        (t.cast x.toInt = x.toInt ↔ t.min ≤ x.toInt ∧ x.toInt ≤ t.max)) ∧
      (btGet (btSerializeInteger u)).bind (getInt uint64T) = .ok (u : ℤ) ∧
      (btGet (btSerializeInteger u)).bind (getInt int64T) = .ok ((u : ℤ).bmod (2 ^ 64)) := by
  obtain ⟨i, hget, hi⟩ := btGet_btSerializeInteger (x := u) (by omega) (by exact_mod_cast hu)
  refine ⟨fun h => getInt_of_sizeof_lt h x,
    fun h => ⟨getInt_of_le_sizeof h x, IntegralType.cast_eq_iff_of_le_sizeof h x⟩, ?_, ?_⟩
  · -- `static_cast<uint64_t>` undoes the wrap of `i64`
    rw [hget, Except.bind.eq_2, getInt_of_le_sizeof (by decide)]
    simp only [uint64T, IntegralType.cast]
    rw [hi, show (2 : ℤ) ^ (8 * 8) = ((2 ^ 64 : ℕ) : ℤ) by norm_num, Int.bmod_emod,
      Int.emod_eq_of_lt (by omega) (by exact_mod_cast hu)]
  · rw [hget, Except.bind.eq_2, getInt_of_le_sizeof (by decide)]
    simp only [int64T, IntegralType.cast]
    rw [hi, Int.bmod_bmod]

/-- From 64 bits on `get_int` does not throw: a negative `int64_t` comes out of
`get_int<uint64_t>` modulo `2 ^ 64`, against the range checking its comment documents, and
`2 ^ 63`, written as a `uint64_t`, comes out of `get_int<int64_t>` as `-2 ^ 63`. -/
theorem getInt_sixty_four_bits_without_check :
    getInt uint64T (.int (-1)) = .ok (2 ^ 64 - 1) ∧
      (btGet (btSerializeInteger (2 ^ 63))).bind (getInt int64T) = .ok (-2 ^ 63) :=
  ⟨rfl, rfl⟩

/-- `get_int` at `uint64_t`, `-1` and `2 ^ 63`, the first value past `INT64_MAX`: the
`uint64_t` comes back through the `int64_t` slot unchanged. -/
theorem getInt_checks_range_below_64_bits_at_two_pow_63 :
    (2 ^ 63 : ℕ) < 2 ^ 64 ∧
      (btGet (btSerializeInteger ((2 ^ 63 : ℕ) : ℤ))).bind (getInt uint64T) = .ok ((2 ^ 63 : ℕ) : ℤ) :=
  ⟨by decide, (getInt_checks_range_below_64_bits uint64T (-1) (2 ^ 63) (by decide)).2.2.1⟩

/-! ### Values on the wire -/

/-- A value as `bt_get` reads it back from `bt_serialize`: each dict's pairs in key order,
the order the serializer writes them in. Only the order of the pairs of each dict changes;
as an `unordered_map` the value is the same. -/
def BtValue.sortDicts : BtValue → BtValue
  | .str s => .str s
  | .int i => .int i
  | .list l => .list (l.map sortDicts)
  | .dict d => .dict ((sortByKey d).attach.map fun p => (p.1.1, sortDicts p.1.2))
termination_by v => sizeOf v
decreasing_by
  · have := List.sizeOf_lt_of_mem ‹_ ∈ l›
    simp only [BtValue.list.sizeOf_spec]
    omega
  · obtain ⟨⟨key, val⟩, hp⟩ := p
    have := List.sizeOf_lt_of_mem (List.mem_mergeSort.mp hp)
    simp only [BtValue.dict.sizeOf_spec, Prod.mk.sizeOf_spec] at this ⊢
    omega

/-- A `bt_value` as memory holds it: strings and keys shorter than `2 ^ 64` bytes, and the keys
of each dict distinct, as in an `unordered_map`. -/
inductive BtValue.WellFormed : BtValue → Prop
  | str {s : List UInt8} : s.length < 2 ^ 64 → WellFormed (.str s)
  | int (i : Int64) : WellFormed (.int i)
  | list {l : List BtValue} : (∀ v ∈ l, WellFormed v) → WellFormed (.list l)
  | dict {d : List (List UInt8 × BtValue)} : (d.map Prod.fst).Nodup →
      (∀ p ∈ d, p.1.length < 2 ^ 64) → (∀ p ∈ d, WellFormed p.2) → WellFormed (.dict d)

theorem btSerialize_dict (d : List (List UInt8 × BtValue)) :
    btSerialize (.dict d) =
      100 :: (sortByKey d).flatMap (fun p => btSerializeString p.1 ++ btSerialize p.2) ++ [101] := by
  rw [btSerialize, List.flatMap_subtype
    (g := fun (p : List UInt8 × BtValue) => btSerializeString p.1 ++ btSerialize p.2) (fun _ _ => rfl),
    List.unattach_attach]
  rfl

theorem sortDicts_dict (d : List (List UInt8 × BtValue)) :
    (BtValue.dict d).sortDicts = .dict ((sortByKey d).map fun p => (p.1, p.2.sortDicts)) := by
  rw [BtValue.sortDicts, List.map_subtype
    (g := fun (p : List UInt8 × BtValue) => (p.1, p.2.sortDicts)) (fun _ _ => rfl), List.unattach_attach]

/-- The decimal length in front of a string starts with a digit. -/
theorem btSerializeString_cons (val : List UInt8) :
    ∃ c more, btSerializeString val = c :: more ∧ Decimal.isDigit c = true := by
  obtain ⟨c, more, hdec, hc⟩ := decimal_cons val.length
  exact ⟨c, _, by rw [btSerializeString, hdec, List.cons_append], hc⟩

/-- No value is written starting with the `e` that ends a list or a dict. -/
theorem btSerialize_cons (v : BtValue) : ∃ c more, btSerialize v = c :: more ∧ c ≠ 101 := by
  cases v with
  | str s =>
    obtain ⟨c, more, hser, hc⟩ := btSerializeString_cons s
    refine ⟨c, more, by rw [btSerialize, hser], fun h => ?_⟩
    rw [h] at hc
    exact absurd hc (by decide)
  | int i =>
    refine ⟨105, ((if i.toInt < 0 then ['-'.toUInt8] else []) ++ Decimal.decimal i.toInt.natAbs) ++
      ['e'.toUInt8], ?_, by decide⟩
    rw [btSerialize, btSerializeInteger, toUInt8_i, List.cons_append]
  | list l => exact ⟨108, _, by rw [btSerialize]; rfl, by decide⟩
  | dict d => exact ⟨100, _, btSerialize_dict d, by decide⟩

/-- `bt_deserialize<std::string>` reads back what `bt_serialize<std::string>` wrote. -/
theorem btDeserializeString_btSerializeString {val : List UInt8} (hlen : val.length < 2 ^ 64)
    (rest : List UInt8) :
    btDeserializeString (btSerializeString val ++ rest) = .ok (val, rest) := by
  obtain ⟨c, more, hdec, hc⟩ := decimal_cons val.length
  have hread := Decimal.readDigits_decimal val.length (58 :: (val ++ rest)) (by simp [Decimal.isDigit])
  rw [hdec, List.cons_append] at hread
  have hser : btSerializeString val ++ rest = c :: (more ++ 58 :: (val ++ rest)) := by
    simp only [btSerializeString, hdec, toUInt8_colon, List.cons_append, List.append_assoc]
  rw [hser]
  simp only [btDeserializeString, hc, not_true_eq_false, if_false, hread]
  rw [if_pos ⟨rfl, hlen⟩, if_pos (by simp), List.take_left' rfl, List.drop_left' rfl]

/-- An `int64_t` written by `bt_serialize` is read back by `bt_deserialize<bt_value>`. -/
theorem btDeserializeValue_btSerializeInteger (i : Int64) (fuel : ℕ) (rest : List UInt8) :
    btDeserializeValue (fuel + 1) (btSerializeInteger i.toInt ++ rest) = .ok (.int i, rest) := by
  have hlo := Int64.le_toInt i
  have hhi := Int64.toInt_lt i
  rcases Int.lt_or_le i.toInt 0 with hneg | hpos
  · -- a negative value travels with its `-`, and `i64 = -uval`
    obtain ⟨u, hu⟩ : ∃ u : ℕ, i.toInt = -u := ⟨i.toInt.natAbs, by omega⟩
    have hser : btSerializeInteger i.toInt ++ rest = 105 :: 45 :: (Decimal.decimal u ++ 101 :: rest) := by
      rw [btSerializeInteger, if_pos hneg, hu]
      simp only [Int.natAbs_neg, Int.natAbs_natCast, toUInt8_i, toUInt8_minus, toUInt8_e, List.cons_append,
        List.append_assoc, List.nil_append]
    rw [hser, btDeserializeValue_int, btDeserializeInteger_neg_decimal (by omega)]
    have hval : (-(UInt64.ofNat u)).toInt64 = i := by
      apply Int64.toInt_inj.mp
      rw [toInt_toInt64_neg_ofNat, hu, Int.bmod_eq_of_le] <;> omega
    rw [← hval]
    rfl
  · obtain ⟨u, hu⟩ : ∃ u : ℕ, i.toInt = u := ⟨i.toInt.toNat, by omega⟩
    have hser : btSerializeInteger i.toInt ++ rest = 105 :: (Decimal.decimal u ++ 101 :: rest) := by
      rw [btSerializeInteger, if_neg (Int.not_lt.mpr hpos), hu]
      simp only [Int.natAbs_natCast, toUInt8_i, toUInt8_e, List.nil_append, List.cons_append,
        List.append_assoc]
    rw [hser, btDeserializeValue_int, btDeserializeInteger_decimal (by omega)]
    have hval : (UInt64.ofNat u).toInt64 = i := by
      apply Int64.toInt_inj.mp
      rw [toInt_toInt64_ofNat, hu, Int.bmod_eq_of_le] <;> omega
    rw [← hval]
    rfl

@[simp] theorem rethrowInvalidType_ok {α : Type} (a : α) : rethrowInvalidType (.ok a : Except BtError α) = .ok a :=
  rfl

/-- A digit is none of the bytes `bt_deserialize<bt_value>` dispatches on before the digits. -/
theorem isDigit_ne {c : UInt8} (h : Decimal.isDigit c = true) {d : UInt8} (hd : 57 < d.toNat) : c ≠ d := by
  rintro rfl
  simp only [Decimal.isDigit, Bool.and_eq_true, decide_eq_true_eq, UInt8.le_iff_toNat_le] at h
  exact absurd h.2 (by simpa using hd)

/-- The list loop reads back the values of a list, each read back by `readValue`, when the
fuel covers the list. -/
theorem btDeserializeListLoop_flatMap {readValue : List UInt8 → Except BtError (BtValue × List UInt8)}
    {f : BtValue → BtValue} :
    ∀ (l : List BtValue), (∀ v ∈ l, ∀ rest, readValue (btSerialize v ++ rest) = .ok (f v, rest)) →
      ∀ (fuel : ℕ), l.length < fuel → ∀ (acc : List BtValue) (rest : List UInt8),
        btDeserializeListLoop readValue fuel (l.flatMap btSerialize ++ 101 :: rest) acc =
          .ok (acc ++ l.map f, rest)
  | [], _, fuel + 1, _, acc, rest => by
    simp [btDeserializeListLoop]
  | v :: l, hread, fuel + 1, hfuel, acc, rest => by
    obtain ⟨c, more, hser, hc⟩ := btSerialize_cons v
    have hv := hread v List.mem_cons_self (l.flatMap btSerialize ++ 101 :: rest)
    rw [hser, List.cons_append] at hv
    -- the value is read, and the loop goes on with the rest of the list
    rw [List.flatMap_cons, List.append_assoc, hser, List.cons_append, btDeserializeListLoop]
    simp only [toUInt8_e, if_neg hc, hv, rethrowInvalidType_ok, Except.ok_bind]
    rw [btDeserializeListLoop_flatMap l (fun w hw => hread w (List.mem_cons_of_mem _ hw)) fuel
      (by simp only [List.length_cons] at hfuel; omega)]
    simp

/-- The dict loop reads back the pairs of a dict whose keys are distinct from those read
already, each value read back by `readValue`, when the fuel covers the dict. -/
theorem btDeserializeDictLoop_flatMap {readValue : List UInt8 → Except BtError (BtValue × List UInt8)}
    {f : BtValue → BtValue} :
    ∀ (d : List (List UInt8 × BtValue)), (∀ p ∈ d, p.1.length < 2 ^ 64) →
      (∀ p ∈ d, ∀ rest, readValue (btSerialize p.2 ++ rest) = .ok (f p.2, rest)) →
      ∀ (fuel : ℕ), d.length < fuel → ∀ (acc : List (List UInt8 × BtValue)),
        (acc.map Prod.fst ++ d.map Prod.fst).Nodup → ∀ (rest : List UInt8),
        btDeserializeDictLoop readValue fuel
            (d.flatMap (fun p => btSerializeString p.1 ++ btSerialize p.2) ++ 101 :: rest) acc =
          .ok (acc ++ d.map (fun p => (p.1, f p.2)), rest)
  | [], _, _, fuel + 1, _, acc, _, rest => by
    simp [btDeserializeDictLoop]
  | (key, val) :: d, hkeys, hread, fuel + 1, hfuel, acc, hnodup, rest => by
    obtain ⟨c, more, hser, hc⟩ := btSerializeString_cons key
    have hkey := btDeserializeString_btSerializeString (hkeys _ List.mem_cons_self)
      (btSerialize val ++ (d.flatMap (fun p => btSerializeString p.1 ++ btSerialize p.2) ++ 101 :: rest))
    have hval := hread _ List.mem_cons_self (d.flatMap (fun p => btSerializeString p.1 ++ btSerialize p.2) ++
      101 :: rest)
    rw [hser, List.cons_append] at hkey
    -- the key is new: the dict keeps the pair
    have hnew : (acc.map Prod.fst).contains key = false := by
      rw [List.map_cons] at hnodup
      have hnot : key ∉ acc.map Prod.fst := fun hmem =>
        (List.nodup_append.mp hnodup).2.2 key hmem key List.mem_cons_self rfl
      simpa using hnot
    rw [List.flatMap_cons, List.append_assoc, List.append_assoc, hser, List.cons_append, btDeserializeDictLoop]
    simp only [toUInt8_e, if_neg (isDigit_ne (d := 101) hc (by decide)), hkey, hval, Except.ok_bind, Except.pure_eq,
      rethrowInvalidType_ok, hnew, Bool.false_eq_true, if_false]
    rw [btDeserializeDictLoop_flatMap d (fun p hp => hkeys p (List.mem_cons_of_mem _ hp))
      (fun p hp => hread p (List.mem_cons_of_mem _ hp)) fuel (by simp only [List.length_cons] at hfuel; omega)
      _ (by simpa using hnodup)]
    simp

/-- A piece of a concatenation is no longer than the whole. -/
theorem length_le_length_flatMap {α : Type} {l : List α} {g : α → List UInt8} {x : α} (hx : x ∈ l) :
    (g x).length ≤ (l.flatMap g).length := by
  rw [List.length_flatMap]
  exact List.le_sum_of_mem (List.mem_map_of_mem hx)

/-- A concatenation of nonempty pieces is at least as long as their number. -/
theorem length_le_length_flatMap_of_ne_nil {α : Type} {l : List α} {g : α → List UInt8}
    (hg : ∀ x ∈ l, g x ≠ []) : l.length ≤ (l.flatMap g).length := by
  rw [List.length_flatMap]
  refine (List.length_map _).symm.le.trans (List.length_le_sum_of_one_le _ fun i hi => ?_)
  obtain ⟨x, hx, rfl⟩ := List.mem_map.mp hi
  exact List.length_pos_iff.mpr (hg x hx)

theorem btSerialize_ne_nil (v : BtValue) : btSerialize v ≠ [] := by
  obtain ⟨c, more, hser, -⟩ := btSerialize_cons v
  rw [hser]
  exact List.cons_ne_nil _ _

/-- **`bt_deserialize<bt_value>` reads back what `bt_serialize` wrote**, whatever follows it,
with the pairs of each dict in key order, given one unit of fuel per byte. -/
theorem btDeserializeValue_btSerialize (v : BtValue) (hv : v.WellFormed) (fuel : ℕ)
    (hfuel : (btSerialize v).length ≤ fuel) (rest : List UInt8) :
    btDeserializeValue (fuel + 1) (btSerialize v ++ rest) = .ok (v.sortDicts, rest) := by
  match v, hv with
  | .str s, .str hlen =>
    obtain ⟨c, more, hser, hc⟩ := btSerializeString_cons s
    have hstr := btDeserializeString_btSerializeString hlen rest
    rw [hser, List.cons_append] at hstr
    rw [btSerialize, hser, List.cons_append, btDeserializeValue, BtValue.sortDicts]
    simp only [toUInt8_d, toUInt8_l, toUInt8_i, if_neg (isDigit_ne (d := 100) hc (by decide)),
      if_neg (isDigit_ne (d := 108) hc (by decide)), if_neg (isDigit_ne (d := 105) hc (by decide)), hc,
      if_true, hstr, Except.ok_bind, Except.pure_eq]
  | .int i, _ =>
    rw [btSerialize, btDeserializeValue_btSerializeInteger, BtValue.sortDicts]
  | .list l, .list hl =>
    have hser : btSerialize (.list l) ++ rest = 108 :: (l.flatMap btSerialize ++ 101 :: rest) := by
      rw [btSerialize]
      simp
    have hlen : (btSerialize (.list l)).length = (l.flatMap btSerialize).length + 2 := by
      rw [btSerialize]
      simp
    -- the loop gets one unit of fuel less, still one more than the list's values and its bytes
    obtain ⟨fuel, rfl⟩ : ∃ f, fuel = f + 1 := ⟨fuel - 1, by omega⟩
    have hread : ∀ w ∈ l, ∀ rest, btDeserializeValue (fuel + 1) (btSerialize w ++ rest) =
        .ok (w.sortDicts, rest) := fun w hw rest =>
      btDeserializeValue_btSerialize w (hl w hw) fuel
        (by have := length_le_length_flatMap (g := btSerialize) hw; omega) rest
    have hcount : l.length < fuel + 1 := by
      have := length_le_length_flatMap_of_ne_nil (fun w (_ : w ∈ l) => btSerialize_ne_nil w)
      omega
    rw [hser, btDeserializeValue]
    simp only [toUInt8_d, toUInt8_l, btExpect, if_neg (show (108 : UInt8) ≠ 100 by decide), if_true,
      ne_eq, not_true_eq_false, if_false, Except.ok_bind,
      btDeserializeListLoop_flatMap l hread (fuel + 1) hcount [] rest, List.nil_append, Except.pure_eq,
      BtValue.sortDicts]
  | .dict d, .dict hnodup hkeys hvals =>
    -- the same as a list, over the pairs in key order
    have hmem : ∀ {p}, p ∈ sortByKey d → p ∈ d := fun hp => List.mem_mergeSort.mp hp
    have hser : btSerialize (.dict d) ++ rest = 100 :: ((sortByKey d).flatMap
        (fun p => btSerializeString p.1 ++ btSerialize p.2) ++ 101 :: rest) := by
      rw [btSerialize_dict]
      simp
    have hlen : (btSerialize (.dict d)).length = ((sortByKey d).flatMap
        (fun p => btSerializeString p.1 ++ btSerialize p.2)).length + 2 := by
      rw [btSerialize_dict]
      simp
    obtain ⟨fuel, rfl⟩ : ∃ f, fuel = f + 1 := ⟨fuel - 1, by omega⟩
    have hread : ∀ p ∈ sortByKey d, ∀ rest, btDeserializeValue (fuel + 1) (btSerialize p.2 ++ rest) =
        .ok (p.2.sortDicts, rest) := fun p hp rest =>
      btDeserializeValue_btSerialize p.2 (hvals p (hmem hp)) fuel (by
        have := length_le_length_flatMap
          (g := fun p : List UInt8 × BtValue => btSerializeString p.1 ++ btSerialize p.2) hp
        simp only [List.length_append] at this
        omega) rest
    have hcount : (sortByKey d).length < fuel + 1 := by
      have := length_le_length_flatMap_of_ne_nil (l := sortByKey d)
        (g := fun p : List UInt8 × BtValue => btSerializeString p.1 ++ btSerialize p.2)
        (fun p _ => by simp [btSerialize_ne_nil])
      omega
    -- sorting keeps the keys distinct
    have hsorted : (([] : List (List UInt8 × BtValue)).map Prod.fst ++ (sortByKey d).map Prod.fst).Nodup := by
      rw [List.map_nil, List.nil_append]
      exact ((List.mergeSort_perm d keyLe).map Prod.fst).nodup_iff.mpr hnodup
    rw [hser, btDeserializeValue]
    simp only [toUInt8_d, btExpect, if_true, ne_eq, not_true_eq_false, if_false, Except.ok_bind,
      btDeserializeDictLoop_flatMap (sortByKey d) (fun p hp => hkeys p (hmem hp)) hread (fuel + 1) hcount
        [] hsorted rest, List.nil_append, Except.pure_eq, sortDicts_dict]
termination_by sizeOf v
decreasing_by
  · have := List.sizeOf_lt_of_mem hw
    simp only [BtValue.list.sizeOf_spec]
    omega
  · have := List.sizeOf_lt_of_mem (hmem hp)
    obtain ⟨key, val⟩ := p
    simp only [BtValue.dict.sizeOf_spec, Prod.mk.sizeOf_spec] at this ⊢
    omega

/-- The serializer's order of keys is a total preorder, so its sort leaves pairs in key order. -/
theorem pairwise_sortByKey (d : List (List UInt8 × BtValue)) :
    (sortByKey d).Pairwise (fun a b => keyLe a b = true) := by
  apply List.pairwise_mergeSort
  · intro a b c hab hbc
    simp only [keyLe, decide_eq_true_eq] at hab hbc ⊢
    exact List.le_trans hab hbc
  · intro a b
    simpa [keyLe] using List.le_total a.1 b.1

/-- Sorting again what is in key order, with the values changed, changes nothing. -/
theorem sortByKey_map_sortByKey (d : List (List UInt8 × BtValue)) (f : BtValue → BtValue) :
    sortByKey ((sortByKey d).map fun p => (p.1, f p.2)) = (sortByKey d).map fun p => (p.1, f p.2) := by
  apply List.mergeSort_of_pairwise
  rw [List.pairwise_map]
  exact pairwise_sortByKey d

/-- A value and its dicts in key order are written the same: the serializer sorts them anyway. -/
theorem btSerialize_sortDicts (v : BtValue) : btSerialize v.sortDicts = btSerialize v := by
  match v with
  | .str s => rw [BtValue.sortDicts]
  | .int i => rw [BtValue.sortDicts]
  | .list l =>
    rw [BtValue.sortDicts, btSerialize, btSerialize, List.flatMap_map,
      List.flatMap_congr fun w (hw : w ∈ l) => btSerialize_sortDicts w]
  | .dict d =>
    have hval : ∀ p ∈ sortByKey d, btSerializeString p.1 ++ btSerialize p.2.sortDicts =
        btSerializeString p.1 ++ btSerialize p.2 := fun p hp => by
      rw [btSerialize_sortDicts p.2]
    rw [sortDicts_dict, btSerialize_dict, btSerialize_dict, sortByKey_map_sortByKey, List.flatMap_map,
      List.flatMap_congr hval]
termination_by sizeOf v
decreasing_by
  · have := List.sizeOf_lt_of_mem hw
    simp only [BtValue.list.sizeOf_spec]
    omega
  · have := List.sizeOf_lt_of_mem (List.mem_mergeSort.mp hp)
    obtain ⟨key, val⟩ := p
    simp only [BtValue.dict.sizeOf_spec, Prod.mk.sizeOf_spec] at this ⊢
    omega

/-- **Bencode round trip.** `bt_get` of what `bt_serialize` writes is the value with the pairs
of each dict in key order, and that value is written as the same bytes: decoding loses
nothing, and the encoding of a value is canonical. -/
theorem btGet_btSerialize (v : BtValue) (hv : v.WellFormed) :
    btGet (btSerialize v) = .ok v.sortDicts ∧ btSerialize v.sortDicts = btSerialize v := by
  refine ⟨?_, btSerialize_sortDicts v⟩
  have h := btDeserializeValue_btSerialize v hv (btSerialize v).length le_rfl []
  rw [List.append_nil] at h
  rw [btGet, h]
  rfl

/-- A dict given with its keys out of order, `b` before `a`, holding an integer and a list. -/
theorem btGet_btSerialize_unsorted_dict :
    (BtValue.dict [([98], .int 1), ([97], .list [.str [120]])]).WellFormed ∧
      btGet (btSerialize (.dict [([98], .int 1), ([97], .list [.str [120]])])) =
        .ok (BtValue.dict [([98], .int 1), ([97], .list [.str [120]])]).sortDicts ∧
      btSerialize (BtValue.dict [([98], .int 1), ([97], .list [.str [120]])]).sortDicts =
        btSerialize (.dict [([98], .int 1), ([97], .list [.str [120]])]) := by
  have hv : (BtValue.dict [([98], .int 1), ([97], .list [.str [120]])]).WellFormed := by
    refine .dict (by decide) (by simp) ?_
    simp only [List.mem_cons, List.not_mem_nil, or_false, forall_eq_or_imp, forall_eq]
    have hstr : (BtValue.str [120]).WellFormed := .str (by simp)
    exact ⟨.int 1, .list (by simpa using hstr)⟩
  exact ⟨hv, btGet_btSerialize _ hv⟩

end Arqma.Arqnet
