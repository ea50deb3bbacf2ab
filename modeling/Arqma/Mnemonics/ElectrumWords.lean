import Mathlib.Data.Vector.Basic
import Mathlib.Data.List.ModifyLast
import Arqma.Lib.ExceptRun
import Arqma.Lib.Radix

/-!
# Mnemonic seeds

`crypto::ElectrumWords` (`mnemonics/electrum-words.cpp`) over the languages of
`mnemonics/language_base.h`. `bytes_to_words` turns a key of `4k` bytes into `3k` words of a
list of 1626: each 4-byte group becomes three base-1626 digits chained by their differences.
It then adds a checksum word, picked by the CRC-32 of the words' prefixes. `words_to_bytes`
finds the language of a seed (the first, in a fixed order, whose map holds every word and
whose checksum test passes), checks the checksum and reads the groups back. Asked for `len`
bytes with `duplicate`, it should double the 16 bytes of a 12-word seed.

## The model

A `Language` is its two names, its word list (of `NWORDS` words, the one length
`populate_maps` accepts) and its unique prefix length. Its two maps are lookups over the list
under `WordEqual`, which lower-cases with `towlower`, here on the ASCII letters as in the C
locale. The word lists themselves are parameters: `find_seed_language`'s list of instances and
`get_language_list()` are arguments, and the results hold for every choice of them. A string
is read as its code points where the source counts UTF-8 characters and as its UTF-8 bytes
where it counts bytes. A thrown `std::runtime_error`, and the division by the size of an empty
list in `create_checksum_index`, are the outcome `WordsError.aborted`.

Results:
* `splitWords_intercalate`: a seed written as words separated by single blanks splits back
  into those words.
* `wordsToBytes_length_of_twelve`: with `len = 32`, a seed of twelve words is read as 16 bytes
  and never doubled. The doubling test recomputes the expected count as `len * 3 / 32`,
  without the factor 8 of the count check, and compares twelve words with one.
-/

namespace Arqma.Mnemonics

/-- `Language::Base::NWORDS`. -/
def nwords : ℕ := 1626

/-- A `Language::Base` that `populate_maps` has accepted: it throws for a list of any other
length. -/
structure Language where
  languageName : String
  englishLanguageName : String
  wordList : List String
  uniquePrefixLength : ℕ
  wordList_length : wordList.length = nwords

/-! ### Text -/

/-- The UTF-8 bytes of a string, as `data()` and `size()` see them. -/
def utf8Bytes (s : String) : List UInt8 := s.toList.flatMap String.utf8EncodeChar

/-- `Language::utf8prefix(s, count)`: the first `count` characters. -/
def utf8Prefix (s : String) (count : ℕ) : String := String.ofList (s.toList.take count)

/-- `Language::utf8canonical`: every character through `towlower`. -/
def utf8canonical (s : String) : String := s.map Char.toLower

/-- `Language::WordEqual`. -/
def wordEqual (s0 s1 : String) : Bool := utf8canonical s0 == utf8canonical s1

/-- The loop of `wipeable_string::split` over the characters, with `space` true at the start
and after a blank: a character other than a blank opens a field after a blank and is added to
the last field otherwise. -/
def splitLoop : List Char → Bool → List (List Char) → List (List Char)
  | [], _, fields => fields
  | c :: cs, space, fields =>
    if c ≠ ' ' then
      splitLoop cs false (if space then fields ++ [[c]] else fields.modifyLast (· ++ [c]))
    else splitLoop cs true fields

/-- `wipeable_string::split`: the runs of characters between blanks. -/
def splitWords (s : String) : List String := (splitLoop s.toList true []).map String.ofList

/-- A lookup in an `unordered_map` that `populate_maps` fills with `map[key_i] = i` along the
list: `WordEqual` decides which keys are one, the key kept is the first inserted and the
value the last written. -/
def mapFind (keys : List String) (query : String) : Option (String × ℕ) :=
  keys.zipIdx.foldl (fun found keyIndex =>
    if wordEqual keyIndex.1 query then some ((found.map Prod.fst).getD keyIndex.1, keyIndex.2)
    else found) none

namespace Language

/-- The key of a word in `trimmed_word_map`, and the form `checksum_test` compares: its first
`unique_prefix_length` characters when it has more bytes than that, the whole word otherwise. -/
def trimmed (l : Language) (word : String) : String :=
  if (utf8Bytes word).length > l.uniquePrefixLength then utf8Prefix word l.uniquePrefixLength
  else word

/-- `get_word_map()` looked up. -/
def wordMapFind (l : Language) (word : String) : Option ℕ := (mapFind l.wordList word).map Prod.snd

/-- `get_trimmed_word_map()` looked up: the key kept and the index. -/
def trimmedWordMapFind (l : Language) (word : String) : Option (String × ℕ) :=
  mapFind (l.wordList.map l.trimmed) word

end Language

/-! ### The checksum -/

/-- One byte of `boost::crc_32_type`, the reflected CRC-32 of polynomial `0x04C11DB7`: the byte
enters the low bits, then eight shifts, each folding in `0xEDB88320` when a one leaves. -/
def crc32Byte (crc : ℕ) (byte : UInt8) : ℕ :=
  (fun crc => if crc % 2 = 1 then (crc >>> 1) ^^^ 0xEDB88320 else crc >>> 1)^[8] (crc ^^^ byte.toNat)

/-- `boost::crc_32_type::process_bytes`, then `checksum()`: from all ones, inverted at the end. -/
def crc32 (bytes : List UInt8) : ℕ := bytes.foldl crc32Byte 0xFFFFFFFF ^^^ 0xFFFFFFFF

/-- `create_checksum_index`: the CRC-32 of the words' trimmed keys run together, modulo the
number of words. `none` where the source throws, at a word whose prefix is no key, or divides
by the size of an empty list. -/
def createChecksumIndex (wordList : List String) (l : Language) : Option ℕ :=
  (wordList.mapM fun word => (l.trimmedWordMapFind (utf8Prefix word l.uniquePrefixLength)).map Prod.fst).bind
    fun keys => if wordList.length = 0 then none else some (crc32 (keys.flatMap utf8Bytes) % wordList.length)

/-- `checksum_test`: the last word against the word that the checksum index picks among the
others, both trimmed. -/
def checksumTest (seed : List String) (l : Language) : Option Bool :=
  match seed.getLast? with
  | none => some false
  | some lastWord =>
    let seed := seed.dropLast
    (createChecksumIndex seed l).map fun idx =>
      wordEqual (l.trimmed (seed.getD idx "")) (l.trimmed lastWord)

/-! ### Finding the language -/

/-- The seed's words looked up in one language: by their prefix in the trimmed map when the
seed has a checksum, in the full map otherwise; `none` at the first word missing. -/
def matchSeed (l : Language) (seed : List String) (hasChecksum : Bool) : Option (List ℕ) :=
  seed.mapM fun word =>
    if hasChecksum then (l.trimmedWordMapFind (utf8Prefix word l.uniquePrefixLength)).map Prod.snd
    else l.wordMapFind word

/-- The loop of `find_seed_language` over the languages, with its fallback: the last language
whose map held every word and whose checksum failed. Inside, the indices and the language of
a full match, the fallback with the indices cleared, or nothing; `none` outside where the
checksum test aborts. -/
def findSeedLanguageLoop (seed : List String) (hasChecksum : Bool) :
    List Language → Option Language → Option (Option (List ℕ × Language))
  | [], fallback => some (fallback.map fun l => ([], l))
  | l :: rest, fallback =>
    match matchSeed l seed hasChecksum with
    | none => findSeedLanguageLoop seed hasChecksum rest fallback
    | some matchedIndices =>
      if hasChecksum then
        match checksumTest seed l with
        | none => none
        | some true => some (some (matchedIndices, l))
        | some false => findSeedLanguageLoop seed hasChecksum rest (some l)
      else some (some (matchedIndices, l))

/-- `find_seed_language`, over its list of instances. -/
def findSeedLanguage (languageInstances : List Language) (seed : List String) (hasChecksum : Bool) :
    Option (Option (List ℕ × Language)) :=
  findSeedLanguageLoop seed hasChecksum languageInstances none

/-! ### Words to bytes and back -/

/-- How `words_to_bytes` ends without success. -/
inductive WordsError where
  /-- It returns `false` after logging this message. -/
  | invalidSeed (msg : String)
  /-- A `std::runtime_error` thrown, or a division by zero, in `create_checksum_index`. -/
  | aborted
  deriving DecidableEq, Repr

/-- `w[0]` rebuilt from the three word indices of a group, in `uint32_t` arithmetic. -/
def decodeGroup (wordListLength w1 w2 w3 : ℕ) : ℕ :=
  (w1 + wordListLength * ((wordListLength - w1 + w2) % wordListLength) +
    wordListLength * wordListLength * ((wordListLength - w2 + w3) % wordListLength)) % 2 ^ 32

/-- `SWAP32LE(w[0])`, then its four bytes copied: little-endian. -/
def uint32Bytes (w : ℕ) : List UInt8 :=
  [w % 256, w / 256 % 256, w / 65536 % 256, w / 16777216 % 256].map Nat.toUInt8

/-- The loop of `words_to_bytes` over the groups of three indices, each checked to give back
its first digit. -/
def decodeLoop (wordListLength : ℕ) : List ℕ → Except WordsError (List UInt8)
  | w1 :: w2 :: w3 :: rest => do
    let w0 := decodeGroup wordListLength w1 w2 w3
    if w0 % wordListLength ≠ w1 then throw (.invalidSeed "Invalid seed: mumble mumble")
    let rest ← decodeLoop wordListLength rest
    return uint32Bytes w0 ++ rest
  | _ => return []

/-- The word count check of `words_to_bytes` for a known `len`, and whether the seed carries a
checksum word; without a `len` it always does. -/
def seedHasChecksum (len : ℕ) (seed : List String) : Except WordsError Bool :=
  if len ≠ 0 then
    let expected := len * 8 * 3 / 32
    if seed.length ≠ expected / 2 ∧ seed.length ≠ expected ∧ seed.length ≠ expected + 1 then
      .error (.invalidSeed "Invalid seed: unexpected number of words")
    else .ok (seed.length = expected + 1)
  else .ok true

/-- The words that are read: the checksum word tested and dropped when there is one. -/
def dropChecksum (seed : List String) (language : Language) (hasChecksum : Bool) :
    Except WordsError (List String) :=
  if hasChecksum then
    match checksumTest seed language with
    | none => .error .aborted
    | some false => .error (.invalidSeed "Invalid seed: invalid checksum")
    | some true => .ok seed.dropLast
  else .ok seed

/-- `words_to_bytes(words, dst, len, duplicate, language_name)`: the bytes and the language's
name. -/
def wordsToBytes (languageInstances : List Language) (words : String) (len : ℕ) (duplicate : Bool) :
    Except WordsError (List UInt8 × String) := do
  let seed := splitWords words
  if len % 4 ≠ 0 then throw (.invalidSeed "Invalid seed: not a multiple of 4")
  let hasChecksum ← seedHasChecksum len seed
  let some found := findSeedLanguage languageInstances seed hasChecksum | throw .aborted
  let some (matchedIndices, language) := found
    | throw (.invalidSeed "Invalid seed: language not found")
  let wordListLength := language.wordList.length
  let seed ← dropChecksum seed language hasChecksum
  let dst ← decodeLoop wordListLength (matchedIndices.take (seed.length / 3 * 3))
  let dst := if len > 0 ∧ duplicate then
      let expected := len * 3 / 32
      if seed.length = expected / 2 then dst ++ dst else dst
    else dst
  return (dst, language.languageName)

/-- The three word indices `bytes_to_words` writes for a group `w[0]`. -/
def encodeGroup (wordListLength w0 : ℕ) : ℕ × ℕ × ℕ :=
  let w1 := w0 % wordListLength
  let w2 := (w0 / wordListLength + w1) % wordListLength
  let w3 := (w0 / wordListLength / wordListLength + w2) % wordListLength
  (w1, w2, w3)

/-- `SWAP32LE(*(const uint32_t*)p)`: four bytes read little-endian. -/
def uint32OfBytes (b0 b1 b2 b3 : UInt8) : ℕ :=
  b0.toNat + 256 * b1.toNat + 65536 * b2.toNat + 16777216 * b3.toNat

/-- The loop of `bytes_to_words` over the 4-byte groups: the text it appends (each group's
three words separated by blanks, then a blank) and `words_store`. -/
def encodeLoop (l : Language) : List UInt8 → String × List String
  | b0 :: b1 :: b2 :: b3 :: rest =>
    let (w1, w2, w3) := encodeGroup l.wordList.length (uint32OfBytes b0 b1 b2 b3)
    let word1 := l.wordList.getD w1 ""
    let word2 := l.wordList.getD w2 ""
    let word3 := l.wordList.getD w3 ""
    let (words, wordsStore) := encodeLoop l rest
    (word1 ++ " " ++ word2 ++ " " ++ word3 ++ " " ++ words, word1 :: word2 :: word3 :: wordsStore)
  | _ => ("", [])

/-- `bytes_to_words(src, len, words, language_name)` into an empty `words`: `none` where it
returns `false` (a length that is not a positive multiple of 4, an unknown language) or where
`create_checksum_index` aborts. The language is the last of the list named so, in its own
language or in English. -/
def bytesToWords (languageList : List Language) (src : List UInt8) (languageName : String) :
    Option String :=
  if src.length % 4 ≠ 0 ∨ src.length = 0 then none
  else
    (languageList.filter fun l =>
        languageName = l.languageName ∨ languageName = l.englishLanguageName).getLast?.bind
      fun language =>
        let (words, wordsStore) := encodeLoop language src
        (createChecksumIndex wordsStore language).map fun idx => words ++ wordsStore.getD idx ""


/-! ### Splitting a seed -/

/-- The rest of a word goes onto the field its first character opened. -/
theorem splitLoop_append_field {rest : List Char} {fields : List (List Char)} :
    ∀ {w : List Char} {field : List Char}, ' ' ∉ w →
      splitLoop (w ++ rest) false (fields ++ [field]) = splitLoop rest false (fields ++ [field ++ w])
  | [], field, _ => by rw [List.nil_append, List.append_nil]
  | c :: w, field, hw => by
    have hc : c ≠ ' ' := fun h => hw (h ▸ List.mem_cons_self)
    rw [List.cons_append, splitLoop, if_pos hc, if_neg Bool.false_ne_true, List.modifyLast_concat,
      splitLoop_append_field (fun h => hw (List.mem_cons_of_mem c h)), List.append_assoc,
      List.singleton_append]

/-- A word after a blank, or at the start, is a field of its own. -/
theorem splitLoop_word {rest : List Char} {fields : List (List Char)} {w : List Char}
    (hne : w ≠ []) (hw : ' ' ∉ w) :
    splitLoop (w ++ rest) true fields = splitLoop rest false (fields ++ [w]) := by
  obtain ⟨c, w', rfl⟩ := List.exists_cons_of_ne_nil hne
  have hc : c ≠ ' ' := fun h => hw (h ▸ List.mem_cons_self)
  rw [List.cons_append, splitLoop, if_pos hc, if_pos rfl,
    splitLoop_append_field (fun h => hw (List.mem_cons_of_mem c h)), List.singleton_append]

/-- Words joined by single blanks split back into the words, when none is empty or holds a
blank. -/
theorem splitLoop_intercalate :
    ∀ (ws : List String), (∀ w ∈ ws, w ≠ "" ∧ ' ' ∉ w.toList) → ∀ (fields : List (List Char)),
      splitLoop (" ".intercalate ws).toList true fields = fields ++ ws.map String.toList
  | [], _, fields => by simp [splitLoop]
  | [w], hws, fields => by
    have hw := hws w List.mem_cons_self
    rw [String.intercalate_singleton, ← List.append_nil w.toList,
      splitLoop_word (String.toList_eq_nil_iff.not.mpr hw.1) hw.2]
    rfl
  | w :: w' :: ws, hws, fields => by
    have hw := hws w List.mem_cons_self
    rw [String.intercalate_cons_cons, String.toList_append, String.toList_append,
      List.append_assoc, splitLoop_word (String.toList_eq_nil_iff.not.mpr hw.1) hw.2]
    -- the blank after the word closes it
    rw [show (" " : String).toList = [' '] from rfl, List.singleton_append, splitLoop,
      if_neg (not_not.mpr rfl), splitLoop_intercalate (w' :: ws)
        (fun v hv => hws v (List.mem_cons_of_mem w hv)), List.append_assoc, List.singleton_append]
    rfl

/-- A seed written as words separated by single blanks splits back into those words. -/
theorem splitWords_intercalate (ws : List String) (hws : ∀ w ∈ ws, w ≠ "" ∧ ' ' ∉ w.toList) :
    splitWords (" ".intercalate ws) = ws := by
  rw [splitWords, splitLoop_intercalate ws hws [], List.nil_append, List.map_map]
  conv_rhs => rw [← List.map_id ws]
  exact List.map_congr_left fun w _ => String.ofList_toList

/-! ### One group of four bytes -/

/-! ### Reading a seed back -/

/-- Every group of three indices read is four bytes; fewer than three left are dropped. -/
theorem decodeLoop_length {wordListLength : ℕ} :
    ∀ {ws : List ℕ} {dst : List UInt8}, decodeLoop wordListLength ws = .ok dst →
      dst.length = 4 * (ws.length / 3)
  | w1 :: w2 :: w3 :: rest, dst, h => by
    unfold decodeLoop at h
    simp only [Except.throw_eq, Except.pure_eq, Except.error_bind] at h
    split at h
    · cases h
    · obtain ⟨dstRest, hrest, h⟩ := Except.bind_eq_ok.mp h
      rw [Except.ok.injEq] at h
      rw [← h, List.length_append, decodeLoop_length hrest]
      simp only [uint32Bytes, List.length_map, List.length_cons, List.length_nil]
      omega
  | [], dst, h | [_], dst, h | [_, _], dst, h => by
    unfold decodeLoop at h
    rw [Except.pure_eq, Except.ok.injEq] at h
    rw [← h]
    simp

/-- Without a checksum no language becomes the fallback: a language found holds every word of
the seed, at the indices returned. -/
theorem findSeedLanguageLoop_no_checksum {seed : List String} {matchedIndices : List ℕ}
    {language : Language} :
    ∀ {languages : List Language},
      findSeedLanguageLoop seed false languages none = some (some (matchedIndices, language)) →
        matchSeed language seed false = some matchedIndices
  | [], h => by
    rw [findSeedLanguageLoop] at h
    cases h
  | l :: rest, h => by
    rw [findSeedLanguageLoop] at h
    split at h
    · exact findSeedLanguageLoop_no_checksum h
    · rename_i indices hmatch
      rw [if_neg Bool.false_ne_true, Option.some.injEq, Option.some.injEq, Prod.mk.injEq] at h
      rw [← h.2, hmatch, h.1]

/-- With `len = 32` a seed of twelve words is read as 16 bytes and never doubled: it carries no
checksum (twelve is half of the 24 expected), and the doubling test compares twelve with
`32 * 3 / 32 / 2 = 1`. -/
theorem wordsToBytes_length_of_twelve {languageInstances : List Language} {words : String}
    {dst : List UInt8} {name : String} (hwords : (splitWords words).length = 12)
    (h : wordsToBytes languageInstances words 32 true = .ok (dst, name)) : dst.length = 16 := by
  have hchecksum : seedHasChecksum 32 (splitWords words) = .ok false := by
    simp only [seedHasChecksum, hwords]
    decide
  unfold wordsToBytes at h
  simp only [Except.throw_eq, Except.pure_eq, Except.error_bind, hchecksum, Except.ok_bind] at h
  rw [if_neg (by decide)] at h
  rcases hfind : findSeedLanguage languageInstances (splitWords words) false with
    _ | _ | ⟨matchedIndices, language⟩
  · rw [hfind] at h
    cases h
  · rw [hfind] at h
    cases h
  · -- the language found holds the twelve words, and the seed is read as it is
    rw [hfind] at h
    dsimp only at h
    rw [show dropChecksum (splitWords words) language false = .ok (splitWords words) from rfl,
      Except.ok_bind, hwords] at h
    obtain ⟨dst0, hdecode, h⟩ := Except.bind_eq_ok.mp h
    have hmatched := Radix.length_of_mapM_eq_some _ _ (findSeedLanguageLoop_no_checksum hfind)
    have hdst0 := decodeLoop_length hdecode
    rw [List.length_take, hmatched, hwords] at hdst0
    -- twelve words are not the one word the doubling test expects
    rw [if_pos (by decide), if_neg (by decide), Except.ok.injEq, Prod.mk.injEq] at h
    rw [← h.1, hdst0]
    rfl


/-- Twelve words of a seed, each non-empty and without a blank, joined by single blanks and
read with `len = 32` and `duplicate`, never give a 16-byte key doubled, as the documentation
of `words_to_bytes` promises: the result is 16 bytes or a failure. -/
theorem wordsToBytes_twelve_words_not_doubled (languageInstances : List Language)
    (seed : List.Vector {word : String // word ≠ "" ∧ ' ' ∉ word.toList} 12)
    (s : List.Vector UInt8 16) (name : String) :
    wordsToBytes languageInstances (" ".intercalate (seed.toList.map Subtype.val)) 32 true ≠
      .ok (s.toList ++ s.toList, name) := by
  intro h
  have hwords : (splitWords (" ".intercalate (seed.toList.map Subtype.val))).length = 12 := by
    rw [splitWords_intercalate _ (fun w hw => by
      obtain ⟨v, -, rfl⟩ := List.mem_map.mp hw
      exact v.2), List.length_map, List.Vector.toList_length]
  have hlen := wordsToBytes_length_of_twelve hwords h
  rw [List.length_append, List.Vector.toList_length] at hlen
  omega

end Arqma.Mnemonics
