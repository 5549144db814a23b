import Mathlib.Data.Nat.Bitwise
import PstForge.Foundation.Chunks
import PstForge.Messaging.NameStreams

/-! # The name-to-id map read back

What a reader gets out of the map of some identities. Every name comes back, and so does every
property set as long as its number fits its field. The reader hashes a name without its property
set, so it looks most names up in another bucket than the one the writer put them in.
-/

namespace PstForge.Messaging

open PstForge.Foundation PstForge.Ltp PstForge.Writer

section Entries

/-- The property set of a number as an entry has it. -/
def setOfNumber : Nat → NamedPropertyGuid
  | 0 => .none
  | 1 => .mapi
  | 2 => .publicStrings
  | index + 3 => .guidIndex index

theorem setOfNumber_code (number : Nat) : (setOfNumber number).code = number := by
  match number with
  | 0 | 1 | 2 => rfl
  | index + 3 => rfl

theorem ofCode_small {value : Nat} (small : value < 0x8000) :
    NamedPropertyGuid.ofCode value = .ok (setOfNumber value) := by
  have clear : value &&& 0x8000 = 0 := by
    rw [show 0x8000 = 2 ^ 15 from rfl, Nat.and_two_pow, Nat.testBit_lt_two_pow small]
    rfl
  unfold NamedPropertyGuid.ofCode
  rw [if_neg (not_not.mpr clear)]
  match value with
  | 0 | 1 | 2 => rfl
  | index + 3 => rfl

/-- The entry that a reader gets. -/
def Filing.entry (guids : List Bytes) (filing : Filing) : NameIdEntry where
  id := match filing.identity.2 with
    | .numeric value => .number value
    | .string _ => .stringOffset filing.offset
  guid := setOfNumber (guidNumber guids filing.identity.1 % 0x8000)
  propId := filing.index + 0x8000

/-- An identity whose parts are of the types that the writer has for them. -/
structure WellTyped (identity : NamedIdentity) : Prop where
  set : ∀ value, identity.1 = .guid value → value.length = 16
  name : ∀ value, identity.2 = .numeric value → value < wordCount 32

/-- What the fields of an entry have room for. -/
structure Filing.Fits (filing : Filing) : Prop where
  index : filing.index < 0x8000
  typed : WellTyped filing.identity
  name : NameFits filing.offset filing.identity

/-- The packed word tells the kind of the name and the number of the set. -/
theorem packedKind_parts (guids : List Bytes) (identity : NamedIdentity) :
    packedKind guids identity < 256 ^ 2 ∧
      packedKind guids identity >>> 1 = guidNumber guids identity.1 % 0x8000 ∧
      (packedKind guids identity &&& 1 = 0 ↔ ∃ value, identity.2 = .numeric value) := by
  have word : wordCount 16 = 0x10000 := by decide
  rw [Nat.and_one_is_mod, Nat.shiftRight_one, packedKind, word]
  generalize guidNumber guids identity.1 = number
  cases identity.2 with
  | numeric value =>
      dsimp only
      refine ⟨by omega, by omega, fun _ => ⟨value, rfl⟩, fun _ => by omega⟩
  | string name =>
      have odd : (number * 2 % 0x10000) ||| 1 = number * 2 % 0x10000 + 1 := by
        have double : number * 2 % 0x10000 = 2 ^ 1 * (number % 0x8000) := by omega
        rw [double]
        exact (Nat.two_pow_add_eq_or_of_lt (by decide) _).symm
      dsimp only
      rw [odd]
      refine ⟨by omega, by omega, fun even => by omega, ?_⟩
      rintro ⟨value, same⟩
      cases same

theorem read_bytes {guids : List Bytes} {filing : Filing} (fits : filing.Fits) :
    NameIdEntry.read (filing.bytes guids) = .ok (filing.entry guids) := by
  obtain ⟨index, offset, identity⟩ := filing
  obtain ⟨small, typed, named⟩ := fits
  obtain ⟨room, number, numeric⟩ := packedKind_parts guids identity
  have position : leValue (leBytes 2 index) = index :=
    leValue_leBytes (Nat.lt_trans small (by decide))
  have kind : leValue (leBytes 2 (packedKind guids identity)) = packedKind guids identity :=
    leValue_leBytes room
  have inside : ¬0x8000 ≤ leValue (leBytes 2 index) := by
    rw [position]
    exact Nat.not_le.mpr small
  have set : NamedPropertyGuid.ofCode (leValue (leBytes 2 (packedKind guids identity)) >>> 1) =
      .ok (setOfNumber (guidNumber guids identity.1 % 0x8000)) := by
    rw [kind, number]
    exact ofCode_small (Nat.mod_lt _ (by decide))
  refine bind_eq_ok.mpr ⟨⟨⟩, refuse_eq_ok.mpr inside, ?_⟩
  refine bind_eq_ok.mpr ⟨_, set, ?_⟩
  refine congrArg Except.ok ?_
  obtain ⟨own, name⟩ := identity
  cases name with
  | numeric value =>
      have bound : value < 256 ^ 4 := typed.name value rfl
      have even := numeric.mpr ⟨value, rfl⟩
      show (⟨if leValue (leBytes 2 _) &&& 1 = 0 then .number (leValue (leBytes 4 value))
        else .stringOffset (leValue (leBytes 4 value)), _, leValue (leBytes 2 index) + 0x8000⟩ :
          NameIdEntry) = _
      rw [kind, if_pos even, leValue_leBytes bound, position]
      rfl
  | string name =>
      have bound : offset < 256 ^ 4 := named.1
      have odd : ¬packedKind guids (own, .string name) &&& 1 = 0 :=
        fun even => nomatch numeric.mp even
      show (⟨if leValue (leBytes 2 _) &&& 1 = 0 then .number (leValue (leBytes 4 offset))
        else .stringOffset (leValue (leBytes 4 offset)), _, leValue (leBytes 2 index) + 0x8000⟩ :
          NameIdEntry) = _
      rw [kind, if_neg odd, leValue_leBytes bound, position]
      rfl

/-- A stream of entries is read back. -/
theorem readEntries_bytes {guids : List Bytes} {filed : List Filing}
    (fits : ∀ filing ∈ filed, filing.Fits) (fragment : String) :
    readEntries fragment (filed.flatMap (Filing.bytes guids)) =
      .ok (filed.map (Filing.entry guids)) := by
  have eight (filing : Filing) : (filing.bytes guids).length = 8 := by
    rw [Filing.bytes, recordEntry]
    simp only [List.length_append, length_leBytes]
  have pieces : chunks 8 (filed.flatMap (Filing.bytes guids)) = filed.map (Filing.bytes guids) := by
    induction filed with
    | nil => rfl
    | cons filing rest ih =>
        rw [List.flatMap_cons, chunks_append (by decide) (eight filing),
          ih fun other member => fits other (List.mem_cons_of_mem _ member), List.map_cons]
  have whole : ¬(filed.flatMap (Filing.bytes guids)).length % 8 ≠ 0 := by
    rw [List.length_flatMap, List.map_congr_left fun filing _ => eight filing, List.map_const',
      List.sum_replicate, smul_eq_mul, Nat.mul_mod_left]
    exact not_not.mpr rfl
  refine bind_eq_ok.mpr ⟨⟨⟩, refuse_eq_ok.mpr whole, ?_⟩
  rw [pieces, List.mapM_map]
  exact mapM_ok fun filing member => read_bytes (fits filing member)

end Entries

section Names

/-- A name as the string stream has it. -/
def stringEntry (name : Text) : StringEntry := ⟨(unicodeBytes name).length, unicodeBytes name⟩

/-- The names of identities with their places in the string stream. -/
def stringEntries : (offset : Nat) → List NamedIdentity → List (Nat × StringEntry)
  | _, [] => []
  | offset, identity :: rest =>
      let others := stringEntries (offset + (nameBytes identity).length) rest
      match identity.2 with
      | .numeric _ => others
      | .string name => (offset, stringEntry name) :: others

theorem parseStringEntries_step {count offset : Nat} {name : Text} {rest : Bytes}
    {others : List (Nat × StringEntry)} (inside : offset < wordCount 32)
    (short : (unicodeBytes name).length < wordCount 32)
    (hrest : parseStringEntries count (offset + (padded (unicodeBytes name)).length) rest =
      .ok others) :
    parseStringEntries (count + 1) offset (padded (unicodeBytes name) ++ rest) =
      .ok ((offset, stringEntry name) :: others) := by
  have even := length_unicodeBytes name
  unfold stringEntry
  generalize unicodeBytes name = encoded at *
  obtain ⟨zeros, hzeros⟩ : ∃ zeros : Bytes,
      zeros = List.replicate ((4 - encoded.length % 4) % 4) 0 := ⟨_, rfl⟩
  have padding : zeros.length = (4 - encoded.length % 4) % 4 := by
    rw [hzeros, List.length_replicate]
  have shape : padded encoded ++ rest =
      leBytes 4 encoded.length ++ (encoded ++ (zeros ++ rest)) := by
    rw [padded, hzeros]
    simp only [List.append_assoc]
  have size : leValue ((padded encoded ++ rest).take 4) = encoded.length := by
    rw [shape, List.take_left' (length_leBytes 4 _), leValue_leBytes short]
  have behind : (padded encoded ++ rest).drop 4 = encoded ++ (zeros ++ rest) := by
    rw [shape, List.drop_left' (length_leBytes 4 _)]
  have buffer : ((padded encoded ++ rest).drop 4).take encoded.length = encoded := by
    rw [behind, List.take_left' rfl]
  have left : (padded encoded ++ rest).drop (4 + encoded.length) = zeros ++ rest := by
    rw [← List.drop_drop, behind, List.drop_left' rfl]
  have long : ¬(padded encoded ++ rest).length < 4 := by
    rw [List.length_append, length_padded]
    omega
  have nonempty : padded encoded ++ rest ≠ [] := fun empty => long (by rw [empty]; decide)
  have clear : ¬((zeros ++ rest).take zeros.length).any (· ≠ 0) = true := by
    rw [List.take_left' rfl, hzeros]
    simp
  rw [length_padded, ← padding] at hrest
  rw [parseStringEntries.eq_3 _ _ _ nonempty]
  refine bind_eq_ok.mpr ⟨offset, okOr_eq_ok.mpr (tryFrom_eq_some.mpr ⟨rfl, inside⟩), ?_⟩
  refine bind_eq_ok.mpr ⟨⟨⟩, refuse_eq_ok.mpr long, ?_⟩
  dsimp only
  rw [size, buffer, left, ← padding]
  refine bind_eq_ok.mpr ⟨⟨⟩, refuse_eq_ok.mpr (by omega), ?_⟩
  refine bind_eq_ok.mpr ⟨⟨⟩, refuse_eq_ok.mpr (not_not.mpr rfl), ?_⟩
  refine bind_eq_ok.mpr ⟨⟨⟩, refuse_eq_ok.mpr (by rw [List.length_append]; omega), ?_⟩
  refine bind_eq_ok.mpr ⟨⟨⟩, refuse_eq_ok.mpr clear, ?_⟩
  rw [List.drop_left' rfl]
  exact bind_eq_ok.mpr ⟨others, hrest, rfl⟩

/-- The names are parsed as they were put down. -/
theorem parseStringEntries_names {named : List NamedIdentity} :
    ∀ {count offset : Nat}, (named.flatMap nameBytes).length ≤ count → NamesFit offset named →
      parseStringEntries count offset (named.flatMap nameBytes) =
        .ok (stringEntries offset named) := by
  induction named with
  | nil =>
      intro count offset _ _
      cases count <;> rfl
  | cons identity rest ih =>
      intro count offset room fit
      obtain ⟨set, name⟩ := identity
      obtain ⟨own, others⟩ := fit
      cases name with
      | numeric value => exact ih room others
      | string name =>
          obtain ⟨inside, short⟩ := own
          rw [List.flatMap_cons, List.length_append] at room
          have piece : (nameBytes (set, .string name)).length =
              (padded (unicodeBytes name)).length := rfl
          rw [piece, length_padded] at room
          obtain ⟨more, rfl⟩ : ∃ more, count = more + 1 := ⟨count - 1, by omega⟩
          exact parseStringEntries_step inside short (ih (by omega) others)

theorem stringEntries_above {named : List NamedIdentity} : ∀ {offset : Nat},
    ∀ entry ∈ stringEntries offset named, offset ≤ entry.1 := by
  induction named with
  | nil => exact fun {_} => List.forall_mem_nil _
  | cons identity rest ih =>
      intro offset
      obtain ⟨set, name⟩ := identity
      have later : ∀ entry ∈ stringEntries (offset + (nameBytes (set, name)).length) rest,
          offset ≤ entry.1 :=
        fun entry member => (Nat.le_add_right _ _).trans (ih entry member)
      cases name with
      | numeric value => exact later
      | string name => exact List.forall_mem_cons.mpr ⟨Nat.le_refl _, later⟩

/-- A name is found at its place. -/
theorem find_stringEntries {named : List NamedIdentity} :
    ∀ {offset : Nat} {entry : Nat × StringEntry}, entry ∈ stringEntries offset named →
      (stringEntries offset named).find? (·.1 = entry.1) = some entry := by
  induction named with
  | nil => exact fun member => absurd member List.not_mem_nil
  | cons identity rest ih =>
      intro offset entry member
      obtain ⟨set, name⟩ := identity
      cases name with
      | numeric value => exact ih member
      | string name =>
          show List.find? _ ((offset, stringEntry name) :: _) = _
          rcases List.mem_cons.mp member with rfl | later
          · exact List.find?_cons_of_pos (decide_eq_true rfl)
          · have above := stringEntries_above entry later
            have piece : (nameBytes (set, .string name)).length =
                (padded (unicodeBytes name)).length := rfl
            rw [piece, length_padded] at above
            have ahead : ¬offset = entry.1 := by omega
            rw [List.find?_cons_of_neg (by rwa [decide_eq_true_iff])]
            exact ih later

/-- Where all surrogates are paired nothing is replaced. -/
theorem fromUtf16Lossy_of_decode (units : List Nat) : ∀ {text : Text},
    decodeUtf16 units = some text → fromUtf16Lossy units = text := by
  fun_induction fromUtf16Lossy units with
  | case1 =>
      intro text decoded
      exact Option.some.inj decoded
  | case2 unit rest plain ih =>
      intro text decoded
      rw [decodeUtf16_plain plain, Option.map_eq_some_iff] at decoded
      obtain ⟨others, hothers, rfl⟩ := decoded
      rw [ih hothers]
  | case3 unit rest notPlain isLow ih =>
      intro text decoded
      rw [decodeUtf16.eq_def] at decoded
      simp only [if_neg notPlain, if_pos isLow] at decoded
      cases decoded
  | case4 unit notPlain notLow =>
      intro text decoded
      rw [decodeUtf16.eq_def] at decoded
      simp only [if_neg notPlain, if_neg notLow] at decoded
      cases decoded
  | case5 unit notPlain notLow low rest isLow ih =>
      intro text decoded
      have isHigh : 0xD800 ≤ unit ∧ unit < 0xDC00 := by omega
      rw [decodeUtf16_pair isHigh isLow, Option.map_eq_some_iff] at decoded
      obtain ⟨others, hothers, rfl⟩ := decoded
      rw [ih hothers]
  | case6 unit notPlain notLow low rest notPair ih =>
      intro text decoded
      rw [decodeUtf16.eq_def] at decoded
      simp only [if_neg notPlain, if_neg notLow, if_neg notPair] at decoded
      cases decoded

/-- The name of an entry is the text that was put down. -/
theorem stringEntry_text (name : Text) : (stringEntry name).text = name := by
  have small : ∀ unit ∈ encodeUtf16 name, unit < 256 ^ 2 := encodeUtf16_lt name
  have read := words_append small []
  rw [List.append_nil] at read
  rw [StringEntry.text, stringEntry, length_unicodeBytes, Nat.mul_div_cancel _ Nat.two_pos,
    unicodeBytes, read]
  exact fromUtf16Lossy_of_decode _ (decodeUtf16_encodeUtf16 name)

end Names

section Filings

variable {named : List NamedIdentity}

theorem filings_index {index offset : Nat} :
    ∀ filing ∈ filings index offset named, index ≤ filing.index := by
  induction named generalizing index offset with
  | nil => exact List.forall_mem_nil _
  | cons identity rest ih =>
      refine List.forall_mem_cons.mpr ⟨Nat.le_refl _, fun filing member => ?_⟩
      exact Nat.le_of_succ_le (ih filing member)

/-- The position tells filings apart. -/
theorem filings_inj {index offset : Nat} : ∀ first ∈ filings index offset named,
    ∀ second ∈ filings index offset named, first.index = second.index → first = second := by
  induction named generalizing index offset with
  | nil => exact List.forall_mem_nil _
  | cons identity rest ih =>
      have behind : ∀ filing ∈ filings (index + 1) (offset + (nameBytes identity).length) rest,
          index < filing.index := fun filing member => filings_index filing member
      intro first inFirst second inSecond same
      rcases List.mem_cons.mp inFirst with rfl | laterFirst
      · rcases List.mem_cons.mp inSecond with rfl | laterSecond
        · rfl
        · exact absurd same (Nat.ne_of_lt (behind second laterSecond))
      · rcases List.mem_cons.mp inSecond with rfl | laterSecond
        · exact absurd same.symm (Nat.ne_of_lt (behind first laterFirst))
        · exact ih first laterFirst second laterSecond same

theorem filings_fit {index offset : Nat} (few : index + named.length ≤ 0x8000)
    (typed : ∀ identity ∈ named, WellTyped identity) (fit : NamesFit offset named) :
    ∀ filing ∈ filings index offset named, filing.Fits := by
  induction named generalizing index offset with
  | nil => exact List.forall_mem_nil _
  | cons identity rest ih =>
      obtain ⟨own, others⟩ := List.forall_mem_cons.mp typed
      rw [List.length_cons] at few
      have first : index < 0x8000 := by omega
      exact List.forall_mem_cons.mpr ⟨⟨first, own, fit.1⟩, ih (by omega) others fit.2⟩

/-- The filing of an identity has its position and the place of its name. -/
theorem filings_get {index offset position : Nat} {identity : NamedIdentity}
    (here : named[position]? = some identity) :
    ∃ filing, (filings index offset named)[position]? = some filing ∧
      filing.index = index + position ∧ filing.identity = identity ∧
      ∀ name, identity.2 = .string name →
        (filing.offset, stringEntry name) ∈ stringEntries offset named := by
  induction named generalizing index offset position with
  | nil => cases here
  | cons head rest ih =>
      cases position with
      | zero =>
          rw [List.getElem?_cons_zero, Option.some.injEq] at here
          subst here
          refine ⟨⟨index, offset, head⟩, rfl, rfl, rfl, fun name same => ?_⟩
          rw [stringEntries, same]
          exact List.mem_cons_self
      | succ position =>
          rw [List.getElem?_cons_succ] at here
          obtain ⟨filing, there, number, same, place⟩ := ih here
          refine ⟨filing, there, by rw [number]; omega, same, fun name isName => ?_⟩
          have member := place name isName
          rw [stringEntries]
          cases head.2 with
          | numeric value => exact member
          | string other => exact List.mem_cons_of_mem _ member

theorem length_filings {index offset : Nat} :
    (filings index offset named).length = named.length := by
  induction named generalizing index offset with
  | nil => rfl
  | cons identity rest ih => rw [filings, List.length_cons, List.length_cons, ih]

end Filings

section Map

/-- The stream of property sets; the writer never leaves it empty. -/
def guidStream (named : List NamedIdentity) : Bytes :=
  if (customGuids named).isEmpty then reservedGuid else (customGuids named).flatten

/-- The buckets of some identities. -/
def bucketsOf (named : List NamedIdentity) : List (Nat × Bytes) :=
  fillBuckets (records (customGuids named) 0 0 named) []

/-- The properties of the map of some identities. -/
def mapProperties (named : List NamedIdentity) : Properties :=
  [(0x0001, .integer32 251), (0x0002, .binary (guidStream named)),
    (0x0003, .binary ((filings 0 0 named).flatMap (Filing.bytes (customGuids named)))),
    (0x0004, .binary (named.flatMap nameBytes))]
      ++ (bucketsOf named).map fun (bucket, entries) => (0x1000 + bucket, .binary entries)

/-- The map of some identities, and that their names fit it. -/
theorem namedPropertyMap_ok {named : List NamedIdentity} (nonempty : named ≠ [])
    {properties : Properties} (hmap : namedPropertyMap named = .ok properties) :
    properties = mapProperties named ∧ NamesFit 0 named := by
  have some : ¬named.isEmpty = true := by rwa [List.isEmpty_iff]
  rw [namedPropertyMap, if_neg some] at hmap
  obtain ⟨streams, hadd, hpure⟩ := bind_eq_ok.mp hmap
  have hadded : addNamedIdentities (customGuids named) 0 ⟨[], [], []⟩ named = .ok streams := hadd
  obtain ⟨entries, strings, buckets, fit⟩ := addNamedIdentities_added rfl hadded
  refine ⟨?_, fit⟩
  rw [records, List.flatMap_map] at entries
  rw [← Except.ok.inj hpure, entries, strings, buckets]
  rfl

variable {named : List NamedIdentity}

theorem getProperty_bucket (bucket : Nat) :
    getProperty (mapProperties named) (0x1000 + bucket) =
      (bucketContent bucket (bucketsOf named)).map .binary := by
  rw [getProperty, mapProperties, List.find?_append]
  have fixed : List.find? (fun property => decide (property.1 = 0x1000 + bucket))
      [(0x0001, PropertyValue.integer32 251), (0x0002, .binary (guidStream named)),
        (0x0003, .binary ((filings 0 0 named).flatMap (Filing.bytes (customGuids named)))),
        (0x0004, .binary (named.flatMap nameBytes))] = none := by
    rw [List.find?_eq_none]
    simp only [List.mem_cons, List.not_mem_nil, or_false, decide_eq_true_eq]
    rintro property (rfl | rfl | rfl | rfl) <;> dsimp only <;> omega
  rw [fixed, Option.none_or, List.find?_map, bucketContent, Option.map_map, Option.map_map]
  have key : (fun property : Nat × PropertyValue => decide (property.1 = 0x1000 + bucket)) ∘
      (fun content : Nat × Bytes => (0x1000 + content.1, PropertyValue.binary content.2)) =
        fun content => decide (content.1 = bucket) := by
    funext content
    simp only [Function.comp, Nat.add_left_cancel_iff]
  rw [key]
  rfl

/-- The entries of a bucket. -/
theorem binaryProperty_bucket (bucket : Nat) (missing : NamedPropError)
    (invalid : PropertyType → NamedPropError) :
    binaryProperty (mapProperties named) (0x1000 + bucket) missing invalid =
      let filed := (filings 0 0 named).filter fun filing =>
        writerBucket (customGuids named) filing.identity = bucket
      if filed.isEmpty then .error missing
      else .ok (filed.flatMap (Filing.bytes (customGuids named))) := by
  have empty : Ascending [] := List.Pairwise.nil
  have content :
      bucketContent bucket (fillBuckets (records (customGuids named) 0 0 named) []) = _ :=
    fillBuckets_content empty bucket
  have filtered : (records (customGuids named) 0 0 named).filter (·.1 = bucket) =
      ((filings 0 0 named).filter fun filing =>
        writerBucket (customGuids named) filing.identity = bucket).map
          (Filing.record (customGuids named)) := by
    rw [records, List.filter_map]
    rfl
  rw [filtered, List.isEmpty_map, List.flatMap_map] at content
  rw [binaryProperty, getProperty_bucket, bucketsOf, content]
  generalize (filings 0 0 named).filter _ = filed
  cases filed with
  | nil => rfl
  | cons head tail => rfl

/-- What a reader knows of the map of some identities: they have their types, the writer admits
their number, and their names fit the string stream. -/
structure Mapped (named : List NamedIdentity) : Prop where
  few : named.length ≤ 0x8000
  typed : ∀ identity ∈ named, WellTyped identity
  fit : NamesFit 0 named

variable (mapped : Mapped named)

include mapped in
theorem filings_all_fit : ∀ filing ∈ filings 0 0 named, filing.Fits :=
  filings_fit (by rw [Nat.zero_add]; exact mapped.few) mapped.typed mapped.fit

include mapped in
/-- The entries come back in the order of the identities. -/
theorem streamEntry_map : streamEntry (mapProperties named) =
    .ok ((filings 0 0 named).map (Filing.entry (customGuids named))) :=
  bind_eq_ok.mpr ⟨_, rfl, readEntries_bytes (filings_all_fit mapped) _⟩

include mapped in
theorem lookupString_map {filing : Filing} {name : Text}
    (place : (filing.offset, stringEntry name) ∈ stringEntries 0 named) :
    lookupString (mapProperties named) filing.offset = .ok (stringEntry name) := by
  refine bind_eq_ok.mpr ⟨named.flatMap nameBytes, rfl, ?_⟩
  refine bind_eq_ok.mpr ⟨_, parseStringEntries_names (Nat.le_refl _) mapped.fit, ?_⟩
  have found := find_stringEntries place
  rw [found]
  rfl

/-- The fields of a property set are written as they were read. -/
theorem toLeBytes_read {bytes : Bytes} (whole : bytes.length = 16) :
    (GuidValue.read bytes).toLeBytes = bytes := by
  have field (count : Nat) (rest : Bytes) (room : count ≤ rest.length) :
      leBytes count (leValue (rest.take count)) = rest.take count := by
    have same := leBytes_leValue (rest.take count)
    rwa [List.length_take, Nat.min_eq_left room] at same
  rw [GuidValue.toLeBytes, GuidValue.read, field 4 bytes (by omega),
    field 2 (bytes.drop 4) (by rw [List.length_drop]; omega),
    field 2 (bytes.drop 6) (by rw [List.length_drop]; omega)]
  have last : (bytes.drop 8).take 8 = bytes.drop 8 :=
    List.take_of_length_le (by rw [List.length_drop]; omega)
  have middle : (bytes.drop 6).take 2 ++ bytes.drop 8 = bytes.drop 6 := by
    have split := List.take_append_drop 2 (bytes.drop 6)
    rwa [List.drop_drop] at split
  have upper : (bytes.drop 4).take 2 ++ bytes.drop 6 = bytes.drop 4 := by
    have split := List.take_append_drop 2 (bytes.drop 4)
    rwa [List.drop_drop] at split
  rw [last, List.append_assoc, middle, List.append_assoc, upper, List.take_append_drop]

/-- A list of pieces of one length is cut at the places of its pieces. -/
theorem flatten_slice {size : Nat} {pieces : List Bytes} {piece : Bytes} :
    ∀ {position : Nat}, (∀ other ∈ pieces, other.length = size) →
      pieces[position]? = some piece →
        position * size + size ≤ pieces.flatten.length ∧
          (pieces.flatten.drop (position * size)).take size = piece := by
  induction pieces with
  | nil => exact fun _ there => nomatch there
  | cons head tail ih =>
      intro position whole there
      obtain ⟨first, others⟩ := List.forall_mem_cons.mp whole
      rw [List.flatten_cons, List.length_append, first]
      cases position with
      | zero =>
          rw [List.getElem?_cons_zero, Option.some.injEq] at there
          subst there
          rw [Nat.zero_mul, List.drop_zero]
          exact ⟨by omega, List.take_left' first⟩
      | succ position =>
          obtain ⟨room, slice⟩ := ih others there
          rw [Nat.succ_mul]
          refine ⟨by omega, ?_⟩
          rw [Nat.add_comm (position * size) size, ← List.drop_drop, List.drop_left' first]
          exact slice

/-- A custom set is read at its position. -/
theorem lookupGuid_map {position : Nat} {value : Bytes}
    (sixteen : ∀ guid ∈ customGuids named, guid.length = 16)
    (there : (customGuids named)[position]? = some value) :
    lookupGuid (mapProperties named) (.guidIndex position) = .ok (GuidValue.read value) := by
  obtain ⟨room, slice⟩ := flatten_slice sixteen there
  have some : ¬(customGuids named).isEmpty = true := by
    intro empty
    rw [List.isEmpty_iff.mp empty] at there
    cases there
  have stream : guidStream named = (customGuids named).flatten := if_neg some
  refine bind_eq_ok.mpr ⟨guidStream named, rfl, ?_⟩
  rw [stream]
  refine bind_eq_ok.mpr ⟨⟨⟩, refuse_eq_ok.mpr (Nat.not_lt.mpr room), ?_⟩
  rw [slice]
  rfl

end Map

section ReadBack

variable {named : List NamedIdentity}

/-- The bucket that a reader looks an identity up in: it hashes a name without its set. -/
def readerBucket (guids : List Bytes) (identity : NamedIdentity) : Nat :=
  match identity.2 with
  | .numeric _ => writerBucket guids identity
  | .string name => (computeCrc 0 (unicodeBytes name) ^^^ 1) % 251

/-- What the streams have of a filing: its identity is one of them, and its name is in place. -/
structure Filed (named : List NamedIdentity) (filing : Filing) : Prop where
  member : filing ∈ filings 0 0 named
  known : filing.identity ∈ named
  place : ∀ name, filing.identity.2 = .string name →
    (filing.offset, stringEntry name) ∈ stringEntries 0 named

/-- An entry names its identity exactly when the number of the set fits its field. -/
theorem names_iff (mapped : Mapped named) {filing : Filing} (filed : Filed named filing) :
    Names (mapProperties named) filing.index filing.identity
        (filing.entry (customGuids named)) ↔
      guidNumber (customGuids named) filing.identity.1 < 0x8000 := by
  obtain ⟨-, known, place⟩ := filed
  obtain ⟨index, offset, set, name⟩ := filing
  dsimp only at known place ⊢
  have propId : index + 0x8000 = 0x8000 + index := Nat.add_comm _ _
  have text : NamesText (mapProperties named)
      (Filing.entry (customGuids named) ⟨index, offset, (set, name)⟩).id name := by
    cases name with
    | numeric value => rfl
    | string name =>
        have found := place name rfl
        have there : lookupString (mapProperties named) offset = .ok (stringEntry name) :=
          (@lookupString_map _ mapped ⟨index, offset, (set, .string name)⟩) found
        exact ⟨stringEntry name, there, stringEntry_text name⟩
  cases set with
  | mapi => exact ⟨fun _ => (by decide : 1 < 0x8000), fun _ => ⟨propId, text, trivial⟩⟩
  | publicStrings => exact ⟨fun _ => (by decide : 2 < 0x8000), fun _ => ⟨propId, text, trivial⟩⟩
  | guid value =>
      have sets := (customGuids_sets named).2
      have used : value ∈ customGuids named := (sets value).mpr ⟨_, known, rfl⟩
      obtain ⟨position, found, there⟩ := findIdx_set used
      have number : guidNumber (customGuids named) (.guid value) = position + 3 := by
        rw [guidNumber, found]
        rfl
      have fits : position < 0x8000 := by
        have inside := (List.getElem?_eq_some_iff.mp there).1
        have few := mapped.few
        have sets := length_customGuids named
        omega
      constructor
      · intro names
        have set := names.set
        by_contra large
        rw [number] at large
        have wrapped : (Filing.entry (customGuids named) ⟨index, offset,
          (.guid value, name)⟩).guid =
            setOfNumber ((position + 3) % 0x8000) := by
          rw [← number]
          rfl
        rw [wrapped] at set
        obtain ⟨rest, small, rest_eq⟩ : ∃ rest, rest < 3 ∧ (position + 3) % 0x8000 = rest :=
          ⟨_, by omega, rfl⟩
        rw [rest_eq] at set
        interval_cases rest <;> exact set
      · intro small
        refine ⟨propId, text, ?_⟩
        have kept : (Filing.entry (customGuids named) ⟨index, offset, (.guid value, name)⟩).guid =
            .guidIndex position := by
          show setOfNumber (guidNumber (customGuids named) (.guid value) % 0x8000) = _
          rw [Nat.mod_eq_of_lt small, number]
          rfl
        have sixteen : ∀ guid ∈ customGuids named, guid.length = 16 := by
          intro guid member
          obtain ⟨identity, inside, own⟩ := (sets guid).mp member
          exact (mapped.typed identity inside).set guid own
        rw [kept]
        exact ⟨_, lookupGuid_map sixteen there, toLeBytes_read (sixteen value used)⟩

/-- The entry that a reader hashes lands in the bucket it looks up. -/
theorem hashEntry_map (mapped : Mapped named) {filing : Filing} (filed : Filed named filing) :
    ∃ hashed, hashEntry (mapProperties named) (filing.entry (customGuids named)) = .ok hashed ∧
      hashed.hashValue % 251 = readerBucket (customGuids named) filing.identity := by
  obtain ⟨-, -, place⟩ := filed
  obtain ⟨index, offset, set, name⟩ := filing
  dsimp only at place ⊢
  cases name with
  | numeric value =>
      refine ⟨_, rfl, ?_⟩
      have word : wordCount 16 = 0x10000 := by decide
      have packed : (setOfNumber (guidNumber (customGuids named) set % 0x8000)).code * 2 %
          wordCount 16 = guidNumber (customGuids named) set * 2 % wordCount 16 := by
        rw [setOfNumber_code, word]
        omega
      show (value ^^^ ((setOfNumber (guidNumber (customGuids named) set % 0x8000)).code * 2 %
        wordCount 16)) % 251 = _
      rw [packed]
      rfl
  | string name =>
      have there : lookupString (mapProperties named) offset = .ok (stringEntry name) :=
        (@lookupString_map _ mapped ⟨index, offset, (set, .string name)⟩) (place name rfl)
      refine ⟨⟨.stringOffset (computeCrc 0 (unicodeBytes name)), .none, index + 0x8000⟩,
        bind_eq_ok.mpr ⟨_, there, rfl⟩, ?_⟩
      have unnumbered : (0 * 2 % wordCount 16) ||| 1 = 1 := by decide
      show (computeCrc 0 (unicodeBytes name) ^^^ ((0 * 2 % wordCount 16) ||| 1)) % 251 = _
      rw [unnumbered]
      rfl

/-- An entry is found exactly when both sides hash its identity alike. -/
theorem foundByHash_iff (mapped : Mapped named) {filing : Filing} (filed : Filed named filing) :
    FoundByHash (mapProperties named) (filing.entry (customGuids named)) ↔
      readerBucket (customGuids named) filing.identity =
        writerBucket (customGuids named) filing.identity := by
  obtain ⟨hashed, hhash, bucket⟩ := hashEntry_map mapped filed
  have small : hashed.hashValue % 251 < 251 := Nat.mod_lt _ (by decide)
  have inside : ¬0xFFFF - 0x1000 < hashed.hashValue % 251 := by omega
  have count : bucketCount (mapProperties named) = .ok 251 := rfl
  have lookup {bucket : List NameIdEntry} : hashBucket (mapProperties named) hashed = .ok bucket ↔
      ∃ bytes, binaryProperty (mapProperties named) (0x1000 + hashed.hashValue % 251)
          (.bucketNotFound (hashed.hashValue % 251)) .invalidStreamString = .ok bytes ∧
        readEntries "NAMEID hash bucket has a trailing fragment" bytes = .ok bucket := by
    simp only [hashBucket, bind_eq_ok, count, Except.ok.injEq, exists_eq_left', refuse_eq_ok,
      inside,
      not_false_eq_true, exists_const, true_and]
  have fit := filings_all_fit mapped
  have content := (@binaryProperty_bucket named) (hashed.hashValue % 251)
    (.bucketNotFound (hashed.hashValue % 251)) .invalidStreamString
  have kept : ∀ other ∈ (filings 0 0 named).filter fun filing =>
      writerBucket (customGuids named) filing.identity = hashed.hashValue % 251, other.Fits :=
    fun other member => fit other (List.mem_of_mem_filter member)
  rw [bucket] at lookup content kept
  dsimp only at content
  constructor
  · rintro ⟨_, found, again, inBucket, member⟩
    obtain rfl := Except.ok.inj (hhash.symm.trans again)
    obtain ⟨bytes, hbytes, hread⟩ := lookup.mp inBucket
    rw [content] at hbytes
    split at hbytes
    case isTrue => cases hbytes
    case isFalse =>
      obtain rfl := Except.ok.inj hbytes
      rw [readEntries_bytes kept, Except.ok.injEq] at hread
      subst hread
      obtain ⟨other, inFilter, same⟩ := List.mem_map.mp member
      obtain ⟨there, own⟩ := List.mem_filter.mp inFilter
      have index : other.index = filing.index := by
        have positions := congrArg NameIdEntry.propId same
        exact Nat.add_right_cancel positions
      obtain rfl := filings_inj other there filing filed.member index
      exact (of_decide_eq_true own).symm
  · intro same
    have inFilter : filing ∈ (filings 0 0 named).filter fun other =>
        writerBucket (customGuids named) other.identity =
          readerBucket (customGuids named) filing.identity :=
      List.mem_filter.mpr ⟨filed.member, decide_eq_true same.symm⟩
    have some : ¬((filings 0 0 named).filter fun other =>
        writerBucket (customGuids named) other.identity =
          readerBucket (customGuids named) filing.identity).isEmpty = true := by
      intro empty
      rw [List.isEmpty_iff.mp empty] at inFilter
      exact absurd inFilter List.not_mem_nil
    rw [if_neg some] at content
    exact ⟨hashed, _, hhash, lookup.mpr ⟨_, content, readEntries_bytes kept _⟩,
      List.mem_map_of_mem inFilter⟩

/-- Every entry of a map names its identity and is found by its hash. -/
def ReadsBack (named : List NamedIdentity) (properties : Properties) : Prop :=
  ∃ entries, streamEntry properties = .ok entries ∧ entries.length = named.length ∧
    ∀ position identity entry, named[position]? = some identity →
      entries[position]? = some entry →
        Names properties position identity entry ∧ FoundByHash properties entry

/-- A list of identities with few sets, whose names hash alike with and without their sets. -/
structure Readable (named : List NamedIdentity) : Prop where
  sets : (customGuids named).length ≤ 0x7FFD
  names : ∀ set name, (set, NamedPropertyName.string name) ∈ named →
    (computeCrc 0 (unicodeBytes name) ^^^ 1) % 251 =
      (computeCrc 0 (unicodeBytes name) ^^^
        packedKind (customGuids named) (set, .string name)) % 251

/-- The numbers of all sets fit exactly when there are few enough. -/
theorem guidNumbers_iff : (∀ identity ∈ named, guidNumber (customGuids named) identity.1 < 0x8000) ↔
    (customGuids named).length ≤ 0x7FFD := by
  obtain ⟨distinct, sets⟩ := customGuids_sets named
  constructor
  · intro small
    by_contra many
    obtain ⟨guid, last⟩ : ∃ guid, (customGuids named)[0x7FFD]? = some guid :=
      ⟨_, List.getElem?_eq_getElem (by omega)⟩
    obtain ⟨identity, member, own⟩ := (sets guid).mp (List.mem_of_getElem? last)
    obtain ⟨position, found, there⟩ := findIdx_set (List.mem_of_getElem? last)
    have same : position = 0x7FFD := by
      have inside := (List.getElem?_eq_some_iff.mp there).1
      exact (List.getElem?_inj inside distinct).mp (there.trans last.symm)
    have bound := small identity member
    rw [own, guidNumber, found, same] at bound
    exact absurd bound (by decide)
  · intro few identity member
    obtain ⟨set, name⟩ := identity
    cases set with
    | mapi => exact (by decide : 1 < 0x8000)
    | publicStrings => exact (by decide : 2 < 0x8000)
    | guid value =>
        obtain ⟨position, found, there⟩ := findIdx_set ((sets value).mpr ⟨_, member, rfl⟩)
        have inside := (List.getElem?_eq_some_iff.mp there).1
        have number : guidNumber (customGuids named) (.guid value) = position + 3 := by
          rw [guidNumber, found]
          rfl
        show guidNumber (customGuids named) (.guid value) < 0x8000
        omega

/-- All identities hash alike exactly when the names do. -/
theorem buckets_iff : (∀ identity ∈ named, readerBucket (customGuids named) identity =
    writerBucket (customGuids named) identity) ↔
      ∀ set name, (set, NamedPropertyName.string name) ∈ named →
        (computeCrc 0 (unicodeBytes name) ^^^ 1) % 251 =
          (computeCrc 0 (unicodeBytes name) ^^^
            packedKind (customGuids named) (set, .string name)) % 251 := by
  constructor
  · exact fun alike set name member => alike _ member
  · rintro alike ⟨set, name⟩ member
    cases name with
    | numeric value => rfl
    | string name => exact alike set name member

theorem readsBack_iff (mapped : Mapped named) :
    ReadsBack named (mapProperties named) ↔ Readable named := by
  have entries := streamEntry_map mapped
  have each {position : Nat} {identity : NamedIdentity} (here : named[position]? = some identity) :
      ∃ filing, (filings 0 0 named)[position]? = some filing ∧ filing.index = position ∧
        filing.identity = identity ∧ Filed named filing := by
    obtain ⟨filing, there, number, same, place⟩ := (@filings_get _ 0 0) here
    rw [Nat.zero_add] at number
    subst same
    exact ⟨filing, there, number, rfl, List.mem_of_getElem? there, List.mem_of_getElem? here, place⟩
  have both : ReadsBack named (mapProperties named) ↔ ∀ identity ∈ named,
      guidNumber (customGuids named) identity.1 < 0x8000 ∧
        readerBucket (customGuids named) identity = writerBucket (customGuids named) identity := by
    constructor
    · rintro ⟨found, again, -, holds⟩ identity member
      obtain rfl := Except.ok.inj (entries.symm.trans again)
      obtain ⟨position, here⟩ := List.getElem?_of_mem member
      obtain ⟨filing, there, rfl, rfl, filed⟩ := each here
      have entry : ((filings 0 0 named).map (Filing.entry (customGuids named)))[filing.index]? =
          some (filing.entry (customGuids named)) := by
        rw [List.getElem?_map, there]
        rfl
      obtain ⟨names, byHash⟩ := holds filing.index filing.identity _ here entry
      exact ⟨(names_iff mapped filed).mp names, (foundByHash_iff mapped filed).mp byHash⟩
    · intro holds
      refine ⟨_, entries, by rw [List.length_map, length_filings], ?_⟩
      intro position identity entry here found
      obtain ⟨filing, there, rfl, rfl, filed⟩ := each here
      rw [List.getElem?_map, there, Option.map_some, Option.some.injEq] at found
      subst found
      obtain ⟨number, alike⟩ := holds filing.identity filed.known
      exact ⟨(names_iff mapped filed).mpr number, (foundByHash_iff mapped filed).mpr alike⟩
  rw [both]
  constructor
  · intro holds
    exact ⟨guidNumbers_iff.mp fun identity member => (holds identity member).1,
      buckets_iff.mp fun identity member => (holds identity member).2⟩
  · intro readable identity member
    exact ⟨guidNumbers_iff.mpr readable.sets identity member,
      buckets_iff.mpr readable.names identity member⟩

/-- The map is made while the string stream stays short. -/
theorem namedPropertyMap_runs (nonempty : named ≠ []) (few : named.length ≤ 0x8000)
    (short : (named.flatMap nameBytes).length < wordCount 32) :
    ∃ properties, namedPropertyMap named = .ok properties := by
  have some : ¬named.isEmpty = true := by rwa [List.isEmpty_iff]
  have sets := length_customGuids named
  have known : ∀ identity ∈ named, ∀ guid, identity.1 = .guid guid → guid ∈ customGuids named :=
    fun identity member guid own => ((customGuids_sets named).2 guid).mpr ⟨identity, member, own⟩
  obtain ⟨streams, hadd⟩ := (@addNamedIdentities_runs _ _ (by omega) _ ⟨[], [], []⟩)
    (by rwa [Nat.zero_add]) known rfl (by rwa [List.length_nil, Nat.zero_add])
  rw [namedPropertyMap, if_neg some]
  exact ⟨_, bind_eq_ok.mpr ⟨streams, hadd, rfl⟩⟩

/-- The map of identities that the writer admits reads back, and every entry is found by its
hash, exactly when there are few enough sets and every name hashes alike with and without its
set. -/
theorem namedPropertyMap_readsBack (named : List NamedIdentity) (nonempty : named ≠ [])
    (few : named.length ≤ 0x8000) (typed : ∀ identity ∈ named, WellTyped identity) :
    ((named.flatMap nameBytes).length < wordCount 32 →
      ∃ properties, namedPropertyMap named = .ok properties) ∧
    ∀ properties, namedPropertyMap named = .ok properties →
      (ReadsBack named properties ↔ Readable named) := by
  refine ⟨fun short => namedPropertyMap_runs nonempty few short, fun properties hmap => ?_⟩
  obtain ⟨rfl, fit⟩ := namedPropertyMap_ok nonempty hmap
  exact readsBack_iff ⟨few, typed, fit⟩

/-- The map of a numbered name reads back. -/
theorem namedPropertyMap_readsBack_number : ∃ properties,
    namedPropertyMap [(.mapi, .numeric 0x8005)] = .ok properties ∧
      ReadsBack [(.mapi, .numeric 0x8005)] properties := by
  have typed : ∀ identity ∈ [((.mapi, .numeric 0x8005) : NamedIdentity)], WellTyped identity := by
    refine List.forall_mem_singleton.mpr ⟨fun _ same => (nomatch same), fun value same => ?_⟩
    obtain rfl := NamedPropertyName.numeric.inj same
    decide
  obtain ⟨runs, reads⟩ := namedPropertyMap_readsBack [(.mapi, .numeric 0x8005)]
    (List.cons_ne_nil _ _) (by decide) typed
  obtain ⟨properties, hmap⟩ := runs (by decide)
  refine ⟨properties, hmap, (reads properties hmap).mpr ⟨by decide, ?_⟩⟩
  rintro set name member
  cases List.mem_singleton.mp member

/-- A name in the set of public strings is looked up in another bucket. -/
theorem namedPropertyMap_misses_name : ∃ properties,
    namedPropertyMap [(.publicStrings, .string ['a'])] = .ok properties ∧
      ¬ReadsBack [(.publicStrings, .string ['a'])] properties := by
  obtain ⟨properties, hmap⟩ := (@namedPropertyMap_runs [(.publicStrings, .string ['a'])])
    (List.cons_ne_nil _ _) (by decide) (by decide)
  refine ⟨properties, hmap, ?_⟩
  obtain ⟨rfl, fit⟩ := namedPropertyMap_ok (List.cons_ne_nil _ _) hmap
  have typed : ∀ identity ∈ [((.publicStrings, .string ['a']) : NamedIdentity)],
      WellTyped identity :=
    List.forall_mem_singleton.mpr ⟨fun _ same => (nomatch same), fun _ same => (nomatch same)⟩
  rw [readsBack_iff ⟨by decide, typed, fit⟩]
  intro readable
  exact absurd (readable.names .publicStrings ['a'] List.mem_cons_self) (by decide +kernel)

end ReadBack

end PstForge.Messaging
