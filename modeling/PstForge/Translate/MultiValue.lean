import PstForge.Foundation.Words
import PstForge.Writer.Validate

/-! # Properties of several values

A property of several byte strings or texts is kept as a count, the offset of each value, and
the values one after another. The writer lays this encoding out, and the translation reads it
from recovered values. Each of the two undoes the other, wherever it succeeds.
-/

namespace PstForge.Translate

open PstForge.Foundation PstForge.Ltp PstForge.Writer

section Decoder

/-- The bytes of a range, if there are any. -/
def getRange (bytes : Bytes) (start stop : Nat) : Option Bytes :=
  if start ≤ stop ∧ stop ≤ bytes.length then some ((bytes.take stop).drop start) else none

/-- The offsets behind the count. -/
def readOffsets (bytes : Bytes) (count : Nat) : Except String (List Nat) :=
  (List.range count).mapM fun index => do
    let encoded ← okOr "PtypMultipleBinary offset is truncated"
      (getRange bytes (4 + index * 4) (4 + index * 4 + 4))
    return leValue encoded

/-- Whether offsets start behind the header, never fall, and stay within the property. -/
def offsetsOrdered (headerLen length : Nat) (offsets : List Nat) : Bool :=
  offsets.head? = some headerLen &&
    !((offsets.zip offsets.tail).any fun pair =>
      decide (pair.2 < pair.1) || decide (length < pair.2)) &&
    !(offsets.getLast?.any (length < ·))

/-- The values at the given offsets, each up to where the next one starts. -/
def readValues (bytes : Bytes) (offsets : List Nat) : Except String (List Bytes) :=
  offsets.zipIdx.mapM fun entry =>
    okOr "PtypMultipleBinary value range is invalid"
      (getRange bytes entry.1 ((offsets[entry.2 + 1]?).getD bytes.length))

/-- The values of a property. Sums of words of 32 bits do not overflow. -/
def decodeVariableWidthValues (bytes : Bytes) : Except String (List Bytes) := do
  let countBytes ← okOr "PtypMultipleBinary count is truncated" (getRange bytes 0 4)
  let count := leValue countBytes
  let headerLen := (count + 1) * 4
  refuse (bytes.length < headerLen) "PtypMultipleBinary offset table is truncated"
  if count = 0 then
    refuse (bytes.length ≠ 4) "empty PtypMultipleBinary has trailing bytes"
    return []
  let offsets ← readOffsets bytes count
  refuse (offsetsOrdered headerLen bytes.length offsets = false)
    "PtypMultipleBinary offsets are not ordered within the property"
  readValues bytes offsets

def decodeMultipleBinary (bytes : Bytes) : Except String (List Bytes) :=
  decodeVariableWidthValues bytes

/-- The text of a value: what stands before its terminator, if it has one. -/
def decodeUnicodeValue (value : Bytes) : Except String Text := do
  refuse (value.length % 2 ≠ 0) "PtypMultipleString value has odd byte length"
  let units := words 2 (value.length / 2) value
  let units ← match units.findIdx? (· = 0) with
    | some stop => do
        refuse (((units.drop (stop + 1)).any (· ≠ 0)) = true)
          "PtypMultipleString has data after its terminator"
        pure (units.take stop)
    | none => pure units
  okOr "PtypMultipleString value is invalid UTF-16" (decodeUtf16 units)

def decodeMultipleUnicode (bytes : Bytes) : Except String (List Text) := do
  (← decodeVariableWidthValues bytes).mapM decodeUnicodeValue

end Decoder

section Layout

/-- The offsets of byte strings that are laid out one after another. -/
def starts (offset : Nat) : List Bytes → List Nat
  | [] => []
  | value :: rest => offset :: starts (offset + value.length) rest

/-- The encoding of several byte strings. -/
def layout (values : List Bytes) : Bytes :=
  leBytes 4 values.length ++ (starts ((values.length + 1) * 4) values).flatMap (leBytes 4)
    ++ values.flatten

/-- The count and the offsets of an encoding fit their words. -/
def Fits (values : List Bytes) : Prop :=
  values.length < wordCount 32 ∧
    ∀ start ∈ starts ((values.length + 1) * 4) values, start < wordCount 32

@[simp] theorem length_starts (offset : Nat) (values : List Bytes) :
    (starts offset values).length = values.length := by
  induction values generalizing offset with
  | nil => rfl
  | cons value rest ih => rw [starts, List.length_cons, List.length_cons, ih]

theorem starts_le {offset start : Nat} {values : List Bytes}
    (member : start ∈ starts offset values) :
    offset ≤ start ∧ start ≤ offset + (values.map List.length).sum := by
  induction values generalizing offset with
  | nil => cases member
  | cons value rest ih =>
      rw [List.map_cons, List.sum_cons]
      rcases List.mem_cons.mp member with rfl | later
      · omega
      · have bounds := ih later
        omega

theorem length_header (offset : Nat) (values : List Bytes) :
    (leBytes 4 values.length ++ (starts offset values).flatMap (leBytes 4)).length =
      (values.length + 1) * 4 := by
  have offsets : ((starts offset values).flatMap (leBytes 4)).length = values.length * 4 := by
    rw [List.length_flatMap, List.map_congr_left fun _ _ => length_leBytes 4 _, List.map_const',
      List.sum_replicate, length_starts, smul_eq_mul]
  rw [List.length_append, length_leBytes, offsets, Nat.succ_mul, Nat.add_comm]

theorem length_layout (values : List Bytes) :
    (layout values).length = (values.length + 1) * 4 + (values.map List.length).sum := by
  rw [layout, List.length_append, length_header, List.length_flatten]

theorem offsets_eq_ok {what : String} {offset : Nat} {values : List Bytes} {encoded : Bytes} :
    multipleBytes.offsets what offset values = .ok encoded ↔
      (∀ start ∈ starts offset values, start < wordCount 32) ∧
        encoded = (starts offset values).flatMap (leBytes 4) := by
  induction values generalizing offset encoded with
  | nil =>
      rw [multipleBytes.offsets, starts, List.flatMap_nil]
      exact ⟨fun same => ⟨List.forall_mem_nil _, (Except.ok.inj same).symm⟩,
        fun same => same.2 ▸ rfl⟩
  | cons value rest ih =>
      rw [multipleBytes.offsets, starts, List.flatMap_cons, List.forall_mem_cons]
      constructor
      · intro written
        obtain ⟨_, first, written⟩ := bind_eq_ok.mp written
        obtain ⟨rfl, small⟩ := tryFrom_eq_some.mp (okOr_eq_ok.mp first)
        obtain ⟨others, later, same⟩ := bind_eq_ok.mp written
        obtain ⟨fits, rfl⟩ := ih.mp later
        cases same
        exact ⟨⟨small, fits⟩, rfl⟩
      · rintro ⟨⟨small, fits⟩, rfl⟩
        refine bind_eq_ok.mpr ⟨offset, okOr_eq_ok.mpr (tryFrom_eq_some.mpr ⟨rfl, small⟩), ?_⟩
        exact bind_eq_ok.mpr ⟨_, ih.mpr ⟨fits, rfl⟩, rfl⟩

/-- What the writer encodes, and when. -/
theorem multipleBytes_eq_ok {what : String} {values : List Bytes} {bytes : Bytes} :
    multipleBytes what values = .ok bytes ↔
      (layout values).length < wordCount 64 ∧ Fits values ∧ bytes = layout values := by
  rw [length_layout]
  constructor
  · intro encoded
    obtain ⟨_, room, encoded⟩ := bind_eq_ok.mp encoded
    obtain ⟨count, counted, encoded⟩ := bind_eq_ok.mp encoded
    obtain ⟨rfl, small⟩ := tryFrom_eq_some.mp (okOr_eq_ok.mp counted)
    obtain ⟨table, offsets, same⟩ := bind_eq_ok.mp encoded
    obtain ⟨fits, rfl⟩ := offsets_eq_ok.mp offsets
    cases same
    exact ⟨Nat.lt_of_not_le (refuse_eq_ok.mp room), ⟨small, fits⟩, rfl⟩
  · rintro ⟨room, ⟨small, fits⟩, rfl⟩
    refine bind_eq_ok.mpr ⟨(), refuse_eq_ok.mpr (Nat.not_le_of_lt room), ?_⟩
    refine bind_eq_ok.mpr ⟨values.length, okOr_eq_ok.mpr (tryFrom_eq_some.mpr ⟨rfl, small⟩), ?_⟩
    exact bind_eq_ok.mpr ⟨_, offsets_eq_ok.mpr ⟨fits, rfl⟩, rfl⟩

end Layout

section Reading

variable {bytes : Bytes}

/-- The pieces of a byte string at the given offsets. -/
def pieces (bytes : Bytes) : List Nat → List Bytes
  | [] => []
  | [start] => [bytes.drop start]
  | start :: next :: rest => (bytes.take next).drop start :: pieces bytes (next :: rest)

/-- Offsets that do not fall, within a length. -/
def Climbing (length : Nat) (offsets : List Nat) : Prop :=
  offsets.IsChain fun first second => first ≤ second ∧ second ≤ length

theorem length_pieces (offsets : List Nat) : (pieces bytes offsets).length = offsets.length := by
  induction offsets with
  | nil => rfl
  | cons start rest ih =>
      cases rest with
      | nil => rfl
      | cons next rest =>
          rw [pieces, List.length_cons, ih]
          rfl

/-- Pieces at offsets that do not fall are laid out at these. -/
theorem starts_pieces {start : Nat} {rest : List Nat} (inside : start ≤ bytes.length)
    (climbing : Climbing bytes.length (start :: rest)) :
    starts start (pieces bytes (start :: rest)) = start :: rest ∧
      (pieces bytes (start :: rest)).flatten = bytes.drop start := by
  induction rest generalizing start with
  | nil => exact ⟨rfl, by rw [pieces, List.flatten_singleton]⟩
  | cons next rest ih =>
      obtain ⟨⟨up, below⟩, more⟩ := List.isChain_cons_cons.mp climbing
      obtain ⟨later, whole⟩ := ih below more
      have length : start + ((bytes.take next).drop start).length = next := by
        rw [List.length_drop, List.length_take, Nat.min_eq_left below]
        omega
      have joined : (bytes.take next).drop start ++ bytes.drop next = bytes.drop start := by
        have whole := congrArg (List.drop start) (List.take_append_drop next bytes)
        rwa [List.drop_append_of_le_length
          (by rw [List.length_take, Nat.min_eq_left below]; exact up)] at whole
      constructor
      · rw [pieces, starts, length, later]
      · rw [pieces, List.flatten_cons, whole, joined]

/-- The pieces at the offsets of a layout are what was laid out. -/
theorem pieces_starts {values : List Bytes} {offset : Nat} (inside : offset ≤ bytes.length)
    (whole : bytes.drop offset = values.flatten) :
    pieces bytes (starts offset values) = values ∧ Climbing bytes.length
      (starts offset values) := by
  induction values generalizing offset with
  | nil => exact ⟨rfl, .nil⟩
  | cons value rest ih =>
      rw [List.flatten_cons] at whole
      have length : offset + value.length ≤ bytes.length := by
        have same := congrArg List.length whole
        rw [List.length_drop, List.length_append] at same
        omega
      have behind : bytes.drop (offset + value.length) = rest.flatten := by
        rw [← List.drop_drop, whole, List.drop_left' rfl]
      obtain ⟨later, climbing⟩ := ih length behind
      cases rest with
      | nil =>
          rw [List.flatten_nil, List.append_nil] at whole
          exact ⟨by rw [starts, starts, pieces, whole], .singleton _⟩
      | cons next rest =>
          rw [starts] at later climbing ⊢
          rw [starts] at ⊢
          have first : (bytes.take (offset + value.length)).drop offset = value := by
            rw [List.drop_take, Nat.add_sub_cancel_left, whole, List.take_left' rfl]
          refine ⟨by rw [pieces, first, later], ?_⟩
          exact List.isChain_cons_cons.mpr ⟨⟨Nat.le_add_right _ _, length⟩, climbing⟩

theorem getRange_eq_some {start stop : Nat} {range : Bytes} :
    getRange bytes start stop = some range ↔
      (start ≤ stop ∧ stop ≤ bytes.length) ∧ range = (bytes.take stop).drop start := by
  unfold getRange
  split
  case isTrue inside => exact ⟨fun same => ⟨inside, (Option.some.inj same).symm⟩,
    fun same => congrArg some same.2.symm⟩
  case isFalse outside => exact ⟨nofun, fun same => absurd same.1 outside⟩

theorem readOffsets_ok {count : Nat} (long : (count + 1) * 4 ≤ bytes.length) :
    readOffsets bytes count = .ok (words 4 count (bytes.drop 4)) := by
  have same : words 4 count (bytes.drop 4) = (List.range count).map fun index =>
      leValue ((bytes.take (4 + index * 4 + 4)).drop (4 + index * 4)) := by
    refine List.ext_getElem? fun position => ?_
    rw [List.getElem?_map]
    by_cases inside : position < count
    · rw [getElem?_words inside, List.getElem?_range inside, Option.map_some, List.drop_drop,
        List.drop_take, Nat.add_sub_cancel_left]
    · have short : (words 4 count (bytes.drop 4)).length ≤ position := by
        rw [length_words]
        exact Nat.le_of_not_lt inside
      have none : (List.range count).length ≤ position := by
        rw [List.length_range]
        exact Nat.le_of_not_lt inside
      rw [List.getElem?_eq_none short, List.getElem?_eq_none none, Option.map_none]
  rw [same]
  refine mapM_ok fun index member => ?_
  have inside := List.mem_range.mp member
  have range : getRange bytes (4 + index * 4) (4 + index * 4 + 4) =
      some ((bytes.take (4 + index * 4 + 4)).drop (4 + index * 4)) :=
    getRange_eq_some.mpr ⟨⟨by omega, by omega⟩, rfl⟩
  rw [range, okOr_some]
  rfl

theorem readValues_suffix {offsets suffix : List Nat} {position : Nat}
    (same : ∀ index, offsets[position + index]? = suffix[index]?)
    (inside : ∀ start ∈ suffix.head?, start ≤ bytes.length)
    (climbing : Climbing bytes.length suffix) :
    ((suffix.zipIdx position).mapM fun entry =>
      okOr "PtypMultipleBinary value range is invalid"
        (getRange bytes entry.1 ((offsets[entry.2 + 1]?).getD bytes.length))) =
      .ok (pieces bytes suffix) := by
  induction suffix generalizing position with
  | nil => rfl
  | cons start rest ih =>
      have next : offsets[position + 1]? = rest.head? := by
        rw [same 1, List.getElem?_cons_succ, List.head?_eq_getElem?]
      have later : ∀ index, offsets[position + 1 + index]? = rest[index]? := by
        intro index
        rw [Nat.add_assoc, Nat.add_comm 1, same, List.getElem?_cons_succ]
      have here := inside start rfl
      rw [List.zipIdx_cons, List.mapM_cons]
      dsimp only
      rw [next]
      cases rest with
      | nil =>
          have range : getRange bytes start bytes.length = some (bytes.drop start) :=
            getRange_eq_some.mpr ⟨⟨here, Nat.le_refl _⟩, by rw [List.take_length]⟩
          rw [List.head?_nil, Option.getD_none, range, okOr_some]
          rfl
      | cons follower rest =>
          obtain ⟨⟨up, below⟩, more⟩ := List.isChain_cons_cons.mp climbing
          have range : getRange bytes start follower = some ((bytes.take follower).drop start) :=
            getRange_eq_some.mpr ⟨⟨up, below⟩, rfl⟩
          rw [List.head?_cons, Option.getD_some, range, okOr_some,
            ih later (fun first is => by cases is; exact below) more]
          rfl

theorem readValues_ok {start : Nat} {rest : List Nat} (inside : start ≤ bytes.length)
    (climbing : Climbing bytes.length (start :: rest)) :
    readValues bytes (start :: rest) = .ok (pieces bytes (start :: rest)) :=
  readValues_suffix (fun index => by rw [Nat.zero_add])
    (fun first is => by cases is; exact inside) climbing

theorem climbing_iff {length : Nat} {offsets : List Nat} :
    ((offsets.zip offsets.tail).any fun pair =>
      decide (pair.2 < pair.1) || decide (length < pair.2)) = false ↔ Climbing length offsets := by
  unfold Climbing
  induction offsets with
  | nil => exact ⟨fun _ => .nil, fun _ => rfl⟩
  | cons start rest ih =>
      cases rest with
      | nil => exact ⟨fun _ => .singleton _, fun _ => rfl⟩
      | cons next rest =>
          have here : (decide (next < start) || decide (length < next)) = false ↔
              start ≤ next ∧ next ≤ length := by
            rw [Bool.or_eq_false_iff, decide_eq_false_iff_not, decide_eq_false_iff_not,
              Nat.not_lt, Nat.not_lt]
          rw [List.tail_cons] at ih ⊢
          rw [List.zip_cons_cons, List.any_cons, Bool.or_eq_false_iff, ih, List.isChain_cons_cons]
          exact and_congr_left' here

theorem Climbing.last {length start : Nat} {rest : List Nat} (inside : start ≤ length)
    (climbing : Climbing length (start :: rest)) :
    ((start :: rest).getLast?.any (length < ·)) = false := by
  induction rest generalizing start with
  | nil =>
      rw [List.getLast?_singleton, Option.any_some, decide_eq_false_iff_not]
      exact Nat.not_lt.mpr inside
  | cons next rest ih =>
      obtain ⟨⟨-, below⟩, more⟩ := List.isChain_cons_cons.mp climbing
      rw [List.getLast?_cons_cons]
      exact ih below more

/-- When the offsets of a table are ordered, in a property that holds the header. -/
theorem offsetsOrdered_iff {headerLen length : Nat} {offsets : List Nat}
    (long : headerLen ≤ length) : offsetsOrdered headerLen length offsets = true ↔
      ∃ rest, offsets = headerLen :: rest ∧ Climbing length (headerLen :: rest) := by
  rw [offsetsOrdered, Bool.and_eq_true, Bool.and_eq_true, decide_eq_true_eq, Bool.not_eq_true',
    Bool.not_eq_true', climbing_iff]
  constructor
  · rintro ⟨⟨first, climbing⟩, -⟩
    obtain ⟨rest, rfl⟩ := List.head?_eq_some_iff.mp first
    exact ⟨rest, rfl, climbing⟩
  · rintro ⟨rest, rfl, climbing⟩
    exact ⟨⟨rfl, climbing⟩, climbing.last long⟩

end Reading

section RoundTrip

/-- What the decoder accepts, and what it gives: the byte strings whose encoding it is given. -/
theorem decodeVariableWidthValues_eq_ok {bytes : Bytes} {values : List Bytes} :
    decodeVariableWidthValues bytes = .ok values ↔ Fits values ∧ bytes = layout values := by
  constructor
  · intro decoded
    obtain ⟨countBytes, counted, decoded⟩ := bind_eq_ok.mp decoded
    obtain ⟨⟨-, four⟩, rfl⟩ := getRange_eq_some.mp (okOr_eq_ok.mp counted)
    rw [List.drop_zero] at decoded
    have wide : (bytes.take 4).length = 4 := by rw [List.length_take, Nat.min_eq_left four]
    have small := leValue_lt (bytes.take 4)
    have prefixed := leBytes_leValue (bytes.take 4)
    rw [wide] at small prefixed
    obtain ⟨_, long, decoded⟩ := bind_eq_ok.mp decoded
    have long := Nat.le_of_not_lt (refuse_eq_ok.mp long)
    split at decoded
    case isTrue none =>
      obtain ⟨_, exact_, same⟩ := bind_eq_ok.mp decoded
      have exact_ := not_not.mp (refuse_eq_ok.mp exact_)
      cases same
      refine ⟨⟨by decide, List.forall_mem_nil _⟩, ?_⟩
      rw [none, List.take_of_length_le (Nat.le_of_eq exact_)] at prefixed
      exact prefixed.symm
    case isFalse some =>
      obtain ⟨offsets, table, decoded⟩ := bind_eq_ok.mp decoded
      rw [readOffsets_ok long] at table
      obtain rfl := Except.ok.inj table
      obtain ⟨_, ordered, read⟩ := bind_eq_ok.mp decoded
      rw [refuse_eq_ok, Bool.not_eq_false, offsetsOrdered_iff long] at ordered
      obtain ⟨rest, offsets, climbing⟩ := ordered
      rw [offsets, readValues_ok long climbing] at read
      obtain rfl := Except.ok.inj read
      obtain ⟨placed, whole⟩ := starts_pieces long climbing
      have table : leValue (bytes.take 4) * 4 ≤ (bytes.drop 4).length := by
        rw [List.length_drop]
        omega
      have length : (pieces bytes ((leValue (bytes.take 4) + 1) * 4 :: rest)).length =
          leValue (bytes.take 4) := by
        rw [length_pieces, ← offsets, length_words]
      refine ⟨⟨?_, ?_⟩, ?_⟩
      · rw [length]
        exact small
      · rw [length, placed, ← offsets]
        exact words_lt table
      · rw [layout, length, placed, whole, ← offsets, flatMap_words table, prefixed,
          ← List.take_add,
          Nat.add_comm 4, ← Nat.succ_mul, List.take_append_drop]
  · rintro ⟨⟨small, fits⟩, rfl⟩
    have total := length_layout values
    have long : (values.length + 1) * 4 ≤ (layout values).length := by omega
    have count : getRange (layout values) 0 4 = some (leBytes 4 values.length) := by
      refine getRange_eq_some.mpr ⟨⟨Nat.zero_le 4, by omega⟩, ?_⟩
      rw [List.drop_zero, layout, List.append_assoc, List.take_left' (length_leBytes 4 _)]
    refine bind_eq_ok.mpr ⟨_, okOr_eq_ok.mpr count, ?_⟩
    dsimp only
    rw [leValue_leBytes small]
    refine bind_eq_ok.mpr ⟨(), refuse_eq_ok.mpr (Nat.not_lt.mpr long), ?_⟩
    cases values with
    | nil => rfl
    | cons value rest =>
        have table : words 4 (value :: rest).length ((layout (value :: rest)).drop 4) =
            starts (((value :: rest).length + 1) * 4) (value :: rest) := by
          have words : ∀ start ∈ starts (((value :: rest).length + 1) * 4) (value :: rest),
              start < 256 ^ 4 := fits
          have read := words_append words (value :: rest).flatten
          rw [length_starts] at read
          rw [layout, List.append_assoc, List.drop_left' (length_leBytes 4 _), read]
        have whole : (layout (value :: rest)).drop (((value :: rest).length + 1) * 4) =
            (value :: rest).flatten := List.drop_left' (length_header _ _)
        obtain ⟨read, climbing⟩ := pieces_starts long whole
        have ordered := (offsetsOrdered_iff long).mpr ⟨_, rfl, climbing⟩
        have some : (value :: rest).length ≠ 0 := Nat.succ_ne_zero _
        rw [if_neg some]
        refine bind_eq_ok.mpr ⟨_, readOffsets_ok long, ?_⟩
        rw [table]
        refine bind_eq_ok.mpr ⟨(), refuse_eq_ok.mpr ((Bool.not_eq_false _).mpr ordered), ?_⟩
        rw [starts, readValues_ok long climbing, ← starts, read]

/-- A text without null characters is read as it was written. -/
theorem decodeUnicodeValue_unicodeBytes {text : Text} (plain : Char.ofNat 0 ∉ text) :
    decodeUnicodeValue (unicodeBytes text) = .ok text := by
  have even : ¬ (unicodeBytes text).length % 2 ≠ 0 := by
    rw [length_unicodeBytes, Nat.mul_mod_left]
    exact not_not.mpr rfl
  have units : words 2 ((unicodeBytes text).length / 2) (unicodeBytes text) = encodeUtf16 text := by
    have small : ∀ unit ∈ encodeUtf16 text, unit < 256 ^ 2 := encodeUtf16_lt text
    have read := words_append small []
    rw [List.append_nil] at read
    rw [length_unicodeBytes, Nat.mul_div_cancel _ Nat.two_pos, unicodeBytes, read]
  have terminated : (encodeUtf16 text).findIdx? (· = 0) = none := by
    rw [List.findIdx?_eq_none_iff]
    intro unit member
    rw [decide_eq_false_iff_not]
    rintro rfl
    exact plain (zero_mem_encodeUtf16.mp member)
  refine bind_eq_ok.mpr ⟨(), refuse_eq_ok.mpr even, ?_⟩
  dsimp only
  rw [units, terminated]
  refine bind_eq_ok.mpr ⟨_, rfl, ?_⟩
  rw [decodeUtf16_encodeUtf16, okOr_some]

theorem decodeUnicodeValues {texts : List Text} (plain : ∀ text ∈ texts, Char.ofNat 0 ∉ text) :
    (texts.map unicodeBytes).mapM decodeUnicodeValue = .ok texts := by
  induction texts with
  | nil => rfl
  | cons text rest ih =>
      obtain ⟨first, others⟩ := List.forall_mem_cons.mp plain
      rw [List.map_cons, List.mapM_cons, decodeUnicodeValue_unicodeBytes first, ih others]
      rfl

theorem multiplePayloadLen_eq_ok {what : String} {values : List Bytes} {length : Nat} :
    multiplePayloadLen what (values.map List.length) = .ok length ↔
      (layout values).length < wordCount 64 ∧ length = (layout values).length := by
  rw [length_layout, multiplePayloadLen, List.length_map]
  split
  case isTrue room => exact ⟨fun same => ⟨room, (Except.ok.inj same).symm⟩, fun is => is.2 ▸ rfl⟩
  case isFalse large => exact ⟨nofun, fun is => absurd is.1 large⟩

theorem multipleBinaryPayloadLen_eq_ok {values : List Bytes} {length : Nat} :
    multipleBinaryPayloadLen values = .ok length ↔
      (layout values).length < wordCount 64 ∧ length = (layout values).length :=
  multiplePayloadLen_eq_ok

theorem multipleUnicodePayloadLen_eq_ok {texts : List Text} {length : Nat} :
    multipleUnicodePayloadLen texts = .ok length ↔
      (layout (texts.map unicodeBytes)).length < wordCount 64 ∧
        length = (layout (texts.map unicodeBytes)).length := by
  have lengths : (texts.map fun text => (encodeUtf16 text).length * 2) =
      (texts.map unicodeBytes).map List.length := by
    rw [List.map_map]
    exact List.map_congr_left fun text _ => (length_unicodeBytes text).symm
  rw [multipleUnicodePayloadLen, lengths, multiplePayloadLen_eq_ok]

theorem fits_of_small {values : List Bytes} (small : (layout values).length < wordCount 32) :
    Fits values := by
  rw [length_layout] at small
  refine ⟨by omega, fun start member => ?_⟩
  have bounds := starts_le member
  omega

/-- What is decoded from the encoding of several values are these, what is decoded at all is the
encoding of the values, and encodings are as long as it is predicted. An encoding is given when
the predicted length is less than `2 ^ 32`. -/
theorem multipleValues_roundTrip :
    (∀ values bytes, multipleBinaryBytes values = .ok bytes →
      decodeMultipleBinary bytes = .ok values ∧
        ∀ isRaw, rawValuePayloadLen ⟨.multipleBinary values, isRaw⟩ = .ok bytes.length) ∧
    (∀ texts bytes, multipleUnicodeBytes texts = .ok bytes →
      ((∀ text ∈ texts, Char.ofNat 0 ∉ text) → decodeMultipleUnicode bytes = .ok texts) ∧
        ∀ isRaw, rawValuePayloadLen ⟨.multipleUnicode texts, isRaw⟩ = .ok bytes.length) ∧
    (∀ bytes values, bytes.length < wordCount 64 → decodeMultipleBinary bytes = .ok values →
      multipleBinaryBytes values = .ok bytes) ∧
    (∀ values length isRaw, rawValuePayloadLen ⟨.multipleBinary values, isRaw⟩ = .ok length →
      length < wordCount 32 → ∃ bytes, multipleBinaryBytes values = .ok bytes) ∧
    ∀ texts length isRaw, rawValuePayloadLen ⟨.multipleUnicode texts, isRaw⟩ = .ok length →
      length < wordCount 32 → ∃ bytes, multipleUnicodeBytes texts = .ok bytes := by
  refine ⟨?_, ?_, ?_, ?_, ?_⟩
  · intro values bytes encoded
    obtain ⟨room, fits, rfl⟩ := multipleBytes_eq_ok.mp encoded
    exact ⟨decodeVariableWidthValues_eq_ok.mpr ⟨fits, rfl⟩,
      fun _ => multipleBinaryPayloadLen_eq_ok.mpr ⟨room, rfl⟩⟩
  · intro texts bytes encoded
    obtain ⟨room, fits, rfl⟩ := multipleBytes_eq_ok.mp encoded
    refine ⟨fun plain => ?_, fun _ => multipleUnicodePayloadLen_eq_ok.mpr ⟨room, rfl⟩⟩
    exact bind_eq_ok.mpr ⟨_, decodeVariableWidthValues_eq_ok.mpr ⟨fits, rfl⟩,
      decodeUnicodeValues plain⟩
  · intro bytes values room decoded
    obtain ⟨fits, rfl⟩ := decodeVariableWidthValues_eq_ok.mp decoded
    exact multipleBytes_eq_ok.mpr ⟨room, fits, rfl⟩
  · intro values length isRaw predicted small
    obtain ⟨room, rfl⟩ := multipleBinaryPayloadLen_eq_ok.mp predicted
    exact ⟨_, multipleBytes_eq_ok.mpr ⟨room, fits_of_small small, rfl⟩⟩
  · intro texts length isRaw predicted small
    obtain ⟨room, rfl⟩ := multipleUnicodePayloadLen_eq_ok.mp predicted
    exact ⟨_, multipleBytes_eq_ok.mpr ⟨room, fits_of_small small, rfl⟩⟩

/-- The encoding of two byte strings, of which one is empty. -/
def twoValues : Bytes := [2, 0, 0, 0, 12, 0, 0, 0, 13, 0, 0, 0, 65]

/-- The encoding of one character outside of the basic plane. -/
def oneText : Bytes := [1, 0, 0, 0, 8, 0, 0, 0, 0x3D, 0xD8, 0x00, 0xDE]

theorem multipleValues_roundTrip_two :
    decodeMultipleBinary twoValues = .ok [[65], []] ∧
      decodeMultipleUnicode oneText = .ok [[Char.ofNat 0x1F600]] ∧
      multipleBinaryBytes [[65], []] = .ok twoValues ∧
      (∃ bytes, multipleBinaryBytes [[65], []] = .ok bytes) ∧
      ∃ bytes, multipleUnicodeBytes [[Char.ofNat 0x1F600]] = .ok bytes := by
  obtain ⟨binary, unicode, again, encodes, encodesText⟩ := multipleValues_roundTrip
  have decoded := (binary [[65], []] twoValues (by decide)).1
  have text := (unicode [[Char.ofNat 0x1F600]] oneText (by decide)).1 (by decide)
  exact ⟨decoded, text, again twoValues _ (by decide) decoded,
    encodes [[65], []] 13 rfl (by decide) (by decide),
    encodesText [[Char.ofNat 0x1F600]] 12 rfl (by decide) (by decide)⟩

end RoundTrip

end PstForge.Translate
