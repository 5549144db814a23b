import PstForge.Ndb.Identifiers

/-! # Property types and values

The values the writer serializes. A value is either carried inline in its
property record, or it has a variable encoding of its own that a heap allocation
or a subnode holds.
-/

namespace PstForge.Ltp

open PstForge.Foundation PstForge.Ndb

/-- The property types of the format. -/
inductive PropertyType where
  | null
  | integer16
  | integer32
  | floating32
  | floating64
  | currency
  | floatingTime
  | errorCode
  | boolean
  | object
  | integer64
  | string8
  | unicode
  | time
  | guid
  | binary
  | multipleInteger16
  | multipleInteger32
  | multipleFloating32
  | multipleFloating64
  | multipleCurrency
  | multipleFloatingTime
  | multipleInteger64
  | multipleString8
  | multipleUnicode
  | multipleTime
  | multipleGuid
  | multipleBinary
  deriving DecidableEq, Repr

namespace PropertyType

def code : PropertyType → Nat
  | null => 0x0001
  | integer16 => 0x0002
  | integer32 => 0x0003
  | floating32 => 0x0004
  | floating64 => 0x0005
  | currency => 0x0006
  | floatingTime => 0x0007
  | errorCode => 0x000A
  | boolean => 0x000B
  | object => 0x000D
  | integer64 => 0x0014
  | string8 => 0x001E
  | unicode => 0x001F
  | time => 0x0040
  | guid => 0x0048
  | binary => 0x0102
  | multipleInteger16 => 0x1002
  | multipleInteger32 => 0x1003
  | multipleFloating32 => 0x1004
  | multipleFloating64 => 0x1005
  | multipleCurrency => 0x1006
  | multipleFloatingTime => 0x1007
  | multipleInteger64 => 0x1014
  | multipleString8 => 0x101E
  | multipleUnicode => 0x101F
  | multipleTime => 0x1040
  | multipleGuid => 0x1048
  | multipleBinary => 0x1102

/-- Every property type, in the order of the format's enumeration. -/
def all : List PropertyType :=
  [null, integer16, integer32, floating32, floating64, currency, floatingTime, errorCode, boolean,
    object, integer64, string8, unicode, time, guid, binary, multipleInteger16, multipleInteger32,
    multipleFloating32, multipleFloating64, multipleCurrency, multipleFloatingTime,
    multipleInteger64, multipleString8, multipleUnicode, multipleTime, multipleGuid,
    multipleBinary]

/-- The property type of a type code. -/
def ofCode (code : Nat) : Option PropertyType := all.find? (·.code = code)

end PropertyType

/-- A property value as it is serialized. -/
inductive PropertyValue where
  | integer16 (value : Int)
  | integer32 (value : Int)
  | integer64 (value : Int)
  | floating32 (bits : Nat)
  | floating64 (bits : Nat)
  | currency (value : Int)
  | floatingTime (bits : Nat)
  | errorCode (code : Nat)
  | boolean (value : Bool)
  | time (value : Int)
  | guid (value : Bytes)
  | unicode (value : Text)
  | binary (value : Bytes)
  | multipleInteger16 (values : List Int)
  | multipleInteger32 (values : List Int)
  | multipleInteger64 (values : List Int)
  | multipleGuid (values : List Bytes)
  | multipleUnicode (values : List Text)
  | multipleBinary (values : List Bytes)
  | object (node : NodeId) (size : Nat)
  | external (kind : PropertyType) (node : NodeId)
  deriving DecidableEq, Repr

/-- The bytes of a text as UTF-16LE. -/
def unicodeBytes (value : Text) : Bytes := (encodeUtf16 value).flatMap (leBytes 2)

theorem length_unicodeBytes (text : Text) :
    (unicodeBytes text).length = (encodeUtf16 text).length * 2 := by
  rw [unicodeBytes, List.length_flatMap, List.map_congr_left fun _ _ => length_leBytes 2 _,
    List.map_const', List.sum_replicate, smul_eq_mul]

/-- The length of a multi-valued encoding: a count, the offsets, and the values. -/
def multiplePayloadLen (what : String) (lengths : List Nat) : Except WriterError Nat :=
  let total := (lengths.length + 1) * 4 + lengths.sum
  if total < wordCount 64 then .ok total else .error (.valueTooLarge what)

def multipleBinaryPayloadLen (values : List Bytes) : Except WriterError Nat :=
  multiplePayloadLen "multi-valued binary property" (values.map List.length)

def multipleUnicodePayloadLen (values : List Text) : Except WriterError Nat :=
  multiplePayloadLen "multi-valued Unicode property"
    (values.map fun value => (encodeUtf16 value).length * 2)

/-- The encoding of several variable values: a count, the offset of each value,
and then the values one after another. -/
def multipleBytes (what : String) (values : List Bytes) : Except WriterError Bytes := do
  refuse (wordCount 64 ≤ (values.length + 1) * 4 + (values.map List.length).sum)
    (.io ("writer value is too large for the PST structure: multi-valued " ++ what ++ " property"))
  let count ← okOr (.io ("multi-valued " ++ what ++ " property has too many values"))
    (tryFrom 32 values.length)
  let rec offsets (offset : Nat) : List Bytes → Except WriterError Bytes
    | [] => return []
    | value :: rest => do
        let encoded ← okOr (.io ("multi-valued " ++ what ++ " property offset is too large"))
          (tryFrom 32 offset)
        return leBytes 4 encoded ++ (← offsets (offset + value.length) rest)
  return leBytes 4 count ++ (← offsets ((values.length + 1) * 4) values) ++ values.flatten

def multipleUnicodeBytes (values : List Text) : Except WriterError Bytes :=
  multipleBytes "Unicode" (values.map unicodeBytes)

def multipleBinaryBytes (values : List Bytes) : Except WriterError Bytes :=
  multipleBytes "binary" values

namespace PropertyValue

def propertyType : PropertyValue → PropertyType
  | integer16 _ => .integer16
  | integer32 _ => .integer32
  | integer64 _ => .integer64
  | floating32 _ => .floating32
  | floating64 _ => .floating64
  | currency _ => .currency
  | floatingTime _ => .floatingTime
  | errorCode _ => .errorCode
  | boolean _ => .boolean
  | time _ => .time
  | guid _ => .guid
  | unicode _ => .unicode
  | binary _ => .binary
  | multipleInteger16 _ => .multipleInteger16
  | multipleInteger32 _ => .multipleInteger32
  | multipleInteger64 _ => .multipleInteger64
  | multipleGuid _ => .multipleGuid
  | multipleUnicode _ => .multipleUnicode
  | multipleBinary _ => .multipleBinary
  | object _ _ => .object
  | external kind _ => kind

/-- The word a property record carries in place of a reference, if it carries one. -/
def inlineValue : PropertyValue → Option Nat
  | integer16 value => some (value % (2 ^ 16 : Nat)).toNat
  | integer32 value => some (value % (2 ^ 32 : Nat)).toNat
  | floating32 bits => some bits
  | errorCode code => some code
  | boolean value => some (if value then 1 else 0)
  | external _ node => some node.value
  | _ => none

/-- The variable encoding of a value, if it has one. -/
def variableBytes : PropertyValue → Except WriterError (Option Bytes)
  | integer64 value | currency value | time value => .ok (some (leSignedBytes 8 value))
  | floating64 bits | floatingTime bits => .ok (some (leBytes 8 bits))
  | guid value => .ok (some value)
  | unicode value => .ok (some (unicodeBytes value))
  | binary value => .ok (some value)
  | multipleInteger16 values => .ok (some (values.flatMap (leSignedBytes 2)))
  | multipleInteger32 values => .ok (some (values.flatMap (leSignedBytes 4)))
  | multipleInteger64 values => .ok (some (values.flatMap (leSignedBytes 8)))
  | multipleGuid values =>
      if values.length * 16 < wordCount 64 then .ok (some values.flatten)
      else .error (.io "GUID values are too large")
  | multipleUnicode values => some <$> multipleUnicodeBytes values
  | multipleBinary values => some <$> multipleBinaryBytes values
  | object node size => .ok (some (leBytes 4 node.value ++ leBytes 4 size))
  | external _ _ => .ok none
  | integer16 _ | integer32 _ | floating32 _ | errorCode _ | boolean _ => .ok none

end PropertyValue

/-- A property list: identifiers with their values. -/
abbrev Properties := List (Nat × PropertyValue)

def maxFidelityPropertyBytes : Nat := 16 * 1024
def maxFidelityCollectionItems : Nat := maxFidelityPropertyBytes / 8
def maxPstPropertyBytes : Nat := 2 ^ 31 - 1

/-- Refuse a property encoding that the format cannot address. -/
def validatePstPropertyLen (name : String) (length : Nat) : Except WriterError Unit :=
  if maxPstPropertyBytes < length then .error (.valueTooLarge name) else .ok ()

/-- Refuse a property encoding that is too large to be kept in memory with its message. -/
def validatePayloadLen (name : String) (length : Nat) : Except WriterError Unit :=
  if maxFidelityPropertyBytes < length then .error (.valueTooLarge name) else .ok ()

end PstForge.Ltp
