import PstForge.Foundation.Words
import PstForge.Writer.Named

/-! # Reading the name-to-id map

The map is read from the property context of its node: a stream of entries, a stream of property
sets, a stream of names and a table of hash buckets. An entry packs the kind of its name and the
number of its property set into one word, and is looked up by a hash that is formed from both.
-/

namespace PstForge.Messaging

open PstForge.Foundation PstForge.Ltp PstForge.Writer

/-- Why reading the map fails. -/
inductive NamedPropError where
  | guidIndexOutOfBounds (value : Nat)
  | propertyIndexOutOfBounds (value : Nat)
  | bucketCountNotFound
  | bucketCountOutOfBounds (value : Int)
  | invalidBucketCount (kind : PropertyType)
  | bucketNotFound (offset : Nat)
  | streamGuidNotFound
  | invalidStreamGuid (kind : PropertyType)
  | streamEntryNotFound
  | invalidStreamEntry (kind : PropertyType)
  | streamStringNotFound
  | invalidStreamString (kind : PropertyType)
  | stringEntryOutOfBounds
  | invalidData (text : String)
  | unexpectedEof
  deriving DecidableEq, Repr

inductive NamedPropertyId where
  | number (id : Nat)
  | stringOffset (offset : Nat)
  deriving DecidableEq, Repr

inductive NamedPropertyGuid where
  | none
  | mapi
  | publicStrings
  | guidIndex (index : Nat)
  deriving DecidableEq, Repr

namespace NamedPropertyGuid

def code : NamedPropertyGuid → Nat
  | none => 0
  | mapi => 1
  | publicStrings => 2
  | guidIndex index => index + 3

def ofCode (value : Nat) : Except NamedPropError NamedPropertyGuid :=
  if value &&& 0x8000 ≠ 0 then .error (.guidIndexOutOfBounds value)
  else .ok (match value with
    | 0 => none
    | 1 => mapi
    | 2 => publicStrings
    | index + 3 => guidIndex index)

end NamedPropertyGuid

/-- A property set as its four fields. -/
structure GuidValue where
  data1 : Nat
  data2 : Nat
  data3 : Nat
  data4 : Bytes
  deriving DecidableEq, Repr

namespace GuidValue

def read (bytes : Bytes) : GuidValue where
  data1 := leValue (bytes.take 4)
  data2 := leValue ((bytes.drop 4).take 2)
  data3 := leValue ((bytes.drop 6).take 2)
  data4 := (bytes.drop 8).take 8

def toLeBytes (guid : GuidValue) : Bytes :=
  leBytes 4 guid.data1 ++ leBytes 2 guid.data2 ++ leBytes 2 guid.data3 ++ guid.data4

end GuidValue

def psMapi : GuidValue :=
  ⟨0x00020328, 0x0000, 0x0000, [0xC0, 0x00, 0x00, 0x00, 0x00, 0x00, 0x00, 0x46]⟩

def psPublicStrings : GuidValue :=
  ⟨0x00020329, 0x0000, 0x0000, [0xC0, 0x00, 0x00, 0x00, 0x00, 0x00, 0x00, 0x46]⟩

/-- An entry of the map; the index is the identifier of the property. -/
structure NameIdEntry where
  id : NamedPropertyId
  guid : NamedPropertyGuid
  propId : Nat
  deriving DecidableEq, Repr

namespace NameIdEntry

def hashValue (entry : NameIdEntry) : Nat :=
  let guid := entry.guid.code
  match entry.id with
  | .number id => id ^^^ (guid * 2 % wordCount 16)
  | .stringOffset offset => offset ^^^ ((guid * 2 % wordCount 16) ||| 1)

/-- Read an entry from its eight bytes. -/
def read (bytes : Bytes) : Except NamedPropError NameIdEntry := do
  let propId := leValue (bytes.take 4)
  let guidIndex := leValue ((bytes.drop 4).take 2)
  let propIndex := leValue ((bytes.drop 6).take 2)
  refuse (0x8000 ≤ propIndex) (.propertyIndexOutOfBounds propIndex)
  let id : NamedPropertyId :=
    if guidIndex &&& 1 = 0 then .number propId else .stringOffset propId
  let guid ← NamedPropertyGuid.ofCode (guidIndex >>> 1)
  return ⟨id, guid, propIndex + 0x8000⟩

end NameIdEntry

/-- A name of the string stream. -/
structure StringEntry where
  size : Nat
  buffer : Bytes
  deriving DecidableEq, Repr

/-- The text of UTF-16 code units, with replacement characters for unpaired surrogates. -/
def fromUtf16Lossy : List Nat → Text
  | [] => []
  | unit :: rest =>
      if unit < 0xD800 ∨ 0xE000 ≤ unit then Char.ofNat unit :: fromUtf16Lossy rest
      else if 0xDC00 ≤ unit then Char.ofNat 0xFFFD :: fromUtf16Lossy rest
      else
        match rest with
        | [] => [Char.ofNat 0xFFFD]
        | low :: rest =>
            if 0xDC00 ≤ low ∧ low < 0xE000 then
              Char.ofNat (0x10000 + (unit - 0xD800) * 0x400 + (low - 0xDC00)) ::
                fromUtf16Lossy rest
            else Char.ofNat 0xFFFD :: fromUtf16Lossy (low :: rest)

def StringEntry.text (entry : StringEntry) : Text :=
  fromUtf16Lossy (words 2 (entry.size / 2) entry.buffer)

/-- The names of a string stream with their offsets, from an offset on. Every name takes at least
the four bytes of its length, which bounds their number. -/
def parseStringEntries : (count offset : Nat) → Bytes →
    Except NamedPropError (List (Nat × StringEntry))
  | _, _, [] => return []
  | 0, _, _ => .error .stringEntryOutOfBounds
  | count + 1, offset, bytes => do
      let _ ← okOr .stringEntryOutOfBounds (tryFrom 32 offset)
      refuse (bytes.length < 4) .unexpectedEof
      let size := leValue (bytes.take 4)
      refuse (size % 2 ≠ 0) (.invalidStreamString .binary)
      let buffer := (bytes.drop 4).take size
      refuse (buffer.length ≠ size) .stringEntryOutOfBounds
      let padding := (4 - size % 4) % 4
      let rest := bytes.drop (4 + size)
      refuse (rest.length < padding) .stringEntryOutOfBounds
      refuse ((rest.take padding).any (· ≠ 0) = true) .stringEntryOutOfBounds
      let others ← parseStringEntries count (offset + (4 + size + padding)) (rest.drop padding)
      return (offset, ⟨size, buffer⟩) :: others

section Properties

variable (properties : Properties)

/-- The value of a property of the map. -/
def getProperty (id : Nat) : Option PropertyValue :=
  (properties.find? (·.1 = id)).map (·.2)

/-- The bytes of a binary property of the map. -/
def binaryProperty (id : Nat) (missing : NamedPropError)
    (invalid : PropertyType → NamedPropError) : Except NamedPropError Bytes :=
  match getProperty properties id with
  | none => .error missing
  | some (.binary bytes) => .ok bytes
  | some other => .error (invalid other.propertyType)

/-- The entries of a stream. -/
def readEntries (fragment : String) (bytes : Bytes) : Except NamedPropError (List NameIdEntry) := do
  refuse (bytes.length % 8 ≠ 0) (.invalidData fragment)
  (chunks 8 bytes).mapM NameIdEntry.read

def streamEntry : Except NamedPropError (List NameIdEntry) := do
  let bytes ← binaryProperty properties 0x0003 .streamEntryNotFound .invalidStreamEntry
  readEntries "NAMEID entry stream has a trailing fragment" bytes

def lookupString (offset : Nat) : Except NamedPropError StringEntry := do
  let bytes ← binaryProperty properties 0x0004 .streamStringNotFound .invalidStreamString
  let entries ← parseStringEntries bytes.length 0 bytes
  okOr .stringEntryOutOfBounds ((entries.find? (·.1 = offset)).map (·.2))

def lookupGuid : NamedPropertyGuid → Except NamedPropError GuidValue
  | .mapi => return psMapi
  | .publicStrings => return psPublicStrings
  | .none => .error (.guidIndexOutOfBounds 0)
  | .guidIndex index => do
      let bytes ← binaryProperty properties 0x0002 .streamGuidNotFound .invalidStreamGuid
      let start := index * 16
      refuse (bytes.length < start + 16) (.guidIndexOutOfBounds index)
      return GuidValue.read ((bytes.drop start).take 16)

/-- The entry under which an entry is looked up: a name stands for its checksum. -/
def hashEntry (entry : NameIdEntry) : Except NamedPropError NameIdEntry :=
  match entry.id with
  | .number _ => return entry
  | .stringOffset offset => do
      let stringEntry ← lookupString properties offset
      return ⟨.stringOffset (computeCrc 0 stringEntry.buffer), .none, entry.propId⟩

def bucketCount : Except NamedPropError Nat :=
  match getProperty properties 0x0001 with
  | none => .error .bucketCountNotFound
  | some (.integer32 value) =>
      if 0 < value ∧ value ≤ 0xFFFF - 0x1000 then .ok value.toNat
      else .error (.bucketCountOutOfBounds value)
  | some other => .error (.invalidBucketCount other.propertyType)

/-- The entries of the bucket that an entry hashes to. -/
def hashBucket (entry : NameIdEntry) : Except NamedPropError (List NameIdEntry) := do
  let count ← bucketCount properties
  let offset := entry.hashValue % count
  refuse (0xFFFF - 0x1000 < offset) (.bucketNotFound offset)
  let bytes ← binaryProperty properties (0x1000 + offset) (.bucketNotFound offset)
    .invalidStreamString
  readEntries "NAMEID hash bucket has a trailing fragment" bytes

end Properties

/-- The name of an entry is a name of the writer. -/
def NamesText (properties : Properties) : NamedPropertyId → NamedPropertyName → Prop
  | .number actual, .numeric expected => actual = expected
  | .stringOffset offset, .string expected =>
      ∃ string, lookupString properties offset = .ok string ∧ string.text = expected
  | _, _ => False

/-- The property set of an entry is a set of the writer. -/
def NamesSet (properties : Properties) : NamedPropertyGuid → NamedPropertySet → Prop
  | .mapi, .mapi | .publicStrings, .publicStrings => True
  | .guidIndex index, .guid expected =>
      ∃ guid, lookupGuid properties (.guidIndex index) = .ok guid ∧ guid.toLeBytes = expected
  | _, _ => False

/-- An entry of the map stands for an identity at a position of the writer's list. -/
structure Names (properties : Properties) (index : Nat) (identity : NamedIdentity)
    (entry : NameIdEntry) : Prop where
  propId : entry.propId = 0x8000 + index
  name : NamesText properties entry.id identity.2
  set : NamesSet properties entry.guid identity.1

/-- An entry is found in the bucket it hashes to. -/
def FoundByHash (properties : Properties) (entry : NameIdEntry) : Prop :=
  ∃ hashed bucket, hashEntry properties entry = .ok hashed ∧
    hashBucket properties hashed = .ok bucket ∧ entry ∈ bucket

end PstForge.Messaging
