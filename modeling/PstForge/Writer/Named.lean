import PstForge.Ltp.PropertyContext
import PstForge.Writer.Spec

/-! # Named properties

Named properties are numbered per store: the writer keeps a list of identities and
gives each the property identifier `0x8000` plus its position. The name-to-id map
records the identities in three streams and a table of hash buckets.
-/

namespace PstForge.Writer

open PstForge.Foundation PstForge.Ndb PstForge.Ltp

/-- The checksum of the format: the reflected CRC-32 without inversions, taken byte
by byte. -/
def computeCrc (crc : Nat) (data : Bytes) : Nat :=
  data.foldl (fun crc byte => tableEntry 8 ((crc ^^^ byte.toNat) % 256) ^^^ (crc / 256)) crc
where
  tableEntry : Nat → Nat → Nat
    | 0, value => value
    | bits + 1, value =>
        tableEntry bits (if value % 2 = 1 then (value / 2) ^^^ 0xEDB88320 else value / 2)

def psetidAttachment : Bytes :=
  [0x7F, 0x7F, 0x35, 0x96, 0xE1, 0x59, 0xD0, 0x47, 0x99, 0xA7, 0x46, 0x51, 0x5C, 0x18, 0x3B, 0x54]

def attachmentProviderType : Text := "AttachmentProviderType".toList
def attachmentOriginalPermissionType : Text := "AttachmentOriginalPermissionType".toList
def attachmentPermissionType : Text := "AttachmentPermissionType".toList

/-- The place of a property set in the order of identities. -/
def NamedPropertySet.rank : NamedPropertySet → List Nat
  | mapi => [0]
  | publicStrings => [1]
  | guid value => 2 :: value.map UInt8.toNat

/-- The place of a name in the order of identities. -/
def NamedPropertyName.rank : NamedPropertyName → List Nat
  | numeric value => [0, value]
  | string value => 1 :: value.map Char.toNat

/-- The order of identities: by set, then by name. -/
def identityLt (first second : NamedIdentity) : Bool :=
  List.lex first.1.rank second.1.rank || (first.1 = second.1
    && List.lex first.2.rank second.2.rank)

/-- Add an identity to an ordered set of identities. -/
def insertIdentity (identity : NamedIdentity) : List NamedIdentity → List NamedIdentity
  | [] => [identity]
  | head :: tail =>
      if identity = head then head :: tail
      else if identityLt identity head then identity :: head :: tail
      else head :: insertIdentity identity tail

/-- The named properties that a reference attachment carries. -/
def referenceNamedPropertyNames (reference : AttachmentReferenceSpec) :
    List NamedPropertyName :=
  ([reference.providerType.map fun _ => attachmentProviderType,
    reference.originalPermission.map fun _ => attachmentOriginalPermissionType,
    reference.permission.map fun _ => attachmentPermissionType].filterMap id).map .string

mutual

/-- Add the identities of a message and of the messages embedded in it. -/
def collectIdentities : MessageSpec → List NamedIdentity → List NamedIdentity
  | { namedProperties, attachments, .. }, identities =>
      collectAttachmentIdentities attachments
        (namedProperties.foldl
          (fun found property => insertIdentity (property.set, property.name) found) identities)

/-- Add the identities that the attachments of a message carry. -/
def collectAttachmentIdentities : List AttachmentSpec → List NamedIdentity → List NamedIdentity
  | [], identities => identities
  | { content, .. } :: rest, identities =>
      collectAttachmentIdentities rest (collectContentIdentities content identities)

/-- Add the identities that the content of an attachment carries. -/
def collectContentIdentities : AttachmentContent → List NamedIdentity → List NamedIdentity
  | .embedded message, identities => collectIdentities message identities
  | .reference reference, identities =>
      (referenceNamedPropertyNames reference).foldl
        (fun found name => insertIdentity (.guid psetidAttachment, name) found) identities
  | .binary _, identities | .spooled _, identities | .direct _, identities | .ole _, identities
  | .directOle _, identities => identities

end

/-- The identities of a message, in order and without repetition. -/
def collectNamedIdentities (message : MessageSpec) : List NamedIdentity :=
  collectIdentities message []

/-- The position of an identity in the writer's list. -/
def namedIdentityIndex (identities : List NamedIdentity) (identity : NamedIdentity) :
    Option Nat :=
  identities.findIdx? (· = identity)

/-- The property identifier of a named property. -/
def namedPropertyId (unmapped : String) (identities : List NamedIdentity)
    (identity : NamedIdentity) : Except WriterError Nat := do
  let index ← okOr (.invalidStructure unmapped) (namedIdentityIndex identities identity)
  let index ← okOr (.valueTooLarge "named-property count") (tryFrom 16 index)
  okOr (.valueTooLarge "named-property identifier") (checkedAdd 16 0x8000 index)

/-- The property set that stands in for an empty list of custom sets. -/
def reservedGuid : Bytes :=
  [0x28, 0x03, 0x02, 0x00, 0x00, 0x00, 0x00, 0x00, 0xC0, 0x00, 0x00, 0x00, 0x00, 0x00, 0x00, 0x46]

/-- The streams of the name-to-id map while it is built. -/
structure NameStreams where
  entries : Bytes
  strings : Bytes
  buckets : List (Nat × Bytes)

/-- Append an entry to its hash bucket; buckets are kept in order. -/
def addToBucket (bucket : Nat) (entry : Bytes) : List (Nat × Bytes) → List (Nat × Bytes)
  | [] => [(bucket, entry)]
  | (head, entries) :: tail =>
      if bucket = head then (head, entries ++ entry) :: tail
      else if bucket < head then (bucket, entry) :: (head, entries) :: tail
      else (head, entries) :: addToBucket bucket entry tail

/-- Add one identity to the streams of the name-to-id map. -/
def addNamedIdentity (customGuids : List Bytes) (streams : NameStreams)
    (identity : NamedIdentity) (index : Nat) : Except WriterError NameStreams := do
  let guid ← match identity.1 with
    | .mapi => pure 1
    | .publicStrings => pure 2
    | .guid value => do
        let position ← okOr (.invalidStructure "named GUID is not indexed")
          (customGuids.findIdx? (· = value))
        okOr (.valueTooLarge "named-property GUID count")
          ((tryFrom 16 position).bind fun position => checkedAdd 16 position 3)
  let (identifier, kind, hashed, strings) ← match identity.2 with
    | .numeric value => pure (value, guid * 2 % wordCount 16, value, streams.strings)
    | .string name => do
        let offset ← okOr (.valueTooLarge "named-property string stream")
          (tryFrom 32 streams.strings.length)
        let encoded := unicodeBytes name
        let length ← okOr (.valueTooLarge "named-property name") (tryFrom 32 encoded.length)
        let strings := streams.strings ++ leBytes 4 length ++ encoded
        let strings := strings ++ List.replicate ((4 - strings.length % 4) % 4) 0
        pure (offset, (guid * 2 % wordCount 16) ||| 1, computeCrc 0 encoded, strings)
  let index ← okOr (.valueTooLarge "named-property count") (tryFrom 16 index)
  let entry := leBytes 4 identifier ++ leBytes 2 kind ++ leBytes 2 index
  return ⟨streams.entries ++ entry, strings,
    addToBucket ((hashed ^^^ kind) % 251) entry streams.buckets⟩

/-- Add the identities, from a position on, to the streams of the name-to-id map. -/
def addNamedIdentities (customGuids : List Bytes) :
    (index : Nat) → NameStreams → List NamedIdentity → Except WriterError NameStreams
  | _, streams, [] => return streams
  | index, streams, identity :: rest => do
      let streams ← addNamedIdentity customGuids streams identity index
      addNamedIdentities customGuids (index + 1) streams rest

/-- Add a property set to an ordered list of property sets. -/
def insertGuid (guid : Bytes) : List Bytes → List Bytes
  | [] => [guid]
  | head :: tail =>
      if guid = head then head :: tail
      else if List.lex (guid.map UInt8.toNat) (head.map UInt8.toNat) then guid :: head :: tail
      else head :: insertGuid guid tail

/-- The properties of the name-to-id map. -/
def namedPropertyMap (named : List NamedIdentity) : Except WriterError Properties := do
  if named.isEmpty then
    -- the entry and hash streams must be present even when no name is used
    let entry := leBytes 4 0x8005 ++ leBytes 2 2 ++ leBytes 2 0
    return [(0x0001, .integer32 251), (0x0002, .binary reservedGuid), (0x0003, .binary entry),
      (0x0004, .binary []), (0x1000, .binary entry)]
  else
    let customGuids := named.foldl (fun guids identity =>
      match identity.1 with
      | .guid value => insertGuid value guids
      | .mapi | .publicStrings => guids) []
    let streams ← addNamedIdentities customGuids 0 ⟨[], [], []⟩ named
    let guid := if customGuids.isEmpty then reservedGuid else customGuids.flatten
    return [(0x0001, .integer32 251), (0x0002, .binary guid), (0x0003, .binary streams.entries),
      (0x0004, .binary streams.strings)]
        ++ streams.buckets.map fun (bucket, entries) => (0x1000 + bucket, .binary entries)

/-- The blocks of the name-to-id map: its property context under block two, and a
subnode tree when some of its streams are large. -/
structure NamedPropertyMapBuild where
  dataBlock : BlockId
  subnodeBlock : Option BlockId
  blocks : List BlockSpec

/-- Build the name-to-id map. Its value nodes are numbered apart from those of the
messages. -/
def buildNamedPropertyContext (identities : List NamedIdentity) : Ids NamedPropertyMapBuild := do
  let properties ← attempt (namedPropertyMap identities)
  let outer := (← get).nextValueNode
  modify fun counters => { counters with nextValueNode := 0x50000 }
  let moved ← externalizeLargeProperties properties
  modify fun counters => { counters with nextValueNode := outer }
  let context ← buildPropertyContext moved.properties (← attempt (leafBid 2))
  if moved.subnodes.isEmpty then
    return ⟨context.dataBlock, none, moved.blocks ++ context.blocks⟩
  else
    let (root, blocks) ← appendSubnodeTree moved.subnodes
    return ⟨context.dataBlock, some root, moved.blocks ++ context.blocks ++ blocks⟩

end PstForge.Writer
