import PstForge.Ltp.TableContext
import PstForge.Writer.Named

/-! # Property lists and table rows

The property lists of the store, its folders, messages and attachments, the
schemas of the tables, and the rows that messages, attachments, recipients and
folders have in them.
-/

namespace PstForge.Writer

open PstForge.Foundation PstForge.Ndb PstForge.Ltp

section Schemas

/-- A schema; every table also has the columns of the row index. -/
def tableSchema (specs : List (PropertyType × Nat)) :
    Except WriterError (List TableColumnDescriptor) :=
  schemaColumns (specs ++ [(.integer32, ltpRowIdPropId), (.integer32, ltpRowVersionPropId)])

def hierarchyColumns : Except WriterError (List TableColumnDescriptor) :=
  tableSchema [(.binary, 0x0E30), (.integer64, 0x0E33), (.binary, 0x0E34),
    (.integer32, 0x0E38), (.unicode, 0x3001), (.integer32, 0x3602), (.integer32, 0x3603),
    (.boolean, 0x360A), (.unicode, 0x3613), (.integer32, 0x6635), (.integer32, 0x6636)]

def contentsColumns : Except WriterError (List TableColumnDescriptor) :=
  tableSchema [(.integer32, 0x0017), (.unicode, 0x001A), (.integer32, 0x0036),
    (.unicode, 0x0037), (.time, 0x0039), (.unicode, 0x0042), (.boolean, 0x0057),
    (.boolean, 0x0058), (.unicode, 0x0070), (.binary, 0x0071), (.unicode, 0x0E03),
    (.unicode, 0x0E04), (.time, 0x0E06), (.integer32, 0x0E07), (.integer32, 0x0E08),
    (.integer32, 0x0E17), (.binary, 0x0E30), (.integer64, 0x0E33), (.binary, 0x0E34),
    (.integer32, 0x0E38), (.binary, 0x0E3C), (.binary, 0x0E3D), (.integer32, 0x1097),
    (.time, 0x3008), (.binary, 0x3013), (.integer32, 0x65C6)]

def associatedColumns : Except WriterError (List TableColumnDescriptor) :=
  tableSchema [(.unicode, 0x001A), (.integer32, 0x0E07), (.integer32, 0x0E17),
    (.unicode, 0x3001), (.unicode, 0x6800), (.boolean, 0x6803), (.multipleInteger32, 0x6805),
    (.unicode, 0x682F), (.integer32, 0x7003), (.binary, 0x7004), (.binary, 0x7005),
    (.unicode, 0x7006), (.integer32, 0x7007)]

def searchContentsColumns : Except WriterError (List TableColumnDescriptor) :=
  tableSchema [(.integer32, 0x0017), (.unicode, 0x001A), (.integer32, 0x0036),
    (.unicode, 0x0037), (.unicode, 0x0042), (.boolean, 0x0057), (.boolean, 0x0058),
    (.unicode, 0x0E03), (.unicode, 0x0E04), (.unicode, 0x0E05), (.time, 0x0E06),
    (.integer32, 0x0E07), (.integer32, 0x0E08), (.integer32, 0x0E17), (.boolean, 0x0E2A),
    (.time, 0x3008), (.integer32, 0x67F1)]

def receiveFolderColumns : Except WriterError (List TableColumnDescriptor) :=
  tableSchema [(.unicode, 0x001A), (.integer32, 0x6605)]

def outgoingQueueColumns : Except WriterError (List TableColumnDescriptor) :=
  tableSchema [(.time, 0x0039), (.integer32, 0x0E10), (.integer32, 0x0E14)]

def contentsIndexColumns : Except WriterError (List TableColumnDescriptor) :=
  tableSchema [(.integer64, 0x0E33), (.binary, 0x0E37), (.integer32, 0x0E38)]

def searchIndexColumns : Except WriterError (List TableColumnDescriptor) :=
  tableSchema [(.unicode, 0x001A), (.binary, 0x0E30), (.binary, 0x0E31), (.integer64, 0x0E33),
    (.binary, 0x0E34), (.integer32, 0x0E38), (.binary, 0x0E3E)]

def attachmentIndexColumns : Except WriterError (List TableColumnDescriptor) :=
  tableSchema [(.integer64, 0x0E33), (.time, 0x3007)]

def recipientColumns : Except WriterError (List TableColumnDescriptor) :=
  tableSchema [(.integer32, 0x0C15), (.boolean, 0x0E0F), (.binary, 0x0FF9),
    (.integer32, 0x0FFE), (.binary, 0x0FFF), (.unicode, 0x3001), (.unicode, 0x3002),
    (.unicode, 0x3003), (.binary, 0x300B), (.integer32, 0x3900), (.unicode, 0x39FF),
    (.boolean, 0x3A40)]

def attachmentColumns : Except WriterError (List TableColumnDescriptor) :=
  tableSchema [(.integer32, 0x0E20), (.integer32, 0x0E21), (.unicode, 0x3704),
    (.integer32, 0x3705), (.integer32, 0x370B)]

end Schemas

/-- The hierarchy map of the fixed node graph, a reserved heap of the format. -/
def hierarchyMap : Bytes :=
  [0x7C, 0x00, 0xEC, 0x9C, 0x20, 0x00, 0x00, 0x00, 0x00, 0x00, 0x00, 0x00, 0x40, 0x00, 0x00,
    0x00, 0xB5, 0x10, 0x04, 0x00, 0x60, 0x00, 0x00, 0x00, 0x28, 0x96, 0x04, 0xFA, 0x1C, 0x10,
    0x81, 0x4F, 0x92, 0xFA, 0x3A, 0xA3, 0xFE, 0xB4, 0xD5, 0xD8, 0x22, 0x80, 0x00, 0x00, 0x2C,
    0x21, 0x1D, 0x81, 0xC7, 0x5C, 0x17, 0x47, 0xA3, 0x21, 0x24, 0xF6, 0x7A, 0x06, 0x45, 0x38,
    0x42, 0x80, 0x00, 0x00, 0x3E, 0xEA, 0xDB, 0xBA, 0x44, 0x95, 0xC4, 0x43, 0x80, 0xCB, 0x47,
    0x20, 0xCC, 0x2E, 0xE7, 0xE2, 0x62, 0x80, 0x00, 0x00, 0x72, 0x3A, 0x41, 0x00, 0x72, 0xCB,
    0xA5, 0x47, 0xB4, 0x3D, 0x82, 0xE7, 0x7C, 0xAC, 0xBF, 0xFA, 0x24, 0x00, 0x20, 0x00, 0xCC,
    0xAE, 0x4D, 0x56, 0xC4, 0x2D, 0x24, 0x41, 0x8F, 0xDD, 0x2E, 0x99, 0xBE, 0x96, 0x8E, 0xF0,
    0x82, 0x80, 0x00, 0x00, 0x03, 0x00, 0x00, 0x00, 0x0C, 0x00, 0x10, 0x00, 0x18, 0x00, 0x7C,
    0x00]

section Keys

/-- The record key of a top-level message, derived from the store's. -/
def messageRecordKey (storeKey : Bytes) (message : NodeId) : Bytes :=
  let node := leBytes 4 message.value
  storeKey.zipIdx.map fun (byte, index) =>
    byte ^^^ ((node[index % 4]?).getD 0 + UInt8.ofNat index)

/-- The record key of an embedded message, derived from its parent's. -/
def embeddedMessageRecordKey (sha256 : Bytes → Bytes) (parentKey : Bytes)
    (attachmentIndex : Nat) : Bytes :=
  let label := "PSTForge embedded record key".toList.map fun char => UInt8.ofNat char.toNat
  (sha256 (label ++ parentKey ++ leBytes 4 attachmentIndex)).take 16

/-- The entry identifier of a node. -/
def entryId (recordKey : Bytes) (nodeId : NodeId) : Bytes :=
  leBytes 4 0 ++ recordKey ++ leBytes 4 nodeId.value

/-- The instance identifier of a message. -/
def messageInstanceEntryId (recordKey : Bytes) : Bytes :=
  leBytes 4 1 ++ recordKey ++ leBytes 4 1

end Keys

section Messages

/-- Read a 32-bit word as a signed one. -/
def signed32 (word : Nat) : Int := if word < 2 ^ 31 then word else (word : Int) - 2 ^ 32

/-- The message flags that are written: the attachment and associated flags follow
the message, the others are kept. -/
def outputMessageFlags (message : MessageSpec) (associated : Bool) : Int :=
  let flags := (message.messageFlags % (2 ^ 32 : Nat)).toNat &&& (2 ^ 32 - 1 - 0x50)
  let flags := if message.attachments.isEmpty then flags else flags ||| 0x10
  signed32 (if associated then flags ||| 0x40 else flags)

/-- The display names of the recipients of each role, where there are any. -/
def displayRecipientProperties (recipients : List RecipientSpec) : Properties :=
  ([(.to, 0x0E04), (.cc, 0x0E03), (.bcc, 0x0E02)] : List (RecipientKind × Nat)).filterMap
    fun (kind, id) =>
      let display := ("; ".toList).intercalate
        ((recipients.filter (·.kind = kind)).map (·.displayName))
      if display.isEmpty then none else some (id, .unicode display)

/-- The length of the container of an RTF body. -/
def rtfContainerLen (rawSize : Nat) : Except WriterError Nat :=
  okOr (.valueTooLarge "RTF body") (tryFrom 64 (rawSize + divCeil (rawSize + 1) 8 + 18))

/-- The container of an RTF body: literal runs of eight bytes, and a run that ends
with a reference to the write position. -/
def rtfContainer (rtf : Bytes) : Except WriterError Bytes := do
  let _ ← rtfContainerLen rtf.length
  let completeRuns := rtf.length / 8
  let remainder := rtf.drop (completeRuns * 8)
  let endReference := (207 + rtf.length) % 4096 * 16
  let compressed := (chunks 8 (rtf.take (completeRuns * 8))).flatMap (0 :: ·)
    ++ (1 <<< UInt8.ofNat remainder.length) :: remainder ++ (leBytes 2 endReference).reverse
  let compressedSize ← okOr (.valueTooLarge "compressed RTF") (tryFrom 32 (compressed.length + 12))
  let rawSize ← okOr (.valueTooLarge "raw RTF") (tryFrom 32 rtf.length)
  return leBytes 4 compressedSize ++ leBytes 4 rawSize ++ leBytes 4 0x75465A4C
    ++ leBytes 4 (computeCrc 0 compressed) ++ compressed

/-- The display name of an associated message. -/
def associatedDisplayName (message : MessageSpec) : Text :=
  (message.rawProperties.findSome? fun property =>
    match property.value.value with
    | .unicode value => if property.id = 0x3001 then some value else none
    | _ => none).getD message.subject

/-- The named properties of a message under their property identifiers. -/
def namedProperties (identities : List NamedIdentity) :
    List NamedProperty → Except WriterError Properties
  | [] => return []
  | property :: rest => do
      let id ← namedPropertyId "named property is not mapped" identities
        (property.set, property.name)
      return (id, property.value.value) :: (← namedProperties identities rest)

/-- The property list of a message. -/
def messageProperties (message : MessageSpec) (associated : Bool)
    (identities : List NamedIdentity) (recordKey : Bytes) (messageSize : Int) :
    Except WriterError Properties := do
  let base : Properties :=
    [(0x001A, .unicode message.messageClass), (0x0E06, .time message.receivedFiletime),
      (0x0E07, .integer32 (outputMessageFlags message associated)),
      (0x0E08, .integer32 messageSize), (0x0E17, .integer32 0),
      (0x0E1B, .boolean (!message.attachments.isEmpty)), (0x3007, .time message.creationFiletime),
      (0x3008, .time message.modificationFiletime), (0x300B, .binary recordKey),
      (0x3FDE, .integer32 message.internetCodepage)]
  let subject : Properties :=
    if message.subject.isEmpty then [] else [(0x0037, .unicode message.subject)]
  let displayName : Properties :=
    if associated then [(0x3001, .unicode (associatedDisplayName message))] else []
  let sender : Properties :=
    if message.senderName.isEmpty || message.senderEmail.isEmpty then []
    else
      [(0x0042, .unicode message.senderName), (0x0064, .unicode "SMTP".toList),
        (0x0065, .unicode message.senderEmail), (0x0C1A, .unicode message.senderName),
        (0x0C1E, .unicode "SMTP".toList), (0x0C1F, .unicode message.senderEmail)]
  let body : Properties := message.bodyText.toList.map fun body => (0x1000, .unicode body)
  let html : Properties := message.bodyHtml.toList.map fun html => (0x1013, .binary html)
  let rtf : Properties ← match message.bodyRtf with
    | some rtf => do
        let container ← rtfContainer rtf
        pure [(0x1009, .binary container), (0x0E1F, .boolean message.rtfInSync)]
    | none =>
        pure (if messageHasStreamedProperty message 0x1009 then
          [(0x0E1F, .boolean message.rtfInSync)] else [])
  let nativeBody : Properties := message.nativeBody.toList.map fun native =>
    (0x1016, .integer32 native.code)
  let headers : Properties := message.internetHeaders.toList.map fun headers =>
    (0x007D, .unicode headers)
  let named ← namedProperties identities message.namedProperties
  let kept := message.rawProperties.filter fun raw => !(associated && raw.id = 0x3001)
  let raw : Properties := kept.map fun raw => (raw.id, raw.value.value)
  let sent : Properties := [(0x0039, .time message.sentFiletime)]
  return base ++ subject ++ displayName ++ sender ++ body ++ html ++ rtf ++ nativeBody ++ headers
    ++ sent ++ displayRecipientProperties message.recipients
    ++ named ++ raw

/-- Replace the first value of a property. -/
def setProperty (id : Nat) (missing : String) (value : PropertyValue) :
    Properties → Except WriterError Properties
  | [] => throw (.invalidStructure missing)
  | (head, old) :: rest => do
      if head = id then return (head, value) :: rest
      else return (head, old) :: (← setProperty id missing value rest)

def setMessageSize (properties : Properties) (messageSize : Int) :
    Except WriterError Properties :=
  setProperty 0x0E08 "message size property is missing" (.integer32 messageSize) properties

/-- A raw property that a table has a column for, unless the row has it already. -/
def rawColumn (columns : List TableColumnDescriptor) (values : Properties) (raw : RawProperty) :
    Option TableColumnDescriptor :=
  if isStructuralColumn raw.id || values.any (·.1 = raw.id) then none
  else columns.find? (·.propId = raw.id)

/-- Add the raw properties of a message that the contents table has columns for. -/
def addContentsColumns (columns : List TableColumnDescriptor) (values : Properties) :
    List RawProperty → Except WriterError Properties
  | [] => return values
  | raw :: rest => do
      match rawColumn columns values raw with
      | none => addContentsColumns columns values rest
      | some column =>
          refuse (raw.value.value.propertyType ≠ column.propType)
            (.invalidStructure ("raw property 0x" ++ hex 4 raw.id
              ++ " is incompatible with the contents table"))
          addContentsColumns columns (values ++ [(raw.id, raw.value.value)]) rest

/-- The row of a message in the contents table of its folder. -/
def messageTableRow (id : NodeId) (message : MessageSpec) (storeKey recordKey : Bytes)
    (messageSize : Int) (columns : List TableColumnDescriptor) :
    Except WriterError TableRowSpec := do
  let base : Properties :=
    [(0x001A, .unicode message.messageClass), (0x0039, .time message.sentFiletime),
      (0x0E06, .time message.receivedFiletime),
      (0x0E07, .integer32 (outputMessageFlags message false)),
      (0x0E08, .integer32 messageSize), (0x0E17, .integer32 0), (0x0E30, .binary recordKey),
      (0x0E33, .integer64 0x90), (0x0E34, .binary (messageInstanceEntryId storeKey)),
      (0x3008, .time message.modificationFiletime)]
  let subject : Properties :=
    if message.subject.isEmpty then [] else [(0x0037, .unicode message.subject)]
  let sender : Properties :=
    if message.senderName.isEmpty then [] else [(0x0042, .unicode message.senderName)]
  let recipients := (displayRecipientProperties message.recipients).filter
    fun (id, _) => id = 0x0E03 || id = 0x0E04
  let values ← addContentsColumns columns (base ++ subject ++ sender ++ recipients)
    message.rawProperties
  return ⟨id, values⟩

/-- Add the raw properties of an associated message that its table has columns for;
values of another type are left out. -/
def addAssociatedColumns (columns : List TableColumnDescriptor) (values : Properties) :
    List RawProperty → Properties
  | [] => values
  | raw :: rest =>
      match rawColumn columns values raw with
      | none => addAssociatedColumns columns values rest
      | some column =>
          if column.propType = raw.value.value.propertyType then
            addAssociatedColumns columns (values ++ [(raw.id, raw.value.value)]) rest
          else addAssociatedColumns columns values rest

/-- The row of an associated message in the associated table of its folder. -/
def associatedMessageTableRow (id : NodeId) (message : MessageSpec)
    (columns : List TableColumnDescriptor) : TableRowSpec :=
  ⟨id, addAssociatedColumns columns
    [(0x001A, .unicode message.messageClass),
      (0x0E07, .integer32 (outputMessageFlags message true)), (0x0E17, .integer32 0),
      (0x3001, .unicode (associatedDisplayName message))] message.rawProperties⟩

/-- The number of unread messages of a folder. -/
def folderUnreadCount (messages : List MessageSpec) : Except WriterError Int := do
  let unread := (messages.filter fun message => outputMessageFlags message false % 2 = 0).length
  refuse (2 ^ 31 ≤ unread) (.valueTooLarge "folder unread count")
  return unread

end Messages

section Recipients

/-- The row of a recipient in the recipient table of its message. -/
def recipientTableRow (index : Nat) (recipient : RecipientSpec) :
    Except WriterError TableRowSpec := do
  let row ← okOr (.valueTooLarge "recipient row count")
    ((tryFrom 32 index).bind fun row => checkedAdd 32 row 1)
  return ⟨⟨row⟩,
    [(0x0C15, .integer32 recipient.kind.code), (0x0E0F, .boolean false), (0x0FFE, .integer32 6),
      (0x3001, .unicode recipient.displayName), (0x3002, .unicode "SMTP".toList),
      (0x3003, .unicode recipient.emailAddress), (0x39FF, .unicode recipient.emailAddress)]⟩

end Recipients

section Attachments

/-- The row of an attachment in the attachment table of its message. -/
def attachmentTableRow (node : NodeId) (attachment : AttachmentSpec)
    (attachmentNumber method size : Int) : TableRowSpec :=
  ⟨node,
    [(0x0E20, .integer32 size), (0x0E21, .integer32 attachmentNumber),
      (0x3704, .unicode attachment.filename), (0x3705, .integer32 method),
      (0x370B, .integer32 (attachment.renderingPosition.getD (-1)))]⟩

/-- The properties that every attachment has. -/
def attachmentBaseProperties (attachment : AttachmentSpec) (attachmentNumber method size : Int) :
    Properties :=
  let base : Properties :=
    [(0x0E20, .integer32 size), (0x0E21, .integer32 attachmentNumber),
      (0x3704, .unicode attachment.filename), (0x3705, .integer32 method),
      (0x3707, .unicode attachment.filename),
      (0x370B, .integer32 (attachment.renderingPosition.getD (-1)))]
  let mimeType : Properties := attachment.mimeType.toList.map fun mimeType =>
    (0x370E, .unicode mimeType)
  let contentId : Properties := attachment.contentId.toList.map fun contentId =>
    (0x3712, .unicode contentId)
  let location : Properties := attachment.contentLocation.toList.map fun location =>
    (0x3713, .unicode location)
  let flags : Properties := [(0x3714, .integer32 attachment.flags)]
  let raw : Properties := attachment.rawProperties.map fun property =>
    (property.id, property.value.value)
  base ++ mimeType ++ contentId ++ location ++ flags ++ raw

/-- The named properties of a reference attachment that are present. -/
def referenceNamedValues (identities : List NamedIdentity) :
    List (Text × Option PropertyValue) → Except WriterError Properties
  | [] => return []
  | (_, none) :: rest => referenceNamedValues identities rest
  | (name, some value) :: rest => do
      let id ← namedPropertyId "reference attachment named property is not mapped" identities
        (.guid psetidAttachment, .string name)
      return (id, value) :: (← referenceNamedValues identities rest)

/-- The property list of an attachment. -/
def attachmentPropertiesMapped (attachment : AttachmentSpec) (attachmentNumber method size : Int)
    (data : Option PropertyValue) (identities : List NamedIdentity) :
    Except WriterError Properties := do
  let base := attachmentBaseProperties attachment attachmentNumber method size
    ++ data.toList.map fun data => (0x3701, data)
  match attachment.content with
  | .reference reference =>
      let named ← referenceNamedValues identities
        [(attachmentProviderType, reference.providerType.map .unicode),
          (attachmentOriginalPermissionType, reference.originalPermission.map .integer32),
          (attachmentPermissionType, reference.permission.map .integer32)]
      return base ++ [(0x370D, .unicode reference.longPathname)]
        ++ (reference.pathname.toList.map fun pathname => (0x3708, .unicode pathname)) ++ named
  | _ => return base

/-- What a property counts towards the size of its attachment. -/
def attachmentValueSize (streamedSize : Option Nat) : PropertyValue → Except WriterError Nat
  | .integer16 _ => .ok 2
  | .integer32 _ | .floating32 _ | .errorCode _ => .ok 4
  | .integer64 _ | .floating64 _ | .currency _ | .floatingTime _ | .time _ => .ok 8
  | .boolean _ => .ok 1
  | .guid _ => .ok 16
  | .unicode value => .ok ((encodeUtf16 value).length * 2)
  | .binary value => .ok value.length
  | .object _ size => .ok size
  | .external .binary _ =>
      okOr (.invalidStructure "streamed attachment size is missing") streamedSize
  | _ => .error (.invalidStructure "unsupported attachment property type for size calculation")

/-- A size as a 32-bit signed property. -/
def asInt32 (what : String) (size : Nat) : Except WriterError Int :=
  if size < 2 ^ 31 then .ok size else .error (.valueTooLarge what)

/-- The size of an attachment from its properties. -/
def attachmentPropertySizeWithStream (properties : Properties) (streamedSize : Option Nat) :
    Except WriterError Int := do
  let sizes ← properties.mapM fun (_, value) => attachmentValueSize streamedSize value
  asInt32 "attachment properties" sizes.sum

/-- The size of an attachment together with its streamed properties. -/
def attachmentSizeWithProperties (size : Int) (byteLens : List Nat) : Except WriterError Int :=
  asInt32 "attachment properties" (size.toNat + byteLens.sum)

def setAttachmentSize (properties : Properties) (size : Int) : Except WriterError Properties :=
  setProperty 0x0E20 "attachment size property is missing" (.integer32 size) properties

end Attachments

section Folders

/-- The property list of the message store. -/
def storeProperties (storeName : Text) (recordKey : Bytes)
    (ipmFolder deletedFolder searchRoot : NodeId) : Properties :=
  [(0x0E34, .binary recordKey), (0x0FF9, .binary recordKey), (0x3001, .unicode storeName),
    (0x35E0, .binary (entryId recordKey ipmFolder)),
    (0x35E3, .binary (entryId recordKey deletedFolder)),
    (0x35E7, .binary (entryId recordKey searchRoot)), (0x6633, .boolean true),
    (0x67FF, .integer32 0)]

def folderPropertiesWithUnread (name : Text) (contentCount unreadCount : Int)
    (hasChildren : Bool) (containerClass : Text) : Properties :=
  [(0x3001, .unicode name), (0x3601, .integer32 1), (0x3602, .integer32 contentCount),
    (0x3603, .integer32 unreadCount), (0x360A, .boolean hasChildren),
    (0x3613, .unicode containerClass)]

def folderProperties (name : Text) (contentCount : Int) (hasChildren : Bool) : Properties :=
  folderPropertiesWithUnread name contentCount 0 hasChildren "IPF.Note".toList

def folderTableRowWithUnread (id : NodeId) (name : Text) (count unreadCount : Int)
    (children : Bool) (containerClass : Text) : TableRowSpec :=
  ⟨id, [(0x3001, .unicode name), (0x3602, .integer32 count), (0x3603, .integer32 unreadCount),
    (0x360A, .boolean children), (0x3613, .unicode containerClass)]⟩

def folderTableRow (id : NodeId) (name : Text) (count : Int) (children : Bool) : TableRowSpec :=
  folderTableRowWithUnread id name count 0 children "IPF.Note".toList

end Folders

end PstForge.Writer
