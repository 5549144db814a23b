import PstForge.Foundation.Utf8
import PstForge.Writer.Properties

/-! # What the writer accepts

The checks that a message has to pass before anything of it is written: its fields, its
properties of every kind, its attachments and the messages embedded in them.
-/

namespace PstForge.Writer

open PstForge.Foundation PstForge.Ndb PstForge.Ltp

section RawValues

/-- The length of the encoding of a value that is given from outside the writer. -/
def rawValuePayloadLen : RawPropertyValue → Except WriterError Nat
  | ⟨.integer16 _, _⟩ | ⟨.integer32 _, _⟩ | ⟨.floating32 _, _⟩ | ⟨.errorCode _, _⟩
  | ⟨.boolean _, _⟩ => .ok 0
  | ⟨.integer64 _, _⟩ | ⟨.floating64 _, _⟩ | ⟨.currency _, _⟩ | ⟨.floatingTime _, _⟩
  | ⟨.time _, _⟩ => .ok 8
  | ⟨.guid _, _⟩ => .ok 16
  | ⟨.unicode value, _⟩ => unicodePayloadLen value
  | ⟨.binary value, _⟩ => .ok value.length
  | ⟨.multipleInteger16 values, _⟩ => multipleLen 2 values
  | ⟨.multipleInteger32 values, _⟩ => multipleLen 4 values
  | ⟨.multipleInteger64 values, _⟩ => multipleLen 8 values
  | ⟨.multipleGuid values, _⟩ => multipleLen 16 values
  | ⟨.multipleUnicode values, _⟩ => multipleUnicodePayloadLen values
  | ⟨.multipleBinary values, _⟩ => multipleBinaryPayloadLen values
where
  unicodePayloadLen (value : Text) : Except WriterError Nat :=
    okOr (.valueTooLarge "Unicode property") (tryFrom 64 ((encodeUtf16 value).length * 2))
  multipleLen {α : Type} (size : Nat) (values : List α) : Except WriterError Nat :=
    okOr (.valueTooLarge "multi-valued property") (tryFrom 64 (values.length * size))

end RawValues

def maxFidelityPropertyBytes : Nat := 16 * 1024
def maxFidelityCollectionItems : Nat := maxFidelityPropertyBytes / 8
def maxPstPropertyBytes : Nat := 2 ^ 31 - 1
def maxInMemoryPropertyBytes : Nat := 1024 * 1024
def maxInMemoryCustomPropertyBytes : Nat := 128 * 1024 * 1024
def maxDistributionListPropertyBytes : Nat := 15000
def maxEmbeddedMessageDepth : Nat := 256

def psetidAddress : Bytes :=
  [0x04, 0x20, 0x06, 0x00, 0x00, 0x00, 0x00, 0x00, 0xC0, 0x00, 0x00, 0x00, 0x00, 0x00, 0x00, 0x46]

section Values

def validateUnicode (name : String) (value : Text) : Except WriterError Unit :=
  refuse (2048 < (encodeUtf16 value).length) (.valueTooLarge name)

def validatePayloadLen (name : String) (length : Nat) : Except WriterError Unit :=
  refuse (maxFidelityPropertyBytes < length) (.valueTooLarge name)

def validatePstPropertyLen (name : String) (length : Nat) : Except WriterError Unit :=
  refuse (maxPstPropertyBytes < length) (.valueTooLarge name)

/-- Whether a value is an empty list of numbers. -/
def isEmptyNumbers : PropertyValue → Bool
  | .multipleInteger16 values | .multipleInteger32 values | .multipleInteger64 values =>
      values.isEmpty
  | _ => false

/-- Whether a value is a list of texts with a NUL in one of them. -/
def hasNul : PropertyValue → Bool
  | .multipleUnicode values => values.any (·.contains (Char.ofNat 0))
  | _ => false

def validateRawValue (value : RawPropertyValue) : Except WriterError Unit := do
  refuse (isEmptyNumbers value.value = true)
    (.invalidStructure "typed variable raw properties must be non-empty")
  refuse (hasNul value.value = true)
    (.invalidStructure "multi-valued Unicode properties cannot contain NUL")
  let length ← rawValuePayloadLen value
  validatePstPropertyLen "raw property" length
  refuse (maxInMemoryPropertyBytes < length) (.valueTooLarge "in-memory raw property")

/-- The payload bytes of some values. -/
def sumPayloadLens (what : String) : (total : Nat) → List RawPropertyValue → Except WriterError Nat
  | total, [] => .ok total
  | total, value :: rest => do
      let length ← rawValuePayloadLen value
      let total ← okOr (.valueTooLarge what) (checkedAdd 64 total length)
      sumPayloadLens what total rest

def validateFileBlob (blob : FileBlobSpec) : Except WriterError Unit := do
  refuse (blob.path = "" ∨ blob.byteLen = 0)
    (.invalidStructure "streamed property blob must be non-empty")
  refuse (maxPstPropertyBytes < blob.byteLen) (.valueTooLarge "streamed property blob")

def validateDirectBlob (blob : DirectBlobSpec) : Except WriterError Unit := do
  refuse (blob.byteLen = 0) (.invalidStructure "direct payload must be non-empty")
  refuse (maxPstPropertyBytes < blob.byteLen) (.valueTooLarge "direct payload")

/-- Whether a key stands twice in a list; sorted, it would stand next to itself. -/
def repeats {α : Type} [DecidableEq α] (keys : List α) : Bool := !decide keys.Nodup

end Values

section Classes

def eqIgnoreAsciiCase (left right : Text) : Bool := left.map Char.toLower = right.map Char.toLower

def classDescendsFrom (value root : Text) : Bool :=
  eqIgnoreAsciiCase (value.take root.length) root && value[root.length]? = some '.'
    && root.length + 1 < value.length

def classIsOrDescendsFrom (value root : Text) : Bool :=
  eqIgnoreAsciiCase value root || classDescendsFrom value root

def appointmentMessageClass (value : Text) : Bool :=
  classIsOrDescendsFrom value "IPM.Appointment".toList

def calendarExceptionMessageClass (value : Text) : Bool :=
  eqIgnoreAsciiCase value "IPM.OLE.CLASS.\x7b00061055-0000-0000-C000-000000000046\x7d".toList

end Classes

section Identifiers

/-- The properties of a message that the writer makes itself. -/
def explicitMessageProperty (id : Nat) : Bool :=
  id ∈ [0x001A, 0x0037, 0x0039, 0x0042, 0x0064, 0x0065, 0x007D, 0x0C1A, 0x0C1E, 0x0C1F, 0x0E02,
    0x0E03, 0x0E04, 0x0E06, 0x0E07, 0x0E08, 0x0E17, 0x0E1B, 0x0E1F, 0x1000, 0x1009, 0x1013, 0x1016,
    0x3007, 0x3008, 0x300B, 0x3FDE]

/-- The properties of an attachment that the writer makes itself. -/
def explicitAttachmentProperty (id : Nat) : Bool :=
  id ∈ [0x0E20, 0x0E21, 0x3701, 0x3704, 0x3705, 0x3707, 0x370B, 0x370E, 0x3712, 0x3713, 0x3714]

def calendarExceptionAttachmentProperty (id : Nat) : Bool :=
  id ∈ [0x3001, 0x3702, 0x3709] || (0x7FFA ≤ id && id ≤ 0x7FFF)

def calendarExceptionAttachmentPropertyTypeIsValid (id : Nat) : PropertyValue → Bool
  | .unicode _ => id = 0x3001
  | .binary _ => id = 0x3702 || id = 0x3709
  | .integer32 _ => id = 0x7FFA || id = 0x7FFD
  | .time _ => id = 0x7FFB || id = 0x7FFC
  | .boolean _ => id = 0x7FFE || id = 0x7FFF
  | _ => false

def oleAttachmentProperty (id : Nat) : Bool := id ∈ [0x3702, 0x3709, 0x370A]

def oleAttachmentPropertyTypeIsValid (id : Nat) : PropertyValue → Bool
  | .binary _ => oleAttachmentProperty id
  | _ => false

/-- The types whose values stand in the record of a property, and objects. -/
def isInlineType : PropertyType → Bool
  | .null | .integer16 | .integer32 | .floating32 | .errorCode | .boolean | .object => true
  | _ => false

/-- Whether a streamed property may take the place of one that the writer makes itself. -/
def allowedManaged (message : MessageSpec) (id : Nat) (kind : PropertyType) : Bool :=
  match id with
  | 0x007D => message.internetHeaders.isNone && (kind = .string8 || kind = .unicode)
  | 0x1000 => message.bodyText.isNone && (kind = .string8 || kind = .unicode)
  | 0x1009 => message.bodyRtf.isNone && kind = .binary
  | 0x1013 => message.bodyHtml.isNone && kind = .binary
  | _ => false

def calendarExceptionAttachmentHasLinkage (attachment : AttachmentSpec) : Bool :=
  [0x7FFA, 0x7FFB, 0x7FFC, 0x7FFD, 0x7FFE].all fun id =>
    attachment.rawProperties.any (·.id = id)

end Identifiers

section Messages

def validateRecipients : List RecipientSpec → Except WriterError Unit
  | [] => .ok ()
  | recipient :: rest => do
      refuse (recipient.displayName = [] ∨ recipient.emailAddress = [])
        (.invalidStructure "recipient display name and email address must be non-empty")
      validateUnicode "recipient display name" recipient.displayName
      validateUnicode "recipient email address" recipient.emailAddress
      validateRecipients rest

/-- The native body that a message names has to be there. -/
def validateNativeBody (message : MessageSpec) : Except WriterError Unit :=
  match message.nativeBody with
  | some .plainText =>
      refuse (message.bodyText = none ∧ messageHasStreamedProperty message 0x1000 = false)
        (.invalidStructure "native plain-text body is not present")
  | some .rtf =>
      refuse (message.bodyRtf = none ∧ messageHasStreamedProperty message 0x1009 = false)
        (.invalidStructure "native RTF body is not present")
  | some .html =>
      refuse (message.bodyHtml = none ∧ messageHasStreamedProperty message 0x1013 = false)
        (.invalidStructure "native HTML body is not present")
  | none => .ok ()

def validateBodies (message : MessageSpec) : Except WriterError Unit := do
  match message.bodyText with
  | some body =>
      validatePayloadLen "plain-text body" (← rawValuePayloadLen.unicodePayloadLen body)
  | none => pure ()
  match message.bodyHtml with
  | some body =>
      refuse (body = []) (.invalidStructure "HTML body must be non-empty when present")
      refuse ((fromUtf8 body).toBool = false)
        (.invalidStructure "HTML body must be valid UTF-8")
      validatePayloadLen "HTML body" body.length
  | none => pure ()
  match message.bodyRtf with
  | some body => validatePayloadLen "RTF body" (← rtfContainerLen body.length)
  | none => pure ()
  match message.internetHeaders with
  | some headers =>
      refuse (headers = []) (.invalidStructure "Internet headers must be non-empty when present")
      validatePayloadLen "Internet headers" (← rawValuePayloadLen.unicodePayloadLen headers)
  | none => pure ()

/-- The class, the names and the bodies of a message. -/
def validateMessageFields (message : MessageSpec) (depth : Nat) : Except WriterError Unit := do
  refuse (message.messageClass = []) (.invalidStructure
    ("unsupported message class: " ++ String.ofList message.messageClass))
  refuse (depth = 0 ∧ calendarExceptionMessageClass message.messageClass = true)
    (.invalidStructure "calendar-exception messages must be embedded")
  refuse (message.internetCodepage ≤ 0) (.invalidStructure "Internet codepage must be positive")
  refuse (message.messageClass = []) (.invalidStructure "message class must be non-empty")
  validateUnicode "message class" message.messageClass
  validateUnicode "subject" message.subject
  refuse (message.senderName.isEmpty ≠ message.senderEmail.isEmpty)
    (.invalidStructure "sender name and email must both be present or both be absent")
  validateUnicode "sender name" message.senderName
  validateUnicode "sender email" message.senderEmail
  validateRecipients message.recipients
  refuse (message.bodyRtf = none ∧ messageHasStreamedProperty message 0x1009 = false ∧
      message.rtfInSync = true)
    (.invalidStructure "RTF cannot be marked synchronized when no RTF body is present")
  validateNativeBody message
  validateBodies message

/-- The properties of one kind whose values are streamed; an identifier that was seen is not
taken again. -/
def validateStreamedProperties {σ : Type} (what : String) (id propertyType : σ → Nat)
    (blob : σ → Except WriterError Unit) (message : MessageSpec) :
    (seen : List Nat) → List σ → Except WriterError (List Nat)
  | seen, [] => .ok seen
  | seen, property :: rest => do
      let kind ← okOr (.invalidStructure ("unsupported " ++ what ++ " property type: 0x"
        ++ hex 4 (propertyType property))) (PropertyType.ofCode (propertyType property))
      refuse (isInlineType kind = true)
        (.invalidStructure (what ++ " property type must use external storage"))
      refuse (0x8000 ≤ id property ∨ id property ∈ seen ∨
          message.rawProperties.any (·.id = id property) = true)
        (.invalidStructure (what ++ " property identifier is duplicated or reserved"))
      refuse (explicitMessageProperty (id property) = true ∧
          allowedManaged message (id property) kind = false)
        (.invalidStructure (what ++ " property collides with a writer-managed property"))
      blob property
      validateStreamedProperties what id propertyType blob message (id property :: seen) rest

def validateSpooledProperties (message : MessageSpec) (seen : List Nat) :
    Except WriterError (List Nat) :=
  validateStreamedProperties "streamed" (·.id) (·.propertyType) (fun spec =>
    validateFileBlob spec.blob)
    message seen message.spooledProperties

def validateDirectProperties (message : MessageSpec) (seen : List Nat) :
    Except WriterError (List Nat) :=
  validateStreamedProperties "direct" (·.id) (·.propertyType) (fun spec =>
    validateDirectBlob spec.blob)
    message seen message.directProperties

def validateNamedProperties : List NamedProperty → Except WriterError Unit
  | [] => .ok ()
  | property :: rest => do
      match property.name with
      | .string name => validateUnicode "named-property name" name
      | .numeric _ => pure ()
      validateRawValue property.value
      validateNamedProperties rest

def validateRawProperties : List RawProperty → Except WriterError Unit
  | [] => .ok ()
  | property :: rest => do
      refuse (property.id = 0 ∨ 0x8000 ≤ property.id ∨ explicitMessageProperty property.id = true)
        (.invalidStructure ("raw property 0x" ++ hex 4 property.id ++
          " conflicts with writer-managed properties"))
      validateRawValue property.value
      validateRawProperties rest

/-- The length of a list of members within the limit of a distribution list. -/
def distributionListMembers (what : String) : PropertyValue → Except WriterError Nat
  | .multipleBinary values => do
      let length ← multipleBinaryPayloadLen values
      refuse (maxDistributionListPropertyBytes ≤ length)
        (.valueTooLarge ("distribution-list " ++ what ++ " property"))
      return values.length
  | _ => throw (.invalidStructure
      ("distribution-list " ++ what ++ " have the wrong property type"))

def isInteger32 : PropertyValue → Bool
  | .integer32 _ => true
  | _ => false

def validateDistributionListProperties (message : MessageSpec) : Except WriterError Unit :=
  if classIsOrDescendsFrom message.messageClass "IPM.DistList".toList = false then .ok ()
  else do
    let named (lid : Nat) : Option PropertyValue :=
      (message.namedProperties.find? fun property =>
        property.set = .guid psetidAddress ∧ property.name = .numeric lid).map (·.value.value)
    let members := named 0x8055
    let oneOffMembers := named 0x8054
    refuse (oneOffMembers.isSome = true ∧ members.isNone = true)
      (.invalidStructure "distribution-list one-off members require primary members")
    let memberCount ← members.mapM (distributionListMembers "members")
    match oneOffMembers with
    | some value =>
        let count ← distributionListMembers "one-off members" value
        refuse (memberCount ≠ some count)
          (.invalidStructure "distribution-list member arrays are not synchronized")
    | none => pure ()
    match named 0x804C with
    | some value =>
        refuse (members.isNone = true ∨ isInteger32 value = false) (.invalidStructure
          "distribution-list checksum is inconsistent with the members property")
    | none => pure ()

/-- The name of a property type in messages. -/
def PropertyType.name (kind : PropertyType) : String :=
  match kind with
  | .null => "Null"
  | .integer16 => "Integer16"
  | .integer32 => "Integer32"
  | .floating32 => "Floating32"
  | .floating64 => "Floating64"
  | .currency => "Currency"
  | .floatingTime => "FloatingTime"
  | .errorCode => "ErrorCode"
  | .boolean => "Boolean"
  | .object => "Object"
  | .integer64 => "Integer64"
  | .string8 => "String8"
  | .unicode => "Unicode"
  | .time => "Time"
  | .guid => "Guid"
  | .binary => "Binary"
  | .multipleInteger16 => "MultipleInteger16"
  | .multipleInteger32 => "MultipleInteger32"
  | .multipleFloating32 => "MultipleFloating32"
  | .multipleFloating64 => "MultipleFloating64"
  | .multipleCurrency => "MultipleCurrency"
  | .multipleFloatingTime => "MultipleFloatingTime"
  | .multipleInteger64 => "MultipleInteger64"
  | .multipleString8 => "MultipleString8"
  | .multipleUnicode => "MultipleUnicode"
  | .multipleTime => "MultipleTime"
  | .multipleGuid => "MultipleGuid"
  | .multipleBinary => "MultipleBinary"

def validateContentsRawPropertyTypes (message : MessageSpec) : Except WriterError Unit := do
  let columns ← contentsColumns
  for raw in message.rawProperties do
    if raw.id ≠ ltpRowIdPropId ∧ raw.id ≠ ltpRowVersionPropId then
      match columns.find? (·.propId = raw.id) with
      | some column =>
          let actual := raw.value.value.propertyType
          refuse (actual ≠ column.propType) (.invalidStructure ("raw property 0x" ++ hex 4 raw.id ++
            " has type " ++ PropertyType.name actual ++ ", expected " ++
            PropertyType.name column.propType ++ " for the contents table"))
      | none => pure ()

/-- The bytes of the display names of recipients, with what separates them. -/
def displayRecipientLen (recipients : List RecipientSpec) : Except WriterError Nat :=
  okOr (.valueTooLarge "display recipient property") (tryFrom 64
    (((recipients.map fun recipient => (encodeUtf16 recipient.displayName).length * 2).sum)
      + 4 * (recipients.length - 1)))

/-- The number of properties of a message, and the lengths of their encodings. -/
def validateMessagePropertyContextShape (message : MessageSpec) : Except WriterError Unit := do
  let unicodeLen := rawValuePayloadLen.unicodePayloadLen
  let hasSender : Bool := !message.senderName.isEmpty && !message.senderEmail.isEmpty
  let classLen ← unicodeLen message.messageClass
  let subject ← if message.subject.isEmpty then pure [] else do
    pure [← unicodeLen message.subject]
  let sender ← if hasSender then do
      let name ← unicodeLen message.senderName
      let email ← unicodeLen message.senderEmail
      pure [name, 8, email, name, 8, email]
    else pure []
  let text ← message.bodyText.toList.mapM unicodeLen
  let html := message.bodyHtml.toList.map List.length
  let rtf ← message.bodyRtf.toList.mapM fun body => rtfContainerLen body.length
  let headers ← message.internetHeaders.toList.mapM unicodeLen
  let groups := ([.to, .cc, .bcc].map fun kind => message.recipients.filter (·.kind = kind)).filter
    fun recipients => !recipients.isEmpty
  let display ← groups.mapM displayRecipientLen
  let rtfCount := if message.bodyRtf.isSome then 2
    else if messageHasStreamedProperty message 0x1009 then 1 else 0
  let propertyCount ← okOr (.valueTooLarge "message property count") (tryFrom 64
    ((if hasSender then 17 else 11) + subject.length + text.length + html.length + rtfCount
      + message.nativeBody.toList.length + headers.length + display.length
      + message.namedProperties.length + message.rawProperties.length
      + message.spooledProperties.length + message.directProperties.length))
  let values ← (message.namedProperties.map (·.value) ++ message.rawProperties.map (·.value)).mapM
    rawValuePayloadLen
  refuse (2 ^ 16 < propertyCount) (.valueTooLarge "property count")
  for length in [classLen, 16, 8, 8, 8, 8] ++ subject ++ sender ++ text ++ html ++ rtf ++ headers
      ++ display ++ values do
    validatePstPropertyLen "message property context" length

/-- The named and raw properties of a message, and what its properties come to. -/
def validateMessageProperties (message : MessageSpec) (depth : Nat) : Except WriterError Unit := do
  refuse (maxFidelityCollectionItems < message.namedProperties.length)
    (.valueTooLarge "named-property count")
  refuse (repeats (message.namedProperties.map fun property => (property.set,
    property.name)) = true)
    (.invalidStructure "duplicate named-property identity")
  validateNamedProperties message.namedProperties
  refuse (maxFidelityCollectionItems < message.rawProperties.length)
    (.valueTooLarge "raw-property count")
  let customBytes ← sumPayloadLens "aggregate custom-property payload" 0
    (message.namedProperties.map (·.value) ++ message.rawProperties.map (·.value))
  refuse (maxInMemoryCustomPropertyBytes < customBytes)
    (.valueTooLarge "aggregate custom-property payload")
  refuse (repeats (message.rawProperties.map (·.id)) = true)
    (.invalidStructure "duplicate raw property identifier")
  validateRawProperties message.rawProperties
  validateDistributionListProperties message
  if depth = 0 then validateContentsRawPropertyTypes message
  validateMessagePropertyContextShape message

end Messages

section Attachments

/-- An optional text of an attachment: not empty, and within the limit. -/
def validateOptionalText (name empty : String) : Option Text → Except WriterError Unit
  | none => .ok ()
  | some value => do
      refuse (value = []) (.invalidStructure empty)
      validateUnicode name value

/-- Whether an attachment carries its content as bytes. -/
def isBinaryMetadataAttachment : AttachmentContent → Bool
  | .binary _ | .spooled _ | .direct _ | .ole _ | .directOle _ => true
  | .embedded _ | .reference _ => false

/-- Whether an attachment is an exception of a recurring appointment. -/
def isEmbeddedCalendarException : AttachmentContent → Bool
  | .embedded child => calendarExceptionMessageClass child.messageClass
  | _ => false

/-- The raw properties of an attachment one by one, and their payload bytes. -/
def validateAttachmentRawProperties (binaryMetadata : Bool) :
    (total : Nat) → List RawProperty → Except WriterError Nat
  | total, [] => .ok total
  | total, property :: rest => do
      let unsupported : WriterError := .invalidStructure ("attachment raw property 0x" ++
        hex 4 property.id ++ " is not supported for its attachment kind")
      refuse (property.id = 0 ∨ 0x8000 ≤ property.id ∨
        explicitAttachmentProperty property.id = true) unsupported
      if binaryMetadata then
        refuse (oleAttachmentProperty property.id = false ∨
          oleAttachmentPropertyTypeIsValid property.id property.value.value = false) unsupported
      else do
        refuse (calendarExceptionAttachmentProperty property.id = false) (.invalidStructure
          ("0x" ++ hex 4 property.id ++ " is not a supported calendar-exception property"))
        refuse (calendarExceptionAttachmentPropertyTypeIsValid property.id property.value.value =
          false) (.invalidStructure
            ("0x" ++ hex 4 property.id ++ " has the wrong calendar-exception type"))
      validateRawValue property.value
      let length ← rawValuePayloadLen property.value
      let total ← okOr (.valueTooLarge "aggregate attachment raw-property payload")
        (checkedAdd 64 total length)
      validateAttachmentRawProperties binaryMetadata total rest

/-- The properties of an attachment of one kind whose values are streamed. -/
def validateAttachmentStreamed {σ : Type} (what : String) (id propertyType : σ → Nat)
    (blob : σ → Except WriterError Unit) (binaryMetadata : Bool) : List σ → Except WriterError Unit
  | [] => .ok ()
  | property :: rest => do
      refuse (binaryMetadata = false ∨ oleAttachmentProperty (id property) = false ∨
          propertyType property ≠ PropertyType.binary.code)
        (.invalidStructure (what ++ " attachment property 0x" ++ hex 4 (id property) ++
          " is not supported for its attachment kind"))
      blob property
      validateAttachmentStreamed what id propertyType blob binaryMetadata rest

def validateReference (reference : AttachmentReferenceSpec) : Except WriterError Unit := do
  refuse (reference.longPathname = [])
    (.invalidStructure "reference attachment long pathname must be non-empty")
  validateUnicode "reference attachment long pathname" reference.longPathname
  validateOptionalText "reference attachment pathname"
    "reference attachment pathname must be non-empty when present" reference.pathname
  validateOptionalText "reference attachment provider"
    "reference attachment provider must be non-empty when present" reference.providerType
  refuse (reference.method ≠ .byWebReference ∧ (reference.providerType.isSome = true ∨
      reference.originalPermission.isSome = true ∨ reference.permission.isSome = true))
    (.invalidStructure "attachment provider and permission properties require a web reference")
  refuse (([reference.originalPermission, reference.permission].filterMap id).any
      (fun value => value < 0 || 2 < value) = true)
    (.invalidStructure "reference attachment permission must be in the documented 0..=2 range")

variable (sha256 : Bytes → Bytes)

/-- The content of an attachment, but for what is in an embedded message. -/
def validateContent : AttachmentContent → Except WriterError Unit
  | .binary data => validatePayloadLen "attachment payload" data.length
  | .spooled blob => do
      refuse (blob.path = "" ∨ blob.byteLen = 0)
        (.invalidStructure "spooled attachment payload must be non-empty")
      refuse (maxPstPropertyBytes < blob.byteLen) (.valueTooLarge "spooled attachment payload")
  | .direct blob => validateDirectBlob blob
  | .ole ole => do
      refuse (ole.data.path = "")
        (.invalidStructure "OLE attachment payload path must be non-empty")
      refuse (maxPstPropertyBytes < ole.data.byteLen) (.valueTooLarge "OLE attachment payload")
      refuse (ole.dataKind = .object ∧ ole.data.byteLen = 0)
        (.invalidStructure "OLE object payload must be non-empty")
  | .directOle ole =>
      if ole.data.byteLen = 0 then do
        refuse (ole.dataKind = .object)
          (.invalidStructure "direct OLE object payload must be non-empty")
        refuse (ole.data.sha256.any (· ≠ sha256 []) = true)
          (.invalidStructure "empty direct OLE payload hash mismatch")
      else validateDirectBlob ole.data
  | .reference reference => validateReference reference
  | .embedded _ => .ok ()

/-- An attachment of a message, but for what is in an embedded message. -/
def validateAttachment (message : MessageSpec) (attachment : AttachmentSpec) :
    Except WriterError Unit := do
  refuse (attachment.filename = []) (.invalidStructure "attachment filename must be non-empty")
  validateUnicode "attachment filename" attachment.filename
  validateOptionalText "attachment MIME type"
    "attachment MIME type must be non-empty when present" attachment.mimeType
  validateOptionalText "attachment content ID"
    "attachment content ID must be non-empty when present" attachment.contentId
  validateOptionalText "attachment content location"
    "attachment content location must be non-empty when present" attachment.contentLocation
  let calendarException := isEmbeddedCalendarException attachment.content
  let binaryMetadata := isBinaryMetadataAttachment attachment.content
  refuse (calendarException = true ∧ (appointmentMessageClass message.messageClass = false ∨
      calendarExceptionAttachmentHasLinkage attachment = false)) (.invalidStructure
    "calendar-exception messages require an appointment parent and linkage properties")
  refuse (attachment.rawProperties.isEmpty = false ∧ binaryMetadata = false ∧
      (appointmentMessageClass message.messageClass = false ∨ calendarException = false))
    (.invalidStructure
      "attachment raw properties require an OLE object or embedded calendar exception")
  refuse (maxFidelityCollectionItems < attachment.rawProperties.length)
    (.valueTooLarge "attachment raw-property count")
  refuse (maxFidelityCollectionItems < attachment.spooledProperties.length)
    (.valueTooLarge "attachment spooled-property count")
  refuse (maxFidelityCollectionItems < attachment.directProperties.length)
    (.valueTooLarge "attachment direct-property count")
  refuse (repeats (attachment.rawProperties.map (·.id) ++ attachment.spooledProperties.map (·.id) ++
      attachment.directProperties.map (·.id)) = true)
    (.invalidStructure "duplicate attachment raw property identifier")
  let rawBytes ← validateAttachmentRawProperties binaryMetadata 0 attachment.rawProperties
  validateAttachmentStreamed "spooled" (·.id) (·.propertyType) (fun spec =>
    validateFileBlob spec.blob)
    binaryMetadata attachment.spooledProperties
  validateAttachmentStreamed "direct" (·.id) (·.propertyType)
    (fun spec => validateDirectBlob spec.blob) binaryMetadata attachment.directProperties
  refuse (maxInMemoryCustomPropertyBytes < rawBytes)
    (.valueTooLarge "aggregate attachment raw-property payload")
  validateContent sha256 attachment.content

mutual

/-- Whether the writer accepts a message at a depth of embedding. -/
def validateMessage (message : MessageSpec) (depth : Nat) : Except WriterError Unit :=
  match message with
  | message@{ attachments, .. } => do
      validateMessageFields message depth
      let seen ← validateSpooledProperties message []
      let _ ← validateDirectProperties message seen
      validateAttachments message attachments depth
      validateMessageProperties message depth

/-- The attachments of a message one after another. -/
def validateAttachments (message : MessageSpec) (attachments : List AttachmentSpec) (depth : Nat) :
    Except WriterError Unit :=
  match attachments with
  | [] => .ok ()
  | attachment@{ content, .. } :: rest => do
      validateAttachment sha256 message attachment
      validateEmbedded content depth
      validateAttachments message rest depth

/-- The message that is embedded in an attachment, one level deeper. -/
def validateEmbedded (content : AttachmentContent) (depth : Nat) : Except WriterError Unit :=
  match content with
  | .embedded child => do
      let childDepth ← okOr (.valueTooLarge "embedded message depth") (checkedAdd 64 depth 1)
      refuse (maxEmbeddedMessageDepth < childDepth) (.valueTooLarge "embedded message depth")
      validateMessage child childDepth
  | .binary _ | .spooled _ | .direct _ | .reference _ | .ole _ | .directOle _ => .ok ()

end

end Attachments

end PstForge.Writer
