import PstForge.Catalog.Native
import PstForge.Foundation.Effect
import Mathlib.Data.Finset.Basic

/-! # How a message is traversed

The worker reports a message from its start to its end: its recipients, its attachments
and its properties. What cannot be read is noted as an issue, and the traversal goes on
where it can. In the orders of a writer the message in an attachment is reported within
the attachment, in the others it waits until its parent has ended.
-/

namespace PstForge.Catalog

open PstForge.Foundation

section Sink

/-- How much of a value the sink asks for. -/
inductive PayloadRequest where
  | full
  | prefixOf (limit : Nat)
  | deferredPrefix (limit : Nat)
  deriving DecidableEq, Repr

inductive TraversalOrder where
  | source
  | embeddedFirst
  | writer
  | direct
  deriving DecidableEq, Repr

def TraversalOrder.isWriter : TraversalOrder → Bool
  | .writer | .direct => true
  | .source | .embeddedFirst => false

/-- What takes the events. What it asks for depends on how it was set up; whether it takes an
event may depend on all events before it. -/
structure CatalogSink where
  order : TraversalOrder
  propertyPayload : PropertyDescriptor → PayloadRequest
  attachmentPayload : (messageId index : Nat) → Option Nat → PayloadRequest
  probeAttachment : (messageId index byteLen : Nat) → Option Text → NativeStream →
    Except Text (Option Text)
  event : List CatalogEvent → CatalogEvent → Except Text Unit

end Sink

section Counts

structure CatalogIssue where
  nodeId : Option Nat
  operation : String
  message : Text
  deriving DecidableEq, Repr

/-- What was counted. The messages whose issues are counted stand from the innermost out.
The counters without a limit never come near the end of their words. -/
structure RawCatalog where
  folders : Nat := 0
  messages : Nat := 0
  recoveredMessages : Nat := 0
  orphanMessages : Nat := 0
  fragmentMessages : Nat := 0
  recipients : Nat := 0
  attachments : Nat := 0
  embeddedMessages : Nat := 0
  unsupportedMessages : Nat := 0
  properties : Nat := 0
  propertyBytes : Nat := 0
  attachmentBytes : Nat := 0
  issues : List CatalogIssue := []
  issuesDropped : Nat := 0
  activeMessageIssues : List (Nat × Nat) := []
  deriving DecidableEq, Repr

/-- Count an issue with the messages that have the identifier. -/
def countIssue (nodeId : Option Nat) (active : List (Nat × Nat)) : List (Nat × Nat) :=
  active.map fun entry =>
    if nodeId = some entry.1 then (entry.1, entry.2 + 1) else entry

def RawCatalog.recordIssue (issue : CatalogIssue) (catalog : RawCatalog) : RawCatalog :=
  let catalog := { catalog with
    activeMessageIssues := countIssue issue.nodeId catalog.activeMessageIssues }
  if catalog.issues.length < maxCatalogIssues then
    { catalog with issues := catalog.issues ++ [issue] }
  else
    { catalog with issuesDropped := catalog.issuesDropped + 1 }

/-- How many issues were recorded so far; the number is compared before and after a read. -/
def RawCatalog.issueCount (catalog : RawCatalog) : Nat × Nat :=
  (catalog.issues.length, catalog.issuesDropped)

end Counts

section State

/-- A message to be reported, and how it was reached. -/
structure MessageWork where
  message : NativeMessage
  folderId : Option Nat
  parentMessageId : Option Nat
  parentAttachmentIndex : Option Nat
  embeddedPath : List Nat
  depth : Nat
  provenance : CatalogProvenance
  recoveryIndex : Option Nat
  associated : Bool

/-- The rest of a value, to be reported behind the metadata of its message. -/
inductive DeferredPayload where
  | property (embeddedPath : List Nat) (descriptor : PropertyDescriptor) (entry : NativeEntry)
      (prefixBytes : Nat)
  | attachment (embeddedPath : List Nat) (index expected prefixBytes : Nat)
      (attachment : NativeAttachment)

/-- What an observer sees of a traversal: besides the events, which alone the sink sees, and
the issues, the beginnings of messages, the messages whose issues are still counted where one
is about to end, and that a message is left without an end. -/
inductive Activity where
  | event (event : CatalogEvent)
  | issue (issue : CatalogIssue)
  | begun (id : Nat) (identifierComplete : Bool)
  | closing (active : List Nat)
  | abandoned
  deriving DecidableEq, Repr

/-- A traversal: what was counted, the identifiers of the messages that were reported, the
messages that wait, the last one first, the rests of values that wait, the paths of the
messages that are retained for them, and what was seen so far. -/
structure Traversal where
  catalog : RawCatalog
  visited : Finset Nat
  pending : List (MessageWork × AttachmentTable)
  deferred : List DeferredPayload
  retained : List (List Nat)
  seen : List Activity

def Traversal.start : Traversal := ⟨{}, ∅, [], [], [], []⟩

/-- Steps of a traversal. -/
abbrev Traversing := EStateM PffError Traversal

/-- The events among what was seen. -/
def eventsSeen (seen : List Activity) : List CatalogEvent :=
  seen.filterMap fun activity => match activity with
    | .event event => some event
    | .issue _ | .begun _ _ | .closing _ | .abandoned => none

end State

section Steps

variable (sink : CatalogSink)

/-- Run a program on a condition. -/
def provided (condition : Prop) [Decidable condition] (program : Traversing Unit) :
    Traversing Unit :=
  if condition then program else return ()

def emit (operation : String) (event : CatalogEvent) : Traversing Unit := do
  let traversal ← get
  match sink.event (eventsSeen traversal.seen) event with
  | .ok () => set { traversal with seen := traversal.seen ++ [Activity.event event] }
  | .error detail => throw (.sink operation detail)

def recordIssue (issue : CatalogIssue) : Traversing Unit :=
  modify fun traversal => { traversal with
    catalog := traversal.catalog.recordIssue issue
    seen := traversal.seen ++ [Activity.issue issue] }

/-- What is wrong with an item is recorded, but a limit or the sink ends its traversal. -/
def recordItemIssue (nodeId : Option Nat) (operation : String) (error : PffError) :
    Traversing Unit :=
  if error.isSink || error.isLimit then throw error
  else recordIssue ⟨nodeId, operation, error.text⟩

def recordAttachmentIssue (nodeId : Option Nat) (operation : String) (error : PffError) :
    Traversing Unit :=
  if error.isSink then throw error
  else recordIssue ⟨nodeId, operation, error.text⟩

def recoverItemValue {α : Type} [Inhabited α] (nodeId : Option Nat) (operation : String) :
    Except PffError α → Traversing α
  | .ok value => return value
  | .error error => do
      recordItemIssue nodeId operation error
      return default

def recoverAttachmentValue {α : Type} [Inhabited α] (messageId : Nat) (operation : String) :
    Except PffError α → Traversing α
  | .ok value => return value
  | .error error => do
      recordAttachmentIssue (some messageId) operation error
      return default

/-- The largest time that can be written. -/
def maxWritableFiletime : Nat := 9223372036854775807

def containFiletime (messageId : Nat) (operation : String) (value : Option Nat) :
    Traversing (Option Nat) :=
  match value with
  | some time => do
      provided (maxWritableFiletime < time) do
        recordIssue ⟨some messageId, operation,
          "FILETIME exceeds the writable signed range: ".toList ++ decimal time ++ " > ".toList ++
            decimal maxWritableFiletime⟩
      return some time
  | none => return none

/-- Leave the rest of a value for later. -/
def defer (payload : DeferredPayload) : Traversing Unit :=
  modify fun traversal => { traversal with deferred := traversal.deferred ++ [payload] }

/-- Change what was counted. -/
def count (change : RawCatalog → RawCatalog) : Traversing Unit :=
  modify fun traversal => { traversal with catalog := change traversal.catalog }

end Steps

section Properties

variable (sink : CatalogSink)

/-- How many bytes of a value are asked for, and whether reading ends there. -/
def PayloadRequest.limit (size : Nat) : PayloadRequest → Nat × Bool
  | .full => (size, false)
  | .prefixOf limit | .deferredPrefix limit => (min size limit, true)

def PayloadRequest.isDeferred : PayloadRequest → Bool
  | .deferredPrefix _ => true
  | .full | .prefixOf _ => false

/-- How many bytes the next read asks for. -/
def readSize (limit total : Nat) (ends : Bool) : Nat :=
  if ends then min (limit - total) streamChunkBytes else streamChunkBytes

/-- Report the data of a property; every read but the last adds a byte at least, so there
are no more reads than bytes and two. -/
def streamEntryFrom (descriptor : PropertyDescriptor) (stream : NativeStream) (limit : Nat)
    (ends : Bool) : (reads total : Nat) → Traversing Nat
  | 0, total => return total
  | reads + 1, total => do
      if ends = true ∧ limit ≤ total then return total
      let bytes ← attempt (stream total (readSize limit total ends))
      if bytes = [] then return total
      attempt (refuse (streamChunkBytes < bytes.length)
        (.invalidValue "record read size" bytes.length))
      attempt (refuse (descriptor.dataSize < total + bytes.length)
        (.streamSizeMismatch "property data" descriptor.dataSize (total + bytes.length)))
      emit sink "property data" (.propertyData descriptor bytes)
      streamEntryFrom descriptor stream limit ends reads (total + bytes.length)

def streamEntry (descriptor : PropertyDescriptor) (request : PayloadRequest)
    (stream : NativeStream) : Traversing Nat :=
  let (limit, ends) := request.limit descriptor.dataSize
  streamEntryFrom sink descriptor stream limit ends (descriptor.dataSize + 2) 0

/-- Report the identity of a named property. -/
def nameProperty (descriptor : PropertyDescriptor) :
    Option NamedPropertyIdentity → Traversing Unit
  | some identity => emit sink "named property identity" (.namedProperty descriptor identity)
  | none => return ()

/-- Report that a property could not be read. -/
def abortProperty (descriptor : PropertyDescriptor) (error : PffError) : Traversing Unit := do
  emit sink "property abort" (.propertyAbort descriptor error.text)
  throw error

def streamProperty (owner : PropertyOwner) (recordSetIndex entryIndex : Nat)
    (embeddedPath : List Nat) (entry : NativeEntry) : Traversing Unit := do
  let entryType ← attempt entry.entryType
  let valueType ← attempt entry.valueType
  let dataSize ← attempt entry.dataSize
  let descriptor : PropertyDescriptor :=
    ⟨owner, recordSetIndex, entryIndex, entryType, valueType, dataSize⟩
  let identity ← attempt entry.identity
  nameProperty sink descriptor identity
  emit sink "property start" (.propertyStart descriptor)
  let request := sink.propertyPayload descriptor
  let actual ← onError (streamEntry sink descriptor request entry.stream) fun error => do
    attempt (refuse (error.isSink = true) error)
    abortProperty sink descriptor error
    return 0
  let expected := (request.limit dataSize).1
  provided (actual ≠ expected) do
    abortProperty sink descriptor (.streamSizeMismatch "property data" expected actual)
  emit sink "property end" (.propertyEnd descriptor)
  provided (request.isDeferred = true ∧ actual < dataSize) do
    defer (.property embeddedPath descriptor entry actual)
  count fun catalog => { catalog with
    properties := catalog.properties + 1
    propertyBytes := catalog.propertyBytes + actual }

/-- Report the entries of a record set. -/
def streamEntries (owner : PropertyOwner) (recordSetIndex : Nat) (embeddedPath : List Nat) :
    (entryIndex : Nat) → List (Except PffError NativeEntry) → Traversing Unit
  | _, [] => return ()
  | entryIndex, entry :: entries => do
      let entry ← attempt entry
      streamProperty sink owner recordSetIndex entryIndex embeddedPath entry
      streamEntries owner recordSetIndex embeddedPath (entryIndex + 1) entries

def streamRecordSet (owner : PropertyOwner) (recordSetIndex : Nat) (embeddedPath : List Nat)
    (set : NativeRecordSet) : Traversing Unit := do
  let entries ← attempt set.entries
  discard (attempt (nativeCount maxRecordEntries entries.length))
  streamEntries sink owner recordSetIndex embeddedPath 0 entries

def streamRecordSets (owner : PropertyOwner) (embeddedPath : List Nat) :
    (index : Nat) → List (Except PffError NativeRecordSet) → Traversing Unit
  | _, [] => return ()
  | index, set :: sets => do
      let set ← attempt set
      streamRecordSet sink owner index embeddedPath set
      streamRecordSets owner embeddedPath (index + 1) sets

/-- Report the properties of an item. -/
def streamItemProperties (recordSets : NativeRecordSets) (owner : PropertyOwner)
    (embeddedPath : List Nat) : Traversing Unit := do
  let sets ← attempt recordSets
  discard (attempt (nativeCount maxRecordSets sets.length))
  streamRecordSets sink owner embeddedPath 0 sets

end Properties

section Recipients

variable (sink : CatalogSink)

def messageClassType : Nat := 0x001a
def subjectType : Nat := 0x0037
def senderNameType : Nat := 0x0c1a
def senderEmailType : Nat := 0x0c1f
def recipientCountType : Nat := 0x0e12
def recipientTypeType : Nat := 0x0c15
def displayNameType : Nat := 0x3001
def addressTypeType : Nat := 0x3002
def emailAddressType : Nat := 0x3003
def attachFilenameType : Nat := 0x3707
def attachFilenameShortType : Nat := 0x3704
def attachMethodType : Nat := 0x3705

/-- Report the recipients, from a given one on. -/
def streamRecipientsFrom (messageId : Nat) (embeddedPath : List Nat) :
    (index : Nat) → List (Except PffError NativeRecordSet) → Traversing Unit
  | _, [] => return ()
  | index, set :: sets => do
      let set ← attempt set
      let recipientType ← attempt (set.optionalU32 recipientTypeType)
      let displayName ← attempt (set.optionalString displayNameType)
      let emailAddress ← attempt (set.optionalString emailAddressType)
      let addressType ← attempt (set.optionalString addressTypeType)
      emit sink "recipient metadata" (.recipient messageId
        ⟨index, recipientType, displayName, emailAddress, addressType⟩)
      count fun catalog => { catalog with recipients := catalog.recipients + 1 }
      streamRecordSet sink (.recipient messageId index) index embeddedPath set
      streamRecipientsFrom messageId embeddedPath (index + 1) sets

def streamRecipients (message : NativeMessage) (messageId : Nat) (countHint : Option Nat)
    (embeddedPath : List Nat) : Traversing Unit := do
  if countHint = some 0 then return ()
  match ← attempt message.recipients with
  | none => return ()
  | some recipients => do
      let sets ← attempt recipients
      discard (attempt (nativeCount maxRecordSets sets.length))
      streamRecipientsFrom sink messageId embeddedPath 0 sets

end Recipients

section Attachments

variable (sink : CatalogSink)

/-- Report the data of an attachment; see the data of a property. -/
def streamAttachmentFrom (messageId index : Nat) (stream : NativeStream) (limit : Nat)
    (ends : Bool) : (reads total : Nat) → Traversing Nat
  | 0, total => return total
  | reads + 1, total => do
      if ends = true ∧ limit ≤ total then return total
      let bytes ← attempt (stream total (readSize limit total ends))
      if bytes = [] then return total
      attempt (refuse (streamChunkBytes < bytes.length)
        (.invalidValue "attachment read size" bytes.length))
      let emitted := bytes.take (limit - total)
      provided (emitted ≠ []) do
        emit sink "attachment data" (.attachmentData messageId index emitted)
      attempt (refuse (limit < total + bytes.length)
        (.streamSizeMismatch "attachment data" limit (total + bytes.length)))
      streamAttachmentFrom messageId index stream limit ends reads (total + emitted.length)

def streamAttachment (messageId index expected : Nat) (request : PayloadRequest)
    (attachment : NativeAttachment) : Traversing Nat := do
  let (limit, ends) := request.limit expected
  attempt attachment.seekStart
  let total ← streamAttachmentFrom sink messageId index attachment.data limit ends (limit + 2) 0
  attempt (refuse (total ≠ limit) (.streamSizeMismatch "attachment data" limit total))
  return total

def streamAttachmentProperties (attachment : NativeAttachment) (messageId index : Nat)
    (embeddedPath : List Nat) : Traversing Unit :=
  onError (streamItemProperties sink attachment.recordSets
    (.attachment messageId index) embeddedPath)
    (recordAttachmentIssue (some messageId) "stream attachment properties")

/-- The first record set, if there is one. -/
def firstRecordSet (recordSets : NativeRecordSets) : Except PffError (Option NativeRecordSet) := do
  let sets ← recordSets
  discard (nativeCount maxRecordSets sets.length)
  match sets with
  | [] => return none
  | set :: _ => return some (← set)

def attachmentMethod (attachment : NativeAttachment) : Except PffError (Option Nat) := do
  match ← firstRecordSet attachment.recordSets with
  | none => return none
  | some set => set.optionalU32 attachMethodType

def attachmentFilename (attachment : NativeAttachment) : Except PffError (Option Text) := do
  match ← firstRecordSet attachment.recordSets with
  | none => return none
  | some set => do
      match ← set.optionalString attachFilenameType with
      | some value => return some value
      | none => set.optionalString attachFilenameShortType

/-- An attachment whose start was reported. -/
structure OpenAttachment where
  messageId : Nat
  index : Nat
  embeddedPath : List Nat
  attachment : NativeAttachment
  attachmentType : Option Int
  isReference : Bool
  dataSize : Option Nat
  filename : Option Text

/-- An embedded item is reached only through an attachment of its type. -/
def OpenAttachment.isEmbedded (opened : OpenAttachment) : Bool :=
  opened.attachmentType = some embeddedType

/-- The properties of an attachment with an embedded item come behind the item. -/
def OpenAttachment.defersProperties (opened : OpenAttachment) : Bool :=
  opened.isEmbedded && sink.order ≠ .source

def OpenAttachment.properties (opened : OpenAttachment) : Traversing Unit :=
  streamAttachmentProperties sink opened.attachment opened.messageId opened.index
    opened.embeddedPath

/-- What is read of an attachment, unless it is a reference. -/
def unlessReference {α : Type} (isReference : Bool) (known : α) (program : Traversing α) :
    Traversing α :=
  if isReference = true then return known else program

/-- Report the start of an attachment. -/
def openAttachment (messageId index : Nat) (embeddedPath : List Nat)
    (attachment : NativeAttachment) : Traversing OpenAttachment := do
  let method ← recoverAttachmentValue messageId "get attachment method"
    (attachmentMethod attachment)
  let isReference := method = some 2 ∨ method = some 3 ∨ method = some 4 ∨ method = some 7
  let attachmentType ← unlessReference isReference (some referenceType)
    (recoverAttachmentValue messageId "get attachment type" attachment.attachmentType)
  let dataSize ← unlessReference isReference none
    (recoverAttachmentValue messageId "get attachment size" attachment.attachmentSize)
  let filename ←
    recoverAttachmentValue messageId "get attachment filename" (attachmentFilename attachment)
  emit sink "attachment metadata"
    (.attachmentStart messageId ⟨index, attachmentType, dataSize, filename, none⟩)
  count fun catalog => { catalog with attachments := catalog.attachments + 1 }
  let opened : OpenAttachment :=
    ⟨messageId, index, embeddedPath, attachment, attachmentType, isReference, dataSize, filename⟩
  provided (opened.defersProperties sink = false) (opened.properties sink)
  return opened

def OpenAttachment.finish (opened : OpenAttachment) : Traversing Unit := do
  provided (opened.defersProperties sink = true) (opened.properties sink)
  emit sink "attachment end" (.attachmentEnd opened.messageId opened.index)

/-- Report that an attachment could not be read. -/
def OpenAttachment.giveUp (opened : OpenAttachment) (operation : String) (error : PffError) :
    Traversing Unit := do
  provided (opened.defersProperties sink = true) (opened.properties sink)
  emit sink "attachment abort" (.attachmentAbort opened.messageId opened.index)
  recordAttachmentIssue (some opened.messageId) operation error

/-- Report what kind of content an attachment was found to have. -/
def OpenAttachment.reportMime (opened : OpenAttachment) : Option Text → Traversing Unit
  | some mimeType => emit sink "attachment MIME probe"
      (.attachmentMimeProbe opened.messageId opened.index mimeType)
  | none => return ()

/-- Report the end of an attachment whose content was reported; where the rest of the content
is left for later, the properties of the attachment are not deferred. -/
def OpenAttachment.close (opened : OpenAttachment) (expected : Nat) (deferring : Bool) :
    Option Nat → Traversing Unit
  | none => return ()
  | some actual => do
      count fun catalog => { catalog with attachmentBytes := catalog.attachmentBytes + actual }
      if deferring = true ∧ actual < expected then
        defer (.attachment opened.embeddedPath opened.index expected actual opened.attachment)
        emit sink "attachment end" (.attachmentEnd opened.messageId opened.index)
      else
        opened.finish sink

/-- Report the content of an attachment by value up to its end. -/
def OpenAttachment.content (opened : OpenAttachment) : Traversing Unit := do
  let expected ← attempt (okOr (.native "get attachment size"
    "attachment data size is unavailable".toList) opened.dataSize)
  let mimeType ← attempt ((sink.probeAttachment opened.messageId opened.index expected
    opened.filename opened.attachment.data).mapError (.sink "probe attachment metadata"))
  opened.reportMime sink mimeType
  let request := sink.attachmentPayload opened.messageId opened.index (some expected)
  let streamed ← onError
    (some <$> streamAttachment sink opened.messageId opened.index expected request
      opened.attachment)
    fun error => do
      attempt (refuse (error.isSink = true) error)
      opened.giveUp sink "stream attachment data" error
      return none
  opened.close sink expected request.isDeferred streamed

/-- Report an attachment in which no item is found. -/
def OpenAttachment.withoutItem (opened : OpenAttachment) (item : Except PffError Unit) :
    Traversing Unit :=
  if opened.isEmbedded = true then
    match item with
    | .ok () => opened.giveUp sink "get embedded item"
        (.native "get embedded item" "embedded attachment item is unavailable".toList)
    | .error error => if error.isSink then throw error
        else opened.giveUp sink "get embedded item" error
  else if opened.isReference = true then opened.finish sink
  else opened.content sink

/-- The work of an embedded message. -/
def embeddedWork (work : MessageWork) (opened : OpenAttachment) (message : NativeMessage) :
    Except PffError MessageWork := do
  let depth := work.depth + 1
  refuse (maxEmbeddedDepth < depth)
    (.limitExceeded "embedded message depth" depth maxEmbeddedDepth)
  return {
    message
    folderId := work.folderId
    parentMessageId := some opened.messageId
    parentAttachmentIndex := some opened.index
    embeddedPath := work.embeddedPath ++ [opened.index]
    depth
    provenance := work.provenance
    recoveryIndex := work.recoveryIndex
    associated := false }

end Attachments

section Messages

variable (sink : CatalogSink)

/-- Whether a top-level message was reported before. -/
def stableTopLevelIdentifierSeen (visited : Finset Nat) (identifier : Nat)
    (embeddedPath : List Nat) : Bool :=
  embeddedPath = [] ∧ identifier ≠ 0 ∧ identifier ∈ visited

def markStableTopLevelIdentifier (identifier : Nat) (embeddedPath : List Nat)
    (visited : Finset Nat) : Finset Nat :=
  if embeddedPath = [] ∧ identifier ≠ 0 then insert identifier visited else visited

/-- The counters with one more message. -/
structure MessageCounts where
  messages : Nat
  recoveredMessages : Nat
  orphanMessages : Nat
  fragmentMessages : Nat
  embeddedMessages : Nat
  unsupportedMessages : Nat

def countMessage (work : MessageWork) (catalog : RawCatalog) : Except PffError MessageCounts := do
  let messages ← checkedIncrement catalog.messages "message count" maxMessages
  let recoveredMessages ← if work.provenance = .recovered then
      checkedIncrement catalog.recoveredMessages "recovered message count" maxMessages
    else .ok catalog.recoveredMessages
  let orphanMessages ← if work.provenance = .orphan then
      checkedIncrement catalog.orphanMessages "orphan message count" maxMessages
    else .ok catalog.orphanMessages
  let fragmentMessages ← if work.provenance = .fragment then
      checkedIncrement catalog.fragmentMessages "fragment message count" maxMessages
    else .ok catalog.fragmentMessages
  let embeddedMessages := if work.parentMessageId.isSome = true then catalog.embeddedMessages + 1
    else catalog.embeddedMessages
  return ⟨messages, recoveredMessages, orphanMessages, fragmentMessages, embeddedMessages,
    catalog.unsupportedMessages⟩

/-- What is read of a message before its start is reported. -/
def readMetadata (work : MessageWork) (messageId : Nat) :
    Traversing (MessageMetadata × Option Nat) := do
  let message := work.message
  let messageClass ←
    recoverItemValue (some messageId) "get message class" (message.messageString messageClassType)
  let recipientCountHint ←
    recoverItemValue (some messageId) "get recipient count" (message.optionalU32 recipientCountType)
  let supported := messageClass.any (supportedMessageClass · work.parentMessageId.isSome)
  let itemType ← recoverItemValue (some messageId) "get message item type" message.itemType
  let subject ←
    recoverItemValue (some messageId) "get message subject" (message.messageString subjectType)
  let senderName ←
    recoverItemValue (some messageId) "get sender name" (message.messageString senderNameType)
  let senderEmail ←
    recoverItemValue (some messageId) "get sender email" (message.messageString senderEmailType)
  let submitFiletime ←
    recoverItemValue (some messageId) "get client submit time" message.clientSubmitTime
  let submitFiletime ← containFiletime messageId "get client submit time" submitFiletime
  let deliveryFiletime ←
    recoverItemValue (some messageId) "get delivery time" message.deliveryTime
  let deliveryFiletime ← containFiletime messageId "get delivery time" deliveryFiletime
  return ({
    folderId := work.folderId
    parentMessageId := work.parentMessageId
    parentAttachmentIndex := work.parentAttachmentIndex
    embeddedPath := work.embeddedPath
    associated := work.associated
    itemType, messageClass, subject, senderName, senderEmail, submitFiletime, deliveryFiletime
    supported }, recipientCountHint)

/-- Report the start of a message. -/
def startMessage (work : MessageWork) (messageId : Nat) : Traversing (Option Nat) := do
  let traversal ← get
  let counts ← attempt (countMessage work traversal.catalog)
  let (metadata, recipientCountHint) ← readMetadata work messageId
  emit sink "message metadata"
    (.messageStart ⟨messageId, work.provenance, work.recoveryIndex, metadata⟩)
  modify fun traversal => { traversal with
    catalog := { traversal.catalog with
      messages := counts.messages
      recoveredMessages := counts.recoveredMessages
      orphanMessages := counts.orphanMessages
      fragmentMessages := counts.fragmentMessages
      embeddedMessages := counts.embeddedMessages
      unsupportedMessages := if metadata.supported then counts.unsupportedMessages
        else counts.unsupportedMessages + 1 }
    visited := markStableTopLevelIdentifier messageId work.embeddedPath traversal.visited }
  return recipientCountHint

/-- Read the identifier of a message, and whether it could be read. -/
def readIdentifier (message : NativeMessage) : Traversing (Nat × Bool) := do
  let before ← get
  let messageId ← recoverItemValue none "get message identifier" message.identifier
  let behind ← get
  return (messageId, behind.catalog.issueCount = before.catalog.issueCount)

def observe (activity : Activity) : Traversing Unit :=
  modify fun traversal => { traversal with seen := traversal.seen ++ [activity] }

/-- Start counting the issues of a message. -/
def capture (nodeId : Nat) (identifierComplete : Bool) : Traversing Unit :=
  modify fun traversal => { traversal with
    catalog := { traversal.catalog with
      activeMessageIssues := (nodeId, 0) :: traversal.catalog.activeMessageIssues }
    seen := traversal.seen ++ [Activity.begun nodeId identifierComplete] }

/-- Stop counting issues, and tell whether there were none of the message. -/
def unchanged (nodeId : Nat) : Traversing Bool := do
  let traversal ← get
  set { traversal with catalog := { traversal.catalog with
    activeMessageIssues := traversal.catalog.activeMessageIssues.tail } }
  return traversal.catalog.activeMessageIssues.head? = some (nodeId, 0)

/-- Report what is in a message, its attachments by a given program. -/
def messageBody (work : MessageWork) (messageId attachmentCount : Nat)
    (attachments : Traversing Unit) : Traversing Unit := do
  let recipientCountHint ← startMessage sink work messageId
  onError (streamRecipients sink work.message messageId recipientCountHint work.embeddedPath)
    (recordItemIssue (some messageId) "stream recipients")
  match (do work.message.attachmentCount; nativeCount maxRecordEntries attachmentCount) with
  | .ok _ =>
      onError attachments (recordAttachmentIssue (some messageId) "stream attachments")
  | .error error => recordAttachmentIssue (some messageId) "count attachments" error
  onError (streamItemProperties sink work.message.recordSets (.message messageId) work.embeddedPath)
    (recordItemIssue (some messageId) "stream message properties")

/-- Report the end of a message. -/
def endMessage (messageId : Nat) (identifierComplete : Bool) : Traversing Unit := do
  -- where the identifier could not be read, nothing is taken off
  let complete ← if identifierComplete = true then unchanged messageId else pure false
  let traversal ← get
  observe (.closing (traversal.catalog.activeMessageIssues.map Prod.fst))
  emit sink "message end" (.messageEnd messageId complete)

/-- Report a message from its beginning to its end, or up to an error. -/
def reportMessage (messageId : Nat) (identifierComplete : Bool) (body : Traversing Unit) :
    Traversing Unit := do
  capture messageId identifierComplete
  onError (do body; endMessage sink messageId identifierComplete) fun error => do
    observe .abandoned
    throw error

/-- Report a message, its attachments by a given program. -/
def processMessageWith (work : MessageWork) (attachmentCount : Nat)
    (attachments : (messageId : Nat) → Traversing Unit) : Traversing Unit := do
  let (messageId, identifierComplete) ← readIdentifier work.message
  let traversal ← get
  if stableTopLevelIdentifierSeen traversal.visited messageId work.embeddedPath = true then
    recordIssue ⟨some messageId, "traverse message", "duplicate message identifier".toList⟩
  else
    reportMessage sink messageId identifierComplete
      (messageBody sink work messageId attachmentCount (attachments messageId))
    modify fun traversal => { traversal with retained := traversal.retained ++ [work.embeddedPath] }

/-- Report an attachment with a message in it, which is processed here or waits. -/
def OpenAttachment.withItem (opened : OpenAttachment) (work : MessageWork)
    (message : NativeMessage) (inner : AttachmentTable) (process : MessageWork → Traversing Unit) :
    Traversing Unit :=
  if opened.isEmbedded = true then
    match embeddedWork work opened message with
    | .ok embedded =>
        if sink.order.isWriter = true then do
          process embedded
          opened.finish sink
        else do
          opened.finish sink
          modify fun traversal => { traversal with
            pending := (embedded, inner) :: traversal.pending }
    | .error error => opened.giveUp sink "queue embedded item" error
  else if opened.isReference = true then opened.finish sink
  else opened.content sink

/-- Report the attachments of a message, from a given one on. -/
def streamAttachments (work : MessageWork) (messageId : Nat) : (index : Nat) → AttachmentTable →
    Traversing Unit
  | _, .nil => return ()
  | index, .unreadable error rest => do
      emit sink "attachment metadata" (.attachmentStart messageId ⟨index, none, none, none, none⟩)
      count fun catalog => { catalog with attachments := catalog.attachments + 1 }
      emit sink "attachment abort" (.attachmentAbort messageId index)
      recordAttachmentIssue (some messageId) "get attachment" error
      streamAttachments work messageId (index + 1) rest
  | index, .plain attachment item rest => do
      let opened ← openAttachment sink messageId index work.embeddedPath attachment
      opened.withoutItem sink item
      streamAttachments work messageId (index + 1) rest
  | index, .embedded attachment message inner rest => do
      let opened ← openAttachment sink messageId index work.embeddedPath attachment
      opened.withItem sink work message inner fun embedded =>
        processMessageWith sink embedded inner.length fun id =>
          streamAttachments embedded id 0 inner
      streamAttachments work messageId (index + 1) rest

/-- Report a message. -/
def processMessageInner (work : MessageWork) (attachments : AttachmentTable) : Traversing Unit :=
  processMessageWith sink work attachments.length
    (fun messageId => streamAttachments sink work messageId 0 attachments)

end Messages

section Deferred

variable (sink : CatalogSink)

/-- Report the rest of a value. -/
def streamDeferredFrom (operation field : String) (event : Bytes → CatalogEvent)
    (stream : NativeStream) (start expected : Nat) : (reads total : Nat) → Traversing Nat
  | 0, total => return total
  | reads + 1, total => do
      if expected ≤ total then return total
      let requested := min (expected - total) streamChunkBytes
      let bytes ← attempt (stream (start + total) requested)
      if bytes = [] then return total
      attempt (refuse (requested < bytes.length) (.invalidValue field bytes.length))
      emit sink operation (event bytes)
      streamDeferredFrom operation field event stream start expected reads (total + bytes.length)

def streamDeferred (embeddedPath : List Nat) (descriptor : PropertyDescriptor)
    (entry : NativeEntry) (prefixBytes : Nat) : Traversing Nat := do
  let expected := descriptor.dataSize - prefixBytes
  let total ← streamDeferredFrom sink "deferred property data" "record read size"
    (.deferredPropertyData embeddedPath descriptor) entry.stream prefixBytes expected expected 0
  attempt (refuse (total ≠ expected)
    (.streamSizeMismatch "deferred property data" expected total))
  return total

def streamAttachmentDeferred (embeddedPath : List Nat) (index expected prefixBytes : Nat)
    (attachment : NativeAttachment) : Traversing Nat := do
  attempt (refuse (expected < prefixBytes)
    (.streamSizeMismatch "deferred attachment prefix" expected prefixBytes))
  let remaining := expected - prefixBytes
  let total ← streamDeferredFrom sink "deferred attachment data" "attachment read size"
    (.deferredAttachmentData embeddedPath index) attachment.data prefixBytes remaining remaining 0
  attempt (refuse (total ≠ remaining)
    (.streamSizeMismatch "deferred attachment data" remaining total))
  return total

/-- Report the rests of values in their order. -/
def streamDeferredPayloads : List DeferredPayload → Traversing Unit
  | [] => return ()
  | .property embeddedPath descriptor entry prefixBytes :: payloads => do
      let remaining ← streamDeferred sink embeddedPath descriptor entry prefixBytes
      count fun catalog => { catalog with propertyBytes := catalog.propertyBytes + remaining }
      streamDeferredPayloads payloads
  | .attachment embeddedPath index expected prefixBytes attachment :: payloads => do
      let traversal ← get
      attempt (refuse (embeddedPath ∉ traversal.retained)
        (.invalidValue "deferred message path" embeddedPath.length))
      let remaining ←
        streamAttachmentDeferred sink embeddedPath index expected prefixBytes attachment
      count fun catalog => { catalog with attachmentBytes := catalog.attachmentBytes + remaining }
      streamDeferredPayloads payloads

end Deferred

section Waiting

variable (sink : CatalogSink)

/-- Report a message, and the rests of the values of a top-level message behind it. -/
def processMessage (work : MessageWork) (attachments : AttachmentTable) : Traversing Unit := do
  modify fun traversal => { traversal with deferred := [], retained := [] }
  processMessageInner sink work attachments
  if work.parentMessageId = none ∧ sink.order = .direct then
    emit sink "top-level metadata end" .topLevelMetadataEnd
    let traversal ← get
    streamDeferredPayloads sink traversal.deferred
    emit sink "top-level payload end" .topLevelPayloadEnd

/-- How many messages are embedded in attachments. -/
def AttachmentTable.messages : AttachmentTable → Nat
  | .nil => 0
  | .unreadable _ rest | .plain _ _ rest => rest.messages
  | .embedded _ _ inner rest => inner.messages + 1 + rest.messages

/-- Take the last message that waits. -/
def takePending : Traversing (Option (MessageWork × AttachmentTable)) := do
  let traversal ← get
  set { traversal with pending := traversal.pending.tail }
  return traversal.pending.head?

/-- Report the messages that wait, the last one first; every message that is reported is one
of those in a tree, so there are no more of them than the trees have. -/
def processPending (operation : String) : (messages : Nat) → Traversing Unit
  | 0 => return ()
  | messages + 1 => do
      match ← takePending with
      | none => return ()
      | some (work, attachments) => do
          onError (processMessage sink work attachments) (recordItemIssue none operation)
          processPending operation messages

/-- Report a message of a collection with all that are embedded in it. -/
def processTopLevel (operation : String) (work : MessageWork) (attachments : AttachmentTable) :
    Traversing Unit := do
  modify fun traversal => { traversal with pending := [(work, attachments)] }
  processPending sink operation (attachments.messages + 1)

end Waiting

end PstForge.Catalog
