import PstForge.Job.Sink

/-! # How the sink handles events

A message is written as a candidate: a row of the ledger that stays pending until the
message ends, and a numbered event for everything that the worker reports of it. The
sink refuses events that are out of sequence.
-/

namespace PstForge.Job

open PstForge.Foundation PstForge.Catalog

section Checks

def requireMessage (active : Option ActiveCandidate) (messageId : Nat) : Except JobError Unit :=
  match active with
  | some active => refuse (active.messageId ≠ messageId)
      (.eventSequence "event message identifier does not match active message")
  | none => .error (.eventSequence "message event occurred without an active message")

/-- A property belongs to the message or the attachment that is open; one of a folder
comes outside of any message. -/
def validatePropertyOwner (active : Option ActiveCandidate) (attachment : Option ActiveAttachment) :
    PropertyOwner → Except JobError Unit
  | .folder _ => refuse (active.isSome = true)
      (.eventSequence "folder property occurred during a message")
  | .message messageId => requireMessage active messageId
  | .recipient messageId index => do
      requireMessage active messageId
      refuse (active.any (fun candidate => candidate.recipients.contains index) = false)
        (.eventSequence "recipient property does not match an emitted recipient")
  | .attachment messageId index => do
      requireMessage active messageId
      refuse (attachment.any (fun attachment =>
          attachment.messageId = messageId && attachment.index = index) = false)
        (.eventSequence "attachment property does not match active attachment")

/-- The open attachment is the one that an event is about. -/
def requireAttachment (what : String) (messageId index : Nat) : Sinking ActiveAttachment := do
  let sink ← get
  attempt (requireMessage sink.active messageId)
  let attachment ← attempt (okOr (.eventSequence ("attachment " ++ what ++ " without metadata"))
    sink.attachment)
  require (attachment.messageId = messageId ∧ attachment.index = index)
    ("attachment " ++ what ++ " does not match active attachment")
  return attachment

end Checks

section Capture

def capturedPropertyBytes (mode : CatalogCaptureMode) (declared : Nat) : Nat :=
  match mode with
  | .full => declared
  | .bounded propertyPrefixBytes _ => min declared propertyPrefixBytes

def capturedAttachmentBytes (mode : CatalogCaptureMode) (declared : Nat) : Nat :=
  match mode with
  | .full => declared
  | .bounded _ attachmentPrefixBytes => min declared attachmentPrefixBytes

def CatalogCaptureMode.isBounded : CatalogCaptureMode → Bool
  | .full => false
  | .bounded _ _ => true

def takeDirectBlobId : Sinking Nat := do
  let sink ← get
  let next ← attempt (okOr (.integrity "direct blob identifier overflow")
    (checkedAdd 64 sink.nextDirectBlobId 1))
  modify fun sink => { sink with nextDirectBlobId := next }
  return sink.nextDirectBlobId

/-- A number for a value that is also streamed, where it is. -/
def takeDirectBlobIdIf (streamed : Bool) : Sinking (Option Nat) :=
  if streamed then do return some (← takeDirectBlobId) else return none

end Capture

section Candidates

/-- The candidate that a path leads to, as the sink remembers it. -/
def recentCandidate (sink : DurableCatalogSink) (path : List Nat) : Option ItemKey :=
  (sink.recentCandidates.find? (·.1 = path)).map (·.2)

/-- The candidate that an embedded message belongs to: a recent one at its path, or
the last one of the ledger. -/
def parentKey (sink : DurableCatalogSink) (start : MessageStart) : Except JobError ItemKey := do
  let index ← okOr (.eventSequence "embedded message path is empty")
    start.metadata.embeddedPath.getLast?
  refuse (some index ≠ start.metadata.parentAttachmentIndex)
    (.eventSequence "embedded message path disagrees with its attachment")
  let parentPath := start.metadata.embeddedPath.dropLast
  match recentCandidate sink parentPath with
  | some key => return key
  | none =>
      okOr (.eventSequence "embedded message parent is not durably committed")
        ((sink.connection.database.candidates.reverse.find? fun row =>
          row.itemKey.provenance = start.provenance
            ∧ row.itemKey.recoveryIndex = start.recoveryIndex
            ∧ row.embeddedPath = parentPath ∧ row.status ≠ .pending).map (·.itemKey))

/-- The candidate that a message belongs to, if it is embedded. -/
def parentOf (sink : DurableCatalogSink) (start : MessageStart) :
    Except JobError (Option ItemKey) :=
  match start.metadata.parentMessageId with
  | some _ => do return some (← parentKey sink start)
  | none => return none

/-- The identifier of the parent under which the ledger has it. -/
def durableMetadata (sink : DurableCatalogSink) (metadata : MessageMetadata) : MessageMetadata :=
  match metadata.parentMessageId.bind fun id =>
      (sink.replayedSourceIds.find? (·.1 = id)).map (·.2) with
  | some durable => { metadata with parentMessageId := some durable }
  | none => metadata

/-- A property of a folder that was left open is dropped. -/
def dropFolderProperty : Sinking Unit :=
  modify fun sink =>
    if sink.property.any (·.descriptor.owner.isFolder) then { sink with property := none }
    else sink

/-- Insert the row of a candidate; when it is refused, so is the candidate. -/
def insertActive (row : CandidateRow) : Sinking Unit :=
  onError (execute (Database.insertCandidate row)) fun error => do
    onError abortCandidate fun _ => pure ()
    throw error

def startCandidate (start : MessageStart) : Sinking Unit := do
  let sink ← get
  require (sink.pendingNamedProperty = none)
    "message started after an unmatched named property identity"
  dropFolderProperty
  let sink ← get
  require (sink.property = none) "message started during a non-folder property"
  require (sink.active = none) "message started before the previous message ended"
  let sourceNodeId := if start.id = 0 then none else some start.id
  let occurrence ← attempt (okOr (.sql "Integer out of range")
    (tryFrom 32 (sink.connection.database.occurrences start.provenance sourceNodeId
      start.recoveryIndex)))
  let key : ItemKey := ⟨start.provenance, sourceNodeId, start.recoveryIndex, occurrence⟩
  let parent ← attempt (parentOf sink start)
  require (parent.isSome = start.metadata.parentAttachmentIndex.isSome)
    "embedded message parent attachment is incomplete"
  let row : CandidateRow := {
    itemKey := key
    completeness := .damaged
    status := .pending
    metadata := durableMetadata sink start.metadata
    unit := sink.unit
    parentItemKey := parent
    parentAttachmentIndex := start.metadata.parentAttachmentIndex
    embeddedPath := start.metadata.embeddedPath }
  beginCandidate
  insertActive row
  modify fun now => { now with
    active := some ⟨key, start.id, sink.payloadPackPosition, 0, [], start.metadata.supported,
      start.metadata.embeddedPath⟩ }

/-- Record an event of the open candidate. -/
def recordEvent (kind : String) (detail : EventDetail) (blob : Option BlobRef) : Sinking Unit := do
  let sink ← get
  let active ← attempt (okOr (.eventSequence (kind ++ " event outside a message")) sink.active)
  let sequence ← attempt (okOr (.eventSequence "candidate event count overflow")
    (checkedAdd 64 active.sequence 1))
  modify fun sink => { sink with active := some { active with sequence } }
  execute (Database.insertEvent ⟨active.key, sequence, detail, blob⟩)

end Candidates

section Finish

variable (sha256 : Bytes → Bytes)

/-- The value types whose values are streams. -/
def isStreamType (valueType : Option Nat) : Bool :=
  valueType = some 0x001E || valueType = some 0x001F || valueType = some 0x0102

def finishProperty (descriptor : PropertyDescriptor) : Sinking Unit := do
  let sink ← get
  modify fun sink => { sink with property := none }
  let active ← attempt (okOr (.eventSequence "property ended without a matching start")
    sink.property)
  require (active.descriptor = descriptor) "property end does not match property start"
  if active.record then
    let capturedSize := capturedPropertyBytes sink.captureMode descriptor.dataSize
    let blob ← finishBlob sha256 active.blob (some capturedSize)
    let directId ← takeDirectBlobIdIf (sink.captureMode.isBounded
      && (capturedSize < descriptor.dataSize
        || active.namedProperty.isNone && isStreamType descriptor.valueType))
    recordEvent (if directId.isSome then "property_direct" else "property")
      (.property descriptor active.namedProperty directId) (some blob)
  else
    discardBlob active.blob descriptor.dataSize

/-- Record what became of the open attachment. -/
def finishAttachment (complete : Bool) : Sinking Unit := do
  let sink ← get
  modify fun sink => { sink with attachment := none }
  match sink.attachment with
  | none => pure ()
  | some active =>
      match active.blob with
      | some blob => do
          let actual := blob.bytes
          let captured := active.expected.map fun expected =>
            if complete then capturedAttachmentBytes sink.captureMode expected else actual
          let blob ← finishBlob sha256 blob captured
          let directId ← takeDirectBlobIdIf (sink.captureMode.isBounded && complete
            && active.expected ≠ some 0)
          let content : AttachmentContent := match directId with
            | some id => .direct id
            | none => if complete then .data else .partialData
          recordEvent (match content with
            | .direct _ => "attachment_direct"
            | .data => "attachment_data"
            | .partialData => "attachment_partial")
            (.attachmentContent content active.messageId active.index active.expected actual)
            (some blob)
      | none =>
          if complete ∧ active.attachmentType = some embeddedType then
            pure ()
          else if complete ∧ active.attachmentType = some referenceType then
            recordEvent "attachment_reference"
              (.attachmentReference active.messageId active.index active.expected) none
          else if complete ∧ active.expected = some 0 then do
            let blob ← newBlobWriter
            let blob ← finishBlob sha256 blob (some 0)
            recordEvent "attachment_data"
              (.attachmentContent .data active.messageId active.index active.expected 0)
              (some blob)
          else if complete then
            fail "attachment declared data but emitted no bytes"
          else
            recordEvent "attachment_missing"
              (.attachmentMissing active.messageId active.index active.expected) none

/-- Drop the open property and record that it is incomplete. -/
def cutProperty (property : ActiveProperty) (reason : Text) (record : Bool) : Sinking Unit := do
  truncatePayloadPack property.blob.startOffset
  if record then
    recordEvent "property_incomplete"
      (.propertyIncomplete property.descriptor property.namedProperty reason) none

end Finish

section Handle

variable (sha256 : Bytes → Bytes)

def handleUnitStart (unit : RecoveryUnit) : Sinking Unit := do
  let sink ← get
  require (sink.active = none ∧ sink.pendingNamedProperty = none)
    "recovery unit boundary occurred during a candidate"
  modify fun sink => { sink with unit := some unit }
  require (sink.unit = none) "recovery units cannot be nested"
  modify fun sink => { sink with recentCandidates := [], replayedSourceIds := [] }

def handleUnitEnd (unit : RecoveryUnit) : Sinking Unit := do
  let sink ← get
  if sink.active = none ∧ sink.pendingNamedProperty = none then
    modify fun sink => { sink with unit := none }
    require (sink.unit = some unit) "recovery unit ended out of sequence"
    modify fun sink => { sink with replayedSourceIds := [] }
  else
    fail "recovery unit ended out of sequence"

def handleFolder (id : Nat) (parentId : Option Nat) (name containerClass : Option Text) :
    Sinking Unit := do
  let sink ← get
  require (sink.active = none ∧ sink.pendingNamedProperty = none)
    "folder event occurred during a message"
  let address := match sink.unit with
    | some (.folder address) => some address
    | _ => none
  let row : FolderRow := {
    folderKey := match address with
      | some address => .inl address
      | none => .inr id
    sourceId := id
    parentSourceId := parentId
    name
    address
    containerClass }
  execute fun database => .ok (database.replaceFolder row)

def handleRecipient (messageId : Nat) (recipient : Recipient) : Sinking Unit := do
  let sink ← get
  attempt (requireMessage sink.active messageId)
  require (sink.active.all (fun active => !active.recipients.contains recipient.index) = true)
    "duplicate recipient index"
  recordEvent "recipient" (.recipient recipient) none
  modify fun sink => { sink with active := sink.active.map fun active =>
    { active with recipients := recipient.index :: active.recipients } }

def handleAttachmentStart (messageId : Nat) (attachment : Attachment) : Sinking Unit := do
  let sink ← get
  attempt (requireMessage sink.active messageId)
  require (sink.attachment = none) "attachment started before previous attachment ended"
  recordEvent "attachment" (.attachment attachment) none
  modify fun sink => { sink with
    attachment := some ⟨messageId, attachment.index, attachment.attachmentType,
      attachment.dataSize, none⟩ }

def handleAttachmentData (messageId index : Nat) (bytes : Bytes) : Sinking Unit := do
  let fresh ← newBlobWriter
  let attachment ← requireAttachment "data" messageId index
  let blob := attachment.blob.getD fresh
  modify fun sink => { sink with attachment := some { attachment with blob := some blob } }
  let written ← writeBlob blob bytes
  modify fun sink => { sink with attachment := some { attachment with blob := some written } }

def handlePropertyStart (descriptor : PropertyDescriptor) : Sinking Unit := do
  let sink ← get
  require (sink.property = none) "property started before previous property ended"
  attempt (validatePropertyOwner sink.active sink.attachment descriptor.owner)
  modify fun sink => { sink with pendingNamedProperty := none }
  require (sink.pendingNamedProperty.all (·.1 = descriptor) = true)
    "named property identity does not match property start"
  let blob ← newBlobWriter
  modify fun now => { now with
    property := some ⟨descriptor, sink.pendingNamedProperty.map (·.2), blob,
      !descriptor.owner.isFolder⟩ }

def handleNamedProperty (descriptor : PropertyDescriptor) (identity : NamedPropertyIdentity) :
    Sinking Unit := do
  let sink ← get
  require (sink.property = none ∧ sink.pendingNamedProperty = none)
    "named property identity occurred out of sequence"
  attempt (validatePropertyOwner sink.active sink.attachment descriptor.owner)
  modify fun sink => { sink with pendingNamedProperty := some (descriptor, identity) }

def handlePropertyData (descriptor : PropertyDescriptor) (bytes : Bytes) : Sinking Unit := do
  let sink ← get
  let property ← attempt (okOr (.eventSequence "property data without start") sink.property)
  require (property.descriptor = descriptor) "property data does not match active property"
  let blob ← writeBlob property.blob bytes
  modify fun sink => { sink with property := some { property with blob } }

def handlePropertyAbort (descriptor : PropertyDescriptor) (reason : Text) : Sinking Unit := do
  let sink ← get
  modify fun sink => { sink with property := none }
  let property ← attempt (okOr (.eventSequence "property abort without start") sink.property)
  require (property.descriptor = descriptor) "property abort does not match active property"
  cutProperty property reason property.record

/-- Give up the batch after a candidate could not be finished. -/
def dropBatch : Sinking Unit := do
  onError (transact Connection.rollback) fun _ => pure ()
  let sink ← get
  onError (truncatePayloadPack sink.batchPackStart) fun _ => pure ()
  modify fun sink => { sink with batchOpen := false, batchCandidates := 0 }

/-- Cut the property that a message leaves open. -/
def cutOpenProperty : Sinking Unit := do
  let sink ← get
  match sink.property with
  | some property => do
      modify fun sink => { sink with property := none }
      cutProperty property "message ended before property completion".toList true
  | none => pure ()

/-- Close what a message leaves open that ended early. -/
def closeIncomplete (complete : Bool) : Sinking Unit :=
  if complete then pure ()
  else do
    cutOpenProperty
    finishAttachment sha256 false

/-- Record that a candidate cannot be represented in the output. -/
def recordUnsupported : Sinking Unit := do
  let sink ← get
  if sink.active.any (fun active => !active.supported) then
    recordEvent "output_unrepresentable" (.outputUnrepresentable .sourceItemUnsupported) none

/-- Give up the batch when a candidate cannot be finished. -/
def finishOrDrop : Sinking Unit :=
  onError finishCandidate fun error => do
    dropBatch
    throw error

def handleMessageEnd (id : Nat) (complete : Bool) : Sinking Unit := do
  let sink ← get
  attempt (requireMessage sink.active id)
  require (sink.pendingNamedProperty = none)
    "message ended after an unmatched named property identity"
  require (complete = false ∨ sink.property = none) "message ended during a property"
  require (complete = false ∨ sink.attachment = none) "message ended before attachment end"
  closeIncomplete sha256 complete
  recordUnsupported
  let sink ← get
  modify fun sink => { sink with active := none }
  let active ← attempt (okOr (.eventSequence "message ended without start") sink.active)
  execute fun database => .ok (database.updateCandidate active.key
    (if complete then .complete else .partialContent)
    (if active.supported then .spooled else .unsupported))
  finishOrDrop
  modify fun sink => { sink with
    recentCandidates := (active.embeddedPath, active.key) :: sink.recentCandidates }

def handleEvent : CatalogEvent → Sinking Unit
  | .unitStart unit => handleUnitStart unit
  | .unitEnd unit => handleUnitEnd unit
  | .folder id parentId name containerClass => handleFolder id parentId name containerClass
  | .messageStart start => startCandidate start
  | .recipient messageId recipient => handleRecipient messageId recipient
  | .attachmentStart messageId attachment => handleAttachmentStart messageId attachment
  | .attachmentMimeProbe messageId index mimeType => do
      discard (requireAttachment "MIME probe" messageId index)
      recordEvent "attachment_mime_probe" (.attachmentMimeProbe index mimeType) none
  | .attachmentData messageId index bytes => handleAttachmentData messageId index bytes
  | .attachmentEnd messageId index => do
      discard (requireAttachment "end" messageId index)
      finishAttachment sha256 true
  | .attachmentAbort messageId index => do
      discard (requireAttachment "abort" messageId index)
      finishAttachment sha256 false
  | .propertyStart descriptor => handlePropertyStart descriptor
  | .namedProperty descriptor identity => handleNamedProperty descriptor identity
  | .propertyData descriptor bytes => handlePropertyData descriptor bytes
  | .propertyEnd descriptor => finishProperty sha256 descriptor
  | .propertyAbort descriptor reason => handlePropertyAbort descriptor reason
  | .messageEnd id complete => handleMessageEnd sha256 id complete
  | .deferredPropertyData _ _ _ | .deferredAttachmentData _ _ _ | .topLevelMetadataEnd
  | .topLevelPayloadEnd =>
      fail "deferred direct payload event reached the durable metadata sink"

end Handle

section Attempts

/-- Give up the attempt of a worker: the open candidate is taken back, and the
candidates that ended are committed. -/
def abortWorkerAttempt : Sinking Unit := do
  modify fun sink => { sink with
    property := none
    attachment := none
    unit := none
    recentCandidates := [] }
  let sink ← get
  match sink.active with
  | none => commitCandidateBatch
  | some active => do
      modify fun sink => { sink with active := none }
      truncatePayloadPack active.packStart
      let aborted ← onError (do abortCandidate; pure true) fun _ => pure false
      if aborted then
        commitCandidateBatch
      else
        onError (transact Connection.rollback) fun error =>
          match error with
          | .sql "cannot rollback - no transaction is active" => pure ()
          | error => throw error
        let sink ← get
        truncatePayloadPack sink.batchPackStart
        modify fun sink => { sink with batchOpen := false, batchCandidates := 0 }

/-- Let go of everything that was not committed, as when the sink is dropped. -/
def rollback : Sinking Unit := do
  modify fun sink => { sink with
    property := none
    pendingNamedProperty := none
    attachment := none
    unit := none
    recentCandidates := []
    replayedSourceIds := []
    active := none }
  let sink ← get
  if sink.batchOpen then
    dropBatch

def checkpoint : Sinking Unit := do
  let sink ← get
  require (sink.active = none) "cannot checkpoint during an active candidate"
  commitCandidateBatch

end Attempts

end PstForge.Job
