import PstForge.Job.Direct
import PstForge.Worker.Payload

/-! # Taking candidates from the pipe

In one pass over the source, the metadata of a top-level message comes with the messages
embedded in it in the middle of their attachments. The ledger wants every message in one
piece, a parent before its children. The metadata of a top-level message is therefore
kept back until it is whole and then handed on message by message, within a budget.
-/

namespace PstForge.Worker

open PstForge.Foundation PstForge.Catalog PstForge.Job

section Buffers

/-- A frame of metadata that is kept back, with its data where it has some. -/
structure BufferedMetadataFrame where
  control : ControlFrame
  payload : Option Bytes
  deriving DecidableEq, Repr

/-- A message that is kept back, with the messages embedded in it. -/
inductive BufferedMetadataMessage where
  | mk (frames : List BufferedMetadataFrame) (children : List BufferedMetadataMessage)

namespace BufferedMetadataMessage

def start (control : ControlFrame) : BufferedMetadataMessage := .mk [⟨control, none⟩] []

def push : BufferedMetadataMessage → BufferedMetadataFrame → BufferedMetadataMessage
  | .mk frames children, frame => .mk (frames ++ [frame]) children

def adopt : (parent child : BufferedMetadataMessage) → BufferedMetadataMessage
  | .mk frames children, child => .mk frames (children ++ [child])

mutual

/-- The frames of a message in the order in which they are handed on: its own, and then
those of each child. -/
def order : BufferedMetadataMessage → List BufferedMetadataFrame
  | .mk frames children => frames ++ orderAll children

def orderAll : List BufferedMetadataMessage → List BufferedMetadataFrame
  | [] => []
  | child :: children => order child ++ orderAll children

end

end BufferedMetadataMessage

/-- What is kept back of the metadata of a message so far, and how much may be. -/
structure DirectMetadataBudget where
  bytes : Nat
  frames : Nat
  maximumBytes : Nat
  maximumFrames : Nat
  deriving DecidableEq, Repr

namespace DirectMetadataBudget

def production : DirectMetadataBudget := ⟨0, 0, 256 * 1024 * 1024, 262144⟩

/-- What is counted for a frame beyond its text and its data. -/
def frameOverhead : Nat := 256

def charge (json : Json) (control : ControlFrame) (payloadBytes : Nat)
    (budget : DirectMetadataBudget) : Except DirectError DirectMetadataBudget := do
  let overflow : DirectError := .protocol "direct metadata graph byte accounting overflow"
  let retained ← okOr overflow (tryFrom 64 (payloadBytes * 2))
  let charge ← okOr overflow (checkedAdd 64 (json.toVec control).length retained)
  let charge ← okOr overflow (checkedAdd 64 charge frameOverhead)
  let bytes ← okOr overflow (checkedAdd 64 budget.bytes charge)
  let frames ← okOr (.protocol "direct metadata graph frame accounting overflow")
    (checkedAdd 64 budget.frames 1)
  refuse (budget.maximumBytes < bytes ∨ budget.maximumFrames < frames)
    (.protocol "direct metadata graph exceeds the bounded supervisor memory budget")
  return { budget with bytes, frames }

end DirectMetadataBudget

end Buffers

section Sending

/-- The event of a control frame that is not followed by data. -/
def controlEvent : ControlFrame → Except WorkerProtocolError CatalogEvent
  | .unitStart unit => .ok (.unitStart unit)
  | .unitEnd unit => .ok (.unitEnd unit)
  | .folder id parentId name containerClass => .ok (.folder id parentId name containerClass)
  | .messageStart start => .ok (.messageStart start)
  | .recipient messageId recipient => .ok (.recipient messageId recipient)
  | .attachmentStart messageId attachment => .ok (.attachmentStart messageId attachment)
  | .attachmentMimeProbe messageId index mimeType =>
      .ok (.attachmentMimeProbe messageId index mimeType)
  | .attachmentEnd messageId index => .ok (.attachmentEnd messageId index)
  | .attachmentAbort messageId index => .ok (.attachmentAbort messageId index)
  | .propertyStart descriptor => .ok (.propertyStart descriptor)
  | .namedProperty descriptor identity => .ok (.namedProperty descriptor identity)
  | .propertyEnd descriptor => .ok (.propertyEnd descriptor)
  | .propertyAbort descriptor reason => .ok (.propertyAbort descriptor reason)
  | .messageEnd id complete => .ok (.messageEnd id complete)
  | .attachmentData _ _ _ | .propertyData _ _ | .deferredPropertyData _ _ _
  | .deferredAttachmentData _ _ _ | .topLevelMetadataEnd | .topLevelPayloadEnd | .hello _
  | .error _ _ | .parserBoundary _ | .complete _ => .error
    (.invalid "invalid control frame dispatch")

/-- The event of a frame that was kept back. -/
def BufferedMetadataFrame.event (frame : BufferedMetadataFrame) :
    Except WorkerProtocolError CatalogEvent :=
  match frame.control, frame.payload with
  | .attachmentData messageId index _, some bytes => .ok (.attachmentData messageId index bytes)
  | .propertyData descriptor _, some bytes => .ok (.propertyData descriptor bytes)
  | control, none => controlEvent control
  | _, some _ =>
      .error (.invalid "buffered metadata payload disagrees with its control frame")

/-- A source with the job it fills. -/
structure OnePass where
  source : DirectProtocolSource
  job : DurableCatalogSink

/-- Operations of a source with its job. -/
abbrev Passing := EStateM DirectError OnePass

variable (sha256 : Bytes → Bytes)

def onSource {α : Type} (program : Sourcing α) : Passing α :=
  zoom OnePass.source (fun pass source => { pass with source }) program

def onJob {α : Type} (program : Sinking α) : Passing α := fun pass =>
  match program pass.job with
  | .ok value job => .ok value { pass with job }
  | .error error job => .error (.worker (.sink error)) { pass with job }

/-- What the ledger of the job answers. -/
def askJob {α : Type} (query : Database → Except JobError α) : Passing α := fun pass =>
  match query pass.job.connection.database with
  | .ok value => .ok value pass
  | .error error => .error (.job error) pass

def sendBuffered (frame : BufferedMetadataFrame) : Passing Unit :=
  match frame.event with
  | .ok event => onJob (handleEvent sha256 event)
  | .error error => throw (.worker error)

/-- Hand on frames in their order. -/
def emit : List BufferedMetadataFrame → Passing Unit
  | [] => pure ()
  | frame :: frames => do
      sendBuffered sha256 frame
      emit frames

end Sending

section Loop

variable (json : Json) (sha256 : Bytes → Bytes)

/-- Keep more of the beginning of a value whose message is not in the ledger yet. -/
def captureUnbound (path : List Nat) (owner : DirectStreamOwner) (bytes : Bytes)
    (unbound : AList fun _ : DirectPathStreamIdentity => Bytes) :
    AList fun _ : DirectPathStreamIdentity => Bytes :=
  unbound.insert ⟨path, owner⟩ ((unbound.lookup ⟨path, owner⟩).getD [] ++ bytes)

/-- Bind the beginnings of values to the candidates at their paths. -/
def bindPrefixes (pathKeys : AList fun _ : List Nat => ItemKey) :
    List (Sigma fun _ : DirectPathStreamIdentity => Bytes) →
    (AList fun _ : DirectStreamIdentity => Bytes) →
    Except DirectError (AList fun _ : DirectStreamIdentity => Bytes)
  | [], prefixes => .ok prefixes
  | ⟨identity, bytes⟩ :: more, prefixes => do
      let itemKey ← okOr (.protocol "metadata prefix has no durable message binding")
        (pathKeys.lookup identity.embeddedPath)
      bindPrefixes pathKeys more (prefixes.insert ⟨itemKey, identity.owner⟩ bytes)

/-- Hand on a whole message, and bind what was captured of it. -/
def acceptMessage (root : BufferedMetadataMessage) (afterRowid : Nat) :
    Passing DirectTopLevelCandidate := do
  emit sha256 root.order
  let candidate ← askJob fun database => .ok (nextDirectTopLevelCandidate afterRowid database)
  let candidate ← attempt (okOr
    (.protocol "worker completed candidate metadata without a durable candidate") candidate)
  if ← askJob (candidateIsTerminal candidate.itemKey) then
    onSource (modify fun source => { source with
      pathKeys := ∅
      prefixes := ∅
      unboundPrefixes := ∅ })
    return candidate
  else
    let tree ← askJob (spooledCandidateTree candidate.itemKey)
    let pass ← get
    let pathKeys := tree.ownerships.foldl (fun keys ownership =>
      keys.insert ownership.embeddedPath ownership.itemKey) ∅
    onSource (modify fun source => { source with pathKeys, prefixes := ∅, unboundPrefixes := ∅ })
    let prefixes ← attempt (bindPrefixes pathKeys pass.source.unboundPrefixes.entries ∅)
    onSource (modify fun source => { source with prefixes })
    return candidate

/-- The counters that stand for a worker that ended early. -/
def boundaryCatalog (database : Database) : WorkerCatalog :=
  let counted := summary database
  { messages := counted.committedCandidates
    recoveredMessages := counted.recoveredCandidates
    orphanMessages := counted.orphanCandidates
    fragmentMessages := counted.fragmentCandidates
    unsupportedMessages := counted.unsupportedCandidates
    issues := 1 }

/-- Add a frame to the message that is open innermost. -/
def bufferMetadataFrame (frame : BufferedMetadataFrame) :
    List BufferedMetadataMessage → Except DirectError (List BufferedMetadataMessage)
  | [] => .error (.protocol "message metadata occurred outside a message")
  | message :: messages => .ok (message.push frame :: messages)

/-- What is kept back while frames are taken: the messages that are open, from the
innermost out, a message that is whole, and the budget. -/
structure Held where
  messages : List BufferedMetadataMessage
  root : Option BufferedMetadataMessage
  budget : DirectMetadataBudget

/-- Close the message that is open innermost. -/
def closeMessage (held : Held) : Except DirectError Held :=
  match held.messages with
  | [] => .error (.protocol "message ended without buffered metadata")
  | completed :: parent :: messages =>
      .ok { held with messages := parent.adopt completed :: messages }
  | [completed] => do
      refuse (held.root.isSome = true)
        (.protocol "multiple top-level messages preceded one metadata boundary")
      return { held with messages := [], root := some completed }

/-- The path of the message that is open innermost. -/
def activePath (detail : String) : Passing (List Nat) := do
  let pass ← get
  attempt (okOr (.protocol detail) pass.source.activePaths.head?)

/-- What a frame of metadata does to what is kept back. -/
def holdFrame (held : Held) : ControlFrame → Passing Held
  | control@(.attachmentData _ index byteLen) => do
      let bytes ← onSource (reading (readPayload byteLen))
      let budget ← attempt (held.budget.charge json control bytes.length)
      let path ← activePath "attachment prefix has no active message"
      onSource (modify fun source => { source with
        unboundPrefixes := captureUnbound path (.attachmentData index) bytes
          source.unboundPrefixes })
      let messages ← attempt (bufferMetadataFrame ⟨control, some bytes⟩ held.messages)
      return { held with messages, budget }
  | control@(.propertyData descriptor byteLen) => do
      let bytes ← onSource (reading (readPayload byteLen))
      let budget ← attempt (if held.messages.isEmpty then .ok held.budget
        else held.budget.charge json control bytes.length)
      match streamOwner descriptor with
      | some owner => do
          let path ← activePath "property prefix has no active message"
          onSource (modify fun source => { source with
            unboundPrefixes := captureUnbound path owner bytes source.unboundPrefixes })
      | none => pure ()
      if held.messages.isEmpty then
        sendBuffered sha256 ⟨control, some bytes⟩
        return { held with budget }
      else
        let messages ← attempt (bufferMetadataFrame ⟨control, some bytes⟩ held.messages)
        return { held with messages, budget }
  | control@(.messageStart start) => do
      let budget ← attempt (held.budget.charge json control 0)
      onSource (modify fun source => { source with
        activePaths := start.metadata.embeddedPath :: source.activePaths })
      return { held with messages := .start control :: held.messages, budget }
  | control@(.messageEnd _ _) => do
      let budget ← attempt (held.budget.charge json control 0)
      let messages ← attempt (bufferMetadataFrame ⟨control, none⟩ held.messages)
      let held ← attempt (closeMessage { held with messages, budget })
      let pass ← get
      attempt (refuse (pass.source.activePaths = [])
        (.protocol "message ended without an active metadata path"))
      onSource (modify fun source => { source with activePaths := source.activePaths.tail })
      return held
  | .deferredPropertyData _ _ _ | .deferredAttachmentData _ _ _ | .topLevelPayloadEnd =>
      throw (.protocol "payload phase began before candidate metadata was consumed")
  | .hello _ => throw (.protocol "worker repeated its protocol hello")
  | control => do
      if held.messages.isEmpty then
        sendBuffered sha256 ⟨control, none⟩
        return held
      else
        let budget ← attempt (held.budget.charge json control 0)
        let messages ← attempt (bufferMetadataFrame ⟨control, none⟩ held.messages)
        return { held with messages, budget }

/-- Take frames until a message is whole or the worker has ended. -/
def takeFrames (afterRowid : Nat) : Nat → Held → Passing (Option DirectTopLevelCandidate)
  | 0, _ => throw endOfPipe
  | frames + 1, held => do
      match ← onSource (nextControl json) with
      | .topLevelMetadataEnd => do
          attempt (refuse (held.messages.isEmpty = false)
            (.protocol "top-level metadata ended inside an active message"))
          match held.root with
          | none => do
              onSource (modify fun source => { source with
                emptyTopLevelBoundaries := saturatingAdd 64 source.emptyTopLevelBoundaries 1 })
              onSource (finishTopLevelMessage json)
              takeFrames afterRowid frames held
          | some root => do
              let candidate ← acceptMessage sha256 root afterRowid
              return some candidate
      | .complete catalog => do
          onSource (modify fun source => { source with
            completedCatalog := some catalog
            complete := true })
          return none
      | .parserBoundary _ => do
          let catalog ← askJob fun database => .ok (boundaryCatalog database)
          onSource (modify fun source => { source with
            completedCatalog := some catalog
            complete := true })
          return none
      | .error kind detail => throw (.reported kind detail)
      | control => do
          let held ← holdFrame json sha256 held control
          takeFrames afterRowid frames held

def nextOnePassCandidate (afterRowid : Nat) : Passing (Option DirectTopLevelCandidate) := do
  let pass ← get
  takeFrames json sha256 afterRowid pass.source.frameBound ⟨[], none, .production⟩

end Loop

end PstForge.Worker
