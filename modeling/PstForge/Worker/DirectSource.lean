import PstForge.Worker.Frame
import PstForge.Writer.Spec
import Mathlib.Data.List.AList

/-! # The source of direct values

When only the beginnings of values are captured, the rest of a value follows the
metadata of its message in the pipe. The source binds what comes from the pipe to the
candidates of the ledger: a value is known by the key of its candidate and its owner.
-/

namespace PstForge.Worker

open PstForge.Foundation PstForge.Catalog PstForge.Job
open PstForge.Writer (DirectBlobSpec)

section Identities

/-- What kind of owner a property has. -/
inductive StreamOwnerKind where
  | message
  | recipient
  | attachment
  deriving DecidableEq, Repr

inductive DirectStreamOwner where
  | attachmentData (index : Nat)
  | property (owner : StreamOwnerKind) (ownerIndex : Option Nat)
      (recordSetIndex entryIndex : Nat)
  deriving DecidableEq, Repr

structure DirectStreamIdentity where
  itemKey : ItemKey
  owner : DirectStreamOwner
  deriving DecidableEq, Repr

structure DirectPathStreamIdentity where
  embeddedPath : List Nat
  owner : DirectStreamOwner
  deriving DecidableEq, Repr

structure DirectMessageBase where
  provenance : CatalogProvenance
  recoveryIndex : Option Nat
  deriving DecidableEq, Repr

/-- An embedded message, by the key of its parent and the attachment it is in. -/
structure EmbeddedIdentity where
  parent : ItemKey
  attachmentIndex : Nat
  base : DirectMessageBase
  deriving DecidableEq, Repr

/-- How a direct source fails. -/
inductive DirectError where
  | protocol (detail : String)
  | absent (owner : DirectStreamOwner) (expectedBytes prefixBytes : Nat) (boundary : String)
  | unowned (embedded : EmbeddedIdentity) (ownershipBindings : Nat) (sourceNodeId : Option Nat)
  | reported (kind : WorkerFailureKind) (detail : Text)
  | worker (error : WorkerProtocolError)
  | job (error : JobError)
  | payloadIo (kind : IoErrorKind)
  deriving DecidableEq, Repr

/-- The owner of a property that is streamed; a folder's properties are not. -/
def streamOwner (descriptor : PropertyDescriptor) : Option DirectStreamOwner :=
  match descriptor.owner with
  | .message _ => property .message none
  | .recipient _ index => property .recipient (some index)
  | .attachment _ index => property .attachment (some index)
  | .folder _ => none
where
  property (owner : StreamOwnerKind) (ownerIndex : Option Nat) : Option DirectStreamOwner :=
    some (.property owner ownerIndex descriptor.recordSetIndex descriptor.entryIndex)

end Identities

section Source

/-- The source of direct values over what is left in the pipe. -/
structure DirectProtocolSource where
  input : Bytes
  directIds : AList fun _ : DirectStreamIdentity => Nat
  embedded : AList fun _ : EmbeddedIdentity => ItemKey
  messages : List (Nat × ItemKey)
  attachments : List (Nat × Nat)
  property : Option PropertyDescriptor
  prefixes : AList fun _ : DirectStreamIdentity => Bytes
  pathKeys : AList fun _ : List Nat => ItemKey
  activePaths : List (List Nat)
  unboundPrefixes : AList fun _ : DirectPathStreamIdentity => Bytes
  completedCatalog : Option WorkerCatalog
  pending : Option ControlFrame
  complete : Bool
  emptyTopLevelBoundaries : Nat

namespace DirectProtocolSource

def new (input : Bytes) : DirectProtocolSource where
  input
  directIds := ∅
  embedded := ∅
  messages := []
  attachments := []
  property := none
  prefixes := ∅
  pathKeys := ∅
  activePaths := []
  unboundPrefixes := ∅
  completedCatalog := none
  pending := none
  complete := false
  emptyTopLevelBoundaries := 0

end DirectProtocolSource

/-- Operations of a direct source. -/
abbrev Sourcing := EStateM DirectError DirectProtocolSource

/-- Read from the pipe of the source. -/
def reading {α : Type} (reader : Reading α) : Sourcing α := fun source =>
  match reader source.input with
  | .ok value input => .ok value { source with input }
  | .error error input => .error (.worker error) { source with input }

def requireThat (condition : Prop) [Decidable condition] (detail : String) : Sourcing Unit :=
  attempt (refuse (¬ condition) (.protocol detail))

/-- Read a control frame, the one that was put back first. -/
def nextControl (json : Json) : Sourcing ControlFrame := do
  let source ← get
  match source.pending with
  | some frame => do
      set { source with pending := none }
      return frame
  | none => reading (readControl json)

def registerStream (identity : DirectStreamIdentity) (directId : Nat) : Sourcing Unit := do
  let source ← get
  set { source with directIds := source.directIds.insert identity directId }
  requireThat ((source.directIds.lookup identity).all (· = directId) = true)
    "direct stream identity maps to multiple catalog identifiers"

def registerEmbeddedMessage (identity : EmbeddedIdentity) (itemKey : ItemKey) :
    Sourcing Unit := do
  let source ← get
  set { source with embedded := source.embedded.insert identity itemKey }
  requireThat ((source.embedded.lookup identity).all (· = itemKey) = true)
    "direct embedded identity maps to multiple catalog items"

end Source

section Consume

/-- The key of an embedded message of the message that is open. -/
def embeddedKey (source : DirectProtocolSource) (start : MessageStart) (parentId index : Nat) :
    Except DirectError ItemKey := do
  let (activeParentId, parent) ←
    okOr (.protocol "direct embedded message has no active parent") source.messages.head?
  refuse (activeParentId ≠ parentId)
    (.protocol "direct embedded message names a non-active parent")
  let identity : EmbeddedIdentity := ⟨parent, index, ⟨start.provenance, start.recoveryIndex⟩⟩
  let bindings := source.embedded.keys.countP fun other =>
    other.parent = parent ∧ other.attachmentIndex = index
  okOr (.unowned identity bindings (if start.id = 0 then none else some start.id))
    (source.embedded.lookup identity)

/-- The messages and the attachments that are open stand in their lists from the
innermost out. -/
def startMessage (start : MessageStart) (topLevelItemKey : Option ItemKey) :
    Sourcing ItemKey := do
  let source ← get
  let key ← attempt (match start.metadata.parentMessageId, start.metadata.parentAttachmentIndex with
    | none, none =>
        okOr (.protocol "direct top-level message has no catalog binding") topLevelItemKey
    | some parentId, some index => do
        refuse (topLevelItemKey.isSome = true)
          (.protocol "direct embedded message has a top-level catalog binding")
        embeddedKey source start parentId index
    | _, _ => .error (.protocol "direct worker message has incomplete embedded ownership"))
  modify fun source => { source with
    messages := (start.id, key) :: source.messages
    activePaths := start.metadata.embeddedPath :: source.activePaths
    pathKeys := source.pathKeys.insert start.metadata.embeddedPath key }
  return key

def validateOwner (source : DirectProtocolSource) : PropertyOwner → Except DirectError Unit
  | .message messageId | .recipient messageId _ => ofMessage messageId
  | .attachment messageId index => do
      ofMessage messageId
      refuse (source.attachments.head? ≠ some (messageId, index))
        (.protocol "worker property names a non-active attachment")
  | .folder _ => refuse (¬ (source.messages = [] ∧ source.attachments = []))
      (.protocol "direct message stream contains a folder property")
where
  ofMessage (messageId : Nat) : Except DirectError Unit :=
    refuse (source.messages.head?.map (·.1) ≠ some messageId)
      (.protocol "worker property names a non-active message")

/-- The value that the data behind a frame belongs to, if it does to one. -/
def currentDataIdentity (source : DirectProtocolSource) :
    ControlFrame → Except DirectError (Option DirectStreamIdentity)
  | .attachmentData messageId index _ => do
      refuse (source.attachments.head? ≠ some (messageId, index))
        (.protocol "worker attachment payload has inconsistent ownership")
      let (_, itemKey) ←
        okOr (.protocol "attachment data has no active message") source.messages.head?
      return some ⟨itemKey, .attachmentData index⟩
  | .propertyData descriptor _ => do
      validateOwner source descriptor.owner
      refuse (source.property ≠ some descriptor)
        (.protocol "worker property payload has inconsistent ownership")
      match streamOwner descriptor with
      | none => return none
      | some owner => do
          let (_, itemKey) ←
            okOr (.protocol "property data has no active message") source.messages.head?
          return some ⟨itemKey, owner⟩
  | .deferredAttachmentData embeddedPath index _ => do
      let itemKey ← okOr (.protocol "deferred attachment has no message binding")
        (source.pathKeys.lookup embeddedPath)
      return some ⟨itemKey, .attachmentData index⟩
  | .deferredPropertyData embeddedPath descriptor _ => do
      let itemKey ← okOr (.protocol "deferred property has no message binding")
        (source.pathKeys.lookup embeddedPath)
      return (streamOwner descriptor).map fun owner => ⟨itemKey, owner⟩
  | _ => return none

/-- Keep more of the beginning of a value. -/
def extendPrefix (identity : DirectStreamIdentity) (bytes : Bytes) : Sourcing Unit :=
  modify fun source => { source with
    prefixes := source.prefixes.insert identity
      ((source.prefixes.lookup identity).getD [] ++ bytes) }

/-- Follow a frame without a use for it. -/
def consumeControl : ControlFrame → Sourcing Unit
  | .messageStart start => discard (startMessage start none)
  | .messageEnd id _ => do
      let source ← get
      let (activeId, _) ← attempt (okOr (.protocol "worker ended an unknown message")
        source.messages.head?)
      modify fun source => { source with messages := source.messages.tail }
      requireThat (activeId = id) "worker ended a different message than the active message"
      requireThat (source.activePaths ≠ []) "worker ended a message without an active path"
      modify fun source => { source with activePaths := source.activePaths.tail }
  | .attachmentStart messageId attachment => do
      let source ← get
      requireThat (source.messages.head?.map (·.1) = some messageId)
        "worker attachment names a non-active message"
      modify fun source => { source with
        attachments := (messageId, attachment.index) :: source.attachments }
  | .attachmentEnd messageId index | .attachmentAbort messageId index => do
      let source ← get
      modify fun source => { source with attachments := source.attachments.tail }
      requireThat (source.attachments.head? = some (messageId, index))
        "worker attachment boundaries are inconsistent"
  | .attachmentMimeProbe messageId index _ => do
      let source ← get
      requireThat (source.attachments.head? = some (messageId, index))
        "worker attachment MIME probe has inconsistent ownership"
  | .propertyStart descriptor => do
      let source ← get
      attempt (validateOwner source descriptor.owner)
      modify fun source => { source with property := some descriptor }
      requireThat (source.property = none) "worker nested property streams"
  | .propertyEnd descriptor | .propertyAbort descriptor _ => do
      let source ← get
      modify fun source => { source with property := none }
      requireThat (source.property = some descriptor)
        "worker property boundaries are inconsistent"
  | frame@(.attachmentData _ _ byteLen) => do
      let source ← get
      let identity ← attempt (currentDataIdentity source frame)
      let identity ← attempt (okOr (.protocol "attachment prefix has no stream identity") identity)
      let bytes ← reading (readPayload byteLen)
      extendPrefix identity bytes
  | frame@(.propertyData descriptor byteLen) => do
      let source ← get
      attempt (validateOwner source descriptor.owner)
      requireThat (source.property = some descriptor)
        "worker property payload has inconsistent ownership"
      let bytes ← reading (readPayload byteLen)
      match ← attempt (currentDataIdentity source frame) with
      | some identity => extendPrefix identity bytes
      | none => pure ()
  | .complete _ => modify fun source => { source with complete := true }
  | .parserBoundary _ =>
      throw (.protocol "direct worker reached a parser boundary inside a top-level message")
  | .error kind detail => throw (.reported kind detail)
  | .hello _ => throw (.protocol "worker repeated its protocol hello")
  | .unitStart _ | .unitEnd _ | .folder _ _ _ _ | .recipient _ _ | .namedProperty _ _ => pure ()
  | .deferredPropertyData _ _ byteLen | .deferredAttachmentData _ _ byteLen =>
      reading (discardPayload byteLen)
  | .topLevelMetadataEnd | .topLevelPayloadEnd =>
      throw (.protocol "direct candidate boundary occurred out of sequence")

end Consume

end PstForge.Worker
