import PstForge.Worker.OnePass

/-! # The metadata of a top-level message

The metadata of a message is its start, frames about it with the metadata of embedded
messages between them, and its end. What is kept back of it is a tree of the same shape,
and every beginning of a value is captured under the path of its message.
-/

namespace PstForge.Worker

open PstForge.Foundation PstForge.Catalog PstForge.Job

section Trees

/-- What stands between the start and the end of a message: frames about the message,
and embedded messages. -/
inductive MetadataBody where
  | nil
  | frame (frame : Frame) (rest : MetadataBody)
  | message (start : MessageStart) (body : MetadataBody) (complete : Bool) (rest : MetadataBody)

def startFrame (start : MessageStart) : Frame := ⟨.messageStart start, []⟩

def endFrame (start : MessageStart) (complete : Bool) : Frame := ⟨.messageEnd start.id complete, []⟩

namespace MetadataBody

/-- The frames as they are received. -/
def received : MetadataBody → List Frame
  | .nil => []
  | .frame item rest => item :: rest.received
  | .message start body complete rest =>
      startFrame start :: (body.received ++ endFrame start complete :: rest.received)

/-- The frames about the message itself. -/
def own : MetadataBody → List Frame
  | .nil => []
  | .frame item rest => item :: rest.own
  | .message _ _ _ rest => rest.own

end MetadataBody

/-- A message with its own frames alone. -/
structure OwnMessage where
  start : MessageStart
  own : List Frame
  complete : Bool

def OwnMessage.frames (message : OwnMessage) : List Frame :=
  startFrame message.start :: (message.own ++ [endFrame message.start message.complete])

/-- The embedded messages, each before those that are embedded in it. -/
def MetadataBody.nested : MetadataBody → List OwnMessage
  | .nil => []
  | .frame _ rest => rest.nested
  | .message start body complete rest =>
      ⟨start, body.own, complete⟩ :: (body.nested ++ rest.nested)

/-- A message with everything between its start and its end. -/
structure MetadataMessage where
  start : MessageStart
  body : MetadataBody
  complete : Bool

namespace MetadataMessage

def received (message : MetadataMessage) : List Frame :=
  startFrame message.start ::
    (message.body.received ++ [endFrame message.start message.complete])

/-- The message and all that are embedded in it, each before those embedded in it. -/
def messages (message : MetadataMessage) : List OwnMessage :=
  ⟨message.start, message.body.own, message.complete⟩ :: message.body.nested

/-- The frames message by message. -/
def sequenced (message : MetadataMessage) : List Frame :=
  message.messages.flatMap OwnMessage.frames

end MetadataMessage

end Trees

section Form

/-- Frames about a message. -/
def ControlFrame.isMetadata : ControlFrame → Bool
  | .recipient _ _ | .attachmentStart _ _ | .attachmentMimeProbe _ _ _ | .attachmentData _ _ _
  | .attachmentEnd _ _ | .attachmentAbort _ _ | .propertyStart _ | .namedProperty _ _
  | .propertyData _ _ | .propertyEnd _ | .propertyAbort _ _ => true
  | _ => false

/-- Frames that come outside of messages. -/
def ControlFrame.isOutside : ControlFrame → Bool
  | .unitStart _ | .unitEnd _ | .folder _ _ _ _ => true
  | .propertyStart descriptor | .namedProperty descriptor _ | .propertyData descriptor _
  | .propertyEnd descriptor | .propertyAbort descriptor _ => descriptor.owner.isFolder
  | _ => false

/-- A frame that can be sent with metadata: its data is small. -/
structure Frame.Short (json : Json) (frame : Frame) : Prop where
  sendable : frame.Sendable json
  small : frame.payload.length ≤ streamChunkBytes

/-- The paths of the messages that are embedded directly. -/
def MetadataBody.children : MetadataBody → List (List Nat)
  | .nil => []
  | .frame _ rest => rest.children
  | .message start _ _ rest => start.metadata.embeddedPath :: rest.children

/-- The metadata of a message at a path: what is embedded in it is in its attachments,
and at most one message in each. -/
def MetadataBody.WellFormed (json : Json) (path : List Nat) : MetadataBody → Prop
  | .nil => True
  | .frame item rest =>
      item.control.isMetadata = true ∧ item.Short json ∧ rest.WellFormed json path
  | .message start body complete rest =>
      Legible json (.messageStart start) ∧ Legible json (.messageEnd start.id complete) ∧
        start.metadata.parentMessageId.isSome = true ∧
        (∃ index, start.metadata.embeddedPath = path ++ [index]) ∧
        start.metadata.embeddedPath ∉ rest.children ∧
        body.WellFormed json start.metadata.embeddedPath ∧ rest.WellFormed json path

structure MetadataMessage.WellFormed (json : Json) (message : MetadataMessage) : Prop where
  startLegible : Legible json (.messageStart message.start)
  endLegible : Legible json (.messageEnd message.start.id message.complete)
  topLevel : message.start.metadata.parentMessageId = none
  body : message.body.WellFormed json message.start.metadata.embeddedPath

end Form

section Buffering

/-- A frame as it is kept back. -/
def Frame.buffered (frame : Frame) : BufferedMetadataFrame :=
  ⟨frame.control, frame.control.byteLen.map fun _ => frame.payload⟩

/-- What frames cost of the budget. -/
def chargeAll (json : Json) : List Frame → DirectMetadataBudget →
    Except DirectError DirectMetadataBudget
  | [], budget => .ok budget
  | frame :: more, budget => do
      let budget ← budget.charge json frame.control frame.payload.length
      chargeAll json more budget

/-- The value that a frame has the beginning of. -/
def Frame.owner (frame : Frame) : Option DirectStreamOwner :=
  match frame.control with
  | .attachmentData _ index _ => some (.attachmentData index)
  | .propertyData descriptor _ => streamOwner descriptor
  | _ => none

/-- What a frame adds to the beginnings of values. -/
def captureFrame (path : List Nat) (frame : Frame)
    (unbound : AList fun _ : DirectPathStreamIdentity => Bytes) :
    AList fun _ : DirectPathStreamIdentity => Bytes :=
  match frame.owner with
  | some owner => captureUnbound path owner frame.payload unbound
  | none => unbound

/-- What a message at a path, and those embedded in it, add to the beginnings of values. -/
def captureBody (path : List Nat) : MetadataBody →
    (AList fun _ : DirectPathStreamIdentity => Bytes) →
    AList fun _ : DirectPathStreamIdentity => Bytes
  | .nil, unbound => unbound
  | .frame item rest, unbound => captureBody path rest (captureFrame path item unbound)
  | .message start body _ rest, unbound =>
      captureBody path rest (captureBody start.metadata.embeddedPath body unbound)

/-- What is kept back of a message after more of it. -/
def holdBody : MetadataBody → BufferedMetadataMessage → BufferedMetadataMessage
  | .nil, held => held
  | .frame item rest, held => holdBody rest (held.push item.buffered)
  | .message start body complete rest, held =>
      holdBody rest (held.adopt
        ((holdBody body (.start (.messageStart start))).push (endFrame start complete).buffered))

theorem chargeAll_append (json : Json) (first second : List Frame)
    (budget : DirectMetadataBudget) :
    chargeAll json (first ++ second) budget =
      (do chargeAll json second (← chargeAll json first budget)) := by
  induction first generalizing budget with
  | nil => rfl
  | cons frame more ih =>
      rw [List.cons_append, chargeAll, chargeAll]
      cases budget.charge json frame.control frame.payload.length with
      | error error => rfl
      | ok next => exact ih next

/-- What a frame costs of the budget. -/
def Frame.cost (json : Json) (frame : Frame) : Nat :=
  (json.toVec frame.control).length + frame.payload.length * 2 + DirectMetadataBudget.frameOverhead

/-- Frames that cost no more than the budget has left are within it. -/
theorem chargeAll_within (json : Json) {frames : List Frame} {budget : DirectMetadataBudget}
    (bytes : budget.bytes + (frames.map (Frame.cost json)).sum ≤ budget.maximumBytes)
    (count : budget.frames + frames.length ≤ budget.maximumFrames)
    (sane : budget.maximumBytes < wordCount 64 ∧ budget.maximumFrames < wordCount 64) :
    ∃ charged, chargeAll json frames budget = .ok charged := by
  induction frames generalizing budget with
  | nil => exact ⟨budget, rfl⟩
  | cons frame more ih =>
      rw [List.map_cons, List.sum_cons] at bytes
      rw [List.length_cons] at count
      obtain ⟨saneBytes, saneFrames⟩ := sane
      have cost : Frame.cost json frame = (json.toVec frame.control).length +
        frame.payload.length * 2 + DirectMetadataBudget.frameOverhead := rfl
      have step : budget.charge json frame.control frame.payload.length = .ok { budget with
          bytes := budget.bytes + frame.cost json, frames := budget.frames + 1 } := by
        simp only [DirectMetadataBudget.charge, bind_eq_ok, okOr_eq_ok, tryFrom_eq_some,
          checkedAdd_eq_some, refuse_eq_ok, not_or, not_lt]
        refine ⟨_, ⟨rfl, ?_⟩, _, ⟨rfl, ?_⟩, _, ⟨rfl, ?_⟩, _, ⟨rfl, ?_⟩, _, ⟨rfl, ?_⟩, (),
          ⟨?_, ?_⟩, rfl⟩
        all_goals omega
      rw [chargeAll, step]
      refine ih ?_ ?_ ⟨saneBytes, saneFrames⟩
      · dsimp only
        omega
      · dsimp only
        omega

/-- A source while frames of a message are taken. -/
def DirectProtocolSource.holding (source : DirectProtocolSource) (input : Bytes)
    (paths : List (List Nat)) (unbound : AList fun _ : DirectPathStreamIdentity => Bytes) :
    DirectProtocolSource :=
  { source with pending := none, input, activePaths := paths, unboundPrefixes := unbound }

variable {json : Json}

theorem ahead_holding (source : DirectProtocolSource) (frames : List Frame) (rest : Bytes)
    (paths : List (List Nat)) (unbound : AList fun _ : DirectPathStreamIdentity => Bytes) :
    Ahead json (source.holding (wire json frames ++ rest) paths unbound) frames rest := rfl

theorem readPayload_onSource (source : DirectProtocolSource) (job : DurableCatalogSink)
    {payload : Bytes} {byteLen : Nat} (length : payload.length = byteLen)
    (small : byteLen ≤ streamChunkBytes) (rest : Bytes) (paths : List (List Nat))
    (unbound : AList fun _ : DirectPathStreamIdentity => Bytes) :
    onSource (reading (readPayload byteLen))
        ⟨source.holding (payload ++ rest) paths unbound, job⟩ =
      .ok payload ⟨source.holding rest paths unbound, job⟩ := by
  simp only [onSource, zoom, reading, DirectProtocolSource.holding, readPayload_append length small]

/-- A frame about the open message is kept back, and what it has of a value captured. -/
theorem holdFrame_metadata (sha256 : Bytes → Bytes) (source : DirectProtocolSource)
    (job : DurableCatalogSink) {frame : Frame} (metadata : frame.control.isMetadata = true)
    (short : frame.Short json) (rest : Bytes) (path : List Nat) (paths : List (List Nat))
    (unbound : AList fun _ : DirectPathStreamIdentity => Bytes) (top : BufferedMetadataMessage)
    (stack : List BufferedMetadataMessage) (root : Option BufferedMetadataMessage)
    (budget : DirectMetadataBudget) :
    match budget.charge json frame.control frame.payload.length with
    | .ok charged => holdFrame json sha256 ⟨top :: stack, root, budget⟩ frame.control
          ⟨source.holding (frame.payload ++ rest) (path :: paths) unbound, job⟩ =
        .ok ⟨top.push frame.buffered :: stack, root, charged⟩
          ⟨source.holding rest (path :: paths) (captureFrame path frame unbound), job⟩
    | .error error => ∃ source', holdFrame json sha256 ⟨top :: stack, root, budget⟩ frame.control
          ⟨source.holding (frame.payload ++ rest) (path :: paths) unbound, job⟩ =
        .error error ⟨source', job⟩ := by
  obtain ⟨control, payload⟩ := frame
  have announced := short.sendable.announced
  have small := short.small
  dsimp only at metadata announced small ⊢
  cases control <;> simp only [ControlFrame.isMetadata, Bool.false_eq_true] at metadata
  case attachmentData messageId index byteLen =>
    replace announced : payload.length = byteLen := announced
    rw [announced] at small
    simp only [holdFrame, run_bind, readPayload_onSource source job announced small]
    cases budget.charge json (.attachmentData messageId index byteLen) payload.length with
    | error error => exact ⟨_, rfl⟩
    | ok charged => rfl
  case propertyData descriptor byteLen =>
    replace announced : payload.length = byteLen := announced
    rw [announced] at small
    simp only [holdFrame, run_bind, readPayload_onSource source job announced small,
      List.isEmpty_cons,
      Bool.false_eq_true, ↓reduceIte, captureFrame, Frame.owner]
    cases budget.charge json (.propertyData descriptor byteLen) payload.length with
    | error error => exact ⟨_, rfl⟩
    | ok charged =>
        dsimp only [attempt]
        cases streamOwner descriptor with
        | none => rfl
        | some owner => rfl
  -- the others have no data
  all_goals
    obtain rfl : payload = [] := List.length_eq_zero_iff.mp announced
    simp only [holdFrame, List.isEmpty_cons, Bool.false_eq_true, ↓reduceIte, run_bind,
      List.length_nil, List.nil_append]
    generalize budget.charge json _ 0 = charge
    cases charge with
    | error error => exact ⟨_, rfl⟩
    | ok charged => rfl

/-- Frames that do not end the taking of frames. -/
def ControlFrame.goesOn : ControlFrame → Bool
  | .topLevelMetadataEnd | .complete _ | .parserBoundary _ | .error _ _ => false
  | _ => true

/-- A frame is taken, and what is kept back changes. -/
theorem takeFrames_step (sha256 : Bytes → Bytes) (job : DurableCatalogSink)
    {source : DirectProtocolSource} {frame : Frame} {more : List Frame} {rest : Bytes}
      {paths : List (List Nat)}
    {unbound : AList fun _ : DirectPathStreamIdentity => Bytes} (afterRowid fuel : Nat)
      (held : Held)
    (ahead : Ahead json source (frame :: more) rest) (active : source.activePaths = paths)
    (captured : source.unboundPrefixes = unbound) (legible : Legible json frame.control)
    (goesOn : frame.control.goesOn = true) :
    takeFrames json sha256 afterRowid (fuel + 1) held ⟨source, job⟩ =
      (do takeFrames json sha256 afterRowid fuel (← holdFrame json sha256 held frame.control))
        ⟨source.holding (frame.payload ++ (wire json more ++ rest)) paths unbound, job⟩ := by
  have taken : onSource (nextControl json) ⟨source, job⟩ = .ok frame.control
      ⟨source.holding (frame.payload ++ (wire json more ++ rest)) paths unbound, job⟩ := by
    rw [← active, ← captured]
    simp only [onSource, zoom, ahead.next legible]
    rfl
  rw [takeFrames, run_bind, taken]
  cases control : frame.control <;> simp only [control, ControlFrame.goesOn,
    Bool.false_eq_true] at goesOn
  all_goals rfl

/-- A message starts within what is kept back. -/
theorem holdFrame_start (json : Json) (sha256 : Bytes → Bytes) (source : DirectProtocolSource)
    (job : DurableCatalogSink) (start : MessageStart) (input : Bytes) (paths : List (List Nat))
    (unbound : AList fun _ : DirectPathStreamIdentity => Bytes) (held : Held) :
    match held.budget.charge json (.messageStart start) 0 with
    | .ok charged => holdFrame json sha256 held (.messageStart start)
          ⟨source.holding input paths unbound, job⟩ =
        .ok { held with messages := .start (.messageStart start) :: held.messages, budget :=
          charged }
          ⟨source.holding input (start.metadata.embeddedPath :: paths) unbound, job⟩
    | .error error => ∃ source', holdFrame json sha256 held (.messageStart start)
          ⟨source.holding input paths unbound, job⟩ = .error error ⟨source', job⟩ := by
  simp only [holdFrame, run_bind]
  cases held.budget.charge json (.messageStart start) 0 with
  | error error => exact ⟨_, rfl⟩
  | ok charged => rfl

/-- An embedded message ends and is kept with its parent. -/
theorem holdFrame_end (json : Json) (sha256 : Bytes → Bytes) (source : DirectProtocolSource)
    (job : DurableCatalogSink) (start : MessageStart) (complete : Bool) (input : Bytes)
      (path : List Nat)
    (paths : List (List Nat)) (unbound : AList fun _ : DirectPathStreamIdentity => Bytes)
    (child parent : BufferedMetadataMessage) (stack : List BufferedMetadataMessage)
    (root : Option BufferedMetadataMessage) (budget : DirectMetadataBudget) :
    match budget.charge json (.messageEnd start.id complete) 0 with
    | .ok charged => holdFrame json sha256 ⟨child :: parent :: stack, root, budget⟩
          (.messageEnd start.id complete) ⟨source.holding input (path :: paths) unbound, job⟩ =
        .ok ⟨parent.adopt (child.push (endFrame start complete).buffered) :: stack, root, charged⟩
          ⟨source.holding input paths unbound, job⟩
    | .error error => ∃ source', holdFrame json sha256 ⟨child :: parent :: stack, root, budget⟩
          (.messageEnd start.id complete) ⟨source.holding input (path :: paths) unbound, job⟩ =
        .error error ⟨source', job⟩ := by
  simp only [holdFrame, run_bind]
  cases budget.charge json (.messageEnd start.id complete) 0 with
  | error error => exact ⟨_, rfl⟩
  | ok charged => rfl

/-- Everything between the start and the end of a message is kept back, or it exceeds the
budget. -/
theorem takeFrames_body (sha256 : Bytes → Bytes) (job : DurableCatalogSink)
    {source : DirectProtocolSource} {body : MetadataBody} {path : List Nat}
    (wellFormed : body.WellFormed json path) {paths : List (List Nat)} {more : List Frame}
      {rest : Bytes} (afterRowid fuel : Nat)
    (top : BufferedMetadataMessage) (stack : List BufferedMetadataMessage)
    (root : Option BufferedMetadataMessage) (budget : DirectMetadataBudget)
    {unbound : AList fun _ : DirectPathStreamIdentity => Bytes}
    (ahead : Ahead json source (body.received ++ more) rest)
    (active : source.activePaths = path :: paths) (captured : source.unboundPrefixes = unbound) :
    match chargeAll json body.received budget with
    | .ok charged => ∃ source', takeFrames json sha256 afterRowid (body.received.length + fuel)
          ⟨top :: stack, root, budget⟩ ⟨source, job⟩ =
        takeFrames json sha256 afterRowid fuel ⟨holdBody body top :: stack, root, charged⟩
          ⟨source', job⟩ ∧ Ahead json source' more rest ∧
        source'.activePaths = path :: paths ∧
        source'.unboundPrefixes = captureBody path body unbound
    | .error error => ∃ source', takeFrames json sha256 afterRowid (body.received.length + fuel)
          ⟨top :: stack, root, budget⟩ ⟨source, job⟩ = .error error ⟨source', job⟩ := by
  induction body generalizing source path paths more fuel top stack budget unbound with
  | nil =>
      refine ⟨source, ?_, ahead, active, captured⟩
      simp [MetadataBody.received, holdBody]
  | frame item rest' ih =>
      obtain ⟨metadata, short, wellFormed⟩ := wellFormed
      replace ahead : Ahead json source (item :: (rest'.received ++ more)) rest := ahead
      have goesOn : item.control.goesOn = true := by
        revert metadata
        cases item.control <;> simp [ControlFrame.isMetadata, ControlFrame.goesOn]
      have step := takeFrames_step sha256 job afterRowid
        (rest'.received.length + fuel) ⟨top :: stack, root, budget⟩ ahead active captured
        short.sendable.legible goesOn
      have hold := holdFrame_metadata sha256 source job metadata short
        (wire json (rest'.received ++ more) ++ rest) path paths unbound top stack root budget
      have length : (MetadataBody.frame item rest').received.length + fuel =
          rest'.received.length + fuel + 1 := by
        simp only [MetadataBody.received, List.length_cons]
        omega
      rw [length, step, run_bind, MetadataBody.received, chargeAll]
      cases charge : budget.charge json item.control item.payload.length with
      | error error =>
          rw [charge] at hold
          obtain ⟨source', failed⟩ := hold
          rw [failed]
          exact ⟨source', rfl⟩
      | ok charged =>
          rw [charge] at hold
          rw [hold]
          exact ih wellFormed fuel (top.push item.buffered) stack charged
            (ahead_holding _ _ _ _ _) rfl rfl
  | message start body complete rest' ihBody ihRest =>
      obtain ⟨startLegible, endLegible, -, -, -, inner, wellFormed⟩ := wellFormed
      have split : (MetadataBody.message start body complete rest').received ++ more =
          startFrame start :: (body.received ++
            (endFrame start complete :: (rest'.received ++ more))) := by
        simp [MetadataBody.received]
      have length : (MetadataBody.message start body complete rest').received.length + fuel =
          body.received.length + (rest'.received.length + fuel + 1) + 1 := by
        simp only [MetadataBody.received, List.length_cons, List.length_append]
        omega
      rw [split] at ahead
      rw [length, takeFrames_step sha256 job afterRowid _ ⟨top :: stack, root, budget⟩ ahead active
        captured startLegible rfl, run_bind, MetadataBody.received, chargeAll]
      have begins := holdFrame_start json sha256 source job start
        ((startFrame start).payload ++ (wire json (body.received ++
          (endFrame start complete :: (rest'.received ++ more))) ++ rest)) (path :: paths) unbound
        ⟨top :: stack, root, budget⟩
      simp only [startFrame, List.length_nil, List.nil_append] at begins ⊢
      cases charge : budget.charge json (.messageStart start) 0 with
      | error error =>
          rw [charge] at begins
          obtain ⟨source', failed⟩ := begins
          rw [failed]
          exact ⟨source', rfl⟩
      | ok charged =>
          rw [charge] at begins
          rw [begins]
          -- what is between its start and its end
          have inside := ihBody inner (rest'.received.length + fuel + 1)
            (.start (.messageStart start)) (top :: stack) charged
            (ahead_holding source (body.received ++
              (endFrame start complete :: (rest'.received ++ more))) rest
              (start.metadata.embeddedPath :: path :: paths) unbound) rfl rfl
          dsimp only [bind, Except.bind]
          rw [chargeAll_append]
          dsimp only [bind, Except.bind]
          cases spent : chargeAll json body.received charged with
          | error error =>
              rw [spent] at inside
              exact inside
          | ok spent' =>
              rw [spent] at inside
              obtain ⟨middle, went, ahead, active, captured⟩ := inside
              replace captured : middle.unboundPrefixes =
                captureBody start.metadata.embeddedPath body unbound := captured
              dsimp only
              rw [went, chargeAll, takeFrames_step sha256 job afterRowid _ _ ahead active captured
                endLegible rfl, run_bind]
              have ends := holdFrame_end json sha256 middle job start complete
                ([] ++ (wire json (rest'.received ++ more) ++ rest)) start.metadata.embeddedPath
                (path :: paths) (captureBody start.metadata.embeddedPath body unbound)
                (holdBody body (.start (.messageStart start))) top stack root spent'
              simp only [endFrame, List.length_nil, List.nil_append] at ends ⊢
              cases charge : spent'.charge json (.messageEnd start.id complete) 0 with
              | error error =>
                  rw [charge] at ends
                  obtain ⟨source', failed⟩ := ends
                  rw [failed]
                  exact ⟨source', rfl⟩
              | ok last =>
                  rw [charge] at ends
                  rw [ends]
                  exact ihRest wellFormed fuel _ stack last (ahead_holding _ _ _ _ _) rfl rfl

/-- A top-level message ends and is whole. -/
theorem holdFrame_whole (json : Json) (sha256 : Bytes → Bytes) (source : DirectProtocolSource)
    (job : DurableCatalogSink) (start : MessageStart) (complete : Bool) (input : Bytes)
    (path : List Nat) (unbound : AList fun _ : DirectPathStreamIdentity => Bytes)
    (message : BufferedMetadataMessage) (budget : DirectMetadataBudget) :
    match budget.charge json (.messageEnd start.id complete) 0 with
    | .ok charged => holdFrame json sha256 ⟨[message], none, budget⟩
          (.messageEnd start.id complete) ⟨source.holding input [path] unbound, job⟩ =
        .ok ⟨[], some (message.push (endFrame start complete).buffered), charged⟩
          ⟨source.holding input [] unbound, job⟩
    | .error error => ∃ source', holdFrame json sha256 ⟨[message], none, budget⟩
          (.messageEnd start.id complete) ⟨source.holding input [path] unbound, job⟩ =
        .error error ⟨source', job⟩ := by
  simp only [holdFrame, run_bind]
  cases budget.charge json (.messageEnd start.id complete) 0 with
  | error error => exact ⟨_, rfl⟩
  | ok charged => rfl

/-- What is kept back of a message from its start to its end. -/
def holdMessage (start : MessageStart) (body : MetadataBody) (complete : Bool) :
    BufferedMetadataMessage :=
  (holdBody body (.start (.messageStart start))).push (endFrame start complete).buffered

/-- A top-level message is kept back whole, or it exceeds the budget. -/
theorem takeFrames_message (sha256 : Bytes → Bytes) (job : DurableCatalogSink)
    {source : DirectProtocolSource} {message : MetadataMessage}
    (wellFormed : message.WellFormed json) {more : List Frame} {rest : Bytes}
    (afterRowid fuel : Nat) (budget : DirectMetadataBudget)
    {unbound : AList fun _ : DirectPathStreamIdentity => Bytes}
    (ahead : Ahead json source (message.received ++ more) rest) (active : source.activePaths = [])
    (captured : source.unboundPrefixes = unbound) :
    match chargeAll json message.received budget with
    | .ok charged => ∃ source', takeFrames json sha256 afterRowid (message.received.length + fuel)
          ⟨[], none, budget⟩ ⟨source, job⟩ =
        takeFrames json sha256 afterRowid fuel
          ⟨[], some (holdMessage message.start message.body message.complete), charged⟩
          ⟨source', job⟩ ∧ Ahead json source' more rest ∧ source'.activePaths = [] ∧
        source'.unboundPrefixes =
          captureBody message.start.metadata.embeddedPath message.body unbound
    | .error error => ∃ source', takeFrames json sha256 afterRowid
          (message.received.length + fuel) ⟨[], none, budget⟩ ⟨source, job⟩ =
        .error error ⟨source', job⟩ := by
  obtain ⟨start, body, complete⟩ := message
  have split : (MetadataMessage.mk start body complete).received ++ more =
      startFrame start :: (body.received ++ (endFrame start complete :: more)) := by
    simp [MetadataMessage.received]
  have length : (MetadataMessage.mk start body complete).received.length + fuel =
      body.received.length + (fuel + 1) + 1 := by
    simp only [MetadataMessage.received, List.length_cons, List.length_append, List.length_nil]
    omega
  rw [split] at ahead
  rw [length, takeFrames_step sha256 job afterRowid _ ⟨[], none, budget⟩ ahead active captured
    wellFormed.startLegible rfl, run_bind, MetadataMessage.received, chargeAll]
  have begins := holdFrame_start json sha256 source job start
    ((startFrame start).payload ++ (wire json (body.received ++
      (endFrame start complete :: more)) ++ rest)) [] unbound ⟨[], none, budget⟩
  simp only [startFrame, List.length_nil, List.nil_append] at begins ⊢
  cases charge : budget.charge json (.messageStart start) 0 with
  | error error =>
      rw [charge] at begins
      obtain ⟨source', failed⟩ := begins
      rw [failed]
      exact ⟨source', rfl⟩
  | ok charged =>
      rw [charge] at begins
      rw [begins]
      have inside := takeFrames_body sha256 job wellFormed.body afterRowid (fuel + 1)
        (.start (.messageStart start)) [] none charged
        (ahead_holding source (body.received ++ (endFrame start complete :: more)) rest
          [start.metadata.embeddedPath] unbound) rfl rfl
      dsimp only [bind, Except.bind]
      rw [chargeAll_append]
      dsimp only [bind, Except.bind]
      cases spent : chargeAll json body.received charged with
      | error error =>
          rw [spent] at inside
          exact inside
      | ok spent' =>
          rw [spent] at inside
          obtain ⟨middle, went, ahead, active, captured⟩ := inside
          replace captured : middle.unboundPrefixes =
            captureBody start.metadata.embeddedPath body unbound := captured
          dsimp only
          rw [went, chargeAll, takeFrames_step sha256 job afterRowid _ _ ahead active captured
            wellFormed.endLegible rfl, run_bind]
          have ends := holdFrame_whole json sha256 middle job start complete
            ([] ++ (wire json more ++ rest)) start.metadata.embeddedPath
            (captureBody start.metadata.embeddedPath body unbound)
            (holdBody body (.start (.messageStart start))) spent'
          simp only [endFrame, List.length_nil, List.nil_append] at ends ⊢
          cases charge : spent'.charge json (.messageEnd start.id complete) 0 with
          | error error =>
              rw [charge] at ends
              obtain ⟨source', failed⟩ := ends
              rw [failed]
              exact ⟨source', rfl⟩
          | ok last =>
              rw [charge] at ends
              rw [ends]
              exact ⟨_, rfl, ahead_holding _ _ _ _ _, rfl, rfl⟩

end Buffering

end PstForge.Worker
