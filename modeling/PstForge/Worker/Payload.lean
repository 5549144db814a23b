import PstForge.Worker.DirectSource

/-! # Reading a value from the pipe

A value is opened by the number under which the ledger knows it: its beginning was
captured with the metadata, and the frames with the rest of it are looked for in the
pipe. Reading a value to its end leaves the frame behind it to be read next.
-/

namespace PstForge.Worker

open PstForge.Foundation PstForge.Catalog PstForge.Job
open PstForge.Writer (DirectBlobSpec)

section Operations

variable (json : Json)

/-- More than the number of frames that can still come. -/
def DirectProtocolSource.frameBound (source : DirectProtocolSource) : Nat :=
  source.input.length + 2

/-- Where the pipe ends. -/
def endOfPipe : DirectError := .worker (.io .unexpectedEof)

/-- Follow the frames of a message up to its end. -/
def drainMessage (topLevel : ItemKey) : Nat → Sourcing Unit
  | 0 => throw endOfPipe
  | frames + 1 => do
      let source ← get
      if source.messages.getLast?.any (·.2 = topLevel) then
        let frame ← nextControl json
        consumeControl frame
        drainMessage topLevel frames

/-- Follow the frames of values up to the end of their message. -/
def drainPayload : Nat → Sourcing Unit
  | 0 => throw endOfPipe
  | frames + 1 => do
      let frame ← nextControl json
      if frame ≠ .topLevelPayloadEnd then
        consumeControl frame
        drainPayload frames

def finishTopLevelMessage : Sourcing Unit := do
  let source ← get
  match source.messages.getLast? with
  | some (_, topLevel) => drainMessage json topLevel source.frameBound
  | none => drainPayload json source.frameBound
  modify fun source => { source with
    directIds := ∅
    embedded := ∅
    prefixes := ∅
    pathKeys := ∅
    activePaths := [] }

/-- The rest of a value: the part of its beginning that was not read, the bytes of the
whole value and of the frame that are left, and whether its end was seen. -/
structure DirectPayloadReader where
  identity : DirectStreamIdentity
  captured : Bytes
  blobRemaining : Nat
  remaining : Nat
  finished : Bool
  deriving DecidableEq, Repr

/-- What a value is read from: its captured beginning alone, or the pipe as well. -/
inductive BlobReader where
  | cursor (captured : Bytes)
  | payload (reader : DirectPayloadReader)
  deriving DecidableEq, Repr

/-- The frames that a value does not reach across, by their kind. -/
def boundaryKind : ControlFrame → Option String
  | .messageStart start =>
      if start.metadata.parentMessageId = none then some "message_start" else none
  | .topLevelPayloadEnd => some "top_level_payload_end"
  | .complete _ => some "complete"
  | .parserBoundary _ => some "parser_boundary"
  | _ => none

/-- Look for the first frame of a value. -/
def seekBlob (blob : DirectBlobSpec) (requested : DirectStreamIdentity) (captured : Bytes) :
    Nat → Sourcing BlobReader
  | 0 => throw endOfPipe
  | frames + 1 => do
      let frame ← nextControl json
      match boundaryKind frame with
      | some boundary => throw (.absent requested.owner blob.byteLen captured.length boundary)
      | none => do
          let source ← get
          let identity ← attempt (currentDataIdentity source frame)
          if identity.bind (source.directIds.lookup ·) = some blob.id then
            let remaining ← attempt (okOr
              (.protocol "direct identity does not name a payload frame") frame.byteLen)
            let identity ← attempt (okOr
              (.protocol "direct payload identity disappeared") identity)
            return .payload ⟨identity, captured, blob.byteLen, remaining, false⟩
          else
            consumeControl frame
            seekBlob blob requested captured frames

def openBlob (blob : DirectBlobSpec) : Sourcing BlobReader := do
  let source ← get
  let requested ← attempt (okOr (.protocol "direct stream identifier is not registered")
    ((source.directIds.entries.find? (·.2 = blob.id)).map (·.1)))
  let captured := (source.prefixes.lookup requested).getD []
  modify fun source => { source with prefixes := source.prefixes.erase requested }
  requireThat (captured.length ≤ blob.byteLen)
    "direct metadata prefix exceeds its declared stream length"
  if captured.length = blob.byteLen then
    return .cursor captured
  else
    seekBlob json blob requested captured source.frameBound

/-- A value that was opened, with the source it borrows. -/
structure Opened where
  reader : BlobReader
  source : DirectProtocolSource

/-- Operations of a value that was opened. -/
abbrev Opening := EStateM DirectError Opened

/-- Use the source under a value; an error of the protocol is one of reading. -/
def borrowing {α : Type} (program : Sourcing α) : Opening α := fun opened =>
  match program opened.source with
  | .ok value source => .ok value { opened with source }
  | .error _ source => .error (.payloadIo .invalidData) { opened with source }

/-- Read up to `size` bytes; the pipe hands out `available` and one bytes at most. -/
def readPayloadReader (size available : Nat) : (frames : Nat) → DirectPayloadReader → Opening Bytes
  | 0, _ => throw (.payloadIo .unexpectedEof)
  | frames + 1, reader => do
      if size = 0 ∨ reader.finished = true then
        return []
      else if reader.captured ≠ [] then
        let bytes := reader.captured.take size
        modify fun opened => { opened with
          reader := .payload { reader with
            captured := reader.captured.drop size
            blobRemaining := reader.blobRemaining - bytes.length } }
        return bytes
      else if reader.remaining ≠ 0 then
        let opened ← get
        let bytes := opened.source.input.take (min (min size reader.remaining) (available + 1))
        attempt (refuse (bytes = []) (.payloadIo .unexpectedEof))
        set ({
          reader := .payload { reader with
            remaining := reader.remaining - bytes.length
            blobRemaining := reader.blobRemaining - bytes.length }
          source := { opened.source with
            input := opened.source.input.drop bytes.length } } : Opened)
        return bytes
      else
        let frame ← borrowing (nextControl json)
        let opened ← get
        let identity ← borrowing (attempt (currentDataIdentity opened.source frame))
        if identity = some reader.identity then
          let reader := { reader with remaining := frame.byteLen.getD 0 }
          modify fun opened => { opened with reader := .payload reader }
          readPayloadReader size available frames reader
        else
          attempt (refuse (reader.blobRemaining ≠ 0) (.payloadIo .invalidData))
          modify fun opened => {
            reader := .payload { reader with finished := true }
            source := { opened.source with pending := some frame } }
          return []

def readBlob (size available : Nat) : Opening Bytes := do
  let opened ← get
  match opened.reader with
  | .cursor captured => do
      modify fun opened => { opened with reader := .cursor (captured.drop size) }
      return captured.take size
  | .payload reader => readPayloadReader json size available opened.source.frameBound reader

/-- Read again and again, with the sizes that are asked for and those available. -/
def readAll : List (Nat × Nat) → Opening Bytes
  | [] => pure []
  | (size, available) :: more => do
      let bytes ← readBlob json size available
      let others ← readAll more
      return bytes ++ others

end Operations

section Ahead

/-- The frames that come next, before the rest of what is in the pipe; the first of them
may have been read already, up to its data. -/
def Ahead (json : Json) (source : DirectProtocolSource) (frames : List Frame) (rest : Bytes) :
    Prop :=
  match source.pending with
  | none => source.input = wire json frames ++ rest
  | some control => ∃ payload more, frames = ⟨control, payload⟩ :: more ∧
      source.input = payload ++ (wire json more ++ rest)

/-- The source once a frame was taken from it, before its data. -/
def DirectProtocolSource.taken (source : DirectProtocolSource) (input : Bytes) :
    DirectProtocolSource :=
  { source with pending := none, input }

variable {json : Json} {source : DirectProtocolSource} {frame : Frame} {more : List Frame}
  {rest : Bytes}

theorem wire_cons (frame : Frame) (more : List Frame) :
    wire json (frame :: more) =
      controlBytes json frame.control ++ (frame.payload ++ wire json more) := by
  simp [wire, Frame.bytes]

theorem length_le_wire (json : Json) (frames : List Frame) :
    frames.length ≤ (wire json frames).length := by
  induction frames with
  | nil => simp
  | cons frame more ih =>
      rw [wire_cons]
      simp only [List.length_cons, List.length_append, controlBytes, length_lengthBytes]
      omega

theorem Ahead.length_le {frames : List Frame} (ahead : Ahead json source frames rest) :
    frames.length < source.frameBound := by
  unfold Ahead at ahead
  unfold DirectProtocolSource.frameBound
  split at ahead
  case h_1 =>
    have bound := length_le_wire json frames
    rw [ahead, List.length_append]
    omega
  case h_2 =>
    obtain ⟨payload, more, rfl, input⟩ := ahead
    have bound := length_le_wire json more
    rw [input, List.length_append, List.length_append, List.length_cons]
    omega

/-- The next frame is taken, up to its data. -/
theorem Ahead.next (ahead : Ahead json source (frame :: more) rest)
    (legible : Legible json frame.control) :
    nextControl json source =
      .ok frame.control (source.taken (frame.payload ++ (wire json more ++ rest))) := by
  unfold Ahead at ahead
  unfold nextControl
  rw [run_bind]
  simp only [run_get]
  split at ahead
  case h_1 none =>
    rw [none]
    dsimp only [reading]
    rw [ahead, wire_cons, List.append_assoc, readControl_append legible]
    simp only [DirectProtocolSource.taken, List.append_assoc, none]
  case h_2 control some =>
    obtain ⟨payload, more, same, input⟩ := ahead
    obtain ⟨rfl, rfl⟩ := List.cons.inj same
    rw [some]
    simp only [bind, EStateM.bind, run_set, pure, EStateM.pure,
      DirectProtocolSource.taken, input]

/-- What is in the pipe is ahead. -/
theorem ahead_taken (frames : List Frame) :
    Ahead json (source.taken (wire json frames ++ rest)) frames rest := rfl

/-- A frame of a value: it follows the metadata of its message. -/
def ControlFrame.isDeferred : ControlFrame → Bool
  | .deferredPropertyData _ _ _ | .deferredAttachmentData _ _ _ => true
  | _ => false

theorem boundaryKind_deferred {control : ControlFrame} (deferred : control.isDeferred = true) :
    boundaryKind control = none := by
  unfold ControlFrame.isDeferred at deferred
  split at deferred
  · rfl
  · rfl
  · cases deferred

/-- A frame of a value is dropped with its data. -/
theorem consumeControl_deferred (deferred : frame.control.isDeferred = true)
    (announced : frame.payload.length = frame.control.byteLen.getD 0) (rest : Bytes) :
    consumeControl frame.control (source.taken (frame.payload ++ rest)) =
      .ok () (source.taken rest) := by
  obtain ⟨control, payload⟩ := frame
  unfold ControlFrame.isDeferred at deferred
  dsimp only at *
  split at deferred
  case h_1 | h_2 =>
    simp only [ControlFrame.byteLen, Option.getD_some] at announced
    simp only [consumeControl, reading, DirectProtocolSource.taken,
      discardPayload_append announced]
  case h_3 => cases deferred

/-- What is left in the pipe has no part in the identity of a frame. -/
@[simp] theorem currentDataIdentity_taken (input : Bytes) (control : ControlFrame) :
    currentDataIdentity (source.taken input) control = currentDataIdentity source control := by
  cases control <;> rfl

@[simp] theorem taken_directIds (input : Bytes) :
    (source.taken input).directIds = source.directIds := rfl

/-- The end of the values of a message. -/
def payloadEnd : Frame := ⟨.topLevelPayloadEnd, []⟩

/-- Frames of values that can be sent. -/
def AllDeferred (json : Json) (frames : List Frame) : Prop :=
  ∀ frame ∈ frames, frame.control.isDeferred = true ∧ frame.Sendable json

/-- The frames of values are followed up to the end of their message. -/
theorem drainPayload_deferred {frames : List Frame} {count : Nat} (enough : frames.length < count)
    (deferred : AllDeferred json frames) (legible : Legible json .topLevelPayloadEnd)
    (ahead : Ahead json source (frames ++ [payloadEnd]) rest) :
    drainPayload json count source = .ok () (source.taken rest) := by
  induction frames generalizing source count with
  | nil =>
      obtain ⟨count, rfl⟩ := Nat.exists_eq_add_one_of_ne_zero (Nat.ne_of_gt enough)
      unfold drainPayload
      rw [run_bind, Ahead.next ahead legible]
      simp only [payloadEnd, ne_eq, not_true_eq_false, ↓reduceIte]
      rfl
  | cons frame more ih =>
      obtain ⟨count, rfl⟩ := Nat.exists_eq_add_one_of_ne_zero
        (Nat.ne_of_gt (Nat.zero_lt_of_lt enough))
      obtain ⟨isDeferred, sendable⟩ := deferred frame (List.mem_cons_self)
      have other : frame.control ≠ .topLevelPayloadEnd := by
        intro same
        rw [same] at isDeferred
        cases isDeferred
      unfold drainPayload
      rw [run_bind, Ahead.next ahead sendable.legible]
      simp only [ne_eq, other, not_false_eq_true, ↓reduceIte]
      rw [run_bind, consumeControl_deferred isDeferred sendable.announced]
      exact ih (Nat.lt_of_succ_lt_succ enough)
        (fun frame member => deferred frame (List.mem_cons_of_mem _ member)) (ahead_taken _)

/-- The rest of a candidate is followed up to the end of its values, and not further. -/
theorem finishTopLevelMessage_deferred {frames : List Frame} (idle : source.messages = [])
    (deferred : AllDeferred json frames) (legible : Legible json .topLevelPayloadEnd)
    (ahead : Ahead json source (frames ++ [payloadEnd]) rest) :
    ∃ done, finishTopLevelMessage json source = .ok () done ∧ done.pending = none ∧
      done.input = rest := by
  have enough : frames.length < source.frameBound := by
    have bound := ahead.length_le
    rw [List.length_append] at bound
    omega
  unfold finishTopLevelMessage
  rw [run_bind]
  simp only [run_get, idle, List.getLast?_nil]
  rw [run_bind, drainPayload_deferred enough deferred legible ahead]
  exact ⟨_, rfl, rfl, rfl⟩

end Ahead

section Values

/-- The data behind frames. -/
def payloads (frames : List Frame) : Bytes := frames.flatMap (·.payload)

/-- The values of a candidate as they stand in the pipe when one of them is opened: the
frames of it come in one piece, between those of others, and have the declared length
together with what was captured of it. -/
structure PayloadStream (json : Json) (source : DirectProtocolSource) (blob : DirectBlobSpec)
    (identity : DirectStreamIdentity) (before mine after : List Frame) (rest : Bytes) : Prop where
  registered : ∀ other, source.directIds.lookup other = some blob.id ↔ other = identity
  idle : source.messages = []
  ahead : Ahead json source (before ++ (mine ++ (after ++ [payloadEnd]))) rest
  legible : Legible json .topLevelPayloadEnd
  deferred : AllDeferred json (before ++ (mine ++ after))
  own : ∀ frame ∈ mine, currentDataIdentity source frame.control = .ok (some identity)
  others : ∀ frame ∈ before ++ after, ∃ other,
    currentDataIdentity source frame.control = .ok other ∧ other ≠ some identity
  declared : ((source.prefixes.lookup identity).getD []).length +
    (payloads mine).length = blob.byteLen

variable {json : Json} {source : DirectProtocolSource} {blob : DirectBlobSpec}
  {identity : DirectStreamIdentity} {before mine after : List Frame} {rest : Bytes}

/-- How the value is found: a frame of it is taken, and its data comes next. -/
theorem seekBlob_found {captured : Bytes} {first : Frame} {more : List Frame} {count : Nat}
    (registered : ∀ other, source.directIds.lookup other = some blob.id ↔ other = identity)
    (enough : before.length < count) (deferred : AllDeferred json (before ++ [first]))
    (ahead : Ahead json source (before ++ first :: more) rest)
    (own : currentDataIdentity source first.control = .ok (some identity))
    (others : ∀ frame ∈ before, ∃ other,
      currentDataIdentity source frame.control = .ok other ∧ other ≠ some identity) :
    seekBlob json blob identity captured count source =
      .ok (.payload ⟨identity, captured, blob.byteLen, first.payload.length, false⟩)
        (source.taken (first.payload ++ (wire json more ++ rest))) := by
  induction before generalizing source count with
  | nil =>
      obtain ⟨count, rfl⟩ := Nat.exists_eq_add_one_of_ne_zero (Nat.ne_of_gt enough)
      obtain ⟨isDeferred, sendable⟩ := deferred first (by simp)
      have announced : first.control.byteLen = some first.payload.length := by
        have announced := sendable.announced
        revert isDeferred announced
        cases first.control <;> simp [ControlFrame.isDeferred, ControlFrame.byteLen]
        <;> omega
      unfold seekBlob
      rw [run_bind, Ahead.next ahead sendable.legible]
      simp only [boundaryKind_deferred isDeferred]
      rw [run_bind]
      simp only [run_get]
      rw [run_bind, currentDataIdentity_taken, own]
      have known : source.directIds.lookup identity = some blob.id := (registered _).mpr rfl
      simp only [attempt, Option.bind_some, taken_directIds, known, ↓reduceIte, announced,
        okOr_some, run_bind]
      rfl
  | cons frame before ih =>
      obtain ⟨count, rfl⟩ :=
        Nat.exists_eq_add_one_of_ne_zero (Nat.ne_of_gt (Nat.zero_lt_of_lt enough))
      obtain ⟨isDeferred, sendable⟩ := deferred frame (by simp)
      obtain ⟨other, is, different⟩ := others frame (List.mem_cons_self)
      have unknown : ¬ other.bind (source.directIds.lookup ·) = some blob.id := by
        intro found
        obtain ⟨here, rfl, found⟩ := Option.bind_eq_some_iff.mp found
        exact different (congrArg some ((registered here).mp found))
      unfold seekBlob
      rw [run_bind, Ahead.next ahead sendable.legible]
      simp only [boundaryKind_deferred isDeferred]
      rw [run_bind]
      simp only [run_get]
      rw [run_bind, currentDataIdentity_taken, is]
      simp only [attempt, taken_directIds, unknown, ↓reduceIte]
      rw [run_bind, consumeControl_deferred isDeferred sendable.announced]
      refine ih registered (Nat.lt_of_succ_lt_succ enough)
        (fun frame member => deferred frame (List.mem_cons_of_mem _ member)) (ahead_taken _)
        ((currentDataIdentity_taken _ _).trans own) fun frame member => ?_
      rw [currentDataIdentity_taken]
      exact others frame (List.mem_cons_of_mem _ member)

/-- The reader of a value over the captured bytes, the rest of a frame, and whole frames. -/
def DirectPayloadReader.serving (identity : DirectStreamIdentity) (captured current : Bytes)
    (mine : List Frame) : DirectPayloadReader :=
  ⟨identity, captured, (captured ++ (current ++ payloads mine)).length,
    current.length, false⟩

/-- Where the reader of a value stands, with what is left of the value: the bytes that
were captured, the rest of a frame, and whole frames, with the frames of others behind. A
value that was captured whole is read without the pipe. -/
inductive Serving (json : Json) (base : DirectProtocolSource) (identity : DirectStreamIdentity)
    (behind : List Frame) (rest : Bytes) (whole : Prop) : Bytes → Opened → Prop where
  | cursor (left : Bytes) (captured : whole) :
      Serving json base identity behind rest whole left ⟨.cursor left, base⟩
  | payload (captured current : Bytes) (mine : List Frame) (split : ¬ whole)
      (deferred : AllDeferred json mine)
      (own : ∀ frame ∈ mine, currentDataIdentity base frame.control = .ok (some identity)) :
      Serving json base identity behind rest whole (captured ++ (current ++ payloads mine))
        ⟨.payload (.serving identity captured current mine),
          base.taken (current ++ (wire json (mine ++ behind) ++ rest))⟩
  | finished (first : Frame) (more : List Frame) (split : ¬ whole)
      (here : behind = first :: more) :
      Serving json base identity behind rest whole []
        ⟨.payload ⟨identity, [], 0, 0, true⟩,
          { base.taken (first.payload ++ (wire json more ++ rest)) with
            pending := some first.control }⟩

/-- What comes behind a value: a frame that is not of it. -/
structure Behind (json : Json) (base : DirectProtocolSource) (identity : DirectStreamIdentity)
    (first : Frame) : Prop where
  legible : Legible json first.control
  foreign : ∃ other, currentDataIdentity base first.control = .ok other ∧ other ≠ some identity

/-- What a read has to do: it takes from what is left of the value, and comes back empty
only at its end. -/
def Serves (json : Json) (base : DirectProtocolSource) (identity : DirectStreamIdentity)
    (behind : List Frame) (rest : Bytes) (whole : Prop) (left : Bytes) (size : Nat)
    (result : EStateM.Result DirectError Opened Bytes) : Prop :=
  ∃ bytes next after, result = .ok bytes next ∧ left = bytes ++ after ∧
    Serving json base identity behind rest whole after next ∧
    (0 < size → bytes = [] → left = [] ∧ ∀ reader, next.reader = .payload reader →
      reader.finished = true)

variable {base : DirectProtocolSource} {behind : List Frame} {whole : Prop}

/-- What was captured is read first. -/
theorem readPayloadReader_captured (split : ¬ whole) {size : Nat} (positive : 0 < size)
    (available : Nat)
    {mine : List Frame} (deferred : AllDeferred json mine)
    (own : ∀ frame ∈ mine, currentDataIdentity base frame.control = .ok (some identity))
    {captured : Bytes} (some : captured ≠ []) (current : Bytes) (count : Nat) :
    Serves json base identity behind rest whole (captured ++ (current ++ payloads mine)) size
      (readPayloadReader json size available (count + 1) (.serving identity captured current mine)
        ⟨.payload (.serving identity captured current mine),
          base.taken (current ++ (wire json (mine ++ behind) ++ rest))⟩) := by
  have unfinished : ¬ (size = 0 ∨ false = true) := by
    simp only [Bool.false_eq_true, or_false]
    omega
  have fewer : (captured ++ (current ++ payloads mine)).length -
      (captured.take size).length =
      (captured.drop size ++ (current ++ payloads mine)).length := by
    simp only [List.length_append, List.length_take, List.length_drop]
    omega
  refine ⟨captured.take size, _, captured.drop size ++ (current ++ payloads mine),
    ?_, ?_, .payload (captured.drop size) current mine split deferred own, fun _ empty => ?_⟩
  · unfold readPayloadReader
    simp only [DirectPayloadReader.serving, unfinished, ↓reduceIte, ne_eq, some,
      not_false_eq_true, fewer]
    rfl
  · rw [← List.append_assoc (captured.take size), List.take_append_drop]
  · rcases List.take_eq_nil_iff.mp empty with zero | nothing
    · omega
    · exact absurd nothing some

/-- What is left of the frame in hand is read next. -/
theorem readPayloadReader_current (split : ¬ whole) {size : Nat} (positive : 0 < size)
    (available : Nat)
    {mine : List Frame} (deferred : AllDeferred json mine)
    (own : ∀ frame ∈ mine, currentDataIdentity base frame.control = .ok (some identity))
    {current : Bytes} (some : current ≠ []) (count : Nat) :
    Serves json base identity behind rest whole ([] ++ (current ++ payloads mine)) size
      (readPayloadReader json size available (count + 1) (.serving identity [] current mine)
        ⟨.payload (.serving identity [] current mine),
          base.taken (current ++ (wire json (mine ++ behind) ++ rest))⟩) := by
  have unfinished : ¬ (size = 0 ∨ false = true) := by
    simp only [Bool.false_eq_true, or_false]
    omega
  have length := List.length_pos_of_ne_nil some
  -- the pipe hands out no more than what is left of the frame
  obtain ⟨amount, chosen⟩ : ∃ amount, amount = min (min size current.length) (available + 1) :=
    ⟨_, rfl⟩
  have within : amount ≤ current.length := by omega
  have handed : (current ++ (wire json (mine ++ behind) ++ rest)).take amount =
      current.take amount := List.take_append_of_le_length within
  have left : (current ++ (wire json (mine ++ behind) ++ rest)).drop amount =
      current.drop amount ++ (wire json (mine ++ behind) ++ rest) :=
    List.drop_append_of_le_length within
  have taken : (current.take amount).length = amount := List.length_take_of_le within
  have nonempty : current.take amount ≠ [] := by
    rw [← List.length_pos_iff, taken]
    omega
  have fewer : ([] ++ (current ++ payloads mine)).length - amount =
      ([] ++ (current.drop amount ++ payloads mine)).length := by
    simp only [List.nil_append, List.length_append, List.length_drop]
    omega
  have lessCurrent : current.length - amount = (current.drop amount).length := by
    rw [List.length_drop]
  refine ⟨current.take amount, _, [] ++ (current.drop amount ++ payloads mine),
    ?_, ?_, .payload [] (current.drop amount) mine split deferred own,
    fun _ empty => absurd empty nonempty⟩
  · unfold readPayloadReader
    simp only [DirectPayloadReader.serving, unfinished, ↓reduceIte, ne_eq, not_true_eq_false,
      Nat.ne_of_gt length, not_false_eq_true, run_bind, run_get,
      DirectProtocolSource.taken, ← chosen, handed, refuse, nonempty, attempt, taken, left, fewer,
      lessCurrent]
    rfl
  · rw [List.nil_append, List.nil_append, ← List.append_assoc, List.take_append_drop]

/-- The next frame is taken when nothing is left of the one in hand. -/
theorem readPayloadReader_frame (base : DirectProtocolSource) (identity : DirectStreamIdentity)
    (rest : Bytes) {size : Nat} (positive : 0 < size) (available total : Nat) {frame : Frame}
    (legible : Legible json frame.control) (more : List Frame) (count : Nat) :
    readPayloadReader json size available (count + 1) ⟨identity, [], total, 0, false⟩
      ⟨.payload ⟨identity, [], total, 0, false⟩, base.taken (wire json (frame :: more) ++ rest)⟩ =
    match currentDataIdentity base frame.control with
    | .error _ => .error (.payloadIo .invalidData)
        ⟨.payload ⟨identity, [], total, 0, false⟩,
          base.taken (frame.payload ++ (wire json more ++ rest))⟩
    | .ok other =>
        if other = some identity then
          readPayloadReader json size available count
            ⟨identity, [], total, frame.control.byteLen.getD 0, false⟩
            ⟨.payload ⟨identity, [], total, frame.control.byteLen.getD 0, false⟩,
              base.taken (frame.payload ++ (wire json more ++ rest))⟩
        else if total ≠ 0 then
          .error (.payloadIo .invalidData) ⟨.payload ⟨identity, [], total, 0, false⟩,
            base.taken (frame.payload ++ (wire json more ++ rest))⟩
        else
          .ok [] ⟨.payload ⟨identity, [], total, 0, true⟩,
            { base.taken (frame.payload ++ (wire json more ++ rest)) with
              pending := some frame.control }⟩ := by
  have unfinished : ¬ (size = 0 ∨ false = true) := by
    simp only [Bool.false_eq_true, or_false]
    omega
  have ahead : Ahead json (base.taken (wire json (frame :: more) ++ rest)) (frame :: more) rest :=
    ahead_taken _
  have next := ahead.next legible
  have taken : (base.taken (wire json (frame :: more) ++ rest)).taken
      (frame.payload ++ (wire json more ++ rest)) =
      base.taken (frame.payload ++ (wire json more ++ rest)) := rfl
  rw [readPayloadReader]
  simp only [unfinished, ↓reduceIte, ne_eq, not_true_eq_false, run_bind, borrowing, next, taken,
    run_get, currentDataIdentity_taken]
  cases currentDataIdentity base frame.control with
  | error error => rfl
  | ok other =>
      simp only [attempt]
      by_cases mine : other = some identity
      · simp only [mine, ↓reduceIte]
        rfl
      · simp only [mine, ↓reduceIte, run_bind, refuse]
        by_cases zero : total = 0
        · simp only [zero, not_true_eq_false, ↓reduceIte]
          rfl
        · simp only [zero, not_false_eq_true, ↓reduceIte]
          rfl

/-- With nothing in hand, the frames of the value are taken, and then its end is seen. -/
theorem readPayloadReader_seeks (split : ¬ whole) {first : Frame} {more : List Frame}
    (behind : Behind json base identity first) {size : Nat} (positive : 0 < size)
    (available : Nat) {mine : List Frame} (deferred : AllDeferred json mine)
    (own : ∀ frame ∈ mine, currentDataIdentity base frame.control = .ok (some identity))
    {count : Nat} (enough : mine.length < count) :
    Serves json base identity (first :: more) rest whole ([] ++ ([] ++ payloads mine)) size
      (readPayloadReader json size available count (.serving identity [] [] mine)
        ⟨.payload (.serving identity [] [] mine),
          base.taken ([] ++ (wire json (mine ++ first :: more) ++ rest))⟩) := by
  induction mine generalizing count with
  | nil =>
      obtain ⟨count, rfl⟩ := Nat.exists_eq_add_one_of_ne_zero (Nat.ne_of_gt enough)
      obtain ⟨other, is, different⟩ := behind.foreign
      have step := readPayloadReader_frame base identity rest positive available 0 behind.legible
        more count
      simp only [is, different, ↓reduceIte, ne_eq, not_true_eq_false] at step
      refine ⟨[], _, [], step, rfl, .finished first more split rfl,
        fun _ _ => ⟨rfl, fun reader here => ?_⟩⟩
      obtain rfl := BlobReader.payload.inj here
      rfl
  | cons frame mine ih =>
      obtain ⟨count, rfl⟩ :=
        Nat.exists_eq_add_one_of_ne_zero (Nat.ne_of_gt (Nat.zero_lt_of_lt enough))
      obtain ⟨isDeferred, sendable⟩ := deferred frame List.mem_cons_self
      have deferred' : AllDeferred json mine :=
        fun frame member => deferred frame (List.mem_cons_of_mem _ member)
      have own' : ∀ frame ∈ mine, currentDataIdentity base frame.control = .ok (some identity) :=
        fun frame member => own frame (List.mem_cons_of_mem _ member)
      have left : [] ++ ([] ++ payloads (frame :: mine)) =
          [] ++ (frame.payload ++ payloads mine) := by
        simp [payloads]
      have step := readPayloadReader_frame base identity rest positive available
        ([] ++ ([] ++ payloads (frame :: mine))).length sendable.legible (mine ++ first :: more)
        count
      simp only [own frame List.mem_cons_self, ↓reduceIte, ← sendable.announced] at step
      have taken : readPayloadReader json size available (count + 1)
          (.serving identity [] [] (frame :: mine))
          ⟨.payload (.serving identity [] [] (frame :: mine)),
            base.taken ([] ++ (wire json (frame :: mine ++ first :: more) ++ rest))⟩ =
          readPayloadReader json size available count (.serving identity [] frame.payload mine)
            ⟨.payload (.serving identity [] frame.payload mine),
              base.taken (frame.payload ++ (wire json (mine ++ first :: more) ++ rest))⟩ := by
        simp only [DirectPayloadReader.serving, ← left]
        exact step
      rw [taken, left]
      have fewer : mine.length < count := Nat.lt_of_succ_lt_succ enough
      by_cases some : frame.payload ≠ []
      · obtain ⟨count, rfl⟩ :=
          Nat.exists_eq_add_one_of_ne_zero (Nat.ne_of_gt (Nat.zero_lt_of_lt fewer))
        exact readPayloadReader_current split positive available deferred' own' some count
      · rw [not_not.mp some]
        exact ih deferred' own' fewer

/-- A read of the value takes from what is left of it. -/
theorem readBlob_serves {first : Frame} {more : List Frame}
    (behind : Behind json base identity first) (size available : Nat) {left : Bytes}
    {opened : Opened} (serving : Serving json base identity
      (first :: more) rest whole left opened) :
    Serves json base identity (first :: more) rest whole left size
      (readBlob json size available opened) := by
  cases serving with
  | cursor _ captured =>
      refine ⟨left.take size, _, left.drop size, rfl, (List.take_append_drop _ _).symm,
        .cursor _ captured, fun positive empty => ⟨?_, fun reader here => nomatch here⟩⟩
      rcases List.take_eq_nil_iff.mp empty with zero | nothing
      · omega
      · exact nothing
  | finished first' more' split here =>
      refine ⟨[], _, [], ?_, rfl, .finished first' more' split here,
        fun _ _ => ⟨rfl, fun reader same => ?_⟩⟩
      · simp only [readBlob, run_bind, run_get,
          DirectProtocolSource.frameBound, readPayloadReader, or_true, ↓reduceIte]
        rfl
      · obtain rfl := BlobReader.payload.inj same
        rfl
  | payload captured current mine split deferred own =>
      have read : readBlob json size available
          ⟨.payload (.serving identity captured current mine),
            base.taken (current ++ (wire json (mine ++ first :: more) ++ rest))⟩ =
          readPayloadReader json size available
            ((current ++ (wire json (mine ++ first :: more) ++ rest)).length + 1 + 1)
            (.serving identity captured current mine)
            ⟨.payload (.serving identity captured current mine),
              base.taken (current ++ (wire json (mine ++ first :: more) ++ rest))⟩ := rfl
      rw [read]
      rcases Nat.eq_zero_or_pos size with zero | positive
      · refine ⟨[], _, _, ?_, rfl, .payload captured current mine split deferred own, by omega⟩
        rw [readPayloadReader]
        simp only [zero, true_or, ↓reduceIte]
        rfl
      by_cases some : captured ≠ []
      · exact readPayloadReader_captured split positive available deferred own some current _
      rw [not_not.mp some]
      by_cases some : current ≠ []
      · exact readPayloadReader_current split positive available deferred own some _
      rw [not_not.mp some]
      have enough := length_le_wire json (mine ++ first :: more)
      refine readPayloadReader_seeks split behind positive available deferred own ?_
      simp only [List.length_append, List.length_nil, List.length_cons] at enough ⊢
      omega

/-- However often the value is read, what was read and what is left make up the value. -/
theorem readAll_serving {first : Frame} {more : List Frame}
    (behind : Behind json base identity first) (requests : List (Nat × Nat)) {left : Bytes}
    {opened : Opened} (serving : Serving json base identity
      (first :: more) rest whole left opened) :
    ∃ output final after, readAll json requests opened = .ok output final ∧
      left = output ++ after ∧ Serving json base identity
        (first :: more) rest whole after final := by
  induction requests generalizing left opened with
  | nil => exact ⟨[], opened, left, rfl, rfl, serving⟩
  | cons request requests ih =>
      obtain ⟨bytes, next, after, read, split, serving, -⟩ :=
        readBlob_serves behind request.1 request.2 serving
      obtain ⟨output, final, after', others, split', serving⟩ := ih serving
      refine ⟨bytes ++ output, final, after', ?_, ?_, serving⟩
      · rw [readAll, run_bind, read]
        dsimp only
        rw [run_bind, others]
        rfl
      · rw [split, split', List.append_assoc]

/-- The value: what was captured of it, and the data of its frames. -/
def directValue (source : DirectProtocolSource) (identity : DirectStreamIdentity)
    (mine : List Frame) : Bytes :=
  (source.prefixes.lookup identity).getD [] ++ payloads mine

/-- The frames that stay ahead of a source when a value was read: a value that was
captured whole does not touch the pipe. -/
def unread (source : DirectProtocolSource) (blob : DirectBlobSpec) (identity : DirectStreamIdentity)
    (before mine after : List Frame) : List Frame :=
  if ((source.prefixes.lookup identity).getD []).length = blob.byteLen then
    before ++ (mine ++ after)
  else after

/-- The number of a value leads to its identity. -/
theorem PayloadStream.found
    (stream : PayloadStream json source blob identity before mine after rest) :
    (source.directIds.entries.find? (·.2 = blob.id)).map (·.1) = some identity := by
  have known : source.directIds.lookup identity = some blob.id :=
    (stream.registered identity).mpr rfl
  have entry : (⟨identity, blob.id⟩ : Sigma fun _ => Nat) ∈ source.directIds.entries :=
    AList.mem_lookup_iff.mp known
  cases search : source.directIds.entries.find? (·.2 = blob.id) with
  | none =>
      have missing := List.find?_eq_none.mp search _ entry
      simp at missing
  | some found =>
      have number : found.2 = blob.id := by simpa using List.find?_some search
      have member : (⟨found.1, blob.id⟩ : Sigma fun _ => Nat) ∈ source.directIds.entries := by
        rw [← number]
        exact List.mem_of_find?_eq_some search
      rw [Option.map_some, (stream.registered found.1).mp (AList.mem_lookup_iff.mpr member)]

/-- Opening a value leaves it to be read from its beginning. -/
theorem openBlob_serving
    (stream : PayloadStream json source blob identity before mine after rest) :
    ∃ reader opened, openBlob json blob source = .ok reader opened ∧
      Serving json { source with prefixes := source.prefixes.erase identity } identity
        (after ++ [payloadEnd]) rest
        (((source.prefixes.lookup identity).getD []).length = blob.byteLen)
        (directValue source identity mine) ⟨reader, opened⟩ := by
  obtain ⟨base, is⟩ : ∃ base : DirectProtocolSource,
      base = { source with prefixes := source.prefixes.erase identity } := ⟨_, rfl⟩
  have same : ∀ control, currentDataIdentity base control = currentDataIdentity source control := by
    intro control
    rw [is]
    cases control <;> rfl
  have declared := stream.declared
  have within : ((source.prefixes.lookup identity).getD []).length ≤ blob.byteLen := by omega
  have opening : openBlob json blob source =
      if ((source.prefixes.lookup identity).getD []).length = blob.byteLen then
        .ok (.cursor ((source.prefixes.lookup identity).getD [])) base
      else
        seekBlob json blob identity ((source.prefixes.lookup identity).getD []) source.frameBound
          base := by
    unfold openBlob
    rw [run_bind]
    simp only [run_get, stream.found, okOr_some]
    rw [run_bind]
    simp only [attempt]
    rw [run_bind]
    simp only [run_modify, requireThat, refuse]
    rw [run_bind]
    simp only [within, not_true_eq_false, ↓reduceIte, attempt, is]
    split <;> rfl
  rw [opening, ← is]
  by_cases whole : ((source.prefixes.lookup identity).getD []).length = blob.byteLen
  · have nothing : payloads mine = [] := by
      rw [← List.length_eq_zero_iff]
      omega
    rw [if_pos whole]
    refine ⟨_, _, rfl, ?_⟩
    simp only [directValue, nothing, List.append_nil]
    exact .cursor _ whole
  · rw [if_neg whole]
    cases split : mine with
    | nil =>
        rw [split] at declared
        simp [payloads] at declared
        exact absurd declared whole
    | cons first more =>
        subst split
        have ahead : Ahead json base (before ++ first :: (more ++ (after ++ [payloadEnd])))
            rest := by
          rw [is]
          exact stream.ahead
        have enough : before.length < source.frameBound := by
          have bound := stream.ahead.length_le
          rw [List.length_append] at bound
          omega
        have registered : ∀ other, base.directIds.lookup other = some blob.id ↔
            other = identity := by
          rw [is]
          exact stream.registered
        have deferred : AllDeferred json (before ++ [first]) := by
          intro frame member
          refine stream.deferred frame ?_
          simp only [List.mem_append, List.mem_cons, List.not_mem_nil, or_false] at member ⊢
          tauto
        have others : ∀ frame ∈ before, ∃ other,
            currentDataIdentity base frame.control = .ok other ∧ other ≠ some identity := by
          intro frame member
          rw [same]
          exact stream.others frame (List.mem_append_left _ member)
        refine ⟨_, _, seekBlob_found registered enough deferred ahead
          ((same _).trans (stream.own first List.mem_cons_self)) others, ?_⟩
        have total : (directValue source identity (first :: more)).length = blob.byteLen := by
          rw [directValue, List.length_append]
          exact declared
        have value : directValue source identity (first :: more) =
            (source.prefixes.lookup identity).getD [] ++ (first.payload ++ payloads more) := rfl
        rw [← total, value] at whole ⊢
        refine .payload _ first.payload more whole (fun frame member => stream.deferred frame ?_)
          fun frame member => (same _).trans (stream.own frame (List.mem_cons_of_mem _ member))
        simp only [List.mem_append, List.mem_cons]
        tauto

/-- The frame behind a value is not of it. -/
theorem PayloadStream.next
    (stream : PayloadStream json source blob identity before mine after rest) {first : Frame}
    {more : List Frame} (here : after ++ [payloadEnd] = first :: more) :
    Behind json { source with prefixes := source.prefixes.erase identity } identity first := by
  cases after with
  | nil =>
      obtain ⟨rfl, -⟩ := List.cons.inj here
      exact ⟨stream.legible, none, rfl, nofun⟩
  | cons frame after =>
      obtain ⟨rfl, -⟩ := List.cons.inj here
      obtain ⟨-, sendable⟩ := stream.deferred frame (by simp)
      obtain ⟨other, is, different⟩ := stream.others frame (by simp)
      refine ⟨sendable.legible, other, ?_, different⟩
      rw [← is]
      cases frame.control <;> rfl

/-- **Reading a value.** A value that is opened and read, in pieces of any sizes, gives
what was captured of it and the data of its frames, and nothing else. A read comes back
empty exactly at its end; the frame behind the value is then the next one, and finishing
the message takes the rest of its frames and no byte more. -/
theorem openBlob_reads_value
    (stream : PayloadStream json source blob identity before mine after rest)
    (requests : List (Nat × Nat)) :
    ∃ reader opened output final, openBlob json blob source = .ok reader opened ∧
      readAll json requests ⟨reader, opened⟩ = .ok output final ∧
      ∀ size available, 0 < size → ∃ bytes last, readBlob json size available final = .ok bytes
        last ∧
        output ++ bytes <+: directValue source identity mine ∧
        (bytes = [] ↔ output = directValue source identity mine) ∧
        (bytes = [] → output.length = blob.byteLen ∧
          Ahead json last.source (unread source blob identity before mine after ++ [payloadEnd])
            rest ∧
          (((source.prefixes.lookup identity).getD []).length ≠ blob.byteLen →
            last.source.pending = (after ++ [payloadEnd]).head?.map (·.control)) ∧
          ∃ done, finishTopLevelMessage json last.source = .ok () done ∧ done.pending = none ∧
            done.input = rest) := by
  obtain ⟨reader, opened, opening, serving⟩ := openBlob_serving stream
  obtain ⟨first, more, here⟩ : ∃ first more, after ++ [payloadEnd] = first :: more :=
    List.exists_cons_of_ne_nil (by simp)
  have behind : Behind json { source with prefixes := source.prefixes.erase identity } identity
      first := stream.next here
  rw [here] at serving
  obtain ⟨output, final, left, reads, split, serving⟩ := readAll_serving behind requests serving
  refine ⟨reader, opened, output, final, opening, reads, fun size available positive => ?_⟩
  obtain ⟨bytes, last, left', read, split', serving, empty⟩ :=
    readBlob_serves behind size available serving
  have value : directValue source identity mine = output ++ bytes ++ left' := by
    rw [split, split', List.append_assoc]
  refine ⟨bytes, last, read, ⟨left', value.symm⟩, ⟨fun nothing => ?_, fun all => ?_⟩,
    fun nothing => ?_⟩
  · rw [split, (empty positive nothing).1, List.append_nil]
  · rw [split] at all
    have none : left = [] := by simpa using all
    rw [none] at split'
    exact (List.append_eq_nil_iff.mp split'.symm).1
  · obtain ⟨none, finished⟩ := empty positive nothing
    have length : output.length = blob.byteLen := by
      have declared := stream.declared
      have all := congrArg List.length split
      rw [none, List.append_nil, directValue, List.length_append] at all
      omega
    have all : AllDeferred json (unread source blob identity before mine after) := by
      unfold unread
      split
      · exact stream.deferred
      · exact fun frame member => stream.deferred frame (by simp [member])
    have ahead : Ahead json last.source
        (unread source blob identity before mine after ++ [payloadEnd]) rest ∧
        last.source.messages = [] ∧
        (((source.prefixes.lookup identity).getD []).length ≠ blob.byteLen →
          last.source.pending = (after ++ [payloadEnd]).head?.map (·.control)) := by
      unfold unread
      cases serving with
      | cursor _ whole =>
          rw [if_pos whole]
          refine ⟨?_, stream.idle, fun split => absurd whole split⟩
          have ahead := stream.ahead
          simp only [← List.append_assoc] at ahead ⊢
          exact ahead
      | payload => exact absurd (finished _ rfl) (by simp [DirectPayloadReader.serving])
      | finished first' more' split here' =>
          rw [if_neg split, here, here']
          exact ⟨⟨_, _, rfl, rfl⟩, stream.idle, fun _ => rfl⟩
    obtain ⟨ahead, idle, pending⟩ := ahead
    exact ⟨length, ahead, pending, finishTopLevelMessage_deferred idle all stream.legible ahead⟩

/-- The key of a note with two attachments. -/
def noteKey : ItemKey := ⟨.normal, some 4, none, 0⟩

/-- A frame of an attachment of the note. -/
def noteFrame (index : Nat) (payload : Bytes) : Frame :=
  ⟨.deferredAttachmentData [] index payload.length, payload⟩

/-- The texts of the frames of the note. -/
def noteTexts : List (ControlFrame × String) := [
  (.deferredAttachmentData [] 1 1,
    "\x7b\"type\":\"deferred_attachment_data\",\"embedded_path\":[],\"index\":1,\"byte_len\":1\x7d"),
  (.deferredAttachmentData [] 0 2,
    "\x7b\"type\":\"deferred_attachment_data\",\"embedded_path\":[],\"index\":0,\"byte_len\":2\x7d"),
  (.deferredAttachmentData [] 0 1,
    "\x7b\"type\":\"deferred_attachment_data\",\"embedded_path\":[],\"index\":0,\"byte_len\":1\x7d"),
  (.topLevelPayloadEnd, "\x7b\"type\":\"top_level_payload_end\"\x7d")]

/-- How the frames of the note are written. -/
def noteJson : Json := .ofTable noteTexts

theorem noteJson_legible {entry : ControlFrame × String} (member : entry ∈ noteTexts) :
    Legible noteJson entry.1 := by
  have small : ∀ chars : List Char, chars.length ≤ 100 →
      (textBytes (String.ofList chars)).length ≤ maxControlFrameBytes := fun chars short =>
    (length_textBytes_ofList chars).trans (Nat.le_trans (Nat.mul_le_mul_left 4 short) (by decide))
  refine Json.legible_ofTable (by decide) (by simp [noteTexts]) ?_ member
  simp only [noteTexts, List.forall_mem_cons]
  refine ⟨⟨by simp, small _ ?_⟩, ⟨by simp, small _ ?_⟩, ⟨by simp, small _ ?_⟩,
    ⟨by simp, small _ ?_⟩, fun entry none => by cases none⟩
  all_goals decide

/-- The source when the metadata of the note was read: two bytes of the first attachment
were captured. -/
def noteSource : DirectProtocolSource :=
  { DirectProtocolSource.new (wire noteJson
      [noteFrame 1 [9], noteFrame 0 [3, 4], noteFrame 0 [5], payloadEnd]) with
    directIds := (∅ : AList fun _ : DirectStreamIdentity => Nat).insert
      ⟨noteKey, .attachmentData 0⟩ 1
    pathKeys := (∅ : AList fun _ : List Nat => ItemKey).insert [] noteKey
    prefixes := (∅ : AList fun _ : DirectStreamIdentity => Bytes).insert
      ⟨noteKey, .attachmentData 0⟩ [1, 2] }

theorem noteStream : PayloadStream noteJson noteSource ⟨1, 5, none⟩ ⟨noteKey, .attachmentData 0⟩
    [noteFrame 1 [9]] [noteFrame 0 [3, 4], noteFrame 0 [5]] [] [] where
  registered other := by
    by_cases same : other = ⟨noteKey, .attachmentData 0⟩
    · rw [same]
      exact ⟨fun _ => rfl, fun _ => AList.lookup_insert _⟩
    · rw [noteSource, AList.lookup_insert_ne same, AList.lookup_empty]
      exact ⟨nofun, fun here => absurd here same⟩
  idle := rfl
  ahead := (List.append_nil _).symm
  legible := noteJson_legible (List.getLast_mem (List.cons_ne_nil _ _))
  deferred := by
    intro frame member
    fin_cases member
    · exact ⟨rfl, noteJson_legible List.mem_cons_self, rfl⟩
    · exact ⟨rfl, noteJson_legible (.tail _ List.mem_cons_self), rfl⟩
    · exact ⟨rfl, noteJson_legible (.tail _ (.tail _ List.mem_cons_self)), rfl⟩
  own := by decide
  others frame member := by
    rw [List.append_nil, List.mem_singleton] at member
    rw [member]
    exact ⟨some ⟨noteKey, .attachmentData 1⟩, by decide, by decide⟩
  declared := by decide

theorem openBlob_reads_value_note :
    PayloadStream noteJson noteSource ⟨1, 5, none⟩ ⟨noteKey, .attachmentData 0⟩
      [noteFrame 1 [9]] [noteFrame 0 [3, 4], noteFrame 0 [5]] [] [] ∧
    ∃ reader opened output final, openBlob noteJson ⟨1, 5, none⟩ noteSource = .ok reader opened ∧
      readAll noteJson [(3, 0), (4, 7)] ⟨reader, opened⟩ = .ok output final ∧
      output <+: [1, 2, 3, 4, 5] := by
  obtain ⟨reader, opened, output, final, opening, reads, more⟩ :=
    openBlob_reads_value noteStream [(3, 0), (4, 7)]
  obtain ⟨bytes, last, -, within, -⟩ := more 1 0 (by decide)
  exact ⟨noteStream, reader, opened, output, final, opening, reads,
    (List.prefix_append output bytes).trans within⟩

end Values

end PstForge.Worker
