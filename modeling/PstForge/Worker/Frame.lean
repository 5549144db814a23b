import PstForge.Job.Events

/-! # The frames of a worker

A worker writes what it finds to a pipe: control frames, each a length and a text, and
behind the frames that announce data the data itself. How a control frame is written as
text is left open here; a reader only relies on getting back what was written.
-/

namespace PstForge.Worker

open PstForge.Foundation PstForge.Catalog PstForge.Job

section Control

/-- What a worker counted. -/
structure WorkerCatalog where
  folders : Nat := 0
  messages : Nat := 0
  recoveredMessages : Nat := 0
  orphanMessages : Nat := 0
  fragmentMessages : Nat := 0
  recipients : Nat := 0
  attachments : Nat := 0
  embeddedMessages : Nat := 0
  unsupportedMessages : Nat := 0
  properties : Nat := 0
  propertyBytes : Nat := 0
  attachmentBytes : Nat := 0
  issues : Nat := 0
  issuesDropped : Nat := 0
  deriving DecidableEq, Repr

inductive WorkerFailureKind where
  | source
  | parser
  deriving DecidableEq, Repr

/-- A control frame. The data of a frame that has a length follows it. -/
inductive ControlFrame where
  | hello (version : Nat)
  | error (kind : WorkerFailureKind) (detail : Text)
  | unitStart (unit : RecoveryUnit)
  | unitEnd (unit : RecoveryUnit)
  | folder (id : Nat) (parentId : Option Nat) (name containerClass : Option Text)
  | messageStart (start : MessageStart)
  | recipient (messageId : Nat) (recipient : Recipient)
  | attachmentStart (messageId : Nat) (attachment : Attachment)
  | attachmentMimeProbe (messageId index : Nat) (mimeType : Text)
  | attachmentData (messageId index byteLen : Nat)
  | attachmentEnd (messageId index : Nat)
  | attachmentAbort (messageId index : Nat)
  | propertyStart (descriptor : PropertyDescriptor)
  | namedProperty (descriptor : PropertyDescriptor) (identity : NamedPropertyIdentity)
  | propertyData (descriptor : PropertyDescriptor) (byteLen : Nat)
  | deferredPropertyData (embeddedPath : List Nat) (descriptor : PropertyDescriptor)
      (byteLen : Nat)
  | deferredAttachmentData (embeddedPath : List Nat) (index byteLen : Nat)
  | propertyEnd (descriptor : PropertyDescriptor)
  | propertyAbort (descriptor : PropertyDescriptor) (reason : Text)
  | messageEnd (id : Nat) (complete : Bool)
  | topLevelMetadataEnd
  | topLevelPayloadEnd
  | complete (catalog : WorkerCatalog)
  | parserBoundary (detail : Text)
  deriving DecidableEq, Repr

/-- The length of the data behind a frame that announces some. -/
def ControlFrame.byteLen : ControlFrame → Option Nat
  | .attachmentData _ _ byteLen | .propertyData _ byteLen | .deferredPropertyData _ _ byteLen
  | .deferredAttachmentData _ _ byteLen => some byteLen
  | _ => none

end Control

section Errors

/-- How an operation on a pipe fails. -/
inductive IoErrorKind where
  | unexpectedEof
  | invalidData
  deriving DecidableEq, Repr

/-- How the protocol of a worker fails. -/
inductive WorkerProtocolError where
  | io (kind : IoErrorKind)
  | json
  | invalid (detail : String)
  | sink (error : JobError)
  deriving DecidableEq, Repr

end Errors

section Pipe

/-- How control frames are written as text. -/
structure Json where
  toVec : ControlFrame → Bytes
  fromSlice : Bytes → Option ControlFrame

/-- The bytes of a text. -/
def textBytes (text : String) : Bytes := text.toUTF8.data.toList

/-- Texts for a few frames. -/
def Json.ofTable (texts : List (ControlFrame × String)) : Json where
  toVec frame := ((texts.find? (·.1 = frame)).map fun entry => textBytes entry.2).getD []
  fromSlice bytes := (texts.find? fun entry => textBytes entry.2 = bytes).map (·.1)

variable (json : Json)

/-- The largest length of the text of a control frame. -/
def maxControlFrameBytes : Nat := 32 * 1024 * 1024

/-- The largest length of the data behind a frame of metadata. -/
def streamChunkBytes : Nat := 64 * 1024

/-- A length, the most significant byte first. -/
def lengthBytes (length : Nat) : Bytes := (leBytes 4 length).reverse

def lengthValue (bytes : Bytes) : Nat := leValue bytes.reverse

/-- A control frame as a worker writes it. -/
def controlBytes (frame : ControlFrame) : Bytes :=
  lengthBytes (json.toVec frame).length ++ json.toVec frame

/-- What reads from a pipe. -/
abbrev Reading := EStateM WorkerProtocolError Bytes

def readExact (count : Nat) : Reading Bytes := do
  let input ← get
  if count ≤ input.length then
    set (input.drop count)
    return input.take count
  else
    set ([] : Bytes)
    throw (.io .unexpectedEof)

def readControl : Reading ControlFrame := do
  let length := lengthValue (← readExact 4)
  attempt (refuse (length = 0 ∨ maxControlFrameBytes < length)
    (.invalid "control frame length is invalid"))
  let text ← readExact length
  attempt (okOr .json (json.fromSlice text))

def readPayload (byteLen : Nat) : Reading Bytes := do
  attempt (refuse (streamChunkBytes < byteLen)
    (.invalid "worker payload exceeds catalog chunk limit"))
  readExact byteLen

/-- Read data and drop it, a piece at a time. -/
def discardPayload (byteLen : Nat) : Reading Unit :=
  go byteLen byteLen
where
  -- every piece has at least one byte, so there are no more pieces than bytes
  go : (pieces remaining : Nat) → Reading Unit
    | 0, _ | _, 0 => pure ()
    | pieces + 1, remaining@(_ + 1) => do
        let requested := min remaining streamChunkBytes
        discard (readExact requested)
        go pieces (remaining - requested)

/-- A frame with the data behind it. -/
structure Frame where
  control : ControlFrame
  payload : Bytes
  deriving DecidableEq, Repr

def Frame.bytes (frame : Frame) : Bytes := controlBytes json frame.control ++ frame.payload

/-- Frames as they stand in the pipe. -/
def wire (frames : List Frame) : Bytes := frames.flatMap (Frame.bytes json)

/-- A control frame that can be written, and is read as what it was. -/
structure Legible (frame : ControlFrame) : Prop where
  nonempty : json.toVec frame ≠ []
  small : (json.toVec frame).length ≤ maxControlFrameBytes
  parsed : json.fromSlice (json.toVec frame) = some frame

instance (frame : ControlFrame) : Decidable (Legible json frame) :=
  decidable_of_iff (json.toVec frame ≠ [] ∧ (json.toVec frame).length ≤ maxControlFrameBytes ∧
      json.fromSlice (json.toVec frame) = some frame)
    ⟨fun ⟨nonempty, small, parsed⟩ => ⟨nonempty, small, parsed⟩,
      fun legible => ⟨legible.nonempty, legible.small, legible.parsed⟩⟩

/-- A frame that can be written: the data has the announced length. -/
structure Frame.Sendable (frame : Frame) : Prop where
  legible : Legible json frame.control
  announced : frame.payload.length = frame.control.byteLen.getD 0

instance (frame : Frame) : Decidable (frame.Sendable json) :=
  decidable_of_iff (Legible json frame.control ∧
      frame.payload.length = frame.control.byteLen.getD 0)
    ⟨fun ⟨legible, announced⟩ => ⟨legible, announced⟩,
      fun sendable => ⟨sendable.legible, sendable.announced⟩⟩

end Pipe

section Texts

theorem textBytes_injective : Function.Injective textBytes := by
  intro first second same
  have arrays : first.toUTF8 = second.toUTF8 := ByteArray.ext (Array.toList_inj.mp same)
  exact String.toByteArray_inj.mp arrays

theorem textBytes_ofList (chars : List Char) :
    textBytes (String.ofList chars) = chars.flatMap String.utf8EncodeChar := by
  simp [textBytes, List.utf8Encode]

/-- A text is at most four times as long as its characters are many. -/
theorem length_textBytes_ofList (chars : List Char) :
    (textBytes (String.ofList chars)).length ≤ 4 * chars.length := by
  rw [textBytes_ofList]
  induction chars with
  | nil => exact Nat.zero_le _
  | cons char chars ih =>
      have length := String.length_utf8EncodeChar char
      have bound := Char.utf8Size_le_four char
      rw [List.flatMap_cons, List.length_append, List.length_cons]
      omega

variable {texts : List (ControlFrame × String)}

/-- A frame of a table is written as its text. -/
theorem Json.toVec_ofTable (frames : (texts.map (·.1)).Nodup) {entry : ControlFrame × String}
    (member : entry ∈ texts) : (Json.ofTable texts).toVec entry.1 = textBytes entry.2 := by
  induction texts with
  | nil => cases member
  | cons first texts ih =>
      rw [List.map_cons, List.nodup_cons] at frames
      dsimp only [Json.ofTable] at ih ⊢
      rcases List.mem_cons.mp member with rfl | member
      · simp
      · have apart : first.1 ≠ entry.1 := fun same => frames.1 (same ▸ List.mem_map_of_mem member)
        rw [List.find?_cons_of_neg (by simp [apart])]
        exact ih frames.2 member

/-- Tables without repetitions are legible. -/
theorem Json.legible_ofTable (frames : (texts.map (·.1)).Nodup) (distinct : (texts.map (·.2)).Nodup)
    (bounded : ∀ entry ∈ texts, entry.2 ≠ "" ∧ (textBytes entry.2).length ≤ maxControlFrameBytes)
    {entry : ControlFrame × String} (member : entry ∈ texts) :
    Legible (Json.ofTable texts) entry.1 := by
  have text := Json.toVec_ofTable frames member
  obtain ⟨nonempty, small⟩ := bounded entry member
  refine ⟨?_, text ▸ small, ?_⟩
  · rw [text]
    exact fun empty => nonempty (textBytes_injective empty)
  rw [text]
  clear text nonempty small bounded frames
  induction texts with
  | nil => cases member
  | cons first texts ih =>
      rw [List.map_cons, List.nodup_cons] at distinct
      dsimp only [Json.ofTable] at ih ⊢
      rcases List.mem_cons.mp member with rfl | member
      · simp
      · have apart : textBytes first.2 ≠ textBytes entry.2 := fun same =>
          distinct.1 (textBytes_injective same ▸ List.mem_map_of_mem member)
        rw [List.find?_cons_of_neg (by simp [apart])]
        exact ih distinct.2 member

end Texts

section Reads

variable {json : Json}

theorem readExact_append {data : Bytes} {count : Nat} (length : data.length = count)
    (rest : Bytes) : readExact count (data ++ rest) = .ok data rest := by
  have enough : count ≤ (data ++ rest).length := by
    rw [List.length_append]
    omega
  unfold readExact
  rw [run_bind]
  simp only [run_get, enough, ↓reduceIte]
  rw [← length, List.take_left, List.drop_left]
  rfl

theorem lengthValue_lengthBytes {length : Nat} (small : length < 256 ^ 4) :
    lengthValue (lengthBytes length) = length := by
  unfold lengthValue lengthBytes
  rw [List.reverse_reverse]
  exact leValue_leBytes small

theorem length_lengthBytes (length : Nat) : (lengthBytes length).length = 4 := by
  simp [lengthBytes]

/-- A control frame is read as it was written. -/
theorem readControl_append {frame : ControlFrame} (legible : Legible json frame) (rest : Bytes) :
    readControl json (controlBytes json frame ++ rest) = .ok frame rest := by
  have small := legible.small
  have positive := List.length_pos_of_ne_nil legible.nonempty
  have value : lengthValue (lengthBytes (json.toVec frame).length) =
      (json.toVec frame).length := by
    refine lengthValue_lengthBytes ?_
    simp only [maxControlFrameBytes] at small
    omega
  have accepted : ¬ ((json.toVec frame).length = 0 ∨
      maxControlFrameBytes < (json.toVec frame).length) := by
    omega
  unfold readControl controlBytes
  rw [run_bind, List.append_assoc, readExact_append (length_lengthBytes _)]
  simp only [value, refuse, accepted, ↓reduceIte]
  rw [run_bind]
  simp only [attempt]
  rw [run_bind, readExact_append rfl]
  simp only [legible.parsed, okOr_some, attempt]

theorem readPayload_append {data : Bytes} {byteLen : Nat} (length : data.length = byteLen)
    (small : byteLen ≤ streamChunkBytes) (rest : Bytes) :
    readPayload byteLen (data ++ rest) = .ok data rest := by
  unfold readPayload
  rw [run_bind]
  simp only [refuse, Nat.not_lt.mpr small, ↓reduceIte, attempt]
  exact readExact_append length rest

theorem discardPayload_append {data : Bytes} {byteLen : Nat} (length : data.length = byteLen)
    (rest : Bytes) : discardPayload byteLen (data ++ rest) = .ok () rest := by
  suffices ∀ pieces remaining, remaining ≤ pieces → ∀ data : Bytes, data.length = remaining →
      discardPayload.go pieces remaining (data ++ rest) = .ok () rest from
    this byteLen byteLen (Nat.le_refl _) data length
  intro pieces
  induction pieces with
  | zero =>
      intro remaining bound data length
      have none : data = [] := List.length_eq_zero_iff.mp (by omega)
      rw [none]
      rfl
  | succ pieces ih =>
      intro remaining bound data length
      cases remaining with
      | zero =>
          rw [List.length_eq_zero_iff.mp length]
          rfl
      | succ remaining =>
          have positive : 0 < min (remaining + 1) streamChunkBytes := by
            simp only [streamChunkBytes]
            omega
          have size : (data.take (min (remaining + 1) streamChunkBytes)).length =
              min (remaining + 1) streamChunkBytes := by
            rw [List.length_take]
            omega
          have cut := List.take_append_drop (min (remaining + 1) streamChunkBytes) data
          rw [← cut, List.append_assoc]
          unfold discardPayload.go
          have piece : (discard (readExact (min (remaining + 1) streamChunkBytes)) : Reading PUnit)
              (data.take (min (remaining + 1) streamChunkBytes) ++
                (data.drop (min (remaining + 1) streamChunkBytes) ++ rest)) =
              .ok ⟨⟩ (data.drop (min (remaining + 1) streamChunkBytes) ++ rest) :=
            discard_run_ok.mpr ⟨_, readExact_append size _⟩
          rw [run_bind, piece]
          exact ih _ (by omega) _ (by rw [List.length_drop]; omega)

end Reads

end PstForge.Worker
