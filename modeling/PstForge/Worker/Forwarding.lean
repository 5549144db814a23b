import PstForge.Worker.Metadata

/-! # How metadata is handed on

What was kept back of a message is handed on message by message: the frames that were
received, each message in one piece, and a parent before its children. Frames outside of
messages are handed on at once.
-/

namespace PstForge.Worker

open PstForge.Foundation PstForge.Catalog PstForge.Job

section Order

/-- What is kept back of the messages that are embedded directly. -/
def heldChildren : MetadataBody → List BufferedMetadataMessage
  | .nil => []
  | .frame _ rest => heldChildren rest
  | .message start body complete rest =>
      holdMessage start body complete :: heldChildren rest

theorem holdBody_mk (body : MetadataBody) (frames : List BufferedMetadataFrame)
    (children : List BufferedMetadataMessage) :
    holdBody body (.mk frames children) =
      .mk (frames ++ body.own.map Frame.buffered) (children ++ heldChildren body) := by
  induction body generalizing frames children with
  | nil => simp [holdBody, MetadataBody.own, heldChildren]
  | frame item rest ih =>
      rw [holdBody, BufferedMetadataMessage.push, ih]
      simp [MetadataBody.own, heldChildren]
  | message start body complete rest _ ih =>
      rw [holdBody, BufferedMetadataMessage.adopt, ih]
      simp [MetadataBody.own, heldChildren, holdMessage]

theorem holdMessage_eq (start : MessageStart) (body : MetadataBody) (complete : Bool) :
    holdMessage start body complete =
      .mk ((OwnMessage.mk start body.own complete).frames.map Frame.buffered)
        (heldChildren body) := by
  rw [holdMessage, BufferedMetadataMessage.start, holdBody_mk, BufferedMetadataMessage.push]
  simp [OwnMessage.frames, startFrame, Frame.buffered, ControlFrame.byteLen]

theorem orderAll_append (first second : List BufferedMetadataMessage) :
    BufferedMetadataMessage.orderAll (first ++ second) =
      BufferedMetadataMessage.orderAll first ++ BufferedMetadataMessage.orderAll second := by
  induction first with
  | nil => rfl
  | cons child children ih =>
      rw [List.cons_append, BufferedMetadataMessage.orderAll, ih, BufferedMetadataMessage.orderAll,
        List.append_assoc]

/-- Embedded messages are handed on each before those that are embedded in it. -/
theorem orderAll_heldChildren (body : MetadataBody) :
    BufferedMetadataMessage.orderAll (heldChildren body) =
      (body.nested.flatMap OwnMessage.frames).map Frame.buffered := by
  induction body with
  | nil => rfl
  | frame item rest ih => exact ih
  | message start body complete rest inner ih =>
      rw [heldChildren, BufferedMetadataMessage.orderAll, holdMessage_eq,
        BufferedMetadataMessage.order, inner, ih]
      simp [MetadataBody.nested]

/-- A message that was kept back is handed on message by message. -/
theorem order_holdMessage (message : MetadataMessage) :
    (holdMessage message.start message.body message.complete).order =
      message.sequenced.map Frame.buffered := by
  rw [holdMessage_eq, BufferedMetadataMessage.order, orderAll_heldChildren]
  simp [MetadataMessage.sequenced, MetadataMessage.messages]

end Order

section Permutation

/-- The messages' own frames are all the frames that were received. -/
theorem received_perm (body : MetadataBody) :
    body.received.Perm (body.own ++ body.nested.flatMap OwnMessage.frames) := by
  induction body with
  | nil => exact .refl _
  | frame item rest ih => exact ih.cons item
  | message start body complete rest inner ih =>
      simp only [MetadataBody.received, MetadataBody.own, MetadataBody.nested, List.flatMap_cons,
        List.flatMap_append, OwnMessage.frames]
      rw [List.perm_iff_count]
      intro frame
      have inside := inner.count_eq frame
      have behind := ih.count_eq frame
      simp only [List.count_cons, List.count_append, List.count_nil] at inside behind ⊢
      omega

/-- No frame is lost and none is handed on twice. -/
theorem sequenced_perm (message : MetadataMessage) :
    message.sequenced.Perm message.received := by
  rw [List.perm_iff_count]
  intro frame
  have inside := (received_perm message.body).count_eq frame
  simp only [MetadataMessage.sequenced, MetadataMessage.messages, MetadataMessage.received,
    OwnMessage.frames, List.flatMap_cons, List.count_cons, List.count_append,
    List.count_nil] at inside ⊢
  omega

end Permutation

section Events

/-- The events of frames. -/
def eventsOf (frames : List Frame) : List CatalogEvent :=
  frames.filterMap fun frame => frame.buffered.event.toOption

/-- The frames that have an event. -/
def AllEvents (frames : List Frame) : Prop :=
  ∀ frame ∈ frames, ∃ event, frame.buffered.event = .ok event

/-- Frames that are handed on are events for the sink. -/
theorem emit_buffered (sha256 : Bytes → Bytes) (source : DirectProtocolSource)
    (job : DurableCatalogSink) {frames : List Frame} (all : AllEvents frames) :
    emit sha256 (frames.map Frame.buffered) ⟨source, job⟩ =
      match handleEvents sha256 (eventsOf frames) job with
      | .ok _ job => .ok () ⟨source, job⟩
      | .error error job => .error (.worker (.sink error)) ⟨source, job⟩ := by
  induction frames generalizing job with
  | nil => rfl
  | cons frame frames ih =>
      obtain ⟨event, is⟩ := all frame List.mem_cons_self
      have head : eventsOf (frame :: frames) = event :: eventsOf frames := by
        simp [eventsOf, is, Except.toOption]
      rw [List.map_cons, emit, run_bind, head, handleEvents_cons, run_bind, sendBuffered, is]
      dsimp only [onJob]
      cases handleEvent sha256 event job with
      | error error next => rfl
      | ok value next =>
          exact ih next fun frame member => all frame (List.mem_cons_of_mem _ member)

/-- Frames about a message have events, and none ends the message. -/
theorem metadata_event {frame : Frame} (metadata : frame.control.isMetadata = true) :
    ∃ event, frame.buffered.event = .ok event ∧ ∀ id complete, event ≠ .messageEnd id complete := by
  obtain ⟨control, payload⟩ := frame
  dsimp only at metadata
  cases control <;> simp only [ControlFrame.isMetadata, Bool.false_eq_true] at metadata <;>
    exact ⟨_, rfl, by intro id complete same; cases same⟩

/-- The events of a message. -/
def OwnMessage.whole (message : OwnMessage) : WholeMessage :=
  ⟨message.start, eventsOf message.own, message.complete⟩

theorem eventsOf_append (first second : List Frame) :
    eventsOf (first ++ second) = eventsOf first ++ eventsOf second :=
  List.filterMap_append

theorem eventsOf_frames (message : OwnMessage) :
    eventsOf message.frames = message.whole.events := by
  have begins : eventsOf [startFrame message.start] = [.messageStart message.start] := rfl
  have ends : eventsOf [endFrame message.start message.complete] =
      [.messageEnd message.start.id message.complete] := rfl
  have split : message.frames = [startFrame message.start] ++ (message.own ++
      [endFrame message.start message.complete]) := rfl
  rw [split, eventsOf_append, eventsOf_append, begins, ends]
  rfl

theorem eventsOf_messages (messages : List OwnMessage) :
    eventsOf (messages.flatMap OwnMessage.frames) =
      (messages.map OwnMessage.whole).flatMap WholeMessage.events := by
  induction messages with
  | nil => rfl
  | cons message messages ih =>
      rw [List.flatMap_cons, eventsOf_append, eventsOf_frames, ih, List.map_cons,
        List.flatMap_cons]

end Events

section Paths

variable {json : Json}

/-- The path of a message. -/
def OwnMessage.path (message : OwnMessage) : List Nat := message.start.metadata.embeddedPath

@[simp] theorem OwnMessage.path_mk (start : MessageStart) (own : List Frame) (complete : Bool) :
    (OwnMessage.mk start own complete).path = start.metadata.embeddedPath := rfl

theorem own_metadata {body : MetadataBody} {path : List Nat}
    (wellFormed : body.WellFormed json path) :
    ∀ frame ∈ body.own, frame.control.isMetadata = true := by
  induction body generalizing path with
  | nil =>
      intro frame member
      cases member
  | frame item rest ih =>
      obtain ⟨metadata, -, wellFormed⟩ := wellFormed
      intro frame member
      rcases List.mem_cons.mp member with rfl | member
      · exact metadata
      · exact ih wellFormed frame member
  | message start body complete rest _ ih => exact ih wellFormed.2.2.2.2.2.2

theorem nested_metadata {body : MetadataBody} {path : List Nat}
    (wellFormed : body.WellFormed json path) :
    ∀ message ∈ body.nested, ∀ frame ∈ message.own, frame.control.isMetadata = true := by
  induction body generalizing path with
  | nil =>
      intro message member
      cases member
  | frame item rest ih => exact ih wellFormed.2.2
  | message start body complete rest inner ih =>
      obtain ⟨-, -, -, -, -, inside, wellFormed⟩ := wellFormed
      intro message member
      rcases List.mem_cons.mp member with rfl | member
      · exact own_metadata inside
      rcases List.mem_append.mp member with member | member
      · exact inner inside message member
      · exact ih wellFormed message member

theorem endsOnce_of_metadata {frames : List Frame} {start : MessageStart} {complete : Bool}
    (metadata : ∀ frame ∈ frames, frame.control.isMetadata = true) :
    (OwnMessage.mk start frames complete).whole.EndsOnce := by
  intro event member
  obtain ⟨frame, there, is⟩ := List.mem_filterMap.mp member
  obtain ⟨event', is', notEnd⟩ := metadata_event (metadata frame there)
  rw [is'] at is
  obtain rfl := Option.some.inj is
  exact notEnd

/-- Messages that are embedded directly are one step further. -/
theorem children_path {body : MetadataBody} {path : List Nat}
    (wellFormed : body.WellFormed json path) :
    ∀ child ∈ body.children, ∃ index, child = path ++ [index] := by
  induction body with
  | nil =>
      intro child member
      cases member
  | frame item rest ih => exact ih wellFormed.2.2
  | message start body complete rest _ ih =>
      obtain ⟨-, -, -, step, -, -, wellFormed⟩ := wellFormed
      intro child member
      rcases List.mem_cons.mp member with rfl | member
      · exact step
      · exact ih wellFormed child member

/-- Messages that are embedded are further down the path. -/
theorem nested_below {body : MetadataBody} {path : List Nat}
    (wellFormed : body.WellFormed json path) : ∀ message ∈ body.nested, path <+: message.path := by
  induction body generalizing path with
  | nil =>
      intro message member
      cases member
  | frame item rest ih => exact ih wellFormed.2.2
  | message start body complete rest inner ih =>
      obtain ⟨-, -, -, ⟨index, step⟩, -, inside, wellFormed⟩ := wellFormed
      have below : path <+: start.metadata.embeddedPath := by
        rw [step]
        exact List.prefix_append path [index]
      intro message member
      rcases List.mem_cons.mp member with rfl | member
      · exact below
      rcases List.mem_append.mp member with member | member
      · exact below.trans (inner inside message member)
      · exact ih wellFormed message member

/-- What is embedded in a message comes behind it, at paths of their own. -/
theorem nested_of_wellFormed {body : MetadataBody} {path : List Nat}
    (wellFormed : body.WellFormed json path) {paths : List (List Nat)} (known : path ∈ paths)
    (unknown : ∀ other ∈ paths, ∀ child ∈ body.children, ¬ child <+: other)
    {more : List WholeMessage}
    (later : Nested ((body.nested.map OwnMessage.path).reverse ++ paths) more) :
    Nested paths (body.nested.map OwnMessage.whole ++ more) := by
  induction body generalizing path paths more with
  | nil => exact later
  | frame item rest ih => exact ih wellFormed.2.2 known unknown later
  | message start body complete rest inner ih =>
      obtain ⟨-, -, embedded, ⟨index, step⟩, alone, inside, wellFormed⟩ := wellFormed
      have own : (OwnMessage.mk start body.own complete).whole.EndsOnce :=
        endsOnce_of_metadata (own_metadata inside)
      have here : start.metadata.embeddedPath.dropLast ∈ paths := by
        rw [step, List.dropLast_concat]
        exact known
      have new : ∀ other ∈ paths, ¬ start.metadata.embeddedPath <+: other :=
        fun other member => unknown other member _ List.mem_cons_self
      refine ⟨own, embedded, here, fun member => new _ member (List.prefix_refl _), ?_⟩
      have behind : Nested ((rest.nested.map OwnMessage.path).reverse ++
          ((body.nested.map OwnMessage.path).reverse ++ start.metadata.embeddedPath :: paths))
          more := by
        simpa [MetadataBody.nested, OwnMessage.path] using later
      have others : ∀ other ∈ (body.nested.map OwnMessage.path).reverse ++
          start.metadata.embeddedPath :: paths, ∀ child ∈ rest.children, ¬ child <+: other := by
        intro other member child isChild within
        -- two children of one message are as long, so they are not on one path
        have apart : ∀ further, start.metadata.embeddedPath <+: further → ¬ child <+: further := by
          intro further below above
          obtain ⟨index', is⟩ := children_path wellFormed child isChild
          have same : child.length = start.metadata.embeddedPath.length := by
            rw [is, step, List.length_append, List.length_append]
            rfl
          have equal : child = start.metadata.embeddedPath :=
            List.IsPrefix.eq_of_length (List.prefix_of_prefix_length_le above below
              (Nat.le_of_eq same))
              same
          exact alone (equal ▸ isChild)
        simp only [List.mem_append, List.mem_reverse, List.mem_map, List.mem_cons] at member
        rcases member with ⟨message, member, rfl⟩ | rfl | member
        · exact apart _ (nested_below inside message member) within
        · exact apart _ (List.prefix_refl _) within
        · exact unknown other member child (List.mem_cons_of_mem _ isChild) within
      have last := ih wellFormed (List.mem_append_right _ (List.mem_cons_of_mem _ known)) others
        behind
      have next := inner inside (List.mem_cons_self) (fun other member child isChild within => ?_)
        last
      · rw [← List.append_assoc, ← List.map_append] at next
        exact next
      · obtain ⟨index', is⟩ := children_path inside child isChild
        have below : start.metadata.embeddedPath <+: child := by
          rw [is]
          exact List.prefix_append _ _
        rcases List.mem_cons.mp member with rfl | member
        · have short := within.length_le
          rw [is, List.length_append, List.length_singleton] at short
          omega
        · exact new other member (below.trans within)

/-- Own frames stand in the order in which they were received. -/
theorem own_sublist (body : MetadataBody) : body.own.Sublist body.received := by
  induction body with
  | nil => exact .slnil
  | frame item rest ih => exact ih.cons_cons item
  | message start body complete rest _ ih =>
      refine .cons _ (ih.trans ?_)
      exact (List.sublist_cons_self _ _).trans (List.sublist_append_right _ _)

theorem nested_sublist (body : MetadataBody) :
    ∀ message ∈ body.nested, message.frames.Sublist body.received := by
  induction body with
  | nil =>
      intro message member
      cases member
  | frame item rest ih => exact fun message member => (ih message member).cons item
  | message start body complete rest inner ih =>
      intro message member
      have split : (MetadataBody.message start body complete rest).received =
          (startFrame start :: (body.received ++ [endFrame start complete])) ++ rest.received := by
        simp [MetadataBody.received]
      rw [split]
      rcases List.mem_cons.mp member with rfl | member
      · exact (((own_sublist body).append_right _).cons_cons _).trans (List.sublist_append_left _ _)
      rcases List.mem_append.mp member with member | member
      · refine (inner message member).trans (.trans ?_ (List.sublist_append_left _ _))
        exact .cons _ (List.sublist_append_left _ _)
      · exact (ih message member).trans (List.sublist_append_right _ _)

/-- The frames of every message are handed on in the order in which they were received. -/
theorem messages_sublist (message : MetadataMessage) :
    ∀ part ∈ message.messages, part.frames.Sublist message.received := by
  intro part member
  rcases List.mem_cons.mp member with rfl | member
  · exact ((own_sublist message.body).append_right _).cons_cons _
  · exact .cons _ ((nested_sublist message.body part member).trans (List.sublist_append_left _ _))

end Paths

section Outside

variable {json : Json}

/-- Frames outside of messages have events, and none is about a message. -/
theorem outside_event {frame : Frame} (outside : frame.control.isOutside = true) :
    ∃ event, frame.buffered.event = .ok event ∧ (∀ start, event ≠ .messageStart start) ∧
      ∀ id complete, event ≠ .messageEnd id complete := by
  obtain ⟨control, payload⟩ := frame
  dsimp only at outside
  cases control <;> simp only [ControlFrame.isOutside, Bool.false_eq_true] at outside
  all_goals
    refine ⟨_, rfl, fun start same => ?_, fun id complete same => ?_⟩
    all_goals cases same

/-- A frame outside of messages is handed on at once. -/
theorem holdFrame_outside (sha256 : Bytes → Bytes) (source : DirectProtocolSource)
    (job : DurableCatalogSink) {frame : Frame} (outside : frame.control.isOutside = true)
    (short : frame.Short json) (rest : Bytes) (paths : List (List Nat))
    (unbound : AList fun _ : DirectPathStreamIdentity => Bytes)
    (root : Option BufferedMetadataMessage) (budget : DirectMetadataBudget) :
    holdFrame json sha256 ⟨[], root, budget⟩ frame.control
        ⟨source.holding (frame.payload ++ rest) paths unbound, job⟩ =
      (do sendBuffered sha256 frame.buffered; return ⟨[], root, budget⟩ : Passing Held)
        ⟨source.holding rest paths unbound, job⟩ := by
  obtain ⟨control, payload⟩ := frame
  have announced := short.sendable.announced
  have small := short.small
  dsimp only at outside announced small ⊢
  cases control <;> simp only [ControlFrame.isOutside, Bool.false_eq_true] at outside
  case propertyData descriptor byteLen =>
    replace announced : payload.length = byteLen := announced
    rw [announced] at small
    have unstreamed : streamOwner descriptor = none := by
      revert outside
      cases owner : descriptor.owner <;> simp [PropertyOwner.isFolder, streamOwner, owner]
    simp only [holdFrame, run_bind, readPayload_onSource source job announced small, unstreamed,
      List.isEmpty_nil, ↓reduceIte]
    rfl
  -- the others have no data
  all_goals
    obtain rfl : payload = [] := List.length_eq_zero_iff.mp announced
    rfl

/-- Frames outside of messages are handed on in their order. -/
theorem takeFrames_outside (sha256 : Bytes → Bytes) (job : DurableCatalogSink)
    {source : DirectProtocolSource} {lead more : List Frame} {rest : Bytes}
    (outside : ∀ frame ∈ lead, frame.control.isOutside = true ∧ frame.Short json)
    (afterRowid fuel : Nat) (budget : DirectMetadataBudget)
    (ahead : Ahead json source (lead ++ more) rest) :
    match handleEvents sha256 (eventsOf lead) job with
    | .ok _ job' => ∃ source', takeFrames json sha256 afterRowid (lead.length + fuel)
          ⟨[], none, budget⟩ ⟨source, job⟩ =
        takeFrames json sha256 afterRowid fuel ⟨[], none, budget⟩ ⟨source', job'⟩ ∧
        Ahead json source' more rest ∧ source'.activePaths = source.activePaths ∧
        source'.unboundPrefixes = source.unboundPrefixes
    | .error error job' => ∃ source', takeFrames json sha256 afterRowid (lead.length + fuel)
          ⟨[], none, budget⟩ ⟨source, job⟩ = .error (.worker (.sink error)) ⟨source', job'⟩ := by
  induction lead generalizing source job with
  | nil =>
      refine ⟨source, ?_, ahead, rfl, rfl⟩
      rw [List.length_nil, Nat.zero_add]
  | cons frame lead ih =>
      obtain ⟨isOutside, short⟩ := outside frame List.mem_cons_self
      obtain ⟨event, is, -, -⟩ := outside_event isOutside
      have goesOn : frame.control.goesOn = true := by
        revert isOutside
        cases frame.control <;> simp [ControlFrame.isOutside, ControlFrame.goesOn]
      have head : eventsOf (frame :: lead) = event :: eventsOf lead := by
        simp [eventsOf, is, Except.toOption]
      have length : (frame :: lead).length + fuel = lead.length + fuel + 1 := by
        simp only [List.length_cons]
        omega
      rw [length, takeFrames_step sha256 job afterRowid _ ⟨[], none, budget⟩ ahead rfl rfl
        short.sendable.legible goesOn, run_bind, holdFrame_outside sha256 source job isOutside
        short, run_bind, sendBuffered, is, head, handleEvents_cons, run_bind]
      dsimp only [onJob]
      cases handleEvent sha256 event job with
      | error error next => exact ⟨_, rfl⟩
      | ok value next =>
          exact ih next (fun frame member => outside frame (List.mem_cons_of_mem _ member))
            (ahead_holding source (lead ++ more) rest source.activePaths source.unboundPrefixes)

end Outside

end PstForge.Worker
