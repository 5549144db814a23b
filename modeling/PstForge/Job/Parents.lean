import PstForge.Job.Interruption
import PstForge.Job.Messages

/-! # Whom an embedded message belongs to

An embedded message names its parent by the path to it alone. The sink looks the path up
among the candidates that it has seen in the recovery unit, and, when there is none, takes
the newest candidate of the ledger with that path, wherever it comes from. This module
follows a stream item by item, and shows that a message that comes behind the one around it is
recorded under that one.
-/

namespace PstForge.Job

open PstForge.Foundation PstForge.Catalog

variable {sha256 : Bytes → Bytes}

section Recollection

variable {α : Type}

/-- The unit and the candidates seen in it stay as they are. -/
def Recollects (sink next : DurableCatalogSink) : Prop :=
  next.unit = sink.unit ∧ next.recentCandidates = sink.recentCandidates

theorem Recollects.refl (sink : DurableCatalogSink) : Recollects sink sink := ⟨rfl, rfl⟩

theorem Recollects.trans {a b c : DurableCatalogSink} (first : Recollects a b)
    (second : Recollects b c) : Recollects a c :=
  ⟨second.1.trans first.1, second.2.trans first.2⟩

/-- A program that keeps the unit and the candidates seen in it, where it succeeds. -/
def Recollecting (program : Sinking α) : Prop :=
  ∀ sink, Ensures program sink (fun _ next => Recollects sink next) fun _ _ => True

theorem Recollecting.bind {β : Type} {first : Sinking α} {next : α → Sinking β}
    (keeps : Recollecting first) (keepsNext : ∀ value, Recollecting (next value)) :
    Recollecting (first >>= next) := by
  intro sink
  refine Ensures.bind (keeps sink) fun value middle before => ?_
  exact (keepsNext value middle).mono (fun _ _ behind => before.trans behind) fun _ _ _ => trivial

theorem recollecting_pure (value : α) : Recollecting (pure value : Sinking α) :=
  fun sink => Ensures.of_pure (Recollects.refl sink)

theorem recollecting_attempt (source : Except JobError α) :
    Recollecting (attempt source : Sinking α) :=
  fun sink => Ensures.of_attempt (fun _ _ => Recollects.refl sink) fun _ _ => trivial

theorem recollecting_get {next : DurableCatalogSink → Sinking α}
    (keeps : ∀ sink, Recollecting (next sink)) : Recollecting (get >>= next) :=
  fun sink => Ensures.get_bind (keeps sink sink)

theorem recollecting_modify {change : DurableCatalogSink → DurableCatalogSink}
    (unit : ∀ sink, (change sink).unit = sink.unit)
    (recent : ∀ sink, (change sink).recentCandidates = sink.recentCandidates) :
    Recollecting (modify change : Sinking Unit) :=
  fun sink => Ensures.of_modify ⟨unit sink, recent sink⟩

theorem spend_recollecting : Recollecting spend := by
  intro sink
  refine (spend_ensures sink).mono (fun _ next alive => ?_) fun _ _ _ => trivial
  obtain ⟨life, rfl⟩ := alive
  exact ⟨rfl, rfl⟩

theorem execute_recollecting (change : Database → Except JobError Database) :
    Recollecting (execute change) :=
  .bind spend_recollecting fun _ => recollecting_get fun _ =>
    .bind (recollecting_attempt _) fun _ => recollecting_modify (fun _ => rfl) fun _ => rfl

theorem touchPack_recollecting (change : PackFile → PackFile) : Recollecting (touchPack change) :=
  .bind spend_recollecting fun _ => recollecting_modify (fun _ => rfl) fun _ => rfl

theorem truncatePayloadPack_recollecting (length : Nat) :
    Recollecting (truncatePayloadPack length) :=
  .bind (touchPack_recollecting _) fun _ => recollecting_modify (fun _ => rfl) fun _ => rfl

theorem newBlobWriter_recollecting : Recollecting newBlobWriter := by
  refine recollecting_get fun sink => ?_
  split
  · exact recollecting_pure _
  · exact recollecting_pure _

theorem writeBlob_recollecting (blob : BlobWriter) (bytes : Bytes) :
    Recollecting (writeBlob blob bytes) := by
  unfold writeBlob
  split
  · exact .bind (recollecting_attempt _) fun _ => recollecting_pure _
  · refine recollecting_get fun sink => .bind (recollecting_attempt _) fun _ => ?_
    refine .bind (touchPack_recollecting _) fun _ => recollecting_get fun sink => ?_
    refine .bind (recollecting_attempt _) fun _ => ?_
    exact .bind (recollecting_modify (fun _ => rfl) fun _ => rfl) fun _ => recollecting_pure _

theorem discardBlob_recollecting (blob : BlobWriter) (expected : Nat) :
    Recollecting (discardBlob blob expected) := by
  refine .bind (recollecting_attempt _) fun _ => ?_
  split
  · exact truncatePayloadPack_recollecting _
  · exact recollecting_pure _

theorem recordEvent_recollecting (kind : String) (detail : EventDetail) (blob : Option BlobRef) :
    Recollecting (recordEvent kind detail blob) := by
  refine recollecting_get fun sink => .bind (recollecting_attempt _) fun active => ?_
  refine .bind (recollecting_attempt _) fun sequence => ?_
  exact .bind (recollecting_modify (fun _ => rfl) fun _ => rfl) fun _ => execute_recollecting _

theorem cutProperty_recollecting (property : ActiveProperty) (reason : Text) (record : Bool) :
    Recollecting (cutProperty property reason record) := by
  refine .bind (truncatePayloadPack_recollecting _) fun _ => ?_
  split
  · exact recordEvent_recollecting _ _ _
  · exact recollecting_pure _

theorem handlePropertyStart_recollecting (descriptor : PropertyDescriptor) :
    Recollecting (handlePropertyStart descriptor) := by
  refine recollecting_get fun sink => .bind (recollecting_attempt _) fun _ => ?_
  refine .bind (recollecting_attempt _) fun _ => ?_
  refine .bind (recollecting_modify (fun _ => rfl) fun _ => rfl) fun _ => ?_
  refine .bind (recollecting_attempt _) fun _ => .bind newBlobWriter_recollecting fun blob => ?_
  exact recollecting_modify (fun _ => rfl) fun _ => rfl

theorem requireMessage_busy {active : Option ActiveCandidate} {messageId : Nat}
    (required : requireMessage active messageId = .ok ()) : active ≠ none := by
  rintro rfl
  cases required

theorem requireAttachment_busy {what : String} {messageId index : Nat}
    {sink next : DurableCatalogSink}
    {attachment : ActiveAttachment}
    (required : requireAttachment what messageId index sink = .ok attachment next) :
    sink.active ≠ none := by
  obtain ⟨_, _, got, required⟩ := bind_run_ok.mp required
  obtain ⟨rfl, rfl⟩ := get_run_ok.mp got
  obtain ⟨_, required, -⟩ := attempt_bind_run_ok.mp required
  exact requireMessage_busy required

theorem finishProperty_recollects {sink next : DurableCatalogSink} {descriptor : PropertyDescriptor}
    (unrecorded : ∀ property, sink.property = some property → property.record = false)
    (finished : finishProperty sha256 descriptor sink = .ok () next) : Recollects sink next := by
  obtain ⟨same, _, got, taken⟩ := bind_run_ok.mp finished
  obtain ⟨rfl, rfl⟩ := get_run_ok.mp got
  obtain ⟨_, middle, changed, checked⟩ := bind_run_ok.mp taken
  obtain rfl := modify_run_ok.mp changed
  obtain ⟨property, found, required⟩ := attempt_bind_run_ok.mp checked
  obtain ⟨_, -, recorded⟩ := attempt_bind_run_ok.mp required
  rw [unrecorded property (okOr_eq_ok.mp found), if_neg Bool.false_ne_true] at recorded
  have kept := (discardBlob_recollecting _ _ _).run_ok recorded
  exact ⟨kept.1, kept.2⟩

/-- What is reported of a folder keeps the unit and the candidates seen in it. -/
theorem handleEvent_recollects {sink next : DurableCatalogSink} (idle : sink.active = none)
    (unrecorded : ∀ property, sink.property = some property → property.record = false)
    {event : CatalogEvent} (notStart : ∀ start, event ≠ .messageStart start)
    (notEnd : ∀ id complete, event ≠ .messageEnd id complete)
    (notUnitStart : ∀ unit, event ≠ .unitStart unit) (notUnitEnd : ∀ unit, event ≠ .unitEnd unit)
    (handled : handleEvent sha256 event sink = .ok () next) : Recollects sink next := by
  cases event with
  | unitStart unit => exact absurd rfl (notUnitStart unit)
  | unitEnd unit => exact absurd rfl (notUnitEnd unit)
  | messageStart start => exact absurd rfl (notStart start)
  | messageEnd id complete => exact absurd rfl (notEnd id complete)
  | folder id parentId name containerClass =>
      have keeps : Recollecting (handleFolder id parentId name containerClass) :=
        recollecting_get fun sink => .bind (recollecting_attempt _) fun _ => execute_recollecting _
      exact (keeps sink).run_ok handled
  | recipient messageId recipient =>
      obtain ⟨_, _, got, handled⟩ := bind_run_ok.mp handled
      obtain ⟨rfl, rfl⟩ := get_run_ok.mp got
      obtain ⟨_, required, -⟩ := attempt_bind_run_ok.mp handled
      exact absurd idle (requireMessage_busy required)
  | propertyStart descriptor =>
      exact (handlePropertyStart_recollecting descriptor sink).run_ok handled
  | namedProperty descriptor identity =>
      have keeps : Recollecting (handleNamedProperty descriptor identity) :=
        recollecting_get fun sink => .bind (recollecting_attempt _) fun _ =>
          .bind (recollecting_attempt _) fun _ => recollecting_modify (fun _ => rfl) fun _ => rfl
      exact (keeps sink).run_ok handled
  | propertyData descriptor bytes =>
      have keeps : Recollecting (handlePropertyData descriptor bytes) :=
        recollecting_get fun sink => .bind (recollecting_attempt _) fun _ =>
          .bind (recollecting_attempt _) fun _ => .bind (writeBlob_recollecting _ _) fun _ =>
            recollecting_modify (fun _ => rfl) fun _ => rfl
      exact (keeps sink).run_ok handled
  | propertyEnd descriptor => exact finishProperty_recollects unrecorded handled
  | propertyAbort descriptor reason =>
      have keeps : Recollecting (handlePropertyAbort descriptor reason) :=
        recollecting_get fun sink => .bind (recollecting_modify (fun _ => rfl) fun _ => rfl)
          fun _ => .bind (recollecting_attempt _) fun _ => .bind (recollecting_attempt _) fun _ =>
            cutProperty_recollecting _ _ _
      exact (keeps sink).run_ok handled
  | attachmentStart messageId attachment =>
      obtain ⟨_, _, got, handled⟩ := bind_run_ok.mp handled
      obtain ⟨rfl, rfl⟩ := get_run_ok.mp got
      obtain ⟨_, required, -⟩ := attempt_bind_run_ok.mp handled
      exact absurd idle (requireMessage_busy required)
  | attachmentData messageId index bytes =>
      obtain ⟨_, middle, made, matched⟩ := bind_run_ok.mp handled
      have untouched : Ensures newBlobWriter sink (fun _ middle => middle = sink)
          fun _ _ => True := by
        refine .get_bind ?_
        split
        · exact .of_pure rfl
        · exact .of_pure rfl
      have same : middle = sink := untouched.run_ok made
      obtain ⟨_, _, required, -⟩ := bind_run_ok.mp matched
      rw [same] at required
      exact absurd idle (requireAttachment_busy required)
  | attachmentMimeProbe messageId index mimeType =>
      obtain ⟨_, _, required, -⟩ := bind_run_ok.mp handled
      obtain ⟨_, required⟩ := discard_run_ok.mp required
      exact absurd idle (requireAttachment_busy required)
  | attachmentEnd messageId index =>
      obtain ⟨_, _, required, -⟩ := bind_run_ok.mp handled
      obtain ⟨_, required⟩ := discard_run_ok.mp required
      exact absurd idle (requireAttachment_busy required)
  | attachmentAbort messageId index =>
      obtain ⟨_, _, required, -⟩ := bind_run_ok.mp handled
      obtain ⟨_, required⟩ := discard_run_ok.mp required
      exact absurd idle (requireAttachment_busy required)
  | deferredPropertyData | deferredAttachmentData | topLevelMetadataEnd | topLevelPayloadEnd =>
      cases handled

end Recollection

section Moves

/-- Where a unit starts or ends. -/
def Received.isBoundary : Received → Bool
  | .event (.unitStart _) | .event (.unitEnd _) => true
  | .event _ | .replayed _ _ => false

/-- The path of a message that comes, or was there before the worker. -/
def Received.path : Received → Option (List Nat)
  | .event (.messageStart start) => some start.metadata.embeddedPath
  | .replayed candidate _ => some candidate.metadata.embeddedPath
  | .event _ => none

/-- The key of the candidate of a message that comes, or was there before the worker. -/
def Received.key (database : Database) : Received → Option ItemKey
  | .event (.messageStart start) => some (startedKey database start)
  | .replayed candidate _ => some candidate.itemKey
  | .event _ => none

/-- The open candidate of a message that just started. -/
def startedActive (sink : DurableCatalogSink) (start : MessageStart) : ActiveCandidate :=
  ⟨startedKey sink.connection.database start, start.id, sink.payloadPackPosition, 0, [],
    start.metadata.supported, start.metadata.embeddedPath⟩

/-- What the items of a stream do to a sink that takes them. -/
inductive Moves (sink next : DurableCatalogSink) : Received → Prop
  | boundary {item : Received} (isBoundary : item.isBoundary = true) (path : item.path = none)
      (poised : Poised next)
      (candidates : next.connection.database.candidates = sink.connection.database.candidates) :
      Moves sink next item
  | replayed {candidate : ReplayCandidate} {observedId : Nat} (idle : sink.active = none)
      (poised : Poised next) (known : sink.unit = candidate.unit) (unit : next.unit = sink.unit)
      (candidates : next.connection.database.candidates = sink.connection.database.candidates)
      (recent : next.recentCandidates =
        (candidate.metadata.embeddedPath, candidate.itemKey) :: sink.recentCandidates) :
      Moves sink next (.replayed candidate observedId)
  | started {start : MessageStart} {parent : Option ItemKey} (idle : sink.active = none)
      (busy : Busy next (startedActive sink start) sink.connection.database)
      (owner : parentOf sink start = .ok parent)
      (whole : parent.isSome = start.metadata.parentAttachmentIndex.isSome)
      (fresh : ∀ other ∈ sink.connection.database.candidates,
        other.itemKey ≠ startedKey sink.connection.database start)
      (candidates : next.connection.database.candidates =
        sink.connection.database.candidates ++ [startedRow sink start parent])
      (unit : next.unit = sink.unit) (recent : next.recentCandidates = sink.recentCandidates) :
      Moves sink next (.event (.messageStart start))
  | ended {active : ActiveCandidate} {saved : Database} {id : Nat} {complete : Bool}
      {completeness : Completeness} {status : CandidateStatus} (busy : Busy sink active saved)
      (poised : Poised next)
      (candidates : next.connection.database.candidates =
        (sink.connection.database.updateCandidate active.key completeness status).candidates)
      (unit : next.unit = sink.unit)
      (recent : next.recentCandidates =
        (active.embeddedPath, active.key) :: sink.recentCandidates) :
      Moves sink next (.event (.messageEnd id complete))
  | inside {item : Received} {active : ActiveCandidate} {saved : Database}
      (path : item.path = none) (before : Busy sink active saved) (busy : Busy next active saved)
      (remembers : Remembers sink next) : Moves sink next item
  | outside {item : Received} (path : item.path = none) (idle : sink.active = none)
      (poised : Poised next)
      (candidates : next.connection.database.candidates = sink.connection.database.candidates)
      (recollects : Recollects sink next) : Moves sink next item

/-- A sink between two messages or within one. -/
def Standing (sink : DurableCatalogSink) : Prop :=
  Poised sink ∨ ∃ active saved, Busy sink active saved

variable {sink next : DurableCatalogSink}

theorem Moves.standing {item : Received} (moves : Moves sink next item) : Standing next := by
  cases moves with
  | boundary _ _ poised => exact .inl poised
  | replayed _ poised => exact .inl poised
  | started _ busy => exact .inr ⟨_, _, busy⟩
  | ended _ poised => exact .inl poised
  | inside _ _ busy => exact .inr ⟨_, _, busy⟩
  | outside _ _ poised => exact .inl poised

theorem recordReplayedCandidate_moves {candidate : ReplayCandidate} {observedId : Nat}
    (standing : Standing sink)
    (handled : recordReplayedCandidate candidate observedId sink = .ok () next) :
    Moves sink next (.replayed candidate observedId) := by
  obtain ⟨_, _, got, checked⟩ := bind_run_ok.mp handled
  obtain ⟨rfl, rfl⟩ := get_run_ok.mp got
  obtain ⟨_, known, changed⟩ := attempt_bind_run_ok.mp checked
  rw [refuse_eq_ok, not_not] at known
  obtain rfl := modify_run_ok.mp changed
  rcases standing with poised | ⟨active, saved, busy⟩
  · exact .replayed known.1 ⟨⟨poised.ready.alive, poised.ready.even, poised.ready.atEnd⟩,
      poised.idle, poised.savepoints, poised.begun, poised.unrecorded⟩ known.2 rfl rfl rfl
  · have isSome := busy.isSome
    rw [known.1] at isSome
    cases isSome

theorem startCandidate_moves {start : MessageStart} (standing : Standing sink)
    (handled : startCandidate start sink = .ok () next) :
    Moves sink next (.event (.messageStart start)) := by
  have ready : Ready sink := by
    rcases standing with poised | ⟨active, saved, busy⟩
    · exact poised.ready
    · exact busy.ready
  obtain ⟨idle, parent, begun, counter, position, owner, whole, fresh, -, rfl⟩ :=
    (startCandidate_alive ready (fun idle => by
      rcases standing with poised | ⟨active, saved, busy⟩
      · exact ⟨poised.savepoints, poised.begun⟩
      · have isSome := busy.isSome
        rw [idle] at isSome
        cases isSome) start).run_ok handled
  exact .started idle ⟨⟨ready.alive, ready.even, ready.atEnd⟩, rfl, rfl, rfl, rfl⟩ owner whole fresh
    rfl rfl rfl

theorem handleMessageEnd_moves {id : Nat} {complete : Bool} (standing : Standing sink)
    (handled : handleMessageEnd sha256 id complete sink = .ok () next) :
    Moves sink next (.event (.messageEnd id complete)) := by
  rcases standing with poised | ⟨active, saved, busy⟩
  · obtain ⟨_, _, got, checked⟩ := bind_run_ok.mp handled
    obtain ⟨rfl, rfl⟩ := get_run_ok.mp got
    obtain ⟨_, required, -⟩ := attempt_bind_run_ok.mp checked
    exact absurd poised.idle (requireMessage_busy required)
  · obtain ⟨open_, there, outlined⟩ := Option.map_eq_some_iff.mp busy.active
    have done := (handleMessageEnd_alive busy.ready there busy.batchOpen busy.begun busy.savepoints
      id complete).run_ok handled
    have key : open_.key = active.key :=
      (congrArg ActiveCandidate.key outlined : open_.outline.key = active.key)
    have path : open_.embeddedPath = active.embeddedPath :=
      (congrArg ActiveCandidate.embeddedPath outlined :
        open_.outline.embeddedPath = active.embeddedPath)
    have poised : Poised next := ⟨done.ready, done.idle, done.savepoints, done.begun,
      fun property there => by rw [done.property] at there; cases there⟩
    refine .ended busy poised (key ▸ done.candidates) done.unit ?_
    rw [done.recent, path, key]

/-- What a sink does with an item that it takes. -/
theorem receive_moves {item : Received} (standing : Standing sink)
    (handled : receive sha256 item sink = .ok () next) : Moves sink next item := by
  cases item with
  | replayed candidate observedId => exact recordReplayedCandidate_moves standing handled
  | event event =>
      by_cases starts : ∃ start, event = .messageStart start
      · obtain ⟨start, rfl⟩ := starts
        exact startCandidate_moves standing handled
      by_cases ends : ∃ id complete, event = .messageEnd id complete
      · obtain ⟨id, complete, rfl⟩ := ends
        exact handleMessageEnd_moves standing handled
      have path : (Received.event event).path = none := by
        cases event <;> first | rfl | exact absurd ⟨_, rfl⟩ starts
      have notStart : ∀ start, event ≠ .messageStart start := fun start same => starts ⟨start, same⟩
      have notEnd : ∀ id complete, event ≠ .messageEnd id complete :=
        fun id complete same => ends ⟨id, complete, same⟩
      rcases standing with poised | ⟨active, saved, busy⟩
      · obtain ⟨poisedNext, candidates⟩ := handleEvent_outside poised notStart notEnd handled
        by_cases boundary : (Received.event event).isBoundary = true
        · exact .boundary boundary path poisedNext candidates
        · refine .outside path poised.idle poisedNext candidates
            (handleEvent_recollects poised.idle poised.unrecorded notStart notEnd ?_ ?_ handled)
          · rintro unit rfl
            exact boundary rfl
          · rintro unit rfl
            exact boundary rfl
      · obtain ⟨busyNext, remembers⟩ := handleEvent_inside busy notEnd handled
        exact .inside path busy busyNext remembers

end Moves

section Families

/-- A row of a ledger with a key, a path and a unit. -/
def RowAt (rows : List CandidateRow) (key : ItemKey) (path : List Nat)
    (unit : Option RecoveryUnit) : Prop :=
  ∃ row ∈ rows, row.itemKey = key ∧ row.embeddedPath = path ∧ row.unit = unit

/-- Rows of which each belongs to one of its unit, at the path before its own, or stands at the top.
-/
structure Rooted (rows : List CandidateRow) : Prop where
  paths : ∀ row ∈ rows, row.metadata.embeddedPath = row.embeddedPath
  tops : ∀ row ∈ rows, row.parentItemKey = none → row.embeddedPath = []
  parents : ∀ row ∈ rows, ∀ key, row.parentItemKey = some key → ∃ path index,
    row.parentAttachmentIndex = some index ∧ row.embeddedPath = path ++ [index] ∧
      RowAt rows key path row.unit

/-- What the sink would take for the message at a path of the unit, once the open one has ended. -/
def Recalls (path : List Nat) (key : ItemKey) (sink : DurableCatalogSink) : Prop :=
  match sink.active with
  | some active => (active.embeddedPath = path ∧ active.key = key) ∨
      (active.embeddedPath ≠ path ∧ recentCandidate sink path = some key)
  | none => recentCandidate sink path = some key

variable {sink next : DurableCatalogSink} {item : Received} {path : List Nat} {key : ItemKey}

theorem recentCandidate_congr (same : next.recentCandidates = sink.recentCandidates) :
    recentCandidate next path = recentCandidate sink path := by
  unfold recentCandidate
  rw [same]

theorem recentCandidate_cons {entry : List Nat × ItemKey}
    (same : next.recentCandidates = entry :: sink.recentCandidates) :
    recentCandidate next path =
      if entry.1 = path then some entry.2 else recentCandidate sink path := by
  unfold recentCandidate
  rw [same, List.find?_cons]
  by_cases found : entry.1 = path
  · rw [if_pos found]
    simp [found]
  · rw [if_neg found]
    simp [found]

/-- What is recalled while a message is open. -/
theorem recalls_busy {active : ActiveCandidate} {saved : Database} (busy : Busy sink active saved) :
    Recalls path key sink ↔ (active.embeddedPath = path ∧ active.key = key) ∨
      (active.embeddedPath ≠ path ∧ recentCandidate sink path = some key) := by
  obtain ⟨there, found, outlined⟩ := Option.map_eq_some_iff.mp busy.active
  have sameKey : there.key = active.key :=
    (congrArg ActiveCandidate.key outlined : there.outline.key = active.key)
  have samePath : there.embeddedPath = active.embeddedPath :=
    (congrArg ActiveCandidate.embeddedPath outlined :
      there.outline.embeddedPath = active.embeddedPath)
  unfold Recalls
  rw [found, ← sameKey, ← samePath]

theorem recalls_idle (idle : sink.active = none) :
    Recalls path key sink ↔ recentCandidate sink path = some key := by
  unfold Recalls
  rw [idle]

/-- A message that comes is recalled at its path. -/
theorem Moves.announces (moves : Moves sink next item) (isPath : item.path = some path)
    (isKey : item.key sink.connection.database = some key) :
    Recalls path key next ∧ next.unit = sink.unit := by
  cases moves with
  | boundary _ none =>
      rw [none] at isPath
      cases isPath
  | replayed _ poised _ unit _ recent =>
      obtain rfl := Option.some.inj isPath
      obtain rfl := Option.some.inj isKey
      refine ⟨(recalls_idle poised.idle).mpr ?_, unit⟩
      rw [recentCandidate_cons recent, if_pos rfl]
  | started _ busy _ _ _ _ unit _ =>
      obtain rfl := Option.some.inj isPath
      obtain rfl := Option.some.inj isKey
      exact ⟨(recalls_busy busy).mpr (.inl ⟨rfl, rfl⟩), unit⟩
  | ended => cases isPath
  | inside none =>
      rw [none] at isPath
      cases isPath
  | outside none =>
      rw [none] at isPath
      cases isPath

/-- What is recalled stays so until the unit ends or another message comes at its path. -/
theorem Moves.recalls (moves : Moves sink next item) (within : item.isBoundary = false)
    (other : item.path ≠ some path) (recalls : Recalls path key sink) :
    Recalls path key next ∧ next.unit = sink.unit := by
  cases moves with
  | boundary isBoundary =>
      rw [within] at isBoundary
      cases isBoundary
  | replayed idle poised _ unit _ recent =>
      refine ⟨(recalls_idle poised.idle).mpr ?_, unit⟩
      rw [recentCandidate_cons recent, if_neg fun same => other (congrArg some same)]
      exact (recalls_idle idle).mp recalls
  | started idle busy _ _ _ _ unit recent =>
      refine ⟨(recalls_busy busy).mpr (.inr ⟨fun same => other (congrArg some same), ?_⟩), unit⟩
      rw [recentCandidate_congr recent]
      exact (recalls_idle idle).mp recalls
  | ended busy poised _ unit recent =>
      refine ⟨(recalls_idle poised.idle).mpr ?_, unit⟩
      rw [recentCandidate_cons recent]
      rcases (recalls_busy busy).mp recalls with ⟨same, is⟩ | ⟨different, known⟩
      · rw [if_pos same, is]
      · rw [if_neg different]
        exact known
  | inside _ before busy remembers =>
      refine ⟨(recalls_busy busy).mpr ?_, remembers.unit⟩
      rw [recentCandidate_congr remembers.recent]
      exact (recalls_busy before).mp recalls
  | outside _ idle poised _ recollects =>
      refine ⟨(recalls_idle poised.idle).mpr ?_, recollects.1⟩
      rw [recentCandidate_congr recollects.2]
      exact (recalls_idle idle).mp recalls

/-- A fact about rows that does not depend on their outcome. -/
def Lasting (fact : CandidateRow → Prop) : Prop :=
  ∀ row completeness status, fact row → fact { row with completeness, status }

/-- Setting the outcome of a candidate keeps the rows. -/
theorem Lasting.update {fact : CandidateRow → Prop} (lasting : Lasting fact) {database : Database}
    {other : ItemKey} {completeness : Completeness} {status : CandidateStatus}
    (there : ∃ row ∈ database.candidates, fact row) :
    ∃ row ∈ (database.updateCandidate other completeness status).candidates, fact row := by
  obtain ⟨row, member, known⟩ := there
  refine ⟨_, List.mem_map_of_mem member, ?_⟩
  split
  · exact lasting row completeness status known
  · exact known

/-- Rows stay where they are. -/
theorem Moves.lasts {fact : CandidateRow → Prop} (moves : Moves sink next item)
    (lasting : Lasting fact) (there : ∃ row ∈ sink.connection.database.candidates, fact row) :
    ∃ row ∈ next.connection.database.candidates, fact row := by
  cases moves with
  | boundary _ _ _ same | replayed _ _ _ _ same | outside _ _ _ same =>
      rw [same]
      exact there
  | inside _ _ _ remembers =>
      rw [remembers.candidates]
      exact there
  | started _ _ _ _ _ candidates =>
      obtain ⟨row, member, known⟩ := there
      exact ⟨row, candidates ▸ List.mem_append_left _ member, known⟩
  | ended _ _ candidates =>
      rw [candidates]
      exact lasting.update there

theorem lasting_rowAt (key : ItemKey) (path : List Nat) (unit : Option RecoveryUnit) :
    Lasting fun row => row.itemKey = key ∧ row.embeddedPath = path ∧ row.unit = unit :=
  fun _ _ _ known => known

theorem RowAt.mono {rows more : List CandidateRow} {unit : Option RecoveryUnit}
    (there : RowAt rows key path unit) (le : ∀ row ∈ rows, row ∈ more) :
    RowAt more key path unit := by
  obtain ⟨row, member, known⟩ := there
  exact ⟨row, le row member, known⟩

/-- The outcome of a message does not change where it belongs. -/
theorem Rooted.update {database : Database} (rooted : Rooted database.candidates)
    (completeness : Completeness) (status : CandidateStatus) :
    Rooted (database.updateCandidate key completeness status).candidates := by
  have stays : ∀ {other : ItemKey} {path : List Nat} {unit : Option RecoveryUnit},
      RowAt database.candidates other path unit →
        RowAt (database.updateCandidate key completeness status).candidates other path unit :=
    fun there => (lasting_rowAt _ _ _).update there
  refine ⟨fun row member => ?_, fun row member top => ?_, fun row member parent belongs => ?_⟩
  · obtain ⟨source, from_, rfl⟩ := List.mem_map.mp member
    have same := rooted.paths source from_
    split
    · exact same
    · exact same
  · obtain ⟨source, from_, rfl⟩ := List.mem_map.mp member
    have same := rooted.tops source from_
    have isTop : source.parentItemKey = none := by
      split at top
      · exact top
      · exact top
    split
    · exact same isTop
    · exact same isTop
  · obtain ⟨source, from_, rfl⟩ := List.mem_map.mp member
    have belongs : source.parentItemKey = some parent := by
      split at belongs
      · exact belongs
      · exact belongs
    obtain ⟨path, index, attachment, below, there⟩ := rooted.parents source from_ parent belongs
    refine ⟨path, index, ?_, ?_, ?_⟩
    · split
      · exact attachment
      · exact attachment
    · split
      · exact below
      · exact below
    · split
      · exact stays there
      · exact stays there

/-- Whom the sink takes for the parent of an embedded message. -/
theorem parentOf_recalled {start : MessageStart} {parent : Option ItemKey}
    (owner : parentOf sink start = .ok parent)
    (recent : recentCandidate sink start.metadata.embeddedPath.dropLast = some key)
    (embedded : start.metadata.parentMessageId.isSome = true) :
    parent = some key ∧ ∃ index, start.metadata.parentAttachmentIndex = some index ∧
      start.metadata.embeddedPath = start.metadata.embeddedPath.dropLast ++ [index] := by
  obtain ⟨id, isSome⟩ := Option.isSome_iff_exists.mp embedded
  simp only [parentOf, isSome] at owner
  obtain ⟨found, looked, same⟩ := bind_eq_ok.mp owner
  obtain ⟨index, last, checked⟩ := bind_eq_ok.mp looked
  obtain ⟨_, agrees, chosen⟩ := bind_eq_ok.mp checked
  simp only [recent] at chosen
  cases chosen
  cases same
  rw [refuse_eq_ok, not_not] at agrees
  refine ⟨rfl, index, agrees.symm, ?_⟩
  exact (List.dropLast_append_getLast? index (okOr_eq_ok.mp last)).symm

theorem parentOf_none {start : MessageStart} (owner : parentOf sink start = .ok none) :
    start.metadata.parentMessageId = none := by
  cases parent : start.metadata.parentMessageId with
  | none => rfl
  | some id =>
      simp only [parentOf, parent] at owner
      obtain ⟨found, -, same⟩ := bind_eq_ok.mp owner
      cases same

/-- The message around an embedded one is known in its unit. -/
def Around (sink : DurableCatalogSink) (start : MessageStart) : Prop :=
  ∃ key, Recalls start.metadata.embeddedPath.dropLast key sink ∧
    RowAt sink.connection.database.candidates key start.metadata.embeddedPath.dropLast sink.unit

theorem startedRow_path (sink : DurableCatalogSink) (start : MessageStart)
    (parent : Option ItemKey) : (startedRow sink start parent).metadata.embeddedPath =
      (startedRow sink start parent).embeddedPath := by
  change (durableMetadata sink start.metadata).embeddedPath = start.metadata.embeddedPath
  unfold durableMetadata
  split
  · rfl
  · rfl

theorem Rooted.started {start : MessageStart} {parent : Option ItemKey}
    (rooted : Rooted sink.connection.database.candidates) (idle : sink.active = none)
    (owner : parentOf sink start = .ok parent)
    (top : start.metadata.parentMessageId = none → start.metadata.embeddedPath = [])
    (around : start.metadata.parentMessageId.isSome = true → Around sink start) :
    Rooted (sink.connection.database.candidates ++ [startedRow sink start parent]) := by
  have stays : ∀ {other : ItemKey} {path : List Nat} {unit : Option RecoveryUnit},
      RowAt sink.connection.database.candidates other path unit → RowAt
        (sink.connection.database.candidates ++ [startedRow sink start parent]) other path unit :=
    fun there => there.mono fun _ member => List.mem_append_left _ member
  refine ⟨fun row member => ?_, fun row member isTop => ?_, fun row member key belongs => ?_⟩
  · rcases List.mem_append.mp member with old | new
    · exact rooted.paths row old
    · rw [List.mem_singleton.mp new]
      exact startedRow_path sink start parent
  · rcases List.mem_append.mp member with old | new
    · exact rooted.tops row old isTop
    · rw [List.mem_singleton.mp new] at isTop ⊢
      obtain rfl : parent = none := isTop
      exact top (parentOf_none owner)
  · rcases List.mem_append.mp member with old | new
    · obtain ⟨path, index, attachment, below, there⟩ := rooted.parents row old key belongs
      exact ⟨path, index, attachment, below, stays there⟩
    · rw [List.mem_singleton.mp new] at belongs ⊢
      obtain rfl : parent = some key := belongs
      have embedded : start.metadata.parentMessageId.isSome = true := by
        cases none : start.metadata.parentMessageId with
        | some id => rfl
        | none =>
            simp only [parentOf, none] at owner
            cases owner
      obtain ⟨known, recalls, there⟩ := around embedded
      obtain ⟨same, index, attachment, below⟩ :=
        parentOf_recalled owner ((recalls_idle idle).mp recalls) embedded
      cases same
      exact ⟨_, index, attachment, below, stays there⟩

/-- What is known of a sink in a stream in which the messages around come first. -/
structure Seated (sink : DurableCatalogSink) : Prop where
  standing : Standing sink
  rooted : Rooted sink.connection.database.candidates
  saved : ∀ saved, sink.connection.savepoints = [saved] → Rooted saved.candidates

theorem Moves.seated (moves : Moves sink next item) (seated : Seated sink)
    (housed : ∀ start, item = .event (.messageStart start) →
      (start.metadata.parentMessageId = none → start.metadata.embeddedPath = []) ∧
        (start.metadata.parentMessageId.isSome = true → Around sink start)) : Seated next := by
  have standing := moves.standing
  cases moves with
  | boundary _ _ poised same | replayed _ poised _ _ same | outside _ _ poised same =>
      refine ⟨standing, same ▸ seated.rooted, fun saved is => ?_⟩
      rw [poised.savepoints] at is
      cases is
  | inside _ before busy remembers =>
      refine ⟨standing, remembers.candidates ▸ seated.rooted, fun saved is => ?_⟩
      rw [busy.savepoints] at is
      cases is
      exact seated.saved _ before.savepoints
  | started idle busy owner _ _ candidates =>
      obtain ⟨top, around⟩ := housed _ rfl
      refine ⟨standing, ?_, fun saved is => ?_⟩
      · rw [candidates]
        exact seated.rooted.started idle owner top around
      · rw [busy.savepoints] at is
        cases is
        exact seated.rooted
  | ended _ poised candidates =>
      refine ⟨standing, ?_, fun saved is => ?_⟩
      · rw [candidates]
        exact seated.rooted.update _ _
      · rw [poised.savepoints] at is
        cases is

end Families

section Streams

/-- An item is the message around another one, with none at its path behind it in the unit. -/
def Encloses (item : Received) (later : List Received) (start : MessageStart) : Prop :=
  item.path = some start.metadata.embeddedPath.dropLast ∧ ∀ other ∈ later,
    other.isBoundary = false ∧ other.path ≠ some start.metadata.embeddedPath.dropLast

/-- A stream in which every embedded message comes, in its unit, behind the message around it,
whether that comes too or was there before the worker. -/
def Housed (items : List Received) : Prop :=
  ∀ before start after, items = before ++ .event (.messageStart start) :: after →
    (start.metadata.parentMessageId = none → start.metadata.embeddedPath = []) ∧
    (start.metadata.parentMessageId.isSome = true →
      ∃ earlier item later, before = earlier ++ item :: later ∧ Encloses item later start)

/-- The candidates that are announced to be there before the worker are. -/
def Replays (database : Database) (items : List Received) : Prop :=
  ∀ candidate observedId, .replayed candidate observedId ∈ items →
    candidate ∈ replayCandidates database

variable {start sink next : DurableCatalogSink} {path : List Nat} {key : ItemKey}

theorem receiveAll_append (first second : List Received) :
    receiveAll sha256 (first ++ second) =
      (do receiveAll sha256 first; receiveAll sha256 second) := by
  induction first with
  | nil =>
      funext sink
      rfl
  | cons item more ih =>
      rw [List.cons_append, receiveAll, receiveAll, ih, bind_assoc]

theorem Housed.before {first second : List Received} (housed : Housed (first ++ second)) :
    Housed first := by
  intro before start after same
  refine housed before start (after ++ second) ?_
  rw [same, List.append_assoc]
  rfl

theorem Replays.before {database : Database} {first second : List Received}
    (replays : Replays database (first ++ second)) : Replays database first :=
  fun candidate observedId member => replays candidate observedId (List.mem_append_left _ member)

/-- A stream that the sink takes, item by item. -/
theorem receiveAll_standing {items : List Received} (standing : Standing sink)
    (accepted : receiveAll sha256 items sink = .ok () next) : Standing next := by
  induction items generalizing sink with
  | nil =>
      obtain ⟨-, rfl⟩ := pure_run_ok.mp accepted
      exact standing
  | cons item items ih =>
      obtain ⟨_, middle, taken, rest⟩ := bind_run_ok.mp accepted
      exact ih (receive_moves standing taken).standing rest

theorem receiveAll_lasts {items : List Received} {fact : CandidateRow → Prop}
    (standing : Standing sink) (accepted : receiveAll sha256 items sink = .ok () next)
    (lasting : Lasting fact) (there : ∃ row ∈ sink.connection.database.candidates, fact row) :
    ∃ row ∈ next.connection.database.candidates, fact row := by
  induction items generalizing sink with
  | nil =>
      obtain ⟨-, rfl⟩ := pure_run_ok.mp accepted
      exact there
  | cons item items ih =>
      obtain ⟨_, middle, taken, rest⟩ := bind_run_ok.mp accepted
      have moves := receive_moves standing taken
      exact ih moves.standing rest (moves.lasts lasting there)

theorem receiveAll_rowAt {items : List Received} {unit : Option RecoveryUnit}
    (standing : Standing sink) (accepted : receiveAll sha256 items sink = .ok () next)
    (there : RowAt sink.connection.database.candidates key path unit) :
    RowAt next.connection.database.candidates key path unit :=
  receiveAll_lasts standing accepted (lasting_rowAt _ _ _) there

theorem receiveAll_recalls {items : List Received} (standing : Standing sink)
    (accepted : receiveAll sha256 items sink = .ok () next) (recalls : Recalls path key sink)
    (others : ∀ other ∈ items, other.isBoundary = false ∧ other.path ≠ some path) :
    Recalls path key next ∧ next.unit = sink.unit := by
  induction items generalizing sink with
  | nil =>
      obtain ⟨-, rfl⟩ := pure_run_ok.mp accepted
      exact ⟨recalls, rfl⟩
  | cons item items ih =>
      obtain ⟨_, middle, taken, rest⟩ := bind_run_ok.mp accepted
      obtain ⟨other, more⟩ := List.forall_mem_cons.mp others
      have moves := receive_moves standing taken
      obtain ⟨recalls, unit⟩ := moves.recalls other.1 other.2 recalls
      obtain ⟨recalls, unit'⟩ := ih moves.standing rest recalls more
      exact ⟨recalls, unit'.trans unit⟩

/-- A message that comes, or was there before, has a row in its unit. -/
theorem Moves.row {item : Received} (moves : Moves sink next item)
    (known : ∀ candidate observedId, item = .replayed candidate observedId →
      RowAt sink.connection.database.candidates candidate.itemKey candidate.metadata.embeddedPath
        candidate.unit)
    (isPath : item.path = some path) :
    ∃ key, item.key sink.connection.database = some key ∧
      RowAt next.connection.database.candidates key path next.unit := by
  cases moves with
  | boundary _ none =>
      rw [none] at isPath
      cases isPath
  | replayed _ _ same unit candidates =>
      obtain rfl := Option.some.inj isPath
      refine ⟨_, rfl, ?_⟩
      rw [unit, same, candidates]
      exact known _ _ rfl
  | @started start parent _ _ _ _ _ candidates unit _ =>
      obtain rfl := Option.some.inj isPath
      refine ⟨_, rfl, startedRow sink start parent, ?_, rfl, rfl, unit.symm⟩
      rw [candidates]
      exact List.mem_append_right _ List.mem_cons_self
  | ended => cases isPath
  | inside none =>
      rw [none] at isPath
      cases isPath
  | outside none =>
      rw [none] at isPath
      cases isPath

theorem rowAt_replay {database : Database} (rooted : Rooted database.candidates)
    {candidate : ReplayCandidate} (known : candidate ∈ replayCandidates database) :
    RowAt database.candidates candidate.itemKey candidate.metadata.embeddedPath candidate.unit := by
  obtain ⟨row, member, rfl⟩ := List.mem_map.mp known
  exact ⟨row, (List.mem_filter.mp member).1, rfl, (rooted.paths row
    (List.mem_filter.mp member).1).symm,
    rfl⟩

/-- Behind the message around it, an embedded message finds that one, with its row. -/
theorem enclosed_around {earlier later : List Received} {item : Received} {message : MessageStart}
    (standing : Standing start) (rooted : Rooted start.connection.database.candidates)
    (replays : Replays start.connection.database (earlier ++ item :: later))
    (accepted : receiveAll sha256 (earlier ++ item :: later) start = .ok () next)
    (encloses : Encloses item later message) :
    ∃ sink key, receiveAll sha256 earlier start = .ok () sink ∧
      item.key sink.connection.database = some key ∧
      Recalls message.metadata.embeddedPath.dropLast key next ∧
      RowAt next.connection.database.candidates key message.metadata.embeddedPath.dropLast
        next.unit := by
  rw [receiveAll_append] at accepted
  obtain ⟨_, sink, before, behind⟩ := bind_run_ok.mp accepted
  obtain ⟨_, middle, taken, rest⟩ := bind_run_ok.mp behind
  have standingSink := receiveAll_standing standing before
  have moves := receive_moves standingSink taken
  obtain ⟨key, isKey, there⟩ := moves.row (fun candidate observedId same => by
    have member := replays candidate observedId (by simp [same])
    exact receiveAll_rowAt standing before (rowAt_replay rooted member)) encloses.1
  obtain ⟨recalls, -⟩ := moves.announces encloses.1 isKey
  obtain ⟨recalls, unit⟩ := receiveAll_recalls moves.standing rest recalls encloses.2
  refine ⟨sink, key, before, isKey, recalls, ?_⟩
  rw [unit]
  exact receiveAll_rowAt moves.standing rest there

/-- A stream in which the messages around come first keeps every row in its place. -/
theorem receiveAll_seated {items : List Received} (seated : Seated start)
    (replays : Replays start.connection.database items) (housed : Housed items)
    (accepted : receiveAll sha256 items start = .ok () next) : Seated next := by
  induction items using List.reverseRecOn generalizing next with
  | nil =>
      obtain ⟨-, rfl⟩ := pure_run_ok.mp accepted
      exact seated
  | append_singleton items item ih =>
      rw [receiveAll_append] at accepted
      obtain ⟨_, middle, before, behind⟩ := bind_run_ok.mp accepted
      obtain ⟨_, last, taken, nothing⟩ := bind_run_ok.mp behind
      obtain ⟨-, rfl⟩ := pure_run_ok.mp nothing
      have seatedMiddle := ih replays.before housed.before before
      refine (receive_moves seatedMiddle.standing taken).seated seatedMiddle ?_
      rintro message rfl
      obtain ⟨top, embedded⟩ := housed items message [] rfl
      refine ⟨top, fun isSome => ?_⟩
      obtain ⟨earlier, item, later, rfl, encloses⟩ := embedded isSome
      obtain ⟨_, key, -, -, recalls, there⟩ :=
        enclosed_around seated.standing seated.rooted replays.before before encloses
      exact ⟨key, recalls, there⟩

end Streams

section Parents

/-- Following the parents of a row, each at the path before that of its child, leads to another. -/
inductive Reaches (rows : List CandidateRow) : CandidateRow → CandidateRow → Prop
  | refl (row : CandidateRow) : Reaches rows row row
  | step {row parent top : CandidateRow} {index : Nat} (member : parent ∈ rows)
      (belongs : row.parentItemKey = some parent.itemKey)
      (attachment : row.parentAttachmentIndex = some index)
      (below : row.embeddedPath = parent.embeddedPath ++ [index])
      (reaches : Reaches rows parent top) : Reaches rows row top

/-- The parents of every row lead to a top-level row of its unit. -/
theorem Rooted.reaches {rows : List CandidateRow} (rooted : Rooted rows) {row : CandidateRow}
    (member : row ∈ rows) : ∃ top ∈ rows, Reaches rows row top ∧ top.parentItemKey = none ∧
      top.embeddedPath = [] ∧ top.unit = row.unit := by
  induction length : row.embeddedPath.length generalizing row with
  | zero =>
      cases belongs : row.parentItemKey with
      | none => exact ⟨row, member, .refl row, belongs, rooted.tops row member belongs, rfl⟩
      | some key =>
          obtain ⟨path, index, -, below, -⟩ := rooted.parents row member key belongs
          rw [below, List.length_append] at length
          cases length
  | succ depth ih =>
      cases belongs : row.parentItemKey with
      | none =>
          rw [rooted.tops row member belongs] at length
          cases length
      | some key =>
          obtain ⟨path, index, attachment, below, parent, there, rfl, rfl, unit⟩ :=
            rooted.parents row member key belongs
          have shorter : parent.embeddedPath.length = depth := by
            rw [below, List.length_append, List.length_singleton] at length
            omega
          obtain ⟨top, isThere, reaches, isTop, atTop, unit'⟩ := ih there shorter
          exact ⟨top, isThere, .step there belongs attachment below reaches, isTop, atTop,
            unit'.trans unit⟩

variable (sha256) in
/-- The sinks between two workers that report every embedded message behind the one around
it: created, opened again, told what to capture, or given back by an attempt of such a worker. -/
inductive Tended : DurableCatalogSink → Prop
  | create (mode : CatalogCaptureMode) : Tended (createWithCapture mode)
  | opened {before sink : DurableCatalogSink} {found : Bytes} (tended : Tended before)
      (opens : openExpected before.connection.database found = .ok sink) : Tended sink
  | enabled {sink next : DurableCatalogSink} (propertyPrefixBytes attachmentPrefixBytes : Nat)
      (tended : Tended sink)
      (enables : enableDirectMetadataCapture propertyPrefixBytes attachmentPrefixBytes sink =
        .ok () next) : Tended next
  | attempted {sink middle next : DurableCatalogSink} {items : List Received}
      (tended : Tended sink) (replays : Replays sink.connection.database items)
      (housed : Housed items) (accepted : receiveAll sha256 items sink = .ok () middle)
      (aborted : abortWorkerAttempt middle = .ok () next) : Tended next

variable {start sink next : DurableCatalogSink}

theorem Tended.atRest (tended : Tended sha256 sink) : AtRest sha256 sink := by
  induction tended with
  | create mode => exact .create mode
  | opened _ opens => exact .opened opens
  | enabled _ _ _ enables rest => exact .enabled _ _ rest enables
  | @attempted sink middle next items _ _ _ accepted aborted rest =>
      have same : after (receiveAll sha256 items) sink = middle := by
        unfold after
        rw [accepted]
      exact .attempted items rest (same.symm ▸ aborted)

theorem Resting.standing (resting : Resting sink) : Standing sink := by
  have connection := resting.connection
  refine .inl ⟨resting.ready, resting.active, ?_, ?_, fun property there => ?_⟩
  · rw [connection]
    rfl
  · rw [connection, resting.batchOpen]
    rfl
  · rw [resting.property] at there
    cases there

theorem Resting.seated (resting : Resting sink)
    (rooted : Rooted sink.connection.database.candidates) : Seated sink := by
  refine ⟨resting.standing, rooted, fun saved is => ?_⟩
  rw [resting.connection] at is
  cases is

/-- Giving up an attempt leaves the rows of messages that have ended. -/
theorem abortWorkerAttempt_rooted {items : List Received} (resting : Resting start)
    (seated : Seated sink) (accepted : receiveAll sha256 items start = .ok () sink)
    (aborted : abortWorkerAttempt sink = .ok () next) :
    Rooted next.connection.database.candidates := by
  have same : after (receiveAll sha256 items) start = sink := by
    unfold after
    rw [accepted]
  have streamed := @receiveAll_streaming sha256 _ _ _ items resting.ready resting.streaming
  rw [same] at streamed
  obtain ⟨alive, even, idle, streaming⟩ := streamed
  obtain ⟨-, ledger, -⟩ := abortWorkerAttempt_rests alive even idle streaming aborted
  rw [ledger]
  have shape := streaming.shape
  cases active : sink.active with
  | none =>
      rw [active] at shape
      rw [← shape.2.2]
      exact seated.rooted
  | some open_ =>
      rw [active] at shape
      exact seated.saved _ shape.2.2.1

theorem Tended.rooted (tended : Tended sha256 sink) :
    Rooted sink.connection.database.candidates := by
  induction tended with
  | create mode =>
      exact ⟨List.forall_mem_nil _, List.forall_mem_nil _, List.forall_mem_nil _⟩
  | opened _ opens rooted =>
      simp only [openExpected, bind_eq_ok] at opens
      obtain ⟨pack, -, opens⟩ := opens
      obtain rfl := Except.ok.inj opens
      exact rooted
  | enabled _ _ _ enables rooted =>
      simp only [enableDirectMetadataCapture, bind_run_ok, get_run_ok, require, attempt_run_ok,
        modify_run_ok] at enables
      obtain ⟨_, _, ⟨rfl, rfl⟩, _, _, ⟨-, rfl⟩, _, _, ⟨-, rfl⟩, rfl⟩ := enables
      exact rooted
  | attempted tended replays housed accepted aborted rooted =>
      have resting := tended.atRest.resting
      have seated := receiveAll_seated (resting.seated rooted) replays housed accepted
      exact abortWorkerAttempt_rooted resting seated accepted aborted

/-- The row of an embedded message names the candidate of the message around it. -/
theorem embedded_row {earlier later rest : List Received} {item : Received}
    {message : MessageStart} (standing : Standing start)
    (rooted : Rooted start.connection.database.candidates)
    (replays : Replays start.connection.database (earlier ++ item :: later))
    (accepted : receiveAll sha256
      (earlier ++ item :: (later ++ .event (.messageStart message) :: rest)) start = .ok () next)
    (embedded : message.metadata.parentMessageId.isSome = true)
    (encloses : Encloses item later message) :
    ∃ before here key, receiveAll sha256 earlier start = .ok () before ∧
      receiveAll sha256 (earlier ++ item :: later) start = .ok () here ∧
      item.key before.connection.database = some key ∧
      ∃ row ∈ next.connection.database.candidates,
        row.itemKey = startedKey here.connection.database message ∧
          row.parentItemKey = some key := by
  have split : earlier ++ item :: (later ++ .event (.messageStart message) :: rest) =
      (earlier ++ item :: later) ++ .event (.messageStart message) :: rest := by
    rw [List.append_assoc, List.cons_append]
  rw [split, receiveAll_append] at accepted
  obtain ⟨_, here, reached, behind⟩ := bind_run_ok.mp accepted
  obtain ⟨_, middle, taken, rest⟩ := bind_run_ok.mp behind
  obtain ⟨before, key, isBefore, isKey, recalls, -⟩ :=
    enclosed_around standing rooted replays reached encloses
  have moves := receive_moves (receiveAll_standing standing reached) taken
  refine ⟨before, here, key, isBefore, reached, isKey, ?_⟩
  have lasting : Lasting fun row => row.itemKey = startedKey here.connection.database message ∧
      row.parentItemKey = some key := fun _ _ _ known => known
  refine receiveAll_lasts moves.standing rest lasting ?_
  cases moves with
  | boundary _ path => cases path
  | inside path => cases path
  | outside path => cases path
  | @started _ parent idle _ owner _ _ candidates =>
      obtain ⟨rfl, -⟩ := parentOf_recalled owner ((recalls_idle idle).mp recalls) embedded
      refine ⟨startedRow here message (some key), ?_, rfl, rfl⟩
      rw [candidates]
      exact List.mem_append_right _ List.mem_cons_self

/-- In a stream in which every embedded message comes behind the one around it, parents lead
from every row to a top-level row of its unit, and an embedded message is recorded under the
candidate of the message around it. -/
theorem embedded_parents {items : List Received} (tended : Tended sha256 start)
    (replays : Replays start.connection.database items) (housed : Housed items)
    (accepted : receiveAll sha256 items start = .ok () next) :
    (∀ row ∈ next.connection.database.candidates, ∃ top ∈ next.connection.database.candidates,
      Reaches next.connection.database.candidates row top ∧ top.parentItemKey = none ∧
        top.embeddedPath = [] ∧ top.unit = row.unit) ∧
    ∀ earlier item later message rest,
      items = earlier ++ item :: (later ++ .event (.messageStart message) :: rest) →
      message.metadata.parentMessageId.isSome = true → Encloses item later message →
        ∃ before here key, receiveAll sha256 earlier start = .ok () before ∧
          receiveAll sha256 (earlier ++ item :: later) start = .ok () here ∧
          item.key before.connection.database = some key ∧
          ∃ row ∈ next.connection.database.candidates,
            row.itemKey = startedKey here.connection.database message ∧
              row.parentItemKey = some key := by
  have rooted := tended.rooted
  have resting := tended.atRest.resting
  constructor
  · have seated := receiveAll_seated (resting.seated rooted) replays housed accepted
    exact fun row member => seated.rooted.reaches member
  · rintro earlier item later message rest rfl embedded encloses
    have split : earlier ++ item :: (later ++ .event (.messageStart message) :: rest) =
        (earlier ++ item :: later) ++ .event (.messageStart message) :: rest := by
      rw [List.append_assoc, List.cons_append]
    rw [split] at replays
    exact embedded_row resting.standing rooted replays.before accepted embedded encloses

/-- A message in an attachment of another one. -/
def enclosedNote (id parentId : Nat) : CatalogEvent :=
  .messageStart ⟨id, .normal, none, ⟨some 290, some parentId, some 0, [0], false, some 1, none,
    none, none, none, none, none, true⟩⟩

/-- A note with another one in its attachment. -/
def enclosedNotes : List Received :=
  [.event (.unitStart (.normal [] 290 0)), .event (noteStart 7), .event (.messageEnd 7 true),
    .event (enclosedNote 8 7), .event (.messageEnd 8 true), .event (.unitEnd (.normal [] 290 0))]

/-- A note, and in the next unit one that claims to be in its attachment. -/
def strayNotes : List Received :=
  [.event (.unitStart (.normal [] 290 0)), .event (noteStart 7), .event (.messageEnd 7 true),
    .event (.unitEnd (.normal [] 290 0)), .event (.unitStart (.normal [] 290 1)),
    .event (enclosedNote 8 7), .event (.messageEnd 8 true), .event (.unitEnd (.normal [] 290 1))]

theorem enclosedNotes_housed : Housed enclosedNotes := by
  intro before start after same
  match before, same with
  | [], same => cases same
  | [_], same =>
      cases same
      exact ⟨fun _ => rfl, nofun⟩
  | [_, _], same => cases same
  | [_, _, _], same =>
      cases same
      refine ⟨nofun, fun _ => ⟨[.event (.unitStart (.normal [] 290 0))], .event (noteStart 7),
        [.event (.messageEnd 7 true)], rfl, rfl, ?_⟩⟩
      intro other member
      rw [List.mem_singleton.mp member]
      exact ⟨rfl, nofun⟩
  | [_, _, _, _], same => cases same
  | [_, _, _, _, _], same => cases same
  | _ :: _ :: _ :: _ :: _ :: _ :: rest, same =>
      simp only [enclosedNotes, List.cons_append, List.cons.injEq, List.nil_eq,
        List.append_eq_nil_iff, reduceCtorEq, and_false] at same

theorem embedded_parents_notes :
    ∃ next, receiveAll id enclosedNotes (createWithCapture .full) = .ok () next ∧
      ∀ row ∈ next.connection.database.candidates, ∃ top ∈ next.connection.database.candidates,
        Reaches next.connection.database.candidates row top ∧ top.parentItemKey = none ∧
          top.embeddedPath = [] ∧ top.unit = row.unit := by
  have accepted := succeeds_run_ok (show succeeds (receiveAll id enclosedNotes)
    (createWithCapture .full) = true by decide)
  have replays : Replays (createWithCapture .full).connection.database enclosedNotes := by
    intro candidate observedId member
    simp [enclosedNotes] at member
  exact ⟨_, accepted,
    (embedded_parents (.create .full) replays enclosedNotes_housed accepted).1⟩

/-- A message that comes without the one around it is recorded under one of another unit. -/
theorem strayNotes_linked :
    ¬ ∀ items next, receiveAll id items (createWithCapture .full) = .ok () next →
      ∀ row ∈ next.connection.database.candidates, ∃ top ∈ next.connection.database.candidates,
        Reaches next.connection.database.candidates row top ∧ top.parentItemKey = none ∧
          top.unit = row.unit := by
  intro claim
  have accepted := claim strayNotes _ (succeeds_run_ok (by decide))
  have stray : ∃ row ∈ (after (receiveAll id strayNotes)
      (createWithCapture .full)).connection.database.candidates,
        row.unit = some (.normal [] 290 1) := by decide
  have others : ∀ row ∈ (after (receiveAll id strayNotes)
      (createWithCapture .full)).connection.database.candidates,
        row.unit = some (.normal [] 290 1) → row.parentItemKey ≠ none := by decide
  obtain ⟨row, member, unit⟩ := stray
  obtain ⟨top, there, -, isTop, sameUnit⟩ := accepted row member
  exact others top there (sameUnit.trans unit) isTop

end Parents

end PstForge.Job
