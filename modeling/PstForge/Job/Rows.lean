import PstForge.Job.Frames

/-! # The rows of candidates

A message that starts adds a row to the ledger, pending until the message ends; the end
of the message sets its outcome. In between, the events of the message leave the rows of
all candidates as they are.
-/

namespace PstForge.Job

open PstForge.Foundation PstForge.Catalog

section Quiet

variable {sha256 : Bytes → Bytes} {sink : DurableCatalogSink}

theorem handlePropertyData_framed (descriptor : PropertyDescriptor) (bytes : Bytes) :
    FramedAt sink (handlePropertyData descriptor bytes) := by
  refine .get_bind (.attempt_bind fun property there => .attempt_bind fun _ _ ready => ?_)
  replace there := okOr_eq_ok.mp there
  refine .bind (writeBlob_framed _ _ sink ready) fun blob next done => .of_modify ?_
  refine ⟨⟨done.1.living, done.1.batchOpen, done.1.batchCandidates, done.1.begun,
    done.1.savepoints, done.1.candidates, done.1.active, fun other same => ?_,
    done.1.remembered⟩, done.2.alive, done.2.even, done.2.atEnd⟩
  obtain rfl := Option.some.inj same
  exact ⟨property, there, rfl⟩

theorem handleRecipient_framed (messageId : Nat) (recipient : Recipient) :
    Framed (handleRecipient messageId recipient) := by
  refine .get_bind fun _ => .bind (.of_attempt _) fun _ => .bind (.of_attempt _) fun _ =>
    .bind (recordEvent_framed _ _ _) fun _ => .of_modify (fun sink => ?_)
      fun sink ready => ⟨ready.alive, ready.even, ready.atEnd⟩
  refine ⟨id, rfl, rfl, rfl, rfl, rfl, ?_, fun property there => ⟨property, there, rfl⟩,
    fun _ => ⟨rfl, rfl, rfl⟩⟩
  dsimp only
  cases sink.active <;> rfl

/-- A change of the unit and of what is remembered for it, while no candidate is open. -/
theorem setUnit_framed (idle : sink.active = none)
    {change : DurableCatalogSink → DurableCatalogSink}
    (same : ∃ unit recent replayed, change sink = { sink with
      unit
      recentCandidates := recent
      replayedSourceIds := replayed }) : FramedAt sink (modify change) := by
  intro ready
  obtain ⟨unit, recent, replayed, eq⟩ := same
  refine .of_modify ?_
  rw [eq]
  refine ⟨⟨id, rfl, rfl, rfl, rfl, rfl, rfl, fun property there => ⟨property, there, rfl⟩,
    fun busy => ?_⟩, ready.alive, ready.even, ready.atEnd⟩
  rw [idle] at busy
  cases busy

theorem handleUnitStart_framed (unit : RecoveryUnit) : FramedAt sink (handleUnitStart unit) := by
  refine .get_bind (.attempt_bind fun _ idle => ?_)
  rw [refuse_eq_ok, not_not] at idle
  refine .bind (setUnit_framed idle.1 ⟨some unit, _, _, rfl⟩) fun _ middle within => ?_
  exact .attempt_bind fun _ _ => setUnit_framed (within.idle idle.1) ⟨middle.unit, _, _, rfl⟩

theorem handleUnitEnd_framed (unit : RecoveryUnit) : FramedAt sink (handleUnitEnd unit) := by
  refine .get_bind ?_
  split
  case isTrue idle =>
    refine .bind (setUnit_framed idle.1 ⟨none, _, _, rfl⟩) fun _ middle within => ?_
    exact .attempt_bind fun _ _ => setUnit_framed (within.idle idle.1) ⟨middle.unit, _, _, rfl⟩
  case isFalse => exact Framed.of_throw _ sink

theorem recordReplayedCandidate_framed (candidate : ReplayCandidate) (observedId : Nat) :
    FramedAt sink (recordReplayedCandidate candidate observedId) := by
  refine .get_bind (.attempt_bind fun _ idle => ?_)
  rw [refuse_eq_ok, not_not] at idle
  exact setUnit_framed idle.1 ⟨sink.unit, _, _, rfl⟩

theorem handleNamedProperty_framed (descriptor : PropertyDescriptor)
    (identity : NamedPropertyIdentity) : Framed (handleNamedProperty descriptor identity) :=
  .get_bind fun _ => .bind (.of_attempt _) fun _ => .bind (.of_attempt _) fun _ => .of_modify
    (fun _ => ⟨id, rfl, rfl, rfl, rfl, rfl, rfl, fun property there => ⟨property, there, rfl⟩,
      fun _ => ⟨rfl, rfl, rfl⟩⟩)
    fun _ ready => ⟨ready.alive, ready.even, ready.atEnd⟩

theorem handleAttachmentData_framed (messageId index : Nat) (bytes : Bytes) :
    Framed (handleAttachmentData messageId index bytes) :=
  .bind newBlobWriter_framed fun _ => .bind (requireAttachment_framed _ _ _) fun _ =>
    .bind (setAttachment_framed _) fun _ => .bind (writeBlob_framed _ _) fun _ =>
      setAttachment_framed _

/-- An attachment is finished in the message it belongs to. -/
theorem endAttachment_framed (what : String) (messageId index : Nat) (complete : Bool) :
    FramedAt sink (do
      discard (requireAttachment what messageId index)
      finishAttachment sha256 complete) := by
  by_cases busy : sink.active.isSome = true
  · refine .bind (Framed.of_discard (requireAttachment_framed _ _ _) sink)
      fun _ middle within => ?_
    exact finishAttachment_framed sha256 (within.busy.trans busy) complete
  · intro ready
    refine .bind (M := fun _ _ => False) ?_ fun _ _ gone => gone.elim
    rw [Bool.not_eq_true, Option.isSome_eq_false_iff, Option.isNone_iff_eq_none] at busy
    refine .of_discard (.get_bind (.attempt_bind (fun _ matched => ?_) fun _ _ => ready.shaken))
    simp [busy, requireMessage] at matched

/-- Events other than the start and the end of a message or the start of a property only
concern what is open. -/
theorem handleEvent_framed
    (owned : ∀ property, sink.property = some property → property.record = true →
      sink.active.isSome = true) {event : CatalogEvent}
    (notStart : ∀ start, event ≠ .messageStart start)
    (notEnd : ∀ id complete, event ≠ .messageEnd id complete)
    (notProperty : ∀ descriptor, event ≠ .propertyStart descriptor) :
    FramedAt sink (handleEvent sha256 event) := by
  cases event with
  | unitStart unit => exact handleUnitStart_framed unit
  | unitEnd unit => exact handleUnitEnd_framed unit
  | folder id parentId name containerClass =>
      refine Framed.get_bind (fun _ => .bind (.of_attempt _) fun _ =>
        execute_framed fun database changed replaced => ?_) sink
      rw [← Except.ok.inj replaced]
      rfl
  | messageStart start => exact absurd rfl (notStart start)
  | recipient messageId recipient => exact handleRecipient_framed messageId recipient sink
  | attachmentStart messageId attachment =>
      exact Framed.get_bind (fun _ => .bind (.of_attempt _) fun _ =>
        .bind (.of_attempt _) fun _ => .bind (recordEvent_framed _ _ _) fun _ =>
          setAttachment_framed _) sink
  | attachmentMimeProbe messageId index mimeType =>
      exact Framed.bind (.of_discard (requireAttachment_framed _ _ _))
        (fun _ => recordEvent_framed _ _ _) sink
  | attachmentData messageId index bytes =>
      exact handleAttachmentData_framed messageId index bytes sink
  | attachmentEnd messageId index => exact endAttachment_framed "end" messageId index true
  | attachmentAbort messageId index => exact endAttachment_framed "abort" messageId index false
  | propertyStart descriptor => exact absurd rfl (notProperty descriptor)
  | namedProperty descriptor identity => exact handleNamedProperty_framed descriptor identity sink
  | propertyData descriptor bytes => exact handlePropertyData_framed descriptor bytes
  | propertyEnd descriptor => exact finishProperty_framed sha256 owned descriptor
  | propertyAbort descriptor reason =>
      exact Framed.get_bind (fun _ => .bind dropProperty_framed fun _ =>
        .bind (.of_attempt _) fun _ => .bind (.of_attempt _) fun _ => cutProperty_framed _ _ _) sink
  | messageEnd id complete => exact absurd rfl (notEnd id complete)
  | deferredPropertyData | deferredAttachmentData | topLevelMetadataEnd | topLevelPayloadEnd =>
      exact Framed.of_throw _ sink

/-- The start of a property only opens it, in the place of an identity that waited. -/
theorem handlePropertyStart_alive (descriptor : PropertyDescriptor) :
    Ensures (handlePropertyStart descriptor) sink
      (fun _ next => validatePropertyOwner sink.active sink.attachment descriptor.owner = .ok () ∧
        ∃ property, property.record = !descriptor.owner.isFolder ∧
          next = { sink with pendingNamedProperty := none, property := some property })
      (fun _ next => next = sink ∨ next = { sink with pendingNamedProperty := none }) := by
  refine .get_bind (.attempt_bind (fun _ _ => ?_) fun _ _ => .inl rfl)
  refine .attempt_bind (fun _ valid => .modify_bind ?_) fun _ _ => .inl rfl
  refine .attempt_bind (fun _ _ => ?_) fun _ _ => .inr rfl
  refine .bind (M := fun _ next => next = { sink with pendingNamedProperty := none })
    (.get_bind ?_) fun blob next same => ?_
  · split
    · exact .of_pure rfl
    · exact .of_pure rfl
  · rw [same]
    exact .of_modify ⟨valid, _, rfl, rfl⟩

end Quiet

section Start

variable {sink : DurableCatalogSink}

theorem openBatch_alive (alive : sink.life = none) (noSavepoints : sink.connection.savepoints = [])
    (begun : sink.connection.begun.isSome = sink.batchOpen) :
    Ensures openBatch sink
      (fun _ next => ∃ before counter position, next = { sink with
        connection := { sink.connection with begun := some before }
        batchOpen := true
        batchCandidates := counter
        batchPackStart := position })
      (fun _ _ => False) := by
  refine .get_bind ?_
  split
  case isTrue unopened =>
    rw [unopened] at begun
    refine .bind ((transact_alive alive _).mono (fun _ _ done => done) fun error next failed => ?_)
      fun _ next done => ?_
    · simp [Connection.begin, refuse, begun, noSavepoints, bind, Except.bind, pure,
        Except.pure] at failed
    · obtain ⟨connection, done, rfl⟩ := done
      simp only [Connection.begin, bind_eq_ok] at done
      obtain ⟨_, -, done⟩ := done
      obtain rfl := Except.ok.inj done
      exact .of_modify ⟨sink.connection.database, 0, sink.payloadPackPosition, rfl⟩
  case isFalse opened =>
    rw [Bool.eq_true_of_not_eq_false opened] at begun
    obtain ⟨before, isBegun⟩ := Option.isSome_iff_exists.mp begun
    refine .of_pure ⟨before, sink.batchCandidates, sink.batchPackStart, ?_⟩
    rw [← isBegun, ← Bool.eq_true_of_not_eq_false opened]

/-- A candidate that was begun is taken back. -/
theorem abortCandidate_alive {saved : Database} (alive : sink.life = none)
    (savepoints : sink.connection.savepoints = [saved]) :
    Ensures abortCandidate sink
      (fun _ next => next = { sink with
        connection := ⟨saved, sink.connection.begun, []⟩ })
      (fun _ _ => False) := by
  refine .bind ((transact_alive alive _).mono (fun _ _ done => done) fun error next failed => ?_)
    fun _ next done => ?_
  · simp [Connection.rollbackTo, savepoints] at failed
  · obtain ⟨connection, done, rfl⟩ := done
    simp only [Connection.rollbackTo, savepoints] at done
    obtain rfl := Except.ok.inj done
    refine (transact_alive ?_ _).mono (fun _ next done => ?_) fun error next failed => ?_
    · exact alive
    · obtain ⟨connection, done, rfl⟩ := done
      simp only [Connection.release] at done
      obtain rfl := Except.ok.inj done
      rfl
    · simp [Connection.release] at failed

/-- A sink within a batch. -/
def inBatch (sink : DurableCatalogSink) (connection : Connection) (counter position : Nat) :
    DurableCatalogSink :=
  { sink with
    connection
    batchOpen := true
    batchCandidates := counter
    batchPackStart := position }

theorem Ready.inBatch (ready : Ready sink) (connection : Connection) (counter position : Nat) :
    Ready (inBatch sink connection counter position) :=
  ⟨ready.alive, ready.even, ready.atEnd⟩

theorem beginCandidate_alive (alive : sink.life = none)
    (noSavepoints : sink.connection.savepoints = [])
    (begun : sink.connection.begun.isSome = sink.batchOpen) :
    Ensures beginCandidate sink
      (fun _ next => ∃ before counter position, next = inBatch sink
        ⟨sink.connection.database, some before, [sink.connection.database]⟩ counter position)
      (fun _ _ => False) := by
  refine .bind (openBatch_alive alive noSavepoints begun) fun _ middle opened => ?_
  obtain ⟨before, counter, position, rfl⟩ := opened
  refine (transact_alive ?_ _).mono (fun _ last done => ?_) fun _ _ failed => nomatch failed.2
  · exact alive
  · obtain ⟨connection, done, rfl⟩ := done
    obtain rfl := Except.ok.inj done
    refine ⟨before, counter, position, ?_⟩
    simp only [Connection.savepoint, noSavepoints, inBatch]

/-- A refused candidate leaves the batch open that was opened for it. -/
theorem insertActive_alive (alive : sink.life = none) {begun : Option Database}
    {counter position : Nat} (row : CandidateRow) :
    Ensures (insertActive row)
      (inBatch sink ⟨sink.connection.database, begun, [sink.connection.database]⟩ counter position)
      (fun _ next => ∃ database, sink.connection.database.insertCandidate row = .ok database ∧
        next = inBatch sink ⟨database, begun, [sink.connection.database]⟩ counter position)
      (fun _ next =>
        next = inBatch sink ⟨sink.connection.database, begun, []⟩ counter position) := by
  refine .of_onError ((execute_alive ?_ _).mono (fun _ next done => ?_)
    fun _ next failed => failed.1) fun error next same => ?_
  · exact alive
  · obtain ⟨database, inserted, rfl⟩ := done
    exact ⟨database, inserted, rfl⟩
  · rw [same]
    refine .bind (.of_onError ((abortCandidate_alive ?_ rfl).mono (fun _ _ done => done)
      fun _ _ gone => gone) fun _ _ gone => gone.elim) fun _ last done => .of_throw done
    exact alive

/-- The key of a message that starts. -/
def startedKey (database : Database) (start : MessageStart) : ItemKey :=
  let sourceNodeId := if start.id = 0 then none else some start.id
  ⟨start.provenance, sourceNodeId, start.recoveryIndex,
    database.occurrences start.provenance sourceNodeId start.recoveryIndex⟩

/-- The row of a message that starts. -/
def startedRow (sink : DurableCatalogSink) (start : MessageStart) (parent : Option ItemKey) :
    CandidateRow where
  itemKey := startedKey sink.connection.database start
  completeness := .damaged
  status := .pending
  metadata := durableMetadata sink start.metadata
  unit := sink.unit
  parentItemKey := parent
  parentAttachmentIndex := start.metadata.parentAttachmentIndex
  embeddedPath := start.metadata.embeddedPath

/-- The sink while a message is open that just started. -/
def started (sink : DurableCatalogSink) (start : MessageStart) (parent : Option ItemKey)
    (begun : Database) (counter position : Nat) : DurableCatalogSink :=
  { inBatch sink
      ⟨{ sink.connection.database with
          candidates := sink.connection.database.candidates ++ [startedRow sink start parent] },
        some begun, [sink.connection.database]⟩ counter position with
    property := none
    active := some ⟨startedKey sink.connection.database start, start.id, sink.payloadPackPosition,
      0, [], start.metadata.supported, start.metadata.embeddedPath⟩ }

/-- A row that was inserted has a new key, and its parent is there. -/
theorem insertCandidate_ok {database changed : Database} {row : CandidateRow}
    (inserted : database.insertCandidate row = .ok changed) :
    (∀ other ∈ database.candidates, other.itemKey ≠ row.itemKey) ∧
      (∀ parent, row.parentItemKey = some parent → parent = row.itemKey ∨
        ∃ other ∈ database.candidates, other.itemKey = parent) ∧
      changed = { database with candidates := database.candidates ++ [row] } := by
  simp only [Database.insertCandidate, bind_eq_ok, refuse_eq_ok] at inserted
  obtain ⟨_, fresh, _, behind, inserted⟩ := inserted
  refine ⟨fun other member same => fresh ?_, fun parent is => ?_, (Except.ok.inj inserted).symm⟩
  · exact List.any_eq_true.mpr ⟨other, member, by simp [same]⟩
  · simp only [is, Option.all_some, Bool.not_eq_false, Bool.or_eq_true, List.any_eq_true,
      decide_eq_true_eq] at behind
    exact behind.symm

/-- A new candidate begins, or the sink stays as it was but for its batch. -/
theorem startCandidate_alive (ready : Ready sink)
    (shape : sink.active = none → sink.connection.savepoints = [] ∧
      sink.connection.begun.isSome = sink.batchOpen) (message : MessageStart) :
    Ensures (startCandidate message) sink
      (fun _ next => sink.active = none ∧ ∃ parent begun counter position,
        parentOf sink message = .ok parent ∧
        parent.isSome = message.metadata.parentAttachmentIndex.isSome ∧
        (∀ other ∈ sink.connection.database.candidates,
          other.itemKey ≠ startedKey sink.connection.database message) ∧
        (∀ key, parent = some key → key = startedKey sink.connection.database message ∨
          ∃ other ∈ sink.connection.database.candidates, other.itemKey = key) ∧
        next = started sink message parent begun counter position)
      (fun _ next => ∃ property, (∀ other, property = some other → sink.property = some other) ∧
        (next = { sink with property } ∨ sink.active = none ∧ property = none ∧
          ∃ begun counter position, next = { inBatch sink
            ⟨sink.connection.database, some begun, []⟩ counter position with property })) := by
  refine .get_bind (.attempt_bind (fun _ _ => .modify_bind ?_)
    fun _ _ => ⟨sink.property, fun _ same => same, .inl rfl⟩)
  -- a property of a folder is let go of
  have dropped : ∃ property, (∀ other, property = some other → sink.property = some other) ∧
      (if sink.property.any (·.descriptor.owner.isFolder) then { sink with property := none }
        else sink) = { sink with property } := by
    split
    · exact ⟨none, nofun, rfl⟩
    · exact ⟨sink.property, fun _ same => same, rfl⟩
  obtain ⟨property, earlier, same⟩ := dropped
  rw [same]
  refine .get_bind (.attempt_bind (fun _ closed => ?_) fun _ _ => ⟨property, earlier, .inl rfl⟩)
  refine .attempt_bind (fun _ idle => ?_) fun _ _ => ⟨property, earlier, .inl rfl⟩
  refine .attempt_bind (fun occurrence counted => ?_) fun _ _ => ⟨property, earlier, .inl rfl⟩
  refine .attempt_bind (fun parent owner => ?_) fun _ _ => ⟨property, earlier, .inl rfl⟩
  refine .attempt_bind (fun _ whole => ?_) fun _ _ => ⟨property, earlier, .inl rfl⟩
  rw [refuse_eq_ok, not_not] at closed idle whole
  dsimp only at closed idle
  obtain rfl := closed
  obtain ⟨rfl, -⟩ := tryFrom_eq_some.mp (okOr_eq_ok.mp counted)
  obtain ⟨noSavepoints, begun⟩ := shape idle
  have opening : Ensures beginCandidate { sink with property := none }
      (fun _ next => ∃ before counter position, next = inBatch { sink with property := none }
        ⟨sink.connection.database, some before, [sink.connection.database]⟩ counter position)
      (fun _ _ => False) := beginCandidate_alive ready.alive noSavepoints begun
  refine .bind (opening.mono (fun _ _ done => done) fun _ _ gone => gone.elim)
    fun _ next opened => ?_
  obtain ⟨before, counter, position, rfl⟩ := opened
  refine .bind ((insertActive_alive ?_ _).mono (fun _ _ done => done) fun _ last done => ?_)
    fun _ last inserted => .of_modify ?_
  · exact ready.alive
  · exact ⟨none, nofun, .inr ⟨idle, rfl, before, counter, position, done⟩⟩
  · obtain ⟨database, inserted, rfl⟩ := inserted
    obtain ⟨fresh, behind, rfl⟩ := insertCandidate_ok inserted
    exact ⟨idle, parent, before, counter, position, owner, whole, fresh, behind, rfl⟩

end Start

section End

variable {sha256 : Bytes → Bytes} {sink : DurableCatalogSink}

/-- The sink after its batch was committed. -/
def committed (sink : DurableCatalogSink) : DurableCatalogSink :=
  { sink with
    payloadPack := sink.payloadPack.sync
    connection := .idle sink.connection.database
    batchOpen := false
    batchCandidates := 0
    batchPackStart := sink.payloadPackPosition }

theorem commitCandidateBatch_alive (alive : sink.life = none) (even : Even sink)
    (begun : sink.connection.begun.isSome = sink.batchOpen) :
    Ensures commitCandidateBatch sink
      (fun _ next => sink.batchOpen = false ∧ next = sink ∨ next = committed sink)
      (fun _ _ => False) := by
  refine .get_bind ?_
  split
  case isFalse unopened => exact .of_pure (.inl ⟨Bool.eq_false_of_not_eq_true unopened, rfl⟩)
  case isTrue opened =>
    rw [opened] at begun
    obtain ⟨before, isBegun⟩ := Option.isSome_iff_exists.mp begun
    refine .bind (touchPack_alive alive _) fun _ next same => ?_
    rw [same]
    refine .attempt_bind (fun _ _ => ?_) fun error failed => ?_
    · refine .bind ((transact_alive ?_ _).mono (fun _ _ done => done) fun error next failed => ?_)
        fun _ next done => ?_
      · exact alive
      · obtain ⟨-, failed⟩ := failed
        dsimp only at failed
        simp [Connection.commit, refuse, isBegun, bind, Except.bind, pure, Except.pure] at failed
      · obtain ⟨connection, done, rfl⟩ := done
        simp only [Connection.commit, bind_eq_ok] at done
        obtain ⟨_, -, done⟩ := done
        obtain rfl := Except.ok.inj done
        exact .of_modify (.inr rfl)
    · rw [Even] at even
      simp only [refuse, even, ne_eq, not_true_eq_false, ↓reduceIte] at failed
      cases failed

theorem Within.closed {next : DurableCatalogSink} (within : Within sink next)
    (closed : sink.property = none) : next.property = none := by
  cases there : next.property with
  | none => rfl
  | some property =>
      obtain ⟨earlier, before, -⟩ := within.property property there
      rw [closed] at before
      cases before

theorem cutOpenProperty_closes (ready : Ready sink) :
    Ensures cutOpenProperty sink
      (fun _ next => Within sink next ∧ Ready next ∧ next.property = none)
      (fun _ => Shaken sink) := by
  refine .get_bind ?_
  split
  case h_1 property _ =>
    obtain ⟨within, ready⟩ := dropProperty_framed sink ready
    refine .modify_bind ((cutProperty_framed property _ _ _ ready).mono (fun _ next done => ?_)
      fun _ next failed => .after within failed)
    exact ⟨within.trans done.1, done.2, done.1.closed rfl⟩
  case h_2 closed => exact .of_pure ⟨.refl sink, ready, closed⟩

/-- After a message has ended, no property is open. -/
theorem closeIncomplete_closes {complete : Bool} (ready : Ready sink)
    (busy : sink.active.isSome = true) (closed : complete = false ∨ sink.property = none) :
    Ensures (closeIncomplete sha256 complete) sink
      (fun _ next => Within sink next ∧ Ready next ∧ next.property = none)
      (fun _ => Shaken sink) := by
  cases complete with
  | true => exact .of_pure ⟨.refl sink, ready, closed.resolve_left nofun⟩
  | false =>
      refine .bind (cutOpenProperty_closes ready) fun _ middle cut => ?_
      obtain ⟨within, ready, closed⟩ := cut
      refine (finishAttachment_framed sha256 (within.busy.trans busy) false ready).mono
        (fun _ next done => ?_) fun _ next failed => .after within failed
      exact ⟨within.trans done.1, done.2, done.1.closed closed⟩

theorem recordUnsupported_framed : Framed recordUnsupported := by
  refine .get_bind fun _ => ?_
  split
  · exact recordEvent_framed _ _ _
  · exact .of_pure _

/-- The sink after the savepoint of a candidate was given up, in a batch that may have
been committed. -/
structure Released (sink next : DurableCatalogSink) : Prop where
  ready : Ready next
  active : next.active = sink.active
  property : next.property = sink.property
  unit : next.unit = sink.unit
  recent : next.recentCandidates = sink.recentCandidates
  replayed : next.replayedSourceIds = sink.replayedSourceIds
  ledger : next.connection.database = sink.connection.database
  savepoints : next.connection.savepoints = []
  begun : next.connection.begun.isSome = next.batchOpen
  counter : next.batchOpen = false → next.batchCandidates = 0

theorem finishOrDrop_alive {saved : Database} (ready : Ready sink)
    (opened : sink.batchOpen = true) (begun : sink.connection.begun.isSome = true)
    (savepoints : sink.connection.savepoints = [saved]) :
    Ensures finishOrDrop sink (fun _ next => Released sink next) (fun _ _ => False) := by
  have finish : Ensures finishCandidate sink (fun _ next => Released sink next)
      (fun _ _ => False) := by
    refine .bind ((transact_alive ready.alive _).mono (fun _ _ done => done)
      fun error next failed => ?_) fun _ next done => .modify_bind (.get_bind ?_)
    · simp [Connection.release, savepoints] at failed
    · obtain ⟨connection, done, rfl⟩ := done
      simp only [Connection.release, savepoints] at done
      obtain rfl := Except.ok.inj done
      split
      · refine (commitCandidateBatch_alive ?_ ?_ ?_).mono (fun _ last done => ?_)
          fun _ _ gone => gone
        · exact ready.alive
        · exact ready.even
        · exact begun.trans opened.symm
        · obtain ⟨unopened, -⟩ | rfl := done
          · dsimp only at unopened
            rw [opened] at unopened
            cases unopened
          · exact ⟨⟨ready.alive, ready.even, ready.atEnd⟩, rfl, rfl, rfl, rfl, rfl, rfl, rfl, rfl,
              fun _ => rfl⟩
      · refine .of_pure ⟨⟨ready.alive, ready.even, ready.atEnd⟩, rfl, rfl, rfl, rfl, rfl, rfl, rfl,
          begun.trans opened.symm, fun unopened => ?_⟩
        dsimp only at unopened
        rw [opened] at unopened
        cases unopened
  exact .of_onError finish fun _ _ gone => gone.elim

/-- The sink after the message of its open candidate has ended. -/
structure Ended (sink : DurableCatalogSink) (active : ActiveCandidate) (complete : Bool)
    (next : DurableCatalogSink) : Prop where
  ready : Ready next
  idle : next.active = none
  property : next.property = none
  savepoints : next.connection.savepoints = []
  begun : next.connection.begun.isSome = next.batchOpen
  counter : next.batchOpen = false → next.batchCandidates = 0
  unit : next.unit = sink.unit
  replayed : next.replayedSourceIds = sink.replayedSourceIds
  recent : next.recentCandidates = (active.embeddedPath, active.key) :: sink.recentCandidates
  candidates : next.connection.database.candidates =
    (sink.connection.database.updateCandidate active.key
      (if complete then .complete else .partialContent)
      (if active.supported then .spooled else .unsupported)).candidates

/-- The end of a message sets the outcome of its candidate, or leaves it open. -/
theorem handleMessageEnd_alive {active : ActiveCandidate} {saved : Database} (ready : Ready sink)
    (busy : sink.active = some active) (opened : sink.batchOpen = true)
    (begun : sink.connection.begun.isSome = true)
    (savepoints : sink.connection.savepoints = [saved]) (id : Nat) (complete : Bool) :
    Ensures (handleMessageEnd sha256 id complete) sink
      (fun _ next => Ended sink active complete next) (fun _ => Shaken sink) := by
  refine .get_bind (.attempt_bind (fun _ _ => ?_) fun _ _ => ready.shaken)
  refine .attempt_bind (fun _ _ => ?_) fun _ _ => ready.shaken
  refine .attempt_bind (fun _ closed => ?_) fun _ _ => ready.shaken
  refine .attempt_bind (fun _ _ => ?_) fun _ _ => ready.shaken
  rw [refuse_eq_ok, not_not] at closed
  have isSome : sink.active.isSome = true := by
    rw [busy]
    rfl
  refine .bind (closeIncomplete_closes ready isSome closed) fun _ middle done => ?_
  obtain ⟨within, ready, closed⟩ := done
  refine .bind ((recordUnsupported_framed middle ready).mono (fun _ _ done => done)
    fun _ next shaken => .after within shaken) fun _ next done => .get_bind (.modify_bind ?_)
  have within := within.trans done.1
  have closed := done.1.closed closed
  have ready := done.2
  have same := within.active
  rw [busy] at same
  obtain ⟨latest, there, outlined⟩ := Option.map_eq_some_iff.mp same
  have outlined : latest.outline = active.outline := outlined
  have key : latest.key = active.key :=
    (congrArg ActiveCandidate.key outlined : latest.outline.key = active.outline.key)
  have supported : latest.supported = active.supported :=
    (congrArg ActiveCandidate.supported outlined :
      latest.outline.supported = active.outline.supported)
  have path : latest.embeddedPath = active.embeddedPath :=
    (congrArg ActiveCandidate.embeddedPath outlined :
      latest.outline.embeddedPath = active.outline.embeddedPath)
  rw [there]
  refine .attempt_bind (fun value is => ?_) fun _ failed => nomatch failed
  obtain rfl := Except.ok.inj is
  refine .bind ((execute_alive ?_ _).mono (fun _ _ done => done) fun _ _ failed => nomatch failed.2)
    fun _ final changed => ?_
  · exact ready.alive
  obtain ⟨database, changed, rfl⟩ := changed
  obtain rfl := Except.ok.inj changed
  have still : Ready { next with
      active := none
      connection := { next.connection with
        database := next.connection.database.updateCandidate latest.key
          (if complete then .complete else .partialContent)
          (if latest.supported then .spooled else .unsupported) } } :=
    ⟨ready.alive, ready.even, ready.atEnd⟩
  have finish := finishOrDrop_alive still (within.batchOpen.trans opened)
    (within.begun.symm ▸ begun) (within.savepoints.trans savepoints)
  refine .bind (finish.mono (fun _ _ done => done) fun _ _ gone => gone.elim)
    fun _ finished released => .of_modify ?_
  obtain ⟨unit, recent, replayed⟩ := within.remembered isSome
  refine ⟨⟨released.ready.alive, released.ready.even, released.ready.atEnd⟩, released.active,
    released.property.trans closed, released.savepoints, released.begun, released.counter,
    released.unit.trans unit, released.replayed.trans replayed, ?_, ?_⟩
  · dsimp only
    rw [released.recent, path, key]
    exact congrArg _ recent
  · dsimp only
    rw [released.ledger, key, supported]
    simp only [Database.updateCandidate, within.candidates]

end End

end PstForge.Job
