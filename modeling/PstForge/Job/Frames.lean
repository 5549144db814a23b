import PstForge.Job.PackEvents
import PstForge.Job.Replay

/-! # What events within a candidate leave alone

Most events only concern the candidate that is open: they leave the transaction, the
candidates of the ledger and the identity of the open one as they are. The length of
the pack and the position of the sink go together all the time.
-/

namespace PstForge.Job

open PstForge.Foundation PstForge.Catalog

section Within

/-- What stays the same of an open candidate: all but how far it was written. -/
def ActiveCandidate.outline (active : ActiveCandidate) : ActiveCandidate :=
  { active with sequence := 0, recipients := [] }

/-- What stays the same within a candidate. -/
structure Within (sink next : DurableCatalogSink) : Prop where
  living : sink.life = none → next.life = none
  batchOpen : next.batchOpen = sink.batchOpen
  batchCandidates : next.batchCandidates = sink.batchCandidates
  begun : next.connection.begun = sink.connection.begun
  savepoints : next.connection.savepoints = sink.connection.savepoints
  candidates : next.connection.database.candidates = sink.connection.database.candidates
  active : next.active.map (·.outline) = sink.active.map (·.outline)
  property : ∀ property, next.property = some property →
    ∃ earlier, sink.property = some earlier ∧ property.record = earlier.record
  remembered : sink.active.isSome = true → next.unit = sink.unit ∧
    next.recentCandidates = sink.recentCandidates ∧ next.replayedSourceIds = sink.replayedSourceIds

/-- The position of the sink is the length of the pack. -/
def Even (sink : DurableCatalogSink) : Prop :=
  sink.payloadPackPosition = sink.payloadPack.bytes.length

/-- The pack can be written on. -/
structure Ready (sink : DurableCatalogSink) : Prop where
  alive : sink.life = none
  even : Even sink
  atEnd : sink.payloadPack.offset = sink.payloadPack.bytes.length

theorem Within.refl (sink : DurableCatalogSink) : Within sink sink :=
  ⟨id, rfl, rfl, rfl, rfl, rfl, rfl, fun property there => ⟨property, there, rfl⟩,
    fun _ => ⟨rfl, rfl, rfl⟩⟩

theorem Within.busy {sink next : DurableCatalogSink} (within : Within sink next) :
    next.active.isSome = sink.active.isSome := by
  have same := congrArg Option.isSome within.active
  simpa using same

theorem Within.trans {sink next last : DurableCatalogSink} (first : Within sink next)
    (second : Within next last) : Within sink last where
  living alive := second.living (first.living alive)
  batchOpen := second.batchOpen.trans first.batchOpen
  batchCandidates := second.batchCandidates.trans first.batchCandidates
  begun := second.begun.trans first.begun
  savepoints := second.savepoints.trans first.savepoints
  candidates := second.candidates.trans first.candidates
  active := second.active.trans first.active
  property property there := by
    obtain ⟨middle, found, same⟩ := second.property property there
    obtain ⟨earlier, at_, again⟩ := first.property middle found
    exact ⟨earlier, at_, same.trans again⟩
  remembered busy := by
    obtain ⟨unit, recent, replayed⟩ := first.remembered busy
    obtain ⟨unit', recent', replayed'⟩ := second.remembered (first.busy.trans busy)
    exact ⟨unit'.trans unit, recent'.trans recent, replayed'.trans replayed⟩

/-- How a failure leaves the sink: only while a candidate is open may the file be left
at another offset than its end. -/
structure Shaken (sink next : DurableCatalogSink) : Prop where
  within : Within sink next
  alive : next.life = none
  even : Even next
  ready : sink.active = none → Ready next

theorem Ready.shaken {sink : DurableCatalogSink} (ready : Ready sink) : Shaken sink sink :=
  ⟨.refl sink, ready.alive, ready.even, fun _ => ready⟩

theorem Within.idle {sink next : DurableCatalogSink} (within : Within sink next)
    (idle : sink.active = none) : next.active = none := by
  have busy := within.busy
  rw [idle] at busy
  exact Option.not_isSome_iff_eq_none.mp (by simp [busy])

theorem Shaken.after {sink next last : DurableCatalogSink} (within : Within sink next)
    (shaken : Shaken next last) : Shaken sink last :=
  ⟨within.trans shaken.within, shaken.alive, shaken.even,
    fun idle => shaken.ready (within.idle idle)⟩

/-- From a sink, a computation leaves alone what stays the same within a candidate. -/
def FramedAt {α : Type} (sink : DurableCatalogSink) (program : Sinking α) : Prop :=
  Ready sink → Ensures program sink (fun _ next => Within sink next ∧ Ready next)
    (fun _ => Shaken sink)

/-- From every sink, a computation leaves alone what stays the same within a candidate. -/
def Framed {α : Type} (program : Sinking α) : Prop := ∀ sink, FramedAt sink program

end Within

section Rules

variable {α β : Type}

theorem FramedAt.bind {sink : DurableCatalogSink} {first : Sinking α} {next : α → Sinking β}
    (framed : FramedAt sink first)
    (framedNext : ∀ value middle, Within sink middle → FramedAt middle (next value)) :
    FramedAt sink (first >>= next) := by
  intro ready
  refine .bind (framed ready) fun value middle done => ?_
  refine (framedNext value middle done.1 done.2).mono (fun _ last more => ?_)
    fun _ last more => ?_
  · exact ⟨done.1.trans more.1, more.2⟩
  · exact .after done.1 more

theorem FramedAt.get_bind {sink : DurableCatalogSink} {next : DurableCatalogSink → Sinking α}
    (framed : FramedAt sink (next sink)) : FramedAt sink (get >>= next) :=
  fun ready => .get_bind (framed ready)

theorem FramedAt.attempt_bind {sink : DurableCatalogSink} {source : Except JobError α}
    {next : α → Sinking β}
    (framed : ∀ value, source = .ok value → FramedAt sink (next value)) :
    FramedAt sink (attempt source >>= next) :=
  fun ready => .attempt_bind (fun value same => framed value same ready) fun _ _ => ready.shaken

namespace Framed

theorem of_pure (value : α) : Framed (pure value) := fun sink ready => ⟨.refl sink, ready⟩

theorem of_throw (error : JobError) : Framed (throw error : Sinking α) :=
  fun _ ready => ready.shaken

theorem of_attempt (source : Except JobError α) : Framed (attempt source) :=
  fun sink ready => .of_attempt (fun _ _ => ⟨.refl sink, ready⟩) fun _ _ => ready.shaken

theorem of_modify {change : DurableCatalogSink → DurableCatalogSink}
    (within : ∀ sink, Within sink (change sink)) (ready : ∀ sink, Ready sink →
      Ready (change sink)) :
    Framed (modify change) :=
  fun sink before => .of_modify ⟨within sink, ready sink before⟩

theorem bind {first : Sinking α} {next : α → Sinking β} (framed : Framed first)
    (framedNext : ∀ value, Framed (next value)) : Framed (first >>= next) :=
  fun sink => (framed sink).bind fun value middle _ => framedNext value middle

theorem get_bind {next : DurableCatalogSink → Sinking α} (framed : ∀ sink, Framed (next sink)) :
    Framed (get >>= next) :=
  fun sink => .get_bind (framed sink sink)

theorem of_discard {program : Sinking α} (framed : Framed program) : Framed (discard program) :=
  fun sink ready => .of_discard (framed sink ready)

end Framed

end Rules

section Primitives

variable {sink : DurableCatalogSink}

theorem spend_alive (alive : sink.life = none) :
    Ensures spend sink (fun _ next => next = sink) (fun _ _ => False) := by
  refine .get_bind ?_
  rw [alive]
  exact .of_pure rfl

theorem execute_alive (alive : sink.life = none)
    (change : Database → Except JobError Database) :
    Ensures (execute change) sink
      (fun _ next => ∃ database, change sink.connection.database = .ok database ∧
        next = { sink with connection := { sink.connection with database } })
      (fun error next => next = sink ∧ change sink.connection.database = .error error) := by
  refine .bind ((spend_alive alive).mono (fun _ _ same => same) fun _ _ gone => gone.elim)
    fun _ next same => ?_
  rw [same]
  exact .get_bind (.attempt_bind (fun database changed => .of_modify ⟨database, changed, rfl⟩)
    fun _ failed => ⟨rfl, failed⟩)

theorem transact_alive (alive : sink.life = none)
    (statement : Connection → Except JobError Connection) :
    Ensures (transact statement) sink
      (fun _ next => ∃ connection, statement sink.connection = .ok connection ∧
        next = { sink with connection })
      (fun error next => next = sink ∧ statement sink.connection = .error error) := by
  refine .bind ((spend_alive alive).mono (fun _ _ same => same) fun _ _ gone => gone.elim)
    fun _ next same => ?_
  rw [same]
  exact .get_bind (.attempt_bind (fun connection changed => .of_modify ⟨connection, changed, rfl⟩)
    fun _ failed => ⟨rfl, failed⟩)

theorem touchPack_alive (alive : sink.life = none) (change : PackFile → PackFile) :
    Ensures (touchPack change) sink
      (fun _ next => next = { sink with payloadPack := change sink.payloadPack })
      (fun _ _ => False) := by
  refine .bind (spend_alive alive) fun _ next same => ?_
  rw [same]
  exact .of_modify rfl

theorem truncatePayloadPack_alive (alive : sink.life = none) (length : Nat) :
    Ensures (truncatePayloadPack length) sink
      (fun _ next => next = { sink with
        payloadPack := (sink.payloadPack.setLen length).seek length
        payloadPackPosition := length })
      (fun _ _ => False) := by
  refine .bind (touchPack_alive alive _) fun _ next same => ?_
  rw [same]
  exact .of_modify rfl

/-- The pack is cut, from any place it was read at. -/
theorem truncate_within (alive : sink.life = none) (length : Nat) :
    Ensures (truncatePayloadPack length) sink (fun _ next => Within sink next ∧ Ready next)
      (fun _ _ => False) := by
  refine (truncatePayloadPack_alive alive length).mono (fun _ next same => ?_)
    fun _ _ gone => gone
  have size : (sink.payloadPack.setLen length).bytes.length = length := PackFile.setLen_length _
  rw [same]
  exact ⟨⟨id, rfl, rfl, rfl, rfl, rfl, rfl, fun property there => ⟨property, there, rfl⟩,
    fun _ => ⟨rfl, rfl, rfl⟩⟩, alive,
    size.symm, size.symm⟩

theorem truncatePayloadPack_framed (length : Nat) : Framed (truncatePayloadPack length) :=
  fun _ ready => (truncate_within ready.alive length).mono (fun _ _ done => done)
    fun _ _ gone => gone.elim

/-- A statement that leaves the candidates alone. -/
theorem execute_framed {change : Database → Except JobError Database}
    (same : ∀ database changed, change database = .ok changed →
      changed.candidates = database.candidates) : Framed (execute change) := by
  intro sink ready
  refine (execute_alive ready.alive change).mono (fun _ next done => ?_) fun _ next done => ?_
  · obtain ⟨database, changed, rfl⟩ := done
    exact ⟨⟨id, rfl, rfl, rfl, rfl, same _ _ changed, rfl,
      fun property there => ⟨property, there, rfl⟩,
    fun _ => ⟨rfl, rfl, rfl⟩⟩, ready.alive, ready.even, ready.atEnd⟩
  · rw [done.1]
    exact ready.shaken

end Primitives

section Blobs

variable (sha256 : Bytes → Bytes)

theorem newBlobWriter_framed : Framed newBlobWriter := by
  refine .get_bind fun sink => ?_
  split
  · exact .of_pure _
  · exact .of_pure _

theorem writeBlob_framed (blob : BlobWriter) (data : Bytes) : Framed (writeBlob blob data) := by
  unfold writeBlob
  split
  case h_1 => exact .bind (.of_attempt _) fun _ => .of_pure _
  case h_2 =>
    intro sink ready
    refine .get_bind (.attempt_bind (fun _ small => ?_) fun _ _ => ready.shaken)
    rw [refuse_eq_ok, Nat.not_lt] at small
    refine .bind ((touchPack_alive ready.alive _).mono (fun _ _ same => same)
      fun _ _ gone => gone.elim) fun _ next same => ?_
    rw [same]
    have length : (sink.payloadPack.write data).bytes.length =
        sink.payloadPackPosition + data.length := by
      rw [PackFile.write_bytes ready.atEnd, List.length_append, ready.even]
    have fits : checkedAdd 64 sink.payloadPackPosition data.length =
        some (sink.payloadPackPosition + data.length) := by
      have even := ready.even
      have atEnd := ready.atEnd
      refine checkedAdd_eq_some.mpr ⟨rfl, ?_⟩
      simp only [maxFileSize] at small
      simp only [Even] at even
      simp only [wordCount]
      omega
    refine .get_bind (.attempt_bind (fun position added => ?_) fun error failed => ?_)
    · obtain ⟨rfl, -⟩ := checkedAdd_eq_some.mp (okOr_eq_ok.mp added)
      refine .modify_bind (.of_pure ⟨⟨id, rfl, rfl, rfl, rfl, rfl, rfl,
        fun property there => ⟨property, there, rfl⟩,
    fun _ => ⟨rfl, rfl, rfl⟩⟩, ready.alive, length.symm, ?_⟩)
      dsimp only
      rw [PackFile.write_bytes ready.atEnd, List.length_append, ← ready.atEnd]
      rfl
    · simp only [fits, okOr_some] at failed
      cases failed

theorem verifyInlineBlob_framed (hash : Bytes) (byteLen : Nat) :
    Framed (verifyInlineBlob sha256 hash byteLen) :=
  .get_bind fun _ => .bind (.of_attempt _) fun _ => .of_attempt _

/-- A check of a stored copy moves at most the offset of the file. -/
theorem verifyStoredBlob_even (packLen : Nat) (stored : BlobRow) {sink : DurableCatalogSink}
    (ready : Ready sink) :
    Ensures (verifyStoredBlob sha256 packLen stored) sink
      (fun _ next => Within sink next ∧ next.life = none ∧ Even next)
      (fun _ next => Within sink next ∧ next.life = none ∧ Even next) := by
  have here : Within sink sink ∧ sink.life = none ∧ Even sink :=
    ⟨.refl sink, ready.alive, ready.even⟩
  refine .get_bind ?_
  split
  case h_1 offset _ _ =>
    refine .attempt_bind (fun _ _ => ?_) fun _ _ => here
    refine .attempt_bind (fun _ _ => .get_bind (.modify_bind ?_)) fun _ _ => here
    have moved : ∀ position, Within sink { sink with
        payloadPack := sink.payloadPack.seek position } ∧ sink.life = none ∧
        Even { sink with payloadPack := sink.payloadPack.seek position } := by
      intro position
      exact ⟨⟨id, rfl, rfl, rfl, rfl, rfl, rfl, fun property there => ⟨property, there, rfl⟩,
    fun _ => ⟨rfl, rfl, rfl⟩⟩,
        ready.alive, ready.even⟩
    exact .attempt_bind (fun _ _ => .of_attempt (fun _ _ => moved _) fun _ _ => moved _)
      fun _ _ => moved _
  case h_2 =>
    exact (verifyInlineBlob_framed sha256 _ _ sink ready).mono
      (fun _ _ done => ⟨done.1, done.2.alive, done.2.even⟩)
      fun _ _ done => ⟨done.within, done.alive, done.even⟩
  case h_3 => exact .of_throw here

theorem insertBlob_framed (row : BlobRow) : Framed (execute (Database.insertBlob row)) := by
  refine execute_framed fun database changed inserted => ?_
  simp only [Database.insertBlob, bind_eq_ok] at inserted
  obtain ⟨_, -, inserted⟩ := inserted
  rw [← Except.ok.inj inserted]

theorem finishInlineBlob_framed (blob : BlobWriter) (data : Bytes) :
    Framed (finishInlineBlob sha256 blob data) := by
  refine .bind (.of_attempt _) fun _ => .bind (.get_bind fun sink => ?_) fun _ => .of_pure _
  split
  · exact .bind (.of_attempt _) fun _ => verifyInlineBlob_framed sha256 _ _
  · refine .bind (insertBlob_framed _) fun _ => execute_framed fun database changed inserted => ?_
    simp only [Database.insertInlineBlob, bind_eq_ok] at inserted
    obtain ⟨_, -, _, -, inserted⟩ := inserted
    rw [← Except.ok.inj inserted]

theorem finishBlob_framed {sink : DurableCatalogSink} (busy : sink.active.isSome = true)
    (blob : BlobWriter) (expected : Option Nat) :
    FramedAt sink (finishBlob sha256 blob expected) := by
  refine .attempt_bind fun _ _ => ?_
  split
  case h_1 data _ => exact finishInlineBlob_framed sha256 blob data sink
  case h_2 =>
    refine .attempt_bind fun expectedEnd _ => .get_bind (.attempt_bind fun _ _ => ?_)
    refine .bind (.get_bind ?_) fun _ middle _ => Framed.of_pure _ middle
    split
    case h_1 stored _ =>
      refine .attempt_bind fun _ _ ready => ?_
      refine .bind ((verifyStoredBlob_even sha256 expectedEnd stored ready).mono
        (fun _ _ done => done) fun _ next done => ?_) fun _ next done => ?_
      · refine ⟨done.1, done.2.1, done.2.2, fun idle => ?_⟩
        rw [idle] at busy
        cases busy
      · refine (truncate_within done.2.1 _).mono (fun _ last cut => ?_) fun _ _ gone => gone.elim
        exact ⟨done.1.trans cut.1, cut.2⟩
    case h_2 => exact insertBlob_framed _ sink

theorem discardBlob_framed (blob : BlobWriter) (expected : Nat) :
    Framed (discardBlob blob expected) := by
  refine .bind (.of_attempt _) fun _ => ?_
  split
  · exact truncatePayloadPack_framed _
  · exact .of_pure _

end Blobs

section Events

variable (sha256 : Bytes → Bytes)

theorem recordEvent_framed (kind : String) (detail : EventDetail) (blob : Option BlobRef) :
    Framed (recordEvent kind detail blob) := by
  intro sink
  refine .get_bind (.attempt_bind fun active busy => .attempt_bind fun sequence _ ready => ?_)
  replace busy := okOr_eq_ok.mp busy
  refine .modify_bind ?_
  have counted : Within sink { sink with active := some { active with sequence } } := by
    refine ⟨id, rfl, rfl, rfl, rfl, rfl, ?_, fun property there => ⟨property, there, rfl⟩,
    fun _ => ⟨rfl, rfl, rfl⟩⟩
    rw [busy]
    rfl
  have framed : Framed (execute (Database.insertEvent ⟨active.key, sequence, detail, blob⟩)) := by
    refine execute_framed fun database changed inserted => ?_
    simp only [Database.insertEvent, bind_eq_ok] at inserted
    obtain ⟨_, -, _, -, inserted⟩ := inserted
    rw [← Except.ok.inj inserted]
  refine (framed { sink with active := some { active with sequence } }
    ⟨ready.alive, ready.even, ready.atEnd⟩).mono (fun _ next done => ?_) fun _ next done => ?_
  · exact ⟨counted.trans done.1, done.2⟩
  · exact .after counted done

theorem takeDirectBlobIdIf_framed (streamed : Bool) : Framed (takeDirectBlobIdIf streamed) := by
  unfold takeDirectBlobIdIf
  split
  case isFalse => exact .of_pure _
  refine .bind (.get_bind fun sink => .bind (.of_attempt _) fun _ => ?_) fun _ => .of_pure _
  refine .bind (.of_modify (fun sink => ?_) fun sink ready => ?_) fun _ => .of_pure _
  · exact ⟨id, rfl, rfl, rfl, rfl, rfl, rfl, fun property there => ⟨property, there, rfl⟩,
    fun _ => ⟨rfl, rfl, rfl⟩⟩
  · exact ⟨ready.alive, ready.even, ready.atEnd⟩

/-- A change of the open attachment. -/
theorem setAttachment_framed (attachment : DurableCatalogSink → Option ActiveAttachment) :
    Framed (modify fun sink => { sink with attachment := attachment sink }) :=
  .of_modify
    (fun _ => ⟨id, rfl, rfl, rfl, rfl, rfl, rfl, fun property there => ⟨property, there, rfl⟩,
    fun _ => ⟨rfl, rfl, rfl⟩⟩)
    fun _ ready => ⟨ready.alive, ready.even, ready.atEnd⟩

/-- A property is let go of. -/
theorem dropProperty_framed : Framed (modify fun sink => { sink with property := none }) :=
  .of_modify (fun _ => ⟨id, rfl, rfl, rfl, rfl, rfl, rfl, (fun _ gone => nomatch gone),
    fun _ => ⟨rfl, rfl, rfl⟩⟩)
    fun _ ready => ⟨ready.alive, ready.even, ready.atEnd⟩

theorem finishProperty_framed {sink : DurableCatalogSink}
    (owned : ∀ property, sink.property = some property → property.record = true →
      sink.active.isSome = true) (descriptor : PropertyDescriptor) :
    FramedAt sink (finishProperty sha256 descriptor) := by
  refine .get_bind (.bind (dropProperty_framed sink) fun _ middle within => ?_)
  refine .attempt_bind fun active there => .attempt_bind fun _ _ => ?_
  split
  case isTrue recorded =>
    have busy := within.busy.trans (owned active (okOr_eq_ok.mp there) recorded)
    refine .bind (finishBlob_framed sha256 busy _ _) fun _ later _ => ?_
    exact .bind (takeDirectBlobIdIf_framed _ later) fun _ last _ => recordEvent_framed _ _ _ last
  case isFalse => exact discardBlob_framed _ _ middle

theorem finishAttachment_framed {sink : DurableCatalogSink} (busy : sink.active.isSome = true)
    (complete : Bool) : FramedAt sink (finishAttachment sha256 complete) := by
  refine .get_bind (.bind (setAttachment_framed (fun _ => none) sink) fun _ middle within => ?_)
  have busy := within.busy.trans busy
  split
  case h_1 => exact Framed.of_pure _ middle
  case h_2 =>
    split
    · refine .bind (finishBlob_framed sha256 busy _ _) fun _ later _ => ?_
      exact .bind (takeDirectBlobIdIf_framed _ later) fun _ last _ => recordEvent_framed _ _ _ last
    · split
      · exact Framed.of_pure _ middle
      · split
        · exact recordEvent_framed _ _ _ middle
        · split
          · refine .bind (newBlobWriter_framed middle) fun _ later within => ?_
            exact .bind (finishBlob_framed sha256 (within.busy.trans busy) _ _)
              fun _ last _ => recordEvent_framed _ _ _ last
          · split
            · exact Framed.of_throw _ middle
            · exact recordEvent_framed _ _ _ middle

theorem cutProperty_framed (property : ActiveProperty) (reason : Text) (record : Bool) :
    Framed (cutProperty property reason record) := by
  refine .bind (truncatePayloadPack_framed _) fun _ => ?_
  split
  · exact recordEvent_framed _ _ _
  · exact .of_pure _

theorem requireAttachment_framed (what : String) (messageId index : Nat) :
    Framed (requireAttachment what messageId index) :=
  .get_bind fun _ => .bind (.of_attempt _) fun _ => .bind (.of_attempt _) fun _ =>
    .bind (.of_attempt _) fun _ => .of_pure _

end Events

end PstForge.Job
