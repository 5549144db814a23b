import PstForge.Job.PackSafety
import PstForge.Job.Stream

/-! # A worker that is interrupted

The stream of a worker may stop between any two events. Giving up the attempt takes
back the candidate that was open, commits the ones that ended, and should leave the
sink as if the job had just been opened.
-/

namespace PstForge.Job

open PstForge.Foundation PstForge.Catalog

variable (sha256 : Bytes → Bytes)

section Abort

variable {sha256} {start : Database} {reached : Progress} {sink next : DurableCatalogSink}

/-- The sink between two workers. -/
structure Resting (sink : DurableCatalogSink) : Prop where
  ready : Ready sink
  connection : sink.connection = .idle sink.connection.database
  batchOpen : sink.batchOpen = false
  batchCandidates : sink.batchCandidates = 0
  active : sink.active = none
  property : sink.property = none
  attachment : sink.attachment = none
  unit : sink.unit = none
  recentCandidates : sink.recentCandidates = []

theorem Resting.streaming (resting : Resting sink) :
    Streaming sink.connection.database ⟨[], sink.connection.database⟩ sink := by
  have connection := resting.connection
  refine ⟨?_, fun _ => resting.batchCandidates, fun property there => ?_,
    (List.append_nil _).symm, fun _ _ none => absurd none List.not_mem_nil⟩
  · rw [resting.active]
    refine ⟨?_, ?_, rfl⟩
    · rw [connection]
      rfl
    · rw [connection, resting.batchOpen]
      rfl
  · rw [resting.property] at there
    cases there

/-- The sink with everything let go of that was open, and the pack cut back. -/
def takenBack (sink : DurableCatalogSink) (packStart : Nat) (connection : Connection) :
    DurableCatalogSink :=
  { sink with
    property := none
    attachment := none
    unit := none
    recentCandidates := []
    active := none
    payloadPack := (sink.payloadPack.setLen packStart).seek packStart
    payloadPackPosition := packStart
    connection }

/-- Whatever was interrupted, the ledger goes back to when no candidate was open. -/
theorem abortWorkerAttempt_rests (alive : sink.life = none) (even : Even sink)
    (idle : sink.active = none → Ready sink) (streaming : Streaming start reached sink)
    (aborted : abortWorkerAttempt sink = .ok () next) :
    Resting next ∧ next.connection.database = reached.ledger ∧
      next.pendingNamedProperty = sink.pendingNamedProperty := by
  have shape := streaming.shape
  suffices ensures : Ensures abortWorkerAttempt sink (fun _ next => Resting next ∧
      next.connection.database = reached.ledger ∧
      next.pendingNamedProperty = sink.pendingNamedProperty) (fun _ _ => True) from
    ensures.run_ok aborted
  refine .modify_bind (.get_bind ?_)
  split
  case h_1 quiet =>
    dsimp only at quiet
    rw [quiet] at shape
    have ready := idle quiet
    refine (commitCandidateBatch_alive ?_ ?_ ?_).mono (fun _ next done => ?_) fun _ _ _ => trivial
    · exact alive
    · exact even
    · exact shape.2.1
    · obtain ⟨unopened, rfl⟩ | rfl := done
      · dsimp only at unopened
        refine ⟨⟨⟨ready.alive, ready.even, ready.atEnd⟩, ?_, unopened, streaming.counter unopened,
          quiet, rfl, rfl, rfl, rfl⟩, shape.2.2, rfl⟩
        have notBegun := shape.2.1
        rw [unopened, Option.isSome_eq_false_iff, Option.isNone_iff_eq_none] at notBegun
        have noSavepoints := shape.1
        dsimp only
        cases connection : sink.connection
        simp_all [Connection.idle]
      · exact ⟨⟨⟨ready.alive, ready.even, ready.atEnd⟩, rfl, rfl, rfl, quiet, rfl, rfl, rfl, rfl⟩,
          shape.2.2, rfl⟩
  case h_2 active busy =>
    dsimp only at busy
    rw [busy] at shape
    obtain ⟨opened, begun, savepoints, -⟩ := shape
    refine .modify_bind (.bind ((truncatePayloadPack_alive ?_ _).mono (fun _ _ same => same)
      fun _ _ _ => trivial) fun _ cut same => ?_)
    · exact alive
    rw [same]
    have size : (sink.payloadPack.setLen active.packStart).bytes.length = active.packStart :=
      PackFile.setLen_length _
    have lives : (takenBack sink active.packStart sink.connection).life = none := alive
    refine .bind (M := fun done last => done = true ∧ last = takenBack sink active.packStart
      ⟨reached.ledger, sink.connection.begun, []⟩) (.of_onError (.bind
        (abortCandidate_alive lives savepoints) fun _ last same => .of_pure ⟨rfl, same⟩)
      fun _ _ gone => gone.elim) fun done last taken => ?_
    obtain ⟨rfl, rfl⟩ := taken
    refine (commitCandidateBatch_alive ?_ ?_ ?_).mono (fun _ next done => ?_) fun _ _ _ => trivial
    · exact alive
    · exact size.symm
    · exact begun.trans opened.symm
    · obtain ⟨unopened, -⟩ | rfl := done
      · exact absurd (opened.symm.trans unopened) nofun
      · exact ⟨⟨⟨alive, size.symm, size.symm⟩, rfl, rfl, rfl, rfl, rfl, rfl, rfl, rfl⟩, rfl, rfl⟩

end Abort

section Restored

/-- The sinks between two workers: created, opened, told what to capture, or given back
by an attempt of a worker whose stream stopped anywhere. -/
inductive AtRest : DurableCatalogSink → Prop
  | create (mode : CatalogCaptureMode) : AtRest (createWithCapture mode)
  | opened {database : Database} {found : Bytes} {sink : DurableCatalogSink}
      (opens : openExpected database found = .ok sink) : AtRest sink
  | enabled {sink next : DurableCatalogSink} (propertyPrefixBytes attachmentPrefixBytes : Nat)
      (rest : AtRest sink)
      (enables : enableDirectMetadataCapture propertyPrefixBytes attachmentPrefixBytes sink =
        .ok () next) : AtRest next
  | attempted {sink next : DurableCatalogSink} (items : List Received) (rest : AtRest sink)
      (aborted : abortWorkerAttempt (after (receiveAll sha256 items) sink) = .ok () next) :
      AtRest next

/-- The sink as opening the job would give it: nothing is open, and nothing remembered. -/
def reopened (sink : DurableCatalogSink) : DurableCatalogSink :=
  { DurableCatalogSink.resting sink.connection.database sink.payloadPack sink.captureMode with
    batchPackStart := sink.batchPackStart
    nextDirectBlobId := sink.nextDirectBlobId }

/-- What should be true after the attempt of a worker was given up: the sink takes every
stream of a new worker as if the job had just been opened, and the ledger on the disk has
the candidates from before the worker and those whose end was handled, as it was when last
no candidate was open. -/
structure Restored (start : DurableCatalogSink) (items : List Received)
    (next : DurableCatalogSink) : Prop where
  accepts : ∀ unit rest, receiveAll sha256 (.event (.unitStart unit) :: rest) next =
    receiveAll sha256 (.event (.unitStart unit) :: rest) (reopened next)
  ledger : next.connection.durable =
    (progress sha256 items start ⟨[], start.connection.database⟩).ledger
  candidates : next.connection.durable.candidates.map (·.itemKey) =
    start.connection.database.candidates.map (·.itemKey) ++
      (progress sha256 items start ⟨[], start.connection.database⟩).ended
  finished : ∀ row ∈ next.connection.durable.candidates,
    row.itemKey ∈ (progress sha256 items start ⟨[], start.connection.database⟩).ended →
      row.status ≠ .pending

variable {sha256} {start sink next : DurableCatalogSink}

theorem AtRest.resting (rest : AtRest sha256 sink) : Resting sink := by
  induction rest with
  | create mode => exact ⟨⟨rfl, rfl, rfl⟩, rfl, rfl, rfl, rfl, rfl, rfl, rfl, rfl⟩
  | opened opens =>
      simp only [openExpected, reconcilePayloadPack, bind_eq_ok] at opens
      obtain ⟨pack, ⟨_, -, _, -, found⟩, opens⟩ := opens
      obtain rfl := Except.ok.inj opens
      obtain rfl := Except.ok.inj found
      exact ⟨⟨rfl, rfl, rfl⟩, rfl, rfl, rfl, rfl, rfl, rfl, rfl, rfl⟩
  | enabled _ _ _ enables resting =>
      simp only [enableDirectMetadataCapture, bind_run_ok, get_run_ok, require, attempt_run_ok,
        modify_run_ok] at enables
      obtain ⟨_, _, ⟨rfl, rfl⟩, _, _, ⟨-, rfl⟩, _, _, ⟨-, rfl⟩, rfl⟩ := enables
      exact ⟨⟨resting.ready.alive, resting.ready.even, resting.ready.atEnd⟩, resting.connection,
        resting.batchOpen, resting.batchCandidates, resting.active, resting.property,
        resting.attachment, resting.unit, resting.recentCandidates⟩
  | attempted items _ aborted resting =>
      obtain ⟨alive, even, idle, streaming⟩ :=
        receiveAll_streaming items resting.ready resting.streaming
      exact (abortWorkerAttempt_rests alive even idle streaming aborted).1

/-- A resting sink is as after opening, but for what it remembers of the last stream. -/
theorem Resting.eq_reopened (resting : Resting sink) :
    sink = { reopened sink with
      pendingNamedProperty := sink.pendingNamedProperty
      replayedSourceIds := sink.replayedSourceIds } := by
  obtain ⟨⟨alive, even, -⟩, connection, batchOpen, batchCandidates, active, property, attachment,
    unit, recentCandidates⟩ := resting
  simp only [reopened, DurableCatalogSink.resting]
  rw [← connection, ← batchOpen, ← batchCandidates, ← active, ← property, ← attachment, ← unit,
    ← recentCandidates, ← alive, ← even]

/-- A new stream is taken as after opening exactly if no identity of a property waits. -/
theorem Resting.accepts_iff (resting : Resting sink) :
    (∀ unit rest, receiveAll sha256 (.event (.unitStart unit) :: rest) sink =
      receiveAll sha256 (.event (.unitStart unit) :: rest) (reopened sink)) ↔
      sink.pendingNamedProperty = none := by
  have started : ∀ unit, handleUnitStart unit (reopened sink) = .ok () { reopened sink with
      unit := some unit
      recentCandidates := []
      replayedSourceIds := [] } := fun unit => rfl
  constructor
  · intro accepts
    by_contra waits
    have same := accepts (.folder []) []
    have refused : handleUnitStart (.folder []) sink =
        .error (.eventSequence "recovery unit boundary occurred during a candidate") sink := by
      simp only [handleUnitStart, require, run_bind, run_get,
        attempt, refuse, resting.active, waits, and_false, not_false_eq_true, ↓reduceIte]
    simp only [receiveAll, receive, handleEvent, run_bind, refused, started] at same
    cases same
  · intro none unit rest
    have begun : handleUnitStart unit sink = handleUnitStart unit (reopened sink) := by
      rw [started]
      conv_lhs => rw [resting.eq_reopened, none]
      rfl
    simp only [receiveAll, receive, handleEvent, run_bind, begun]

/-- A stream that stops within the first property of its second message. -/
def stoppedNotes : List Received :=
  [.event (.unitStart (.normal [] 290 0)), .event (noteStart 7), .event (.messageEnd 7 true),
    .event (.unitEnd (.normal [] 290 0)), .event (.unitStart (.normal [] 290 1)),
    .event (noteStart 8), .event (.propertyStart (noteSubject 8))]

/-- A stream that stops before the property whose identity it has told. -/
def stoppedIdentity : List Received :=
  [.event (.unitStart (.normal [] 290 0)), .event (noteStart 7),
    .event (.namedProperty (noteSubject 7) ⟨List.replicate 16 0, .numeric 0x8001⟩)]

end Restored

end PstForge.Job
