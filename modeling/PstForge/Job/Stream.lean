import PstForge.Job.Rows

/-! # Where a sink stands in the stream of a worker

Between two candidates the ledger of a stream is settled: every candidate in it has
ended. While one is open, its savepoint holds the settled ledger. Every item of a
stream keeps this, whether it is taken or refused.
-/

namespace PstForge.Job

open PstForge.Foundation PstForge.Catalog

variable (sha256 : Bytes → Bytes)

section Progress

/-- How far a stream has come: the candidates whose end was handled, and the ledger when
last no candidate was open. -/
structure Progress where
  ended : List ItemKey
  ledger : Database

/-- The candidate that an item ends. -/
def endedBy (item : Received) (sink : DurableCatalogSink) : List ItemKey :=
  match item with
  | .event (.messageEnd _ _) => (sink.active.map (·.key)).toList
  | _ => []

/-- The ledger, unless a candidate is open. -/
def settledLedger (ledger : Database) (sink : DurableCatalogSink) : Database :=
  if sink.active.isNone then sink.connection.database else ledger

/-- How far a stream comes until it ends or an item is refused. -/
def progress : List Received → DurableCatalogSink → Progress → Progress
  | [], _, reached => reached
  | item :: rest, sink, reached =>
      match receive sha256 item sink with
      | .ok _ next => progress rest next
          ⟨reached.ended ++ endedBy item sink, settledLedger reached.ledger next⟩
      | .error _ next => ⟨reached.ended, settledLedger reached.ledger next⟩

/-- Where a sink stands in the stream of a worker that began over a ledger. -/
structure Streaming (start : Database) (reached : Progress) (sink : DurableCatalogSink) :
    Prop where
  shape : match sink.active with
    | some active => sink.batchOpen = true ∧ sink.connection.begun.isSome = true ∧
        sink.connection.savepoints = [reached.ledger] ∧
        ∃ row, row.itemKey = active.key ∧
          sink.connection.database.candidates = reached.ledger.candidates ++ [row]
    | none => sink.connection.savepoints = [] ∧
        sink.connection.begun.isSome = sink.batchOpen ∧
        sink.connection.database = reached.ledger
  counter : sink.batchOpen = false → sink.batchCandidates = 0
  owned : ∀ property, sink.property = some property → property.record = true →
    sink.active.isSome = true
  keys : reached.ledger.candidates.map (·.itemKey) =
    start.candidates.map (·.itemKey) ++ reached.ended
  settled : ∀ row ∈ reached.ledger.candidates, row.itemKey ∈ reached.ended →
    row.status ≠ .pending

end Progress

section Steps

variable {sha256} {start : Database} {reached : Progress} {sink : DurableCatalogSink}

/-- While no candidate is open, the ledger may change in all but its candidates. -/
theorem Streaming.settle (streaming : Streaming start reached sink) (idle : sink.active = none)
    {next : DurableCatalogSink} (still : next.active = none)
    (savepoints : next.connection.savepoints = [])
    (begun : next.connection.begun.isSome = next.batchOpen)
    (counter : next.batchOpen = false → next.batchCandidates = 0)
    (candidates : next.connection.database.candidates = sink.connection.database.candidates)
    (owned : ∀ property, next.property = some property → property.record = false) :
    Streaming start ⟨reached.ended, settledLedger reached.ledger next⟩ next := by
  have shape := streaming.shape
  rw [idle] at shape
  have ledger : settledLedger reached.ledger next = next.connection.database := by
    simp [settledLedger, still]
  rw [ledger]
  have same : next.connection.database.candidates = reached.ledger.candidates := by
    rw [candidates, shape.2.2]
  refine ⟨?_, counter, fun property there recorded => ?_, ?_, ?_⟩
  · rw [still]
    exact ⟨savepoints, begun, rfl⟩
  · rw [owned property there] at recorded
    cases recorded
  · dsimp only
    rw [same]
    exact streaming.keys
  · dsimp only
    rw [same]
    exact streaming.settled

/-- What only concerns the open candidate keeps the place in the stream. -/
theorem Streaming.within (streaming : Streaming start reached sink) {next : DurableCatalogSink}
    (within : Within sink next) :
    Streaming start ⟨reached.ended, settledLedger reached.ledger next⟩ next := by
  have shape := streaming.shape
  cases busy : sink.active with
  | none =>
      rw [busy] at shape
      refine streaming.settle busy (within.idle busy) (within.savepoints.trans shape.1) ?_ ?_
        within.candidates fun property there => ?_
      · rw [within.begun, within.batchOpen]
        exact shape.2.1
      · rw [within.batchOpen, within.batchCandidates]
        exact streaming.counter
      · obtain ⟨earlier, before, same⟩ := within.property property there
        rw [same, ← Bool.not_eq_true]
        intro recorded
        have owner := streaming.owned earlier before recorded
        rw [busy] at owner
        cases owner
  | some active =>
      rw [busy] at shape
      obtain ⟨opened, begun, savepoints, row, key, candidates⟩ := shape
      have still := within.active
      rw [busy] at still
      obtain ⟨later, there, same⟩ := Option.map_eq_some_iff.mp still
      have ledger : settledLedger reached.ledger next = reached.ledger := by
        simp [settledLedger, there]
      rw [ledger]
      refine ⟨?_, ?_, fun _ _ _ => ?_, streaming.keys, streaming.settled⟩
      · rw [there]
        exact ⟨within.batchOpen.trans opened, within.begun ▸ begun,
          within.savepoints.trans savepoints, row,
          key.trans (congrArg ActiveCandidate.key same).symm,
          within.candidates.trans candidates⟩
      · rw [within.batchOpen, within.batchCandidates]
        exact streaming.counter
      · rw [there]
        rfl

/-- What an item does to a sink in a stream. -/
def Advances (start : Database) (reached : Progress) (sink : DurableCatalogSink) (item : Received)
    (program : Sinking Unit) : Prop :=
  Ensures program sink
    (fun _ next => Ready next ∧ Streaming start
      ⟨reached.ended ++ endedBy item sink, settledLedger reached.ledger next⟩ next)
    (fun _ next => next.life = none ∧ Even next ∧ (next.active = none → Ready next) ∧
      Streaming start ⟨reached.ended, settledLedger reached.ledger next⟩ next)

theorem FramedAt.advances {program : Sinking Unit} (framed : FramedAt sink program)
    (ready : Ready sink) (streaming : Streaming start reached sink) {item : Received}
    (noEnd : endedBy item sink = []) : Advances start reached sink item program := by
  refine (framed ready).mono (fun _ next done => ?_) fun _ next done => ?_
  · refine ⟨done.2, ?_⟩
    rw [noEnd, List.append_nil]
    exact streaming.within done.1
  · refine ⟨done.alive, done.even, fun idle => done.ready ?_, streaming.within done.within⟩
    have busy := done.within.busy
    rw [idle] at busy
    exact Option.not_isSome_iff_eq_none.mp (by simp [← busy])

/-- A sink where nothing but a property was changed, or less. -/
theorem Streaming.same (streaming : Streaming start reached sink) :
    Streaming start ⟨reached.ended, settledLedger reached.ledger sink⟩ sink :=
  streaming.within (.refl sink)

theorem handlePropertyStart_advances (ready : Ready sink)
    (streaming : Streaming start reached sink) (descriptor : PropertyDescriptor) :
    Advances start reached sink (.event (.propertyStart descriptor))
      (handlePropertyStart descriptor) := by
  have here : sink.life = none ∧ Even sink ∧ (sink.active = none → Ready sink) ∧
      Streaming start ⟨reached.ended, settledLedger reached.ledger sink⟩ sink :=
    ⟨ready.alive, ready.even, fun _ => ready, streaming.same⟩
  have cleared : Within sink { sink with pendingNamedProperty := none } :=
    ⟨id, rfl, rfl, rfl, rfl, rfl, rfl, fun property there => ⟨property, there, rfl⟩,
    fun _ => ⟨rfl, rfl, rfl⟩⟩
  refine (handlePropertyStart_alive descriptor).mono (fun _ next done => ?_) fun _ next failed => ?_
  · obtain ⟨valid, property, recorded, rfl⟩ := done
    refine ⟨⟨ready.alive, ready.even, ready.atEnd⟩, ?_⟩
    have after := streaming.within cleared
    have noEnd : endedBy (.event (.propertyStart descriptor)) sink = [] := rfl
    rw [noEnd, List.append_nil]
    refine ⟨after.shape, after.counter, fun other there isRecorded => ?_, after.keys,
      after.settled⟩
    obtain rfl := Option.some.inj there
    rw [recorded] at isRecorded
    -- only a property of a folder may come outside of a message
    have busy : sink.active.isSome = true := by
      cases owner : descriptor.owner <;>
        simp only [owner, validatePropertyOwner, PropertyOwner.isFolder, Bool.not_true,
          bind_eq_ok] at valid isRecorded
      case folder => cases isRecorded
      all_goals cases busy : sink.active <;> simp_all [requireMessage]
    exact busy
  · obtain rfl | rfl := failed
    · exact here
    · exact ⟨ready.alive, ready.even, fun _ => ⟨ready.alive, ready.even, ready.atEnd⟩,
        streaming.within cleared⟩

end Steps

section Candidates

variable {sha256} {start : Database} {reached : Progress} {sink : DurableCatalogSink}

theorem startCandidate_advances (ready : Ready sink) (streaming : Streaming start reached sink)
    (message : MessageStart) :
    Advances start reached sink (.event (.messageStart message)) (startCandidate message) := by
  have shape := streaming.shape
  refine (startCandidate_alive ready (fun idle => ?_) message).mono (fun _ next done => ?_)
    fun _ next failed => ?_
  · rw [idle] at shape
    exact ⟨shape.1, shape.2.1⟩
  · obtain ⟨idle, parent, begun, counter, position, -, -, -, -, rfl⟩ := done
    rw [idle] at shape
    refine ⟨⟨ready.alive, ready.even, ready.atEnd⟩, ?_⟩
    have noEnd : endedBy (.event (.messageStart message)) sink = [] := rfl
    rw [noEnd, List.append_nil]
    refine ⟨⟨rfl, rfl, ?_, startedRow sink message parent, rfl, ?_⟩, nofun, fun _ _ _ => rfl,
      streaming.keys, streaming.settled⟩
    · rw [← shape.2.2]
      rfl
    · rw [← shape.2.2]
      rfl
  · obtain ⟨property, earlier, rfl | ⟨idle, rfl, begun, counter, position, rfl⟩⟩ := failed
    · refine ⟨ready.alive, ready.even, fun _ => ⟨ready.alive, ready.even, ready.atEnd⟩,
        streaming.within ?_⟩
      exact ⟨id, rfl, rfl, rfl, rfl, rfl, rfl, fun other there => ⟨other, earlier other there, rfl⟩,
        fun _ => ⟨rfl, rfl, rfl⟩⟩
    · refine ⟨ready.alive, ready.even, fun _ => ⟨ready.alive, ready.even, ready.atEnd⟩, ?_⟩
      exact streaming.settle idle idle rfl rfl nofun rfl nofun

/-- A candidate whose outcome is set has ended. -/
theorem Streaming.ended (streaming : Streaming start reached sink) {active : ActiveCandidate}
    (busy : sink.active = some active) {next : DurableCatalogSink} (idle : next.active = none)
    (closed : next.property = none) (noSavepoints : next.connection.savepoints = [])
    (begun : next.connection.begun.isSome = next.batchOpen)
    (counter : next.batchOpen = false → next.batchCandidates = 0)
    {completeness : Completeness} {status : CandidateStatus} (done : status ≠ .pending)
    (rows : next.connection.database.candidates =
      (sink.connection.database.updateCandidate active.key completeness status).candidates) :
    Streaming start ⟨reached.ended ++ [active.key], next.connection.database⟩ next := by
  have shape := streaming.shape
  rw [busy] at shape
  obtain ⟨-, -, -, row, key, candidates⟩ := shape
  simp only [Database.updateCandidate, candidates] at rows
  refine ⟨?_, counter, fun property there => ?_, ?_, ?_⟩
  · rw [idle]
    exact ⟨noSavepoints, begun, rfl⟩
  · rw [closed] at there
    cases there
  · dsimp only
    rw [rows, List.map_map]
    have keys : ((fun other : CandidateRow => other.itemKey) ∘ fun other =>
        if other.itemKey = active.key then { other with completeness, status } else other) =
        fun other => other.itemKey := by
      funext other
      simp only [Function.comp]
      split <;> rfl
    rw [keys, List.map_append, streaming.keys, List.map_singleton, key, List.append_assoc]
  · intro other member ended
    dsimp only at member ended
    rw [rows] at member
    obtain ⟨source, from_, rfl⟩ := List.mem_map.mp member
    split
    case isTrue => exact done
    case isFalse different =>
      simp only [different, ↓reduceIte, List.mem_append, List.mem_singleton, or_false] at ended
      rcases List.mem_append.mp from_ with old | new
      · exact streaming.settled source old ended
      · rw [List.mem_singleton.mp new, key] at different
        exact absurd rfl different

theorem handleMessageEnd_advances (ready : Ready sink) (streaming : Streaming start reached sink)
    (id : Nat) (complete : Bool) :
    Advances start reached sink (.event (.messageEnd id complete))
      (handleMessageEnd sha256 id complete) := by
  have shape := streaming.shape
  cases busy : sink.active with
  | none =>
      refine .get_bind (.attempt_bind (fun _ matched => ?_) fun _ _ => ?_)
      · simp [busy, requireMessage] at matched
      · exact ⟨ready.alive, ready.even, fun _ => ready, streaming.same⟩
  | some active =>
      rw [busy] at shape
      obtain ⟨opened, begun, savepoints, -⟩ := shape
      refine (handleMessageEnd_alive ready busy opened begun savepoints id complete).mono
        (fun _ next done => ?_) fun _ next shaken => ?_
      · have settled : settledLedger reached.ledger next = next.connection.database := by
          simp [settledLedger, done.idle]
        have ended : endedBy (.event (.messageEnd id complete)) sink = [active.key] := by
          simp [endedBy, busy]
        have outcome : (if active.supported = true then CandidateStatus.spooled
            else .unsupported) ≠ .pending := by
          split
          · exact CandidateStatus.noConfusion
          · exact CandidateStatus.noConfusion
        rw [settled, ended]
        exact ⟨done.ready, streaming.ended busy done.idle done.property done.savepoints done.begun
          done.counter outcome done.candidates⟩
      · -- a failure here leaves the candidate open
        refine ⟨shaken.alive, shaken.even, fun idle => ?_, streaming.within shaken.within⟩
        have still := shaken.within.busy
        rw [idle, busy] at still
        cases still

end Candidates

section Streams

variable {sha256} {start : Database} {reached : Progress} {sink : DurableCatalogSink}

/-- Every item of a stream keeps the place of the sink in it. -/
theorem receive_advances (ready : Ready sink) (streaming : Streaming start reached sink)
    (item : Received) : Advances start reached sink item (receive sha256 item) := by
  cases item with
  | replayed candidate observedId =>
      exact (recordReplayedCandidate_framed candidate observedId).advances ready streaming rfl
  | event event =>
      by_cases starts : ∃ message, event = .messageStart message
      · obtain ⟨message, rfl⟩ := starts
        exact startCandidate_advances ready streaming message
      by_cases ends : ∃ id complete, event = .messageEnd id complete
      · obtain ⟨id, complete, rfl⟩ := ends
        exact handleMessageEnd_advances ready streaming id complete
      by_cases opens : ∃ descriptor, event = .propertyStart descriptor
      · obtain ⟨descriptor, rfl⟩ := opens
        exact handlePropertyStart_advances ready streaming descriptor
      have noEnd : endedBy (.event event) sink = [] := by
        cases event <;> first | rfl | exact absurd ⟨_, _, rfl⟩ ends
      exact (handleEvent_framed streaming.owned (fun message same => starts ⟨message, same⟩)
        (fun id complete same => ends ⟨id, complete, same⟩)
        fun descriptor same => opens ⟨descriptor, same⟩).advances ready streaming noEnd

theorem after_receiveAll (item : Received) (rest : List Received) :
    after (receiveAll sha256 (item :: rest)) sink =
      match receive sha256 item sink with
      | .ok _ next => after (receiveAll sha256 rest) next
      | .error _ next => next := by
  rw [receiveAll]
  unfold after
  rw [run_bind]
  cases receive sha256 item sink <;> rfl

/-- How a stream leaves the sink, whether it ends or an item is refused. -/
theorem receiveAll_streaming (items : List Received) (ready : Ready sink)
    (streaming : Streaming start reached sink) :
    (after (receiveAll sha256 items) sink).life = none ∧
      Even (after (receiveAll sha256 items) sink) ∧
      ((after (receiveAll sha256 items) sink).active = none →
        Ready (after (receiveAll sha256 items) sink)) ∧
      Streaming start (progress sha256 items sink reached)
        (after (receiveAll sha256 items) sink) := by
  induction items generalizing sink reached with
  | nil => exact ⟨ready.alive, ready.even, fun _ => ready, streaming⟩
  | cons item rest ih =>
      have advanced : Advances start reached sink item (receive sha256 item) :=
        receive_advances ready streaming item
      unfold Advances Ensures at advanced
      rw [after_receiveAll, progress]
      cases received : receive sha256 item sink with
      | ok value next =>
          rw [received] at advanced
          exact ih advanced.1 advanced.2
      | error error next =>
          rw [received] at advanced
          exact advanced

end Streams

end PstForge.Job
