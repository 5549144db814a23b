import PstForge.Job.Rows

/-! # Whole messages in the ledger

A message whose events come in one piece, from its start to its end, adds one row to the
ledger: the row of its start with the outcome of its end. The sink remembers it under
its path, for the messages that are embedded in it.
-/

namespace PstForge.Job

open PstForge.Foundation PstForge.Catalog

variable {sha256 : Bytes → Bytes}

section Inside

variable {sink next : DurableCatalogSink}

/-- A sink between two messages. -/
structure Poised (sink : DurableCatalogSink) : Prop where
  ready : Ready sink
  idle : sink.active = none
  savepoints : sink.connection.savepoints = []
  begun : sink.connection.begun.isSome = sink.batchOpen
  unrecorded : ∀ property, sink.property = some property → property.record = false

/-- A sink within a message. -/
structure Busy (sink : DurableCatalogSink) (active : ActiveCandidate) (saved : Database) :
    Prop where
  ready : Ready sink
  active : sink.active.map (·.outline) = some active
  batchOpen : sink.batchOpen = true
  begun : sink.connection.begun.isSome = true
  savepoints : sink.connection.savepoints = [saved]

/-- What stays the same from one event of a message to the next. -/
structure Remembers (sink next : DurableCatalogSink) : Prop where
  candidates : next.connection.database.candidates = sink.connection.database.candidates
  unit : next.unit = sink.unit
  recent : next.recentCandidates = sink.recentCandidates
  replayed : next.replayedSourceIds = sink.replayedSourceIds

theorem Remembers.refl (sink : DurableCatalogSink) : Remembers sink sink := ⟨rfl, rfl, rfl, rfl⟩

theorem Remembers.trans {last : DurableCatalogSink} (first : Remembers sink next)
    (second : Remembers next last) : Remembers sink last where
  candidates := second.candidates.trans first.candidates
  unit := second.unit.trans first.unit
  recent := second.recent.trans first.recent
  replayed := second.replayed.trans first.replayed

theorem Busy.isSome {active : ActiveCandidate} {saved : Database}
    (busy : Busy sink active saved) : sink.active.isSome = true := by
  have same := congrArg Option.isSome busy.active
  simpa using same

/-- An event of a message leaves the rows of the ledger alone. -/
theorem handleEvent_inside {active : ActiveCandidate} {saved : Database} {event : CatalogEvent}
    (busy : Busy sink active saved) (notEnd : ∀ id complete, event ≠ .messageEnd id complete)
    (handled : handleEvent sha256 event sink = .ok () next) :
    Busy next active saved ∧ Remembers sink next := by
  have isSome := busy.isSome
  by_cases starts : ∃ message, event = .messageStart message
  · obtain ⟨message, rfl⟩ := starts
    have idle := ((startCandidate_alive busy.ready (fun idle => ?_) message).run_ok handled).1
    · rw [idle] at isSome
      cases isSome
    · rw [idle] at isSome
      cases isSome
  by_cases opens : ∃ descriptor, event = .propertyStart descriptor
  · obtain ⟨descriptor, rfl⟩ := opens
    obtain ⟨-, property, -, rfl⟩ := (handlePropertyStart_alive descriptor).run_ok handled
    exact ⟨⟨⟨busy.ready.alive, busy.ready.even, busy.ready.atEnd⟩, busy.active, busy.batchOpen,
      busy.begun, busy.savepoints⟩, rfl, rfl, rfl, rfl⟩
  have framed : FramedAt sink (handleEvent sha256 event) := handleEvent_framed (fun _ _ _ => isSome)
    (fun message same => starts ⟨message, same⟩) notEnd fun descriptor same =>
      opens ⟨descriptor, same⟩
  obtain ⟨within, ready⟩ := (framed busy.ready).run_ok handled
  obtain ⟨unit, recent, replayed⟩ := within.remembered isSome
  exact ⟨⟨ready, within.active.trans busy.active, within.batchOpen.trans busy.batchOpen,
    within.begun.symm ▸ busy.begun, within.savepoints.trans busy.savepoints⟩, within.candidates,
    unit, recent, replayed⟩

/-- An event between two messages leaves the rows of the ledger alone. -/
theorem handleEvent_outside {event : CatalogEvent} (poised : Poised sink)
    (notStart : ∀ start, event ≠ .messageStart start)
    (notEnd : ∀ id complete, event ≠ .messageEnd id complete)
    (handled : handleEvent sha256 event sink = .ok () next) :
    Poised next ∧ next.connection.database.candidates = sink.connection.database.candidates := by
  by_cases opens : ∃ descriptor, event = .propertyStart descriptor
  · obtain ⟨descriptor, rfl⟩ := opens
    obtain ⟨valid, property, record, rfl⟩ := (handlePropertyStart_alive descriptor).run_ok handled
    -- no message is open, so the property is a folder's
    have isFolder : descriptor.owner.isFolder = true := by
      rw [poised.idle] at valid
      cases owner : descriptor.owner with
      | folder id => rfl
      | message id | recipient id index | attachment id index =>
          rw [owner] at valid
          simp [validatePropertyOwner, requireMessage, bind, Except.bind] at valid
    refine ⟨⟨⟨poised.ready.alive, poised.ready.even, poised.ready.atEnd⟩, poised.idle,
      poised.savepoints, poised.begun, fun property' same => ?_⟩, rfl⟩
    obtain rfl := Option.some.inj same
    rw [record, isFolder]
    rfl
  have framed : FramedAt sink (handleEvent sha256 event) := by
    refine handleEvent_framed (fun property there records => ?_) notStart notEnd
      fun descriptor same => opens ⟨descriptor, same⟩
    rw [poised.unrecorded property there] at records
    cases records
  obtain ⟨within, ready⟩ := (framed poised.ready).run_ok handled
  refine ⟨⟨ready, within.idle poised.idle, within.savepoints.trans poised.savepoints, ?_,
    fun property there => ?_⟩, within.candidates⟩
  · rw [within.begun, within.batchOpen]
    exact poised.begun
  · obtain ⟨earlier, there, same⟩ := within.property property there
    exact same.trans (poised.unrecorded earlier there)

/-- Hand events to the sink. -/
def handleEvents (sha256 : Bytes → Bytes) (events : List CatalogEvent) : Sinking Unit :=
  receiveAll sha256 (events.map .event)

theorem handleEvents_cons (event : CatalogEvent) (more : List CatalogEvent) :
    handleEvents sha256 (event :: more) =
      (do handleEvent sha256 event; handleEvents sha256 more) := rfl

theorem handleEvents_append (first second : List CatalogEvent) :
    handleEvents sha256 (first ++ second) =
      (do handleEvents sha256 first; handleEvents sha256 second) := by
  induction first with
  | nil =>
      funext sink
      rfl
  | cons event more ih =>
      rw [List.cons_append, handleEvents_cons, handleEvents_cons, ih, bind_assoc]

theorem handleEvents_outside {events : List CatalogEvent} (poised : Poised sink)
    (notStart : ∀ event ∈ events, ∀ start, event ≠ .messageStart start)
    (notEnd : ∀ event ∈ events, ∀ id complete, event ≠ .messageEnd id complete)
    (handled : handleEvents sha256 events sink = .ok () next) :
    Poised next ∧ next.connection.database.candidates = sink.connection.database.candidates := by
  induction events generalizing sink with
  | nil =>
      obtain ⟨-, rfl⟩ := pure_run_ok.mp handled
      exact ⟨poised, rfl⟩
  | cons event more ih =>
      obtain ⟨_, middle, first, rest⟩ := bind_run_ok.mp handled
      obtain ⟨poised, same⟩ := handleEvent_outside poised (notStart event List.mem_cons_self)
        (notEnd event List.mem_cons_self) first
      obtain ⟨poised, same'⟩ := ih poised
        (fun event member => notStart event (List.mem_cons_of_mem _ member))
        (fun event member => notEnd event (List.mem_cons_of_mem _ member)) rest
      exact ⟨poised, same'.trans same⟩

theorem handleEvents_inside {active : ActiveCandidate} {saved : Database}
    {events : List CatalogEvent} (busy : Busy sink active saved)
    (notEnd : ∀ event ∈ events, ∀ id complete, event ≠ .messageEnd id complete)
    (handled : handleEvents sha256 events sink = .ok () next) :
    Busy next active saved ∧ Remembers sink next := by
  induction events generalizing sink with
  | nil =>
      obtain ⟨-, rfl⟩ := pure_run_ok.mp handled
      exact ⟨busy, .refl next⟩
  | cons event more ih =>
      obtain ⟨_, middle, first, rest⟩ := bind_run_ok.mp handled
      obtain ⟨busy, same⟩ := handleEvent_inside busy (notEnd event List.mem_cons_self) first
      obtain ⟨busy, same'⟩ := ih busy
        (fun event member => notEnd event (List.mem_cons_of_mem _ member)) rest
      exact ⟨busy, same.trans same'⟩

end Inside

section Whole

/-- The events of one message: its start, what is reported of it, and its end. -/
structure WholeMessage where
  start : MessageStart
  body : List CatalogEvent
  complete : Bool

namespace WholeMessage

def events (message : WholeMessage) : List CatalogEvent :=
  .messageStart message.start :: (message.body ++
    [.messageEnd message.start.id message.complete])

/-- A message ends once. -/
def EndsOnce (message : WholeMessage) : Prop :=
  ∀ event ∈ message.body, ∀ id complete, event ≠ .messageEnd id complete

/-- The row of a message in a ledger it was added to. -/
def row (message : WholeMessage) (sink : DurableCatalogSink) (parent : Option ItemKey) :
    CandidateRow :=
  { startedRow sink message.start parent with
    completeness := if message.complete then .complete else .partialContent
    status := if message.start.metadata.supported then .spooled else .unsupported }

end WholeMessage

/-- The sink after a whole message. -/
structure Added (sink : DurableCatalogSink) (message : WholeMessage) (parent : Option ItemKey)
    (next : DurableCatalogSink) : Prop where
  poised : Poised next
  owner : parentOf sink message.start = .ok parent
  complete : parent.isSome = message.start.metadata.parentAttachmentIndex.isSome
  fresh : ∀ other ∈ sink.connection.database.candidates,
    other.itemKey ≠ startedKey sink.connection.database message.start
  known : ∀ key, parent = some key → key = startedKey sink.connection.database message.start ∨
    ∃ other ∈ sink.connection.database.candidates, other.itemKey = key
  candidates : next.connection.database.candidates =
    sink.connection.database.candidates ++ [message.row sink parent]
  recent : next.recentCandidates = (message.start.metadata.embeddedPath,
    startedKey sink.connection.database message.start) :: sink.recentCandidates
  unit : next.unit = sink.unit
  replayed : next.replayedSourceIds = sink.replayedSourceIds

variable {sink next : DurableCatalogSink}

/-- A whole message adds its row. -/
theorem handleEvents_message {message : WholeMessage} (poised : Poised sink)
    (endsOnce : message.EndsOnce)
    (handled : handleEvents sha256 message.events sink = .ok () next) :
    ∃ parent, Added sink message parent next := by
  rw [WholeMessage.events, handleEvents_cons] at handled
  obtain ⟨_, opened, begins, handled⟩ := bind_run_ok.mp handled
  rw [handleEvents_append] at handled
  obtain ⟨_, last, body, handled⟩ := bind_run_ok.mp handled
  obtain ⟨_, ended, ends, nothing⟩ := bind_run_ok.mp handled
  obtain ⟨-, rfl⟩ := pure_run_ok.mp nothing
  obtain ⟨-, parent, begun, counter, position, owner, whole, fresh, known, rfl⟩ :=
    (startCandidate_alive poised.ready (fun _ => ⟨poised.savepoints, poised.begun⟩)
      message.start).run_ok begins
  have busy : Busy (started sink message.start parent begun counter position)
      ⟨startedKey sink.connection.database message.start, message.start.id,
        sink.payloadPackPosition, 0, [], message.start.metadata.supported,
        message.start.metadata.embeddedPath⟩ sink.connection.database :=
    ⟨⟨poised.ready.alive, poised.ready.even, poised.ready.atEnd⟩, rfl, rfl, rfl, rfl⟩
  obtain ⟨busy, same⟩ := handleEvents_inside busy endsOnce body
  obtain ⟨active, there, outlined⟩ := Option.map_eq_some_iff.mp busy.active
  have done := (handleMessageEnd_alive busy.ready there busy.batchOpen busy.begun busy.savepoints
    message.start.id message.complete).run_ok ends
  have key : active.key = startedKey sink.connection.database message.start :=
    congrArg ActiveCandidate.key outlined
  have supported : active.supported = message.start.metadata.supported :=
    congrArg ActiveCandidate.supported outlined
  have path : active.embeddedPath = message.start.metadata.embeddedPath :=
    congrArg ActiveCandidate.embeddedPath outlined
  refine ⟨parent, ⟨done.ready, done.idle, done.savepoints, done.begun, fun property there => ?_⟩,
    owner, whole, fresh, known, ?_, ?_, done.unit.trans same.unit,
    done.replayed.trans same.replayed⟩
  · rw [done.property] at there
    cases there
  · rw [done.candidates, key, supported]
    simp only [Database.updateCandidate, same.candidates, started, inBatch, List.map_append,
      List.map_cons, List.map_nil]
    have others : sink.connection.database.candidates.map (fun row =>
        if row.itemKey = startedKey sink.connection.database message.start then
          { row with
            completeness := if message.complete then .complete else .partialContent
            status := if message.start.metadata.supported then .spooled else .unsupported }
        else row) = sink.connection.database.candidates := by
      refine (List.map_congr_left fun row member => ?_).trans (List.map_id _)
      rw [if_neg (fresh row member), id]
    rw [others]
    simp [WholeMessage.row, startedRow]
  · rw [done.recent, path, key]
    exact congrArg _ same.recent

end Whole

end PstForge.Job
