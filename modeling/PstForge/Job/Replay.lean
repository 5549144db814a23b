import PstForge.Job.Open

/-! # What a worker that is started again has to repeat

A worker that is started again traverses the source from its beginning. Candidates that
the ledger has already are recognised by the receiver and only announced to the sink,
so that embedded messages that come after them find their parents.
-/

namespace PstForge.Job

open PstForge.Foundation PstForge.Catalog

/-- A candidate of the ledger that a worker is expected to report again. -/
structure ReplayCandidate where
  itemKey : ItemKey
  id : Nat
  provenance : CatalogProvenance
  recoveryIndex : Option Nat
  metadata : MessageMetadata
  unit : Option RecoveryUnit
  deriving DecidableEq, Repr

def CandidateRow.replay (row : CandidateRow) : ReplayCandidate where
  itemKey := row.itemKey
  id := row.itemKey.sourceNodeId.getD 0
  provenance := row.itemKey.provenance
  recoveryIndex := row.itemKey.recoveryIndex
  metadata := row.metadata
  unit := row.unit

/-- The candidates that the ledger has, in the order of their insertion. -/
def replayCandidates (database : Database) : List ReplayCandidate :=
  (database.candidates.filter fun row =>
    row.status = .spooled ∨ row.status = .written ∨ row.status = .unsupported).map
    CandidateRow.replay

def recordReplayedCandidate (candidate : ReplayCandidate) (observedId : Nat) : Sinking Unit := do
  let sink ← get
  require (sink.active = none ∧ sink.unit = candidate.unit)
    "replayed candidate is outside its durable recovery unit"
  modify fun sink => { sink with
    recentCandidates := (candidate.metadata.embeddedPath, candidate.itemKey) ::
      sink.recentCandidates
    replayedSourceIds := (observedId, candidate.id) :: sink.replayedSourceIds }

/-- What the receiver hands to the sink: an event of the worker, or a candidate that the
ledger has already. -/
inductive Received where
  | event (event : CatalogEvent)
  | replayed (candidate : ReplayCandidate) (observedId : Nat)

variable (sha256 : Bytes → Bytes)

def receive : Received → Sinking Unit
  | .event event => handleEvent sha256 event
  | .replayed candidate observedId => recordReplayedCandidate candidate observedId

/-- Hand a stream to the sink, up to the first item that it refuses. -/
def receiveAll : List Received → Sinking Unit
  | [] => pure ()
  | item :: rest => do
      receive sha256 item
      receiveAll rest

end PstForge.Job
