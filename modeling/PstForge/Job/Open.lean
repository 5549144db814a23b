import PstForge.Job.Events

/-! # Opening a job again

After a crash the ledger holds what was committed last, and the pack may hold more
than that. Opening the job cuts the pack back to the end of the last blob of the
ledger, after a check that the blobs do not overlap and that none is missing.
-/

namespace PstForge.Job

open PstForge.Foundation PstForge.Catalog

/-- Where a blob ends in the pack. -/
def BlobRow.packEnd (row : BlobRow) : Option Nat := row.packOffset.map (· + row.byteLen)

/-- The ranges of the blobs in the pack that are not empty. -/
def packRanges (database : Database) : List (Nat × Nat) :=
  (database.blobs.filter (0 < ·.byteLen)).filterMap fun row =>
    row.packOffset.map fun offset => (offset, offset + row.byteLen)

/-- Whether a range starts before the one ahead of it ends. -/
def packOverlaps (database : Database) : Bool :=
  let ranges := (packRanges database).insertionSort fun first second => first.1 ≤ second.1
  (ranges.zip ranges.tail).any fun (previous, next) => next.1 < previous.2

/-- The end of the last blob in the pack. -/
def committedEnd (database : Database) : Nat :=
  (database.blobs.filterMap BlobRow.packEnd).foldl max 0

def reconcilePayloadPack (database : Database) (found : Bytes) : Except JobError PackFile := do
  refuse (packOverlaps database = true)
    (.integrity "payload pack ledger contains overlapping ranges")
  let committed := committedEnd database
  refuse (found.length < committed)
    (.integrity "payload pack is shorter than its committed ledger ranges")
  let file : PackFile := ⟨found, 0, found.length⟩
  let file := if committed < found.length then (file.setLen committed).sync else file
  return file.seek file.bytes.length

/-- Open a job over a ledger and what is found of its pack. -/
def openExpected (database : Database) (found : Bytes) : Except JobError DurableCatalogSink := do
  let pack ← reconcilePayloadPack database found
  return .resting database pack .full

/-- The number under which the source of a value is known. -/
def EventDetail.directId : EventDetail → Option Nat
  | .property _ _ directId => directId
  | .attachmentContent (.direct id) _ _ _ _ => some id
  | _ => none

/-- Capture only the beginnings of values from here on. -/
def enableDirectMetadataCapture (propertyPrefixBytes attachmentPrefixBytes : Nat) :
    Sinking Unit := do
  let sink ← get
  require (sink.active = none ∧ sink.property = none ∧ sink.attachment = none)
    "cannot change capture mode during an active candidate"
  let used := sink.connection.database.events.filterMap (·.detail.directId)
  let next ← attempt (okOr (.integrity "direct blob identifier overflow")
    (checkedAdd 64 (used.foldl max 0) 1))
  modify fun sink => { sink with
    nextDirectBlobId := next
    captureMode := .bounded propertyPrefixBytes attachmentPrefixBytes }

end PstForge.Job
