import PstForge.Catalog.Event
import PstForge.Foundation.Effect

/-! # The ledger of a job

What a recovery has found is kept in the tables of a database. A batch of candidates
is one transaction, and the candidate that is being written stands behind a savepoint
in it, so that it can be taken back alone. The connection holds what the database was
when the transaction was begun and when each savepoint was set.
-/

namespace PstForge.Job

open PstForge.Foundation PstForge.Catalog

/-- How an operation fails; the last case is the end of the process. -/
inductive JobError where
  | integrity (detail : String)
  | blobIntegrity (sha256 : Bytes) (detail : String)
  | eventSequence (detail : String)
  | blobLength (expected actual : Nat)
  | sql (detail : String)
  | io (detail : String)
  | killed
  deriving DecidableEq, Repr

section Tables

/-- The key of a candidate: where it was found, and how many candidates found there
came before it. -/
structure ItemKey where
  provenance : CatalogProvenance
  sourceNodeId : Option Nat
  recoveryIndex : Option Nat
  occurrence : Nat
  deriving DecidableEq, Repr

inductive Completeness where
  | complete
  | partialContent
  | damaged
  deriving DecidableEq, Repr

inductive CandidateStatus where
  | pending
  | spooled
  | written
  | unsupported
  | failed
  deriving DecidableEq, Repr

inductive CandidateRejectionCategory where
  | sourceItemUnsupported
  | malformedCandidate
  | malformedProperty
  | writerInputRejected
  | itemGraphDependencyRejected
  | unsupportedEmbeddedItem
  | strandedEmbeddedItem
  deriving DecidableEq, Repr

structure CandidateRow where
  itemKey : ItemKey
  completeness : Completeness
  status : CandidateStatus
  metadata : MessageMetadata
  unit : Option RecoveryUnit
  parentItemKey : Option ItemKey
  parentAttachmentIndex : Option Nat
  embeddedPath : List Nat
  deriving DecidableEq, Repr

structure FolderRow where
  folderKey : FolderAddress ⊕ Nat
  sourceId : Nat
  parentSourceId : Option Nat
  name : Option Text
  address : Option FolderAddress
  containerClass : Option Text
  deriving DecidableEq, Repr

/-- A blob, in the payload pack where it has an offset there. -/
structure BlobRow where
  sha256 : Bytes
  byteLen : Nat
  packOffset : Option Nat
  deriving DecidableEq, Repr

structure InlineBlobRow where
  sha256 : Bytes
  data : Bytes
  deriving DecidableEq, Repr

/-- A reference to a blob. -/
structure BlobRef where
  sha256 : Bytes
  bytes : Nat
  deriving DecidableEq, Repr

/-- How the content of an attachment was kept. -/
inductive AttachmentContent where
  | data
  | partialData
  | direct (directId : Nat)
  deriving DecidableEq, Repr

/-- What is recorded of a candidate: the kind of an event with its metadata. -/
inductive EventDetail where
  | recipient (recipient : Recipient)
  | attachment (attachment : Attachment)
  | attachmentMimeProbe (index : Nat) (mimeType : Text)
  | attachmentContent (content : AttachmentContent) (messageId index : Nat)
      (declaredSize : Option Nat) (actualSize : Nat)
  | attachmentReference (messageId index : Nat) (declaredSize : Option Nat)
  | attachmentMissing (messageId index : Nat) (declaredSize : Option Nat)
  | property (descriptor : PropertyDescriptor) (named : Option NamedPropertyIdentity)
      (directId : Option Nat)
  | propertyIncomplete (descriptor : PropertyDescriptor) (named : Option NamedPropertyIdentity)
      (reason : Text)
  | outputUnrepresentable (category : CandidateRejectionCategory)
  deriving DecidableEq, Repr

structure EventRow where
  itemKey : ItemKey
  sequence : Nat
  detail : EventDetail
  blob : Option BlobRef
  deriving DecidableEq, Repr

/-- The tables, with the rows of each in the order of their insertion. -/
structure Database where
  candidates : List CandidateRow
  folders : List FolderRow
  blobs : List BlobRow
  inlineBlobs : List InlineBlobRow
  events : List EventRow
  deriving DecidableEq, Repr

namespace Database

def empty : Database := ⟨[], [], [], [], []⟩

/-- The candidates that were found in the same place. -/
def occurrences (database : Database) (provenance : CatalogProvenance)
    (sourceNodeId recoveryIndex : Option Nat) : Nat :=
  database.candidates.countP fun row => row.itemKey.provenance = provenance
    ∧ row.itemKey.sourceNodeId = sourceNodeId ∧ row.itemKey.recoveryIndex = recoveryIndex

/-- Insert a candidate under a new key, behind its parent. -/
def insertCandidate (row : CandidateRow) (database : Database) : Except JobError Database := do
  refuse (database.candidates.any (·.itemKey = row.itemKey) = true)
    (.sql "UNIQUE constraint failed: candidates.item_key")
  refuse (row.parentItemKey.all (fun parent =>
      database.candidates.any (·.itemKey = parent) || parent = row.itemKey) = false)
    (.sql "FOREIGN KEY constraint failed")
  return { database with candidates := database.candidates ++ [row] }

/-- Insert an event of a candidate that refers to a blob of the ledger. -/
def insertEvent (row : EventRow) (database : Database) : Except JobError Database := do
  refuse (database.events.any (fun other =>
      other.itemKey = row.itemKey && other.sequence = row.sequence) = true)
    (.sql "UNIQUE constraint failed: candidate_events.item_key, candidate_events.sequence")
  refuse ((database.candidates.any (·.itemKey = row.itemKey)
      && row.blob.all fun blob => database.blobs.any (·.sha256 = blob.sha256)) = false)
    (.sql "FOREIGN KEY constraint failed")
  return { database with events := database.events ++ [row] }

def insertBlob (row : BlobRow) (database : Database) : Except JobError Database := do
  refuse (database.blobs.any (·.sha256 = row.sha256) = true)
    (.sql "UNIQUE constraint failed: blobs.sha256")
  return { database with blobs := database.blobs ++ [row] }

def insertInlineBlob (row : InlineBlobRow) (database : Database) :
    Except JobError Database := do
  refuse (database.inlineBlobs.any (·.sha256 = row.sha256) = true)
    (.sql "UNIQUE constraint failed: inline_blobs.sha256")
  refuse (database.blobs.any (·.sha256 = row.sha256) = false)
    (.sql "FOREIGN KEY constraint failed")
  return { database with inlineBlobs := database.inlineBlobs ++ [row] }

/-- Insert a folder in the place of one with the same key. -/
def replaceFolder (row : FolderRow) (database : Database) : Database :=
  { database with
    folders := database.folders.filter (·.folderKey ≠ row.folderKey) ++ [row] }

/-- Set the outcome of a candidate. -/
def updateCandidate (key : ItemKey) (completeness : Completeness) (status : CandidateStatus)
    (database : Database) : Database :=
  { database with candidates := database.candidates.map fun row =>
      if row.itemKey = key then { row with completeness, status } else row }

end Database

end Tables

section Connection

/-- A connection to the database. -/
structure Connection where
  database : Database
  begun : Option Database
  savepoints : List Database
  deriving DecidableEq, Repr

namespace Connection

/-- A connection outside of any transaction. -/
def idle (database : Database) : Connection := ⟨database, none, []⟩

/-- What stays of the database when the process ends here. -/
def durable (connection : Connection) : Database :=
  connection.begun.getD (connection.savepoints.getLast?.getD connection.database)

/-- `BEGIN IMMEDIATE` -/
def begin (connection : Connection) : Except JobError Connection := do
  refuse (connection.begun.isSome || !connection.savepoints.isEmpty)
    (.sql "cannot start a transaction within a transaction")
  return { connection with begun := some connection.database }

/-- `SAVEPOINT active_candidate` -/
def savepoint (connection : Connection) : Connection :=
  { connection with savepoints := connection.database :: connection.savepoints }

/-- `RELEASE active_candidate` -/
def release (connection : Connection) : Except JobError Connection :=
  match connection.savepoints with
  | [] => .error (.sql "no such savepoint: active_candidate")
  | _ :: rest => .ok { connection with savepoints := rest }

/-- `ROLLBACK TO active_candidate` -/
def rollbackTo (connection : Connection) : Except JobError Connection :=
  match connection.savepoints with
  | [] => .error (.sql "no such savepoint: active_candidate")
  | saved :: _ => .ok { connection with database := saved }

/-- `COMMIT` -/
def commit (connection : Connection) : Except JobError Connection := do
  refuse (connection.begun.isNone && connection.savepoints.isEmpty)
    (.sql "cannot commit - no transaction is active")
  return .idle connection.database

/-- `ROLLBACK` -/
def rollback (connection : Connection) : Except JobError Connection := do
  refuse (connection.begun.isNone && connection.savepoints.isEmpty)
    (.sql "cannot rollback - no transaction is active")
  return .idle connection.durable

end Connection

end Connection

end PstForge.Job
