import PstForge.Job.Ledger

/-! # The sink of a catalogue

The sink writes the events of a worker into the ledger, and the bytes of properties
and attachments into one file, the payload pack, or into the ledger itself when only
their beginnings are captured. A blob in the pack is a range behind everything that
was written before; a blob that the ledger has already is cut off again.
-/

namespace PstForge.Job

open PstForge.Foundation PstForge.Catalog

section Pack

/-- A file that is written at an offset. The bytes before `synced` are on the disk and
outlive a crash. -/
structure PackFile where
  bytes : Bytes
  offset : Nat
  synced : Nat
  deriving DecidableEq, Repr

namespace PackFile

/-- Write at the offset; a gap before it is filled with zeros. -/
def write (data : Bytes) (file : PackFile) : PackFile where
  bytes := patchBytes (file.bytes ++ List.replicate (file.offset - file.bytes.length) 0)
    file.offset data
  offset := file.offset + data.length
  synced := min file.synced file.offset

/-- Set the length; a longer file is filled with zeros. -/
def setLen (length : Nat) (file : PackFile) : PackFile :=
  { file with
    bytes := file.bytes.take length ++ List.replicate (length - file.bytes.length) 0
    synced := min file.synced length }

def seek (offset : Nat) (file : PackFile) : PackFile := { file with offset }

def sync (file : PackFile) : PackFile := { file with synced := file.bytes.length }

/-- A range of the bytes. -/
def range (offset length : Nat) (file : PackFile) : Bytes := (file.bytes.drop offset).take length

/-- What may be found of the file after a crash: the bytes on the disk are there. -/
def Survives (file : PackFile) (found : Bytes) : Prop :=
  file.synced ≤ found.length ∧ found.take file.synced = file.bytes.take file.synced

end PackFile

/-- A blob that is being written: where it starts in the pack, the bytes that were
hashed and their number, and the bytes themselves where they stay out of the pack. -/
structure BlobWriter where
  startOffset : Nat
  hashed : Bytes
  bytes : Nat
  inline : Option Bytes
  deriving DecidableEq, Repr

namespace BlobWriter

def new (startOffset : Nat) : BlobWriter := ⟨startOffset, [], 0, none⟩

def newInline : BlobWriter := ⟨0, [], 0, some []⟩

end BlobWriter

end Pack

section State

structure ActiveCandidate where
  key : ItemKey
  messageId : Nat
  packStart : Nat
  sequence : Nat
  recipients : List Nat
  supported : Bool
  embeddedPath : List Nat
  deriving DecidableEq, Repr

structure ActiveProperty where
  descriptor : PropertyDescriptor
  namedProperty : Option NamedPropertyIdentity
  blob : BlobWriter
  record : Bool
  deriving DecidableEq, Repr

structure ActiveAttachment where
  messageId : Nat
  index : Nat
  attachmentType : Option Int
  expected : Option Nat
  blob : Option BlobWriter
  deriving DecidableEq, Repr

/-- Whether values are captured whole, or only up to a number of bytes. -/
inductive CatalogCaptureMode where
  | full
  | bounded (propertyPrefixBytes attachmentPrefixBytes : Nat)
  deriving DecidableEq, Repr

/-- The sink. The last field is not part of the program: it says after how many
operations on the ledger and the pack the process is killed, if it is. -/
structure DurableCatalogSink where
  connection : Connection
  payloadPack : PackFile
  payloadPackPosition : Nat
  batchOpen : Bool
  batchCandidates : Nat
  batchPackStart : Nat
  active : Option ActiveCandidate
  property : Option ActiveProperty
  pendingNamedProperty : Option (PropertyDescriptor × NamedPropertyIdentity)
  attachment : Option ActiveAttachment
  unit : Option RecoveryUnit
  recentCandidates : List (List Nat × ItemKey)
  replayedSourceIds : List (Nat × Nat)
  captureMode : CatalogCaptureMode
  nextDirectBlobId : Nat
  life : Option Nat
  deriving DecidableEq, Repr

/-- A sink over a ledger and a pack between two workers. -/
def DurableCatalogSink.resting (database : Database) (pack : PackFile) (mode : CatalogCaptureMode) :
    DurableCatalogSink where
  connection := .idle database
  payloadPack := pack
  payloadPackPosition := pack.bytes.length
  batchOpen := false
  batchCandidates := 0
  batchPackStart := 0
  active := none
  property := none
  pendingNamedProperty := none
  attachment := none
  unit := none
  recentCandidates := []
  replayedSourceIds := []
  captureMode := mode
  nextDirectBlobId := 1
  life := none

def createWithCapture (mode : CatalogCaptureMode) : DurableCatalogSink :=
  .resting .empty ⟨[], 0, 0⟩ mode

/-- Operations of the sink. -/
abbrev Sinking := EStateM JobError DurableCatalogSink

def fail {α : Type} (detail : String) : Sinking α := throw (.eventSequence detail)

def require (condition : Prop) [Decidable condition] (detail : String) : Sinking Unit :=
  attempt (refuse (¬ condition) (.eventSequence detail))

/-- Live on to the next operation on the ledger or the pack. -/
def spend : Sinking Unit := do
  let sink ← get
  match sink.life with
  | none => return ()
  | some 0 => throw .killed
  | some (left + 1) => set { sink with life := some left }

/-- Change the database within the current transaction. -/
def execute (change : Database → Except JobError Database) : Sinking Unit := do
  spend
  let sink ← get
  let database ← attempt (change sink.connection.database)
  modify fun sink => { sink with connection := { sink.connection with database } }

/-- Change the file of the pack. -/
def touchPack (change : PackFile → PackFile) : Sinking Unit := do
  spend
  modify fun sink => { sink with payloadPack := change sink.payloadPack }

/-- Run a statement that concerns transactions. -/
def transact (statement : Connection → Except JobError Connection) : Sinking Unit := do
  spend
  let sink ← get
  let connection ← attempt (statement sink.connection)
  modify fun sink => { sink with connection }

end State

section Batches

/-- The number of candidates after which a batch is committed. -/
def candidateCheckpointBatch : Nat := 128

/-- Commit the open batch, once the pack is in place. -/
def commitCandidateBatch : Sinking Unit := do
  let sink ← get
  if sink.batchOpen then
    touchPack PackFile.sync
    attempt (refuse (sink.payloadPack.bytes.length ≠ sink.payloadPackPosition)
      (.integrity "payload pack length changed before durable batch commit"))
    transact Connection.commit
    modify fun sink => { sink with
      batchOpen := false
      batchCandidates := 0
      batchPackStart := sink.payloadPackPosition }

/-- Open a batch, unless one is open. -/
def openBatch : Sinking Unit := do
  let sink ← get
  if sink.batchOpen = false then
    transact Connection.begin
    modify fun sink => { sink with
      batchOpen := true
      batchCandidates := 0
      batchPackStart := sink.payloadPackPosition }

def beginCandidate : Sinking Unit := do
  openBatch
  transact fun connection => .ok connection.savepoint

def finishCandidate : Sinking Unit := do
  transact Connection.release
  modify fun sink => { sink with
    batchCandidates := saturatingAdd 32 sink.batchCandidates 1 }
  let sink ← get
  if sink.captureMode = .full ∧ candidateCheckpointBatch ≤ sink.batchCandidates then
    commitCandidateBatch

def abortCandidate : Sinking Unit := do
  transact Connection.rollbackTo
  transact Connection.release

def truncatePayloadPack (length : Nat) : Sinking Unit := do
  touchPack fun file => (file.setLen length).seek length
  modify fun sink => { sink with payloadPackPosition := length }

end Batches

section Blobs

/-- The largest size of a file. -/
def maxFileSize : Nat := 2 ^ 63 - 1

def newBlobWriter : Sinking BlobWriter := do
  let sink ← get
  match sink.captureMode with
  | .full => return .new sink.payloadPackPosition
  | .bounded _ _ => return .newInline

/-- Append bytes to a blob: to the pack, or to the blob itself. -/
def writeBlob (blob : BlobWriter) (bytes : Bytes) : Sinking BlobWriter :=
  match blob.inline with
  | some data => do
      let total ← attempt (okOr (.integrity "inline length overflow")
        (checkedAdd 64 blob.bytes bytes.length))
      return { blob with
        inline := some (data ++ bytes)
        hashed := blob.hashed ++ bytes
        bytes := total }
  | none => do
      let sink ← get
      attempt (refuse (maxFileSize < sink.payloadPack.offset + bytes.length)
        (.io "File too large (os error 27)"))
      touchPack (PackFile.write bytes)
      let sink ← get
      let position ← attempt (okOr (.integrity "payload pack offset overflow")
        (checkedAdd 64 sink.payloadPackPosition bytes.length))
      modify fun sink => { sink with payloadPackPosition := position }
      return { blob with hashed := blob.hashed ++ bytes, bytes := blob.bytes + bytes.length }

variable (sha256 : Bytes → Bytes)

def verifyBlobBytes (expectedHash : Bytes) (expectedLen : Nat) (data : Bytes) :
    Except JobError Unit :=
  refuse (data.length ≠ expectedLen ∨ sha256 data ≠ expectedHash)
    (.blobIntegrity expectedHash "inline blob failed SHA-256 validation")

/-- Check a range of the pack against its hash; the pack is read from the range on. -/
def verifyPackRange (packLen offset byteLen : Nat) (expectedHash : Bytes) : Sinking Unit := do
  let endOffset ← attempt (okOr (.integrity "payload pack range overflow")
    (checkedAdd 64 offset byteLen))
  attempt (refuse (packLen < endOffset)
    (.blobIntegrity expectedHash "payload pack range exceeds the durable file"))
  let sink ← get
  let data := sink.payloadPack.range offset byteLen
  modify fun sink => { sink with payloadPack := sink.payloadPack.seek (offset + data.length) }
  attempt (refuse (data.length ≠ byteLen)
    (.blobIntegrity expectedHash "payload pack range ended early"))
  attempt (refuse (sha256 data ≠ expectedHash)
    (.blobIntegrity expectedHash "payload pack range failed SHA-256 validation"))

/-- Check the inline copy of a blob that the ledger has. -/
def verifyInlineBlob (hash : Bytes) (byteLen : Nat) : Sinking Unit := do
  let sink ← get
  let row ← attempt (okOr (.sql "Query returned no rows")
    (sink.connection.database.inlineBlobs.find? (·.sha256 = hash)))
  attempt (verifyBlobBytes sha256 hash byteLen row.data)

/-- Keep a blob in the ledger, unless the ledger has it already. -/
def storeInlineBlob (blob : BlobWriter) (hash data : Bytes) : Sinking Unit := do
  let sink ← get
  match sink.connection.database.blobs.find? (·.sha256 = hash) with
  | some stored => do
      attempt (refuse (stored.byteLen ≠ blob.bytes)
        (.blobIntegrity hash "blob length disagrees with the ledger"))
      verifyInlineBlob sha256 hash blob.bytes
  | none => do
      execute (Database.insertBlob ⟨hash, blob.bytes, none⟩)
      execute (Database.insertInlineBlob ⟨hash, data⟩)

def finishInlineBlob (blob : BlobWriter) (data : Bytes) : Sinking BlobRef := do
  let hash := sha256 blob.hashed
  attempt (verifyBlobBytes sha256 hash blob.bytes data)
  storeInlineBlob sha256 blob hash data
  return ⟨hash, blob.bytes⟩

/-- Check the copy of a blob that the ledger has, wherever it is kept. -/
def verifyStoredBlob (packLen : Nat) (stored : BlobRow) : Sinking Unit := do
  let sink ← get
  match stored.packOffset, sink.connection.database.inlineBlobs.any (·.sha256 = stored.sha256) with
  | some offset, false => verifyPackRange sha256 packLen offset stored.byteLen stored.sha256
  | none, _ => verifyInlineBlob sha256 stored.sha256 stored.byteLen
  | some _, true =>
      throw (.blobIntegrity stored.sha256 "blob has multiple storage representations")

/-- Keep a blob in the pack, unless the ledger has it already. -/
def storePackBlob (blob : BlobWriter) (hash : Bytes) (expectedEnd : Nat) : Sinking Unit := do
  let sink ← get
  match sink.connection.database.blobs.find? (·.sha256 = hash) with
  | some stored => do
      attempt (refuse (stored.byteLen ≠ blob.bytes)
        (.blobIntegrity hash "blob length disagrees with the ledger"))
      verifyStoredBlob sha256 expectedEnd stored
      truncatePayloadPack blob.startOffset
  | none => execute (Database.insertBlob ⟨hash, blob.bytes, some blob.startOffset⟩)

def finishPackBlob (blob : BlobWriter) : Sinking BlobRef := do
  let hash := sha256 blob.hashed
  let expectedEnd ← attempt (okOr (.integrity "payload pack offset overflow")
    (checkedAdd 64 blob.startOffset blob.bytes))
  let sink ← get
  attempt (refuse (sink.payloadPackPosition ≠ expectedEnd)
    (.integrity "payload pack changed during an active blob"))
  storePackBlob sha256 blob hash expectedEnd
  return ⟨hash, blob.bytes⟩

def finishBlob (blob : BlobWriter) (expected : Option Nat) : Sinking BlobRef := do
  attempt (refuse (expected.all (· = blob.bytes) = false)
    (.blobLength (expected.getD 0) blob.bytes))
  match blob.inline with
  | some data => finishInlineBlob sha256 blob data
  | none => finishPackBlob sha256 blob

/-- Drop a blob that is not recorded. -/
def discardBlob (blob : BlobWriter) (expected : Nat) : Sinking Unit := do
  attempt (refuse (blob.bytes ≠ expected) (.blobLength expected blob.bytes))
  if blob.inline.isNone then
    truncatePayloadPack blob.startOffset

end Blobs

end PstForge.Job
