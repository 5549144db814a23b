import Mathlib.Data.List.AList
import PstForge.Job.Direct

/-! # Publishing the parts of a job

A finished part is moved from the work in progress to the parts, a description of it to
the manifests, and its candidates are marked in the ledger. The three change one after
the other, so an intent is recorded first; opening a job completes or drops the intents
that it finds. Every access to the files or the ledger can be the last one of a process.
-/

namespace PstForge.Job

open PstForge.Foundation PstForge.Catalog

section Records

inductive ReconstructedField where
  | folderClass
  | messageClass
  | subject
  | senderName
  | senderAddress
  | messageFlags
  | internetCodepage
  | submitTime
  | deliveryTime
  | creationTime
  | modificationTime
  | associatedDisplayName
  | recipientDisplayName
  | recipientAddress
  | attachmentFilename
  | attachmentMimeType
  | attachmentRenderingPosition
  | attachmentFlags
  | documentAttachment
  deriving DecidableEq, Repr

structure ReconstructionCounts where
  derived : List (ReconstructedField × Nat)
  generated : List (ReconstructedField × Nat)
  deriving DecidableEq, Repr

structure PublishedPart where
  index : Nat
  filename : Text
  byteLen : Nat
  sha256 : Option Text
  oversize : Bool
  deriving DecidableEq, Repr

/-- The description of a part that is kept beside it. -/
structure PartSidecar where
  schemaVersion : Text
  producerVersion : Text
  index : Nat
  filename : Text
  byteLen : Nat
  sha256 : Option Text
  publishedDevice : Option Nat
  publishedInode : Option Nat
  storeRecordKey : Text
  folderCount : Nat
  messageCount : Nat
  oversize : Bool
  incomplete : Bool
  omittedFolders : Nat
  omittedProperties : Nat
  omittedAttachments : Nat
  reconstructions : ReconstructionCounts
  deriving DecidableEq, Repr

structure PartRow where
  part : PublishedPart
  sidecar : PartSidecar
  deriving DecidableEq, Repr

structure PublicationIntent where
  part : PublishedPart
  sidecar : PartSidecar
  itemKeys : List ItemKey
  deriving DecidableEq, Repr

/-- The ledger with the tables of the parts. -/
structure PublicationLedger where
  database : Database
  parts : List PartRow
  partItems : List (Nat × ItemKey)
  intents : List PublicationIntent
  deriving DecidableEq, Repr

end Records

section Names

/-- Whether a name is that of an entry of a directory. -/
def validLeafName (name : Text) : Bool :=
  !name.isEmpty && !name.contains '/' && name ≠ ".".toList && name ≠ "..".toList

/-- Take a suffix off as often as it is there; a text has no more of them than characters. -/
def trimEndMatches (suffix : Text) : (fuel : Nat) → Text → Text
  | 0, text => text
  | fuel + 1, text =>
      if suffix.isSuffixOf text then
        trimEndMatches suffix fuel (text.take (text.length - suffix.length))
      else
        text

/-- The name of the description of a part. -/
def PublishedPart.sidecarFilename (part : PublishedPart) : Text :=
  trimEndMatches ".pst".toList part.filename.length part.filename ++ ".json".toList

def PublishedPart.stagedSidecarFilename (part : PublishedPart) : Text :=
  part.sidecarFilename ++ ".partial".toList

/-- Whether a text is made of lowercase hexadecimal digits. -/
def isLowerHex (text : Text) : Bool := text.all fun char => char.isDigit || 'a' ≤ char && char ≤ 'f'

end Names

section World

/-- How an operation on the published parts fails. -/
inductive PublicationError where
  | job (error : JobError)
  | interrupted
  | unsafePath (path : Text)
  deriving DecidableEq, Repr

/-- What a directory has under a name, with the attributes that are looked at. -/
structure StoredFile where
  isRegular : Bool
  isPrivate : Bool
  device : Nat
  inode : Nat
  content : Bytes
  deriving DecidableEq, Repr

abbrev Directory := AList fun _ : Text => StoredFile

/-- The directories that take part in a publication. -/
inductive Place where
  | staging
  | parts
  | manifests
  deriving DecidableEq, Repr

/-- A job as it is on the disk, and whether a candidate is being written. The last field
is not part of the program: it counts the accesses to the disk. -/
structure JobStore where
  ledger : PublicationLedger
  files : Place → Directory
  active : Bool
  clock : Nat

/-- What is outside of the program: the digest and the text form of a description, what
stops the process at an access, and how much of a write was done by then. -/
structure JobSurroundings where
  sha256 : Bytes → Text
  render : PartSidecar → Bytes
  parse : Bytes → Option PartSidecar
  fault : Nat → Option PublicationError
  written : Nat → Nat
  identity : Nat → Nat × Nat

/-- Operations on a job. -/
abbrev Publishing := EStateM PublicationError JobStore

def integrity (detail : String) : PublicationError := .job (.integrity detail)

def eventSequence (detail : String) : PublicationError := .job (.eventSequence detail)

def notFound (name : Text) : PublicationError := .job (.io ("not found: " ++ String.ofList name))

def stopAt : Option PublicationError → Except PublicationError Unit
  | none => .ok ()
  | some error => .error error

variable (around : JobSurroundings)

/-- Go on, unless the process is stopped here. -/
def proceed : Publishing Unit := do
  let now := (← get).clock
  modify fun store => { store with clock := now + 1 }
  attempt (stopAt (around.fault now))

/-- Run a statement on the ledger. -/
def executeLedger (change : PublicationLedger → Except PublicationError PublicationLedger) :
    Publishing Unit := do
  proceed around
  let ledger ← attempt (change (← get).ledger)
  modify fun store => { store with ledger }

/-- Change a directory. -/
def changeDirectory (place : Place) (change : Directory → Directory) : Publishing Unit :=
  modify fun store => { store with
    files := Function.update store.files place (change (store.files place)) }

/-- Whether a directory has a name. -/
def pathExists (place : Place) (name : Text) : Publishing Bool := do
  proceed around
  return ((← get).files place).lookup name |>.isSome

def refuseExisting (place : Place) (name : Text) : Publishing Unit := do
  let there ← pathExists around place name
  attempt (refuse (there = true)
    (integrity ("publication destination already exists: " ++ String.ofList name)))

/-- Move a file to a name that is not taken. -/
def renameNoclobber (source : Place) (sourceName : Text) (destination : Place)
    (destinationName : Text) : Publishing Unit := do
  proceed around
  let files := (← get).files
  let file ← attempt (okOr (notFound sourceName) ((files source).lookup sourceName))
  attempt (refuse (((files destination).lookup destinationName).isSome = true)
    (integrity ("publication destination already exists: " ++ String.ofList destinationName)))
  changeDirectory source (·.erase sourceName)
  changeDirectory destination (·.insert destinationName file)

end World

section Records

def validatePartRecord (part : PublishedPart) : Except PublicationError Unit :=
  refuse ((part.index = 0 || part.byteLen = 0 || part.filename.isEmpty
      || !validLeafName part.filename || !".pst".toList.isSuffixOf part.filename
      || part.sha256.any fun digest => digest.length ≠ 64 || !isLowerHex digest) = true)
    (integrity "invalid published part accounting record")

/-- Whether the version of a description fits the identity that it names. -/
def PartSidecar.identityValid (sidecar : PartSidecar) : Bool :=
  if sidecar.schemaVersion = "1.1.0".toList then
    sidecar.publishedDevice.isNone && sidecar.publishedInode.isNone
  else if sidecar.schemaVersion = "1.2.0".toList then
    sidecar.publishedDevice.isSome && sidecar.publishedInode.isSome
  else
    false

def validateSidecar (part : PublishedPart) (sidecar : PartSidecar) :
    Except PublicationError Unit :=
  refuse ((!sidecar.identityValid || sidecar.producerVersion.isEmpty
      || sidecar.index ≠ part.index || sidecar.filename ≠ part.filename
      || sidecar.byteLen ≠ part.byteLen || sidecar.sha256 ≠ part.sha256
      || sidecar.oversize ≠ part.oversize || sidecar.storeRecordKey.length ≠ 32
      || !isLowerHex sidecar.storeRecordKey || sidecar.folderCount = 0
      || sidecar.messageCount = 0) = true)
    (integrity "part sidecar disagrees with the publication record")

/-- The checks of a file that is taken for a part. -/
def checkPartArtifact (sha256 : Bytes → Text) (part : PublishedPart) (sidecar : PartSidecar)
    (file : StoredFile) : Except PublicationError Unit := do
  let named (text : String) : PublicationError :=
    integrity ("published part " ++ String.ofList part.filename ++ text)
  refuse ((!file.isRegular || !file.isPrivate || file.content.length ≠ part.byteLen) = true)
    (named " has an invalid type or size")
  refuse ((sidecar.publishedDevice.any (· ≠ file.device)
      || sidecar.publishedInode.any (· ≠ file.inode)) = true)
    (named " changed while opening")
  refuse (part.sha256.any (· ≠ sha256 file.content) = true)
    (named " failed SHA-256 validation")

/-- The checks of a file that is taken for the description of a part. -/
def checkSidecarArtifact (parse : Bytes → Option PartSidecar) (expected : PartSidecar)
    (file : StoredFile) : Except PublicationError Unit := do
  refuse ((!file.isRegular || !file.isPrivate) = true)
    (integrity "published part sidecar has unsafe attributes")
  let actual ← okOr (.job (.io "invalid sidecar document")) (parse file.content)
  refuse (actual ≠ expected) (integrity "published part sidecar content mismatch")

variable (around : JobSurroundings)

/-- Open a file and check it. -/
def verifyFile (place : Place) (name : Text)
    (check : StoredFile → Except PublicationError Unit) : Publishing Unit := do
  proceed around
  let file ← attempt (okOr (notFound name) (((← get).files place).lookup name))
  attempt (check file)

def verifyPartArtifact (place : Place) (name : Text) (part : PublishedPart)
    (sidecar : PartSidecar) : Publishing Unit :=
  verifyFile around place name (checkPartArtifact around.sha256 part sidecar)

def verifySidecarArtifact (place : Place) (name : Text) (expected : PartSidecar) :
    Publishing Unit :=
  verifyFile around place name (checkSidecarArtifact around.parse expected)

/-- Write a description into a new file. What stops the write leaves a beginning of it. -/
def writeSidecarPartial (name : Text) (sidecar : PartSidecar) : Publishing Unit := do
  proceed around
  let store ← get
  attempt (refuse (((store.files .staging).lookup name).isSome = true)
    (.job (.io ("file exists: " ++ String.ofList name))))
  let (device, inode) := around.identity store.clock
  let content := around.render sidecar
  changeDirectory .staging (·.insert name ⟨true, true, device, inode,
    content.take (around.written store.clock)⟩)
  proceed around
  changeDirectory .staging (·.insert name ⟨true, true, device, inode, content⟩)
  proceed around
  verifySidecarArtifact around .staging name sidecar

end Records

section Ledger

/-- Change the status of a candidate that has been spooled; the detail says what the candidate
is not available for. -/
def takeSpooled (key : ItemKey) (status : CandidateStatus) (detail : String)
    (database : Database) : Except PublicationError Database := do
  let available (row : CandidateRow) : Bool := row.itemKey = key && row.status = .spooled
  refuse (database.candidates.countP available ≠ 1)
    (integrity ("candidate " ++ key.text ++ " is not available for " ++ detail))
  return { database with
    candidates := database.candidates.map fun row =>
      if available row then { row with status } else row }

namespace PublicationLedger

def insertPart (row : PartRow) (ledger : PublicationLedger) :
    Except PublicationError PublicationLedger := do
  refuse (ledger.parts.any (·.part.index = row.part.index) = true)
    (.job (.sql "UNIQUE constraint failed: parts.part_index"))
  refuse (ledger.parts.any (·.part.filename = row.part.filename) = true)
    (.job (.sql "UNIQUE constraint failed: parts.filename"))
  return { ledger with parts := ledger.parts ++ [row] }

/-- Put a candidate into a part. -/
def assignItem (partIndex : Nat) (ledger : PublicationLedger) (key : ItemKey) :
    Except PublicationError PublicationLedger := do
  let database ← takeSpooled key .written "part assignment" ledger.database
  refuse (ledger.partItems.any (·.2 = key) = true)
    (.job (.sql "UNIQUE constraint failed: part_items.item_key"))
  return { ledger with database, partItems := ledger.partItems ++ [(partIndex, key)] }

def deleteIntent (partIndex : Nat) (ledger : PublicationLedger) : PublicationLedger :=
  { ledger with intents := ledger.intents.filter (·.part.index ≠ partIndex) }

def insertIntent (intent : PublicationIntent) (ledger : PublicationLedger) :
    Except PublicationError PublicationLedger := do
  refuse (ledger.intents.any (·.part.index = intent.part.index) = true)
    (.job (.sql "UNIQUE constraint failed: publication_intents.part_index"))
  return { ledger with intents := ledger.intents ++ [intent] }

/-- The transaction that publishes a part. -/
def commitPart (part : PublishedPart) (sidecar : PartSidecar) (itemKeys : List ItemKey)
    (clearIntent : Bool) (ledger : PublicationLedger) :
    Except PublicationError PublicationLedger := do
  let ledger ← ledger.insertPart ⟨part, sidecar⟩
  let ledger ← itemKeys.foldlM (assignItem part.index) ledger
  if clearIntent then
    refuse (ledger.intents.countP (·.part.index = part.index) ≠ 1)
      (integrity ("publication intent for part " ++ toString part.index ++ " is absent"))
    return ledger.deleteIntent part.index
  else
    return ledger

end PublicationLedger

variable (around : JobSurroundings)

def commitPublishedPartTransaction (part : PublishedPart) (sidecar : PartSidecar)
    (itemKeys : List ItemKey) (clearIntent : Bool) : Publishing Unit :=
  executeLedger around (·.commitPart part sidecar itemKeys clearIntent)

/-- Every candidate of a part must be there, and spooled. -/
def checkAvailable (database : Database) : List ItemKey → Except PublicationError Unit
  | [] => return ()
  | key :: rest => do
      let row ← okOr (.job (.sql "Query returned no rows"))
        (database.candidates.find? (·.itemKey = key))
      refuse (row.status ≠ .spooled)
        (integrity ("candidate " ++ key.text ++ " is not available for part assignment"))
      checkAvailable database rest

def recordPublicationIntent (part : PublishedPart) (sidecar : PartSidecar)
    (itemKeys : List ItemKey) : Publishing Unit := do
  let store ← get
  attempt (refuse ((store.active || itemKeys.isEmpty) = true)
    (eventSequence "cannot publish an empty part during an active candidate"))
  attempt (checkAvailable store.ledger.database itemKeys)
  executeLedger around (·.insertIntent ⟨part, sidecar, itemKeys⟩)

end Ledger

section Publication

variable (around : JobSurroundings)

def stagedPartPath (filename : Text) : Except PublicationError Text := do
  refuse ((!validLeafName filename || !".partial".toList.isSuffixOf filename) = true)
    (.unsafePath filename)
  return filename

/-- Publish a part that is ready among the work in progress. -/
def publishPart (stagedFilename : Text) (part : PublishedPart) (sidecar : PartSidecar)
    (itemKeys : List ItemKey) : Publishing Unit := do
  attempt (validatePartRecord part)
  attempt (validateSidecar part sidecar)
  let staged ← attempt (stagedPartPath stagedFilename)
  verifyPartArtifact around .staging staged part sidecar
  proceed around
  refuseExisting around .parts part.filename
  refuseExisting around .manifests part.sidecarFilename
  refuseExisting around .staging part.stagedSidecarFilename
  writeSidecarPartial around part.stagedSidecarFilename sidecar
  proceed around
  recordPublicationIntent around part sidecar itemKeys
  renameNoclobber around .staging stagedFilename .parts part.filename
  proceed around
  verifyPartArtifact around .parts part.filename part sidecar
  proceed around
  renameNoclobber around .staging part.stagedSidecarFilename .manifests part.sidecarFilename
  proceed around
  verifySidecarArtifact around .manifests part.sidecarFilename sidecar
  proceed around
  commitPublishedPartTransaction around part sidecar itemKeys true

/-- Complete an intent whose part was moved, and drop one whose part was not. -/
def reconcileIntent (intent : PublicationIntent) : Publishing Unit := do
  let part := intent.part
  let sidecar := intent.sidecar
  attempt (validatePartRecord part)
  attempt (validateSidecar part sidecar)
  attempt (refuse (intent.itemKeys.isEmpty = true)
    (integrity ("publication intent for part " ++ toString part.index ++ " has no candidates")))
  let finalExists ← pathExists around .parts part.filename
  let sidecarExists ← pathExists around .manifests part.sidecarFilename
  if finalExists then
    verifyPartArtifact around .parts part.filename part sidecar
    if sidecarExists then
      verifySidecarArtifact around .manifests part.sidecarFilename sidecar
    else
      if ← pathExists around .staging part.stagedSidecarFilename then
        verifySidecarArtifact around .staging part.stagedSidecarFilename sidecar
      else
        writeSidecarPartial around part.stagedSidecarFilename sidecar
      renameNoclobber around .staging part.stagedSidecarFilename .manifests part.sidecarFilename
      proceed around
      verifySidecarArtifact around .manifests part.sidecarFilename sidecar
    commitPublishedPartTransaction around part sidecar intent.itemKeys true
  else
    attempt (refuse (sidecarExists = true)
      (integrity ("part " ++ toString part.index ++ " has a sidecar without its PST")))
    executeLedger around (.ok <| ·.deleteIntent part.index)

def reconcileIntents : List PublicationIntent → Publishing Unit
  | [] => return ()
  | intent :: rest => do
      reconcileIntent around intent
      reconcileIntents rest

def reconcilePublications : Publishing Unit := do
  proceed around
  reconcileIntents around ((← get).ledger.intents.insertionSort fun first second =>
    first.part.index ≤ second.part.index)

/-- Remove the files that were found among the work in progress. -/
def removeEntries : List Text → Publishing Unit
  | [] => return ()
  | name :: rest => do
      proceed around
      let file ← attempt (okOr (notFound name) (((← get).files .staging).lookup name))
      attempt (refuse ((!file.isRegular || !validLeafName name
        || !".partial".toList.isSuffixOf name || !file.isPrivate) = true) (.unsafePath name))
      changeDirectory .staging (·.erase name)
      removeEntries rest

def removeStalePartials : Publishing Unit := do
  proceed around
  removeEntries around ((← get).files .staging).keys

end Publication

section Rejection

variable (around : JobSurroundings)

/-- Reject a candidate that has been spooled. -/
def rejectCandidate (database : Database)
    (rejection : ItemKey × CandidateRejectionCategory) : Except PublicationError Database := do
  let (key, category) := rejection
  let database ← takeSpooled key .unsupported "rejection" database
  let last := ((database.events.filter (·.itemKey = key)).map (·.sequence)).foldl max 0
  return { database with
    events := database.events ++ [⟨key, last + 1, .outputUnrepresentable category, none⟩] }

def markCandidateRejections (rejections : List (ItemKey × CandidateRejectionCategory)) :
    Publishing Unit := do
  attempt (refuse (((← get).active || rejections.isEmpty) = true)
    (eventSequence "cannot reject an empty candidate set during an active candidate"))
  executeLedger around fun ledger => do
    let database ← rejections.foldlM rejectCandidate ledger.database
    return { ledger with database }

def markCandidatesUnsupported (itemKeys : List ItemKey) (category : CandidateRejectionCategory) :
    Publishing Unit :=
  markCandidateRejections around (itemKeys.map fun key => (key, category))

/-- The spooled candidates that are embedded in one of the given ones. -/
def spooledChildren (database : Database) (isParent : ItemKey → Bool) : List ItemKey :=
  (database.candidates.filter fun row =>
    row.status = .spooled && row.parentItemKey.any isParent).map (·.itemKey)

/-- Whether nothing remains to be written of a candidate with this status. -/
def CandidateStatus.isTerminal : CandidateStatus → Bool
  | .written | .unsupported => true
  | _ => false

/-- The spooled candidates that are embedded in one that is written or rejected, or in one
of them; no chain is longer than the number of candidates. -/
def strandedKeys (database : Database) : List ItemKey :=
  let terminal := (database.candidates.filter (·.status.isTerminal)).map (·.itemKey)
  (fun keys => spooledChildren database fun key => terminal.contains key || keys.contains key)^[
    database.candidates.length + 1] []

def markStrandedEmbeddedCandidatesUnsupported : Publishing Nat := do
  proceed around
  let keys := strandedKeys (← get).ledger.database
  if keys.isEmpty then
    return 0
  else
    markCandidatesUnsupported around keys .strandedEmbeddedItem
    return keys.length

end Rejection

section Opening

def Database.knows (database : Database) (key : ItemKey) : Bool :=
  database.candidates.any (·.itemKey = key)

/-- Whether every reference between the tables of the candidates has a target. -/
def Database.foreignKeysHold (database : Database) : Bool :=
  let kept (sha256 : Bytes) : Bool := database.blobs.any (·.sha256 = sha256)
  database.candidates.all (·.parentItemKey.all database.knows)
    && database.events.all (fun row => database.knows row.itemKey && row.blob.all (kept ·.sha256))
    && database.inlineBlobs.all (kept ·.sha256)

/-- Whether every reference between the tables has a target. -/
def PublicationLedger.foreignKeysHold (ledger : PublicationLedger) : Bool :=
  ledger.database.foreignKeysHold && ledger.partItems.all fun item =>
    ledger.parts.any (·.part.index = item.1) && ledger.database.knows item.2

/-- What must not be found in the tables of the candidates. -/
def Database.invalid (database : Database) : Bool :=
  database.candidates.any (·.status = .pending)
    || database.events.any (fun event => event.blob.any fun blob =>
      database.blobs.any fun row => row.sha256 = blob.sha256 && row.byteLen ≠ blob.bytes)
    || database.blobs.any fun row => !database.events.any (·.blob.any (·.sha256 = row.sha256))

/-- Whether a candidate stands by itself. -/
def Database.isTopLevel (database : Database) (key : ItemKey) : Bool :=
  database.candidates.any fun row => row.itemKey = key && row.parentItemKey.isNone

/-- The candidates of a part. -/
def PublicationLedger.itemsOf (ledger : PublicationLedger) (partIndex : Nat) : List ItemKey :=
  (ledger.partItems.filter (·.1 = partIndex)).map (·.2)

/-- What must not be found in the tables of the parts. -/
def PublicationLedger.invalid (ledger : PublicationLedger) : Bool :=
  ledger.database.candidates.any (fun row =>
      row.status = .written && !ledger.partItems.any (·.2 = row.itemKey))
    || ledger.partItems.any (fun item => ledger.database.candidates.any fun row =>
      row.itemKey = item.2 && row.status ≠ .written)
    || ledger.parts.any (fun row => (ledger.itemsOf row.part.index).isEmpty)
    || ledger.parts.any fun row => row.part.oversize &&
      (ledger.itemsOf row.part.index).countP ledger.database.isTopLevel ≠ 1

def validateForeignKeys (ledger : PublicationLedger) : Except PublicationError Unit := do
  refuse (ledger.foreignKeysHold = false) (integrity "foreign-key validation failed")
  refuse ((ledger.database.invalid || ledger.invalid) = true)
    (integrity "logical ledger validation failed")

/-- The categories of the rejections of a candidate. -/
def Database.rejections (database : Database) (key : ItemKey) : List CandidateRejectionCategory :=
  database.events.filterMap fun row =>
    if row.itemKey = key then
      match row.detail with
      | .outputUnrepresentable category => some category
      | _ => none
    else
      none

/-- The rejection of a candidate, if it has one. -/
def readRejection (database : Database) (row : CandidateRow) :
    Except PublicationError (List CandidateRejectionCategory) := do
  let rejections := database.rejections row.itemKey
  if row.status = .unsupported ∨ rejections ≠ [] then
    refuse (row.status ≠ .unsupported)
      (integrity ("candidate " ++ row.itemKey.text ++ " has a rejection event but another status"))
    refuse (rejections = [])
      (integrity ("unsupported candidate " ++ row.itemKey.text ++ " has no rejection event"))
    refuse (1 < rejections.length)
      (integrity ("unsupported candidate " ++ row.itemKey.text ++ " has duplicate rejection events"))
  return rejections

/-- How many candidates were rejected for each reason. -/
def readCandidateRejectionCounts (database : Database) :
    Except PublicationError (CandidateRejectionCategory → Nat) := do
  let rejections ← database.candidates.mapM (readRejection database)
  return fun category => rejections.flatten.count category

variable (around : JobSurroundings)

/-- Check the files of the parts in the ledger, one after the other. -/
def validateParts : List PartRow → Publishing Unit
  | [] => return ()
  | row :: rest => do
      attempt (validatePartRecord row.part)
      attempt (validateSidecar row.part row.sidecar)
      verifyPartArtifact around .parts row.part.filename row.part row.sidecar
      verifySidecarArtifact around .manifests row.part.sidecarFilename row.sidecar
      validateParts rest

/-- The error for a manifest that no part accounts for. -/
def strayManifest (name : Text) : PublicationError :=
  if ".json".toList.isSuffixOf name then
    integrity ("finalized sidecar " ++ String.ofList name ++ " has no ledger record")
  else
    integrity ("unrecognized private manifest entry " ++ String.ofList name)

local instance lawfulName : LawfulBEq Text := inferInstance

def checkManifests (accounted : List Text) : List Text → Except PublicationError Unit
  | [] => return ()
  | name :: rest => do
      refuse (name ∉ accounted) (strayManifest name)
      checkManifests accounted rest

def validatePartStore : Publishing Unit := do
  proceed around
  let rows := (← get).ledger.parts.insertionSort fun first second =>
    first.part.index ≤ second.part.index
  validateParts around rows
  proceed around
  attempt (checkManifests (rows.map (·.part.sidecarFilename)) ((← get).files .manifests).keys)

/-- Open a job again. -/
def reopenJob : Publishing Unit := do
  modify fun store => { store with active := false }
  proceed around
  attempt (validateForeignKeys (← get).ledger)
  attempt (discard (readCandidateRejectionCounts (← get).ledger.database))
  reconcilePublications around
  removeStalePartials around
  proceed around
  attempt (validateForeignKeys (← get).ledger)
  validatePartStore around

/-- Let a job be finished: nothing of it may be left to do. -/
def finalizePrivateWork : Publishing Unit := do
  let store ← get
  proceed around
  attempt (refuse (store.active = true)
    (eventSequence "cannot finalize private work during an active candidate"))
  let unfinished (row : CandidateRow) : Bool :=
    row.status = .pending || row.status = .spooled || row.status = .failed
  attempt (refuse ((store.ledger.database.candidates.any unfinished
      || !store.ledger.intents.isEmpty) = true)
    (eventSequence "cannot remove private work before every candidate is finalized"))
  removeStalePartials around

end Opening

end PstForge.Job
