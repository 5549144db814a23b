import PstForge.Writer.Properties

/-! # The block stream

Messages are written as they arrive: each block is placed at the allocation
cursor and listed with the extent it took. A message can also be projected: its
blocks are placed and listed in the same way, but nothing is written and no
payload is opened. Large payloads are cut into the leaves of a data tree while
they are read.
-/

namespace PstForge.Writer

open PstForge.Foundation PstForge.Ndb PstForge.Ltp

/-- A payload that is being read: the bytes it still delivers, and the fault that
stands at their end, if there is one. -/
structure Reader where
  bytes : Bytes
  fault : Option String
  deriving DecidableEq, Repr

namespace Reader

/-- Read exactly so many bytes. -/
def readExact (reader : Reader) (length : Nat) : Except WriterError (Bytes × Reader) :=
  if length ≤ reader.bytes.length then
    .ok (reader.bytes.take length, { reader with bytes := reader.bytes.drop length })
  else .error (.io (reader.fault.getD "failed to fill whole buffer"))

/-- Try to read one more byte. -/
def hasTrailing (reader : Reader) : Except WriterError Bool :=
  match reader.bytes, reader.fault with
  | _ :: _, _ => .ok true
  | [], some reason => .error (.io reason)
  | [], none => .ok false

end Reader

/-- What stands at a path of the private spool. -/
inductive SpoolEntry where
  | unreadable (reason : String)
  | notAFile
  | file (bytes : Bytes)
  deriving DecidableEq, Repr

/-- What the writer finds around it: the digest function, the private spool, the
live source of direct payloads, and the points of its clock at which it finds an
interruption raised, or a write or a truncation of the output failing. -/
structure Surroundings (τ : Type) where
  sha256 : Bytes → Bytes
  spool : String → SpoolEntry
  openBlob : DirectBlobSpec → τ → Except WriterError Reader × τ
  interrupted : Nat → Bool
  outputFault : Nat → Option String
  truncateFault : Nat → Option String

/-- Surroundings in which nothing is spooled, nothing fails and nothing interrupts. -/
def Surroundings.quiet {τ : Type} (sha256 : Bytes → Bytes)
    (openBlob : DirectBlobSpec → τ → Except WriterError Reader × τ) : Surroundings τ where
  sha256
  spool _ := .unreadable "No such file or directory (os error 2)"
  openBlob
  interrupted _ := false
  outputFault _ := none
  truncateFault _ := none

/-- A block with the extent it was given. -/
structure WrittenBlock where
  spec : BlockSpec
  offset : Nat
  size : Nat
  deriving DecidableEq, Repr

/-- The node of a top-level message. -/
structure TopMessageNode where
  node : NodeId
  propertyBlock : BlockId
  subnodeBlock : BlockId
  parent : NodeId
  deriving DecidableEq, Repr

/-- The state of the block stream between messages. -/
structure MessageStreamState where
  fileLen : Nat
  allocationCursor : Nat
  written : List WrittenBlock
  streamedSubnodes : List NodeId
  counters : Counters
  contentsRows : List (NodeId × TableRowSpec)
  associatedRows : List (NodeId × TableRowSpec)
  topNodes : List TopMessageNode

namespace MessageStreamState

def new : MessageStreamState where
  fileLen := initialFileEof
  allocationCursor := firstData
  written := []
  streamedSubnodes := []
  counters := ⟨28, 0x40000⟩
  contentsRows := []
  associatedRows := []
  topNodes := []

def messageCount (state : MessageStreamState) : Nat := state.topNodes.length

end MessageStreamState

/-- The block stream while a message is appended, with the live source it reads
from, the payloads read so far, and the clock of its surroundings. -/
structure Session (τ : Type) where
  stream : MessageStreamState
  source : Option τ
  completions : List (DirectBlobSpec × Bytes)
  clock : Nat

/-- Computations on the block stream. -/
abbrev Live (τ : Type) := EStateM WriterError (Session τ)

/-- Whether blocks are written to the file or only placed. -/
inductive Output where
  | physical
  | projected
  deriving DecidableEq, Repr

variable {τ : Type}

section Surroundings

/-- Let the clock move on by one, and read it. -/
def tick : Live τ Nat := do
  let now := (← get).clock
  modify fun session => { session with clock := now + 1 }
  return now

def checkInterrupted (around : Surroundings τ) : Live τ Unit := do
  let now ← tick
  attempt (refuse (around.interrupted now = true) .interrupted)

/-- An operation on the output file, which may fail. -/
def touch (fault : Nat → Option String) : Live τ Unit := do
  let now ← tick
  attempt (match fault now with
    | some reason => .error (.io reason)
    | none => .ok ())

def touchOutput (around : Surroundings τ) : Live τ Unit := touch around.outputFault

def truncateOutput (around : Surroundings τ) : Live τ Unit := touch around.truncateFault

/-- Take identifiers from the running counters of the stream. -/
def takeIds {α : Type} (program : Ids α) : Live τ α :=
  zoom (fun session => session.stream.counters)
    (fun session counters => { session with stream := { session.stream with counters } }) program

end Surroundings

section Blocks

/-- The bytes a block takes in the file, trailer included. -/
def blockSize (size : Nat) : Except WriterError Nat :=
  if size = 0 ∨ 8192 < size then .error (.io ("Invalid BLOCKTRAILER cb: 0x" ++ hex 1 size))
  else .ok (divCeil size 64 * 64)

/-- The size of a block's content and the bytes it takes in the file. -/
def blockExtent (block : BlockSpec) : Except WriterError (Nat × Nat) := do
  let size ← okOr (.valueTooLarge "data block") (tryFrom 16 block.payload.logicalSize)
  let physical ← blockSize (saturatingAdd 16 size 16)
  return (size, physical)

/-- The trailer of an internal block must carry an internal identifier. -/
def verifyInternal (id : BlockId) : Except WriterError Unit :=
  refuse (id.isInternal = false)
    (.invalidStructure ("Invalid BLOCKTRAILER bid: 0x" ++ hex 1 id.value))

/-- The checks that the block types make when a block is written out. -/
def checkBlock (block : BlockSpec) (size : Nat) : Except WriterError Unit := do
  refuse (size = 0 ∨ 8176 < size) (.invalidStructure ("Invalid BLOCKTRAILER cb: 0x" ++ hex 1 size))
  let level (level : Nat) : WriterError :=
    .invalidStructure ("Invalid internal block cLevel: 0x" ++ hex 2 level)
  match block.payload with
  | .data _ => return ()
  | .projectedData _ =>
      throw (.invalidStructure "projected data block reached physical output")
  | .subnode entries =>
      refuse (wordCount 16 ≤ entries.length) (.valueTooLarge "subnode entry count")
      verifyInternal block.id
  | .intermediateSubnode _ entries =>
      refuse (wordCount 16 ≤ entries.length) (.valueTooLarge "subnode entry count")
      verifyInternal block.id
  | .dataTree depth _ entries =>
      refuse (wordCount 16 ≤ entries.length) (.valueTooLarge "data-tree entry count")
      refuse (entries.any (!isDataTreeChild depth ·) = true) (level depth)
      refuse (depth < 1 ∨ 2 < depth) (level depth)
      verifyInternal block.id

def isProjectedData : BlockPayload → Bool
  | .projectedData _ => true
  | _ => false

/-- Place an extent at the cursor of the stream. -/
def allocate (size : Nat) : Live τ Nat := do
  let (offset, cursor) ← attempt
    (allocateExtent (← get).stream.allocationCursor size slotSize)
  modify fun session =>
    { session with stream := { session.stream with allocationCursor := cursor } }
  return offset

/-- List a block that was placed. -/
def listBlock (block : WrittenBlock) : Live τ Unit :=
  modify fun session =>
    { session with stream := { session.stream with written := session.stream.written ++ [block] } }

/-- Write a block to the file, at the extent that the cursor gives it. -/
def writeBlock (around : Surroundings τ) (block : BlockSpec) : Live τ Unit := do
  checkInterrupted around
  attempt (refuse (isProjectedData block.payload = true)
    (.invalidStructure "projected data block reached physical output"))
  let (size, physical) ← attempt (blockExtent block)
  let offset ← allocate physical
  touchOutput around
  attempt (checkBlock block size)
  touchOutput around
  listBlock ⟨block, offset, size⟩

/-- Place a block without writing it. -/
def projectBlock (around : Surroundings τ) (block : BlockSpec) : Live τ Unit := do
  checkInterrupted around
  let (size, physical) ← attempt (blockExtent block)
  let offset ← allocate physical
  listBlock ⟨block, offset, size⟩

/-- Pass a block to the stream. -/
def emit (around : Surroundings τ) : Output → BlockSpec → Live τ Unit
  | .physical, block => writeBlock around block
  | .projected, block => projectBlock around block

/-- Pass blocks to the stream, in order. -/
def emitAll (around : Surroundings τ) (output : Output) : List BlockSpec → Live τ Unit
  | [] => return ()
  | block :: rest => do
      emit around output block
      emitAll around output rest

end Blocks

section DataTree

/-- The data tree of a payload while its leaves are written: the leaves of the open
group, the closed groups, and what is left of the payload. -/
structure TreeProgress (ρ : Type) where
  leaves : List (BlockId × Nat)
  xblocks : List (BlockId × Nat)
  rest : ρ

/-- The error texts of a streaming data-tree builder. -/
structure TreeNames where
  group : String
  tooMany : String
  tooLarge : String

def spooledTreeNames : TreeNames :=
  ⟨"spooled data tree", "spooled XXBLOCK entry count", "spooled XXBLOCK size"⟩

def directTreeNames : TreeNames :=
  ⟨"direct data tree", "direct XXBLOCK entry count", "direct XXBLOCK size"⟩

variable (around : Surroundings τ) (output : Output)

/-- Close a group of leaves under a level-one block. -/
def emitXBlock (what : String) (leaves : List (BlockId × Nat)) : Live τ (BlockId × Nat) := do
  let total ← attempt (groupTotal what leaves)
  let id ← takeIds (takeBlockId true)
  emit around output (dataTreeSpec id 1 total leaves)
  return (id, total)

/-- Write the leaves of a payload. Each turn takes one piece and writes it; a full
group is closed when more is to come. -/
def streamLeaves {ρ : Type} (piece : ρ → Nat → Except WriterError (BlockPayload × ρ))
    (what : String) : (turns remaining : Nat) → TreeProgress ρ → Live τ (TreeProgress ρ)
  | 0, _, progress => return progress
  | turns + 1, remaining, progress => do
      let length := min remaining 8176
      let (payload, rest) ← attempt (piece progress.rest length)
      let id ← takeIds (takeBlockId false)
      emit around output ⟨id, payload, 2⟩
      let leaves := progress.leaves ++ [(id, length)]
      let remaining := remaining - length
      if leaves.length = maxDataTreeEntries ∧ 0 < remaining then
        let xblock ← emitXBlock around output what leaves
        streamLeaves piece what turns remaining ⟨[], progress.xblocks ++ [xblock], rest⟩
      else
        streamLeaves piece what turns remaining ⟨leaves, progress.xblocks, rest⟩

/-- Close a data tree over the groups and the open group of its leaves. -/
def closeStreamedTree {ρ : Type} (names : TreeNames) (progress : TreeProgress ρ) :
    Live τ BlockId := do
  if let ([], [(id, _)]) := (progress.xblocks, progress.leaves) then
    return id
  let last ← emitXBlock around output names.group progress.leaves
  let xblocks := progress.xblocks ++ [last]
  if let [(id, _)] := xblocks then
    return id
  attempt (refuse (maxDataTreeEntries < xblocks.length) (.valueTooLarge names.tooMany))
  let total ← attempt (groupTotal names.tooLarge xblocks)
  let id ← takeIds (takeBlockId true)
  emit around output (dataTreeSpec id 2 total xblocks)
  return id

/-- The data tree of a payload of which only the length is known. -/
def appendDeclaredDataTree (blob : DirectBlobSpec) : Live τ (BlockId × Nat) := do
  let piece : Unit → Nat → Except WriterError (BlockPayload × Unit) :=
    fun _ length => .ok (.projectedData length, ())
  let progress ← streamLeaves around output piece directTreeNames.group (divCeil blob.byteLen 8176)
    blob.byteLen ⟨[], [], ()⟩
  attempt (refuse (progress.leaves.isEmpty = true)
    (.invalidStructure "direct payload must not be empty"))
  let root ← closeStreamedTree around output directTreeNames progress
  return (root, blob.byteLen)

/-- One piece of a payload that is read and hashed. -/
def readPiece (progress : Reader × Bytes) (length : Nat) :
    Except WriterError (BlockPayload × (Reader × Bytes)) := do
  let (chunk, reader) ← progress.1.readExact length
  return (.data chunk, (reader, progress.2 ++ chunk))

/-- The data tree of a payload that is read to its declared length, with the digest
of what was read. -/
def appendReaderDataTree (reader : Reader) (byteLen : Nat) (expected : Option Bytes)
    (requireEof : Bool) : Live τ (BlockId × Nat × Bytes) := do
  let progress ← streamLeaves around output readPiece spooledTreeNames.group
    (divCeil byteLen 8176) byteLen ⟨[], [], (reader, [])⟩
  let actual := around.sha256 progress.rest.2
  attempt (refuse (expected.any (· ≠ actual) = true)
    (.invalidStructure "streamed payload hash mismatch"))
  let trailing ← attempt (if requireEof then progress.rest.1.hasTrailing else .ok false)
  attempt (refuse (trailing = true)
    (.invalidStructure "streamed payload exceeds its declared length"))
  if progress.leaves.isEmpty then
    let id ← takeIds (takeBlockId false)
    emit around output ⟨id, .data [], 2⟩
    return (id, 0, actual)
  else
    let root ← closeStreamedTree around output spooledTreeNames progress
    return (root, byteLen, actual)

/-- The data tree of a range of a spooled file. -/
def appendSpooledDataTree (blob : FileBlobSpec) : Live τ (BlockId × Nat) := do
  let bytes ← attempt (match around.spool blob.path with
    | .unreadable reason => .error (.io reason)
    | .notAFile => .ok none
    | .file bytes => .ok (some bytes))
  let last ← attempt (okOr (.valueTooLarge "spooled attachment range")
    (checkedAdd 64 blob.offset blob.byteLen))
  attempt (refuse (bytes.all (·.length < last) = true)
    (.invalidStructure "spooled attachment identity mismatch"))
  let reader : Reader := ⟨(bytes.getD []).drop blob.offset, none⟩
  let (root, size, _) ← appendReaderDataTree around output reader blob.byteLen (some blob.sha256)
    false
  return (root, size)

/-- The data tree of a payload of the live source; its digest is recorded. -/
def appendDirectDataTree (absent : String) (blob : DirectBlobSpec) : Live τ (BlockId × Nat) := do
  let source ← attempt (okOr (.invalidStructure absent) (← get).source)
  let (opened, source) := around.openBlob blob source
  modify fun session => { session with source := some source }
  let reader ← attempt opened
  let (root, size, digest) ← appendReaderDataTree around output reader blob.byteLen blob.sha256 true
  modify fun session => { session with completions := session.completions ++ [(blob, digest)] }
  return (root, size)

/-- The data tree of a direct payload: read from the live source, or projected from
its declared length. -/
def appendBlobDataTree (absent : String) (blob : DirectBlobSpec) : Live τ (BlockId × Nat) :=
  match output with
  | .physical => appendDirectDataTree around output absent blob
  | .projected => appendDeclaredDataTree around output blob

end DataTree

section Properties

/-- Properties whose values were streamed into subnodes, and their bytes. -/
structure StreamedProperties where
  properties : Properties
  subnodes : List LeafSubnodeEntry
  logicalSize : Nat

/-- Add to the size of a message. -/
def addMessageSize (total size : Nat) : Except WriterError Nat :=
  okOr (.valueTooLarge "message size") (checkedAdd 64 total size)

/-- Stream the values of some properties, each into a subnode of its own. -/
def appendStreamedProperties {α : Type} (what valueNode : String) (id propertyType : α → Nat)
    (append : α → Live τ (BlockId × Nat)) (sizeBefore : Nat) :
    List α → Live τ StreamedProperties
  | [] => return ⟨[], [], sizeBefore⟩
  | spec :: rest => do
      let kind ← attempt (okOr (.invalidStructure ("unsupported " ++ what ++ " property type: 0x"
        ++ hex 4 (propertyType spec))) (PropertyType.ofCode (propertyType spec)))
      let node ← takeIds (takeValueNode .listsTablesProperties valueNode)
      let (root, size) ← append spec
      let total ← attempt (addMessageSize sizeBefore size)
      let tail ← appendStreamedProperties what valueNode id propertyType append total rest
      return ⟨(id spec, .external kind node) :: tail.properties,
        ⟨node, root, none⟩ :: tail.subnodes, tail.logicalSize⟩

variable (around : Surroundings τ) (output : Output)

def appendSpooledProperties (specs : List SpooledPropertySpec) : Live τ StreamedProperties :=
  appendStreamedProperties "streamed" "streamed property value node" (·.id) (·.propertyType)
    (fun spec => appendSpooledDataTree around output spec.blob) 0 specs

/-- Direct payloads are read from a live source, unless they are projected. -/
def requireSource (absent : String) : Live τ Unit := do
  let source := (← get).source
  attempt (refuse (output = .physical ∧ source.isNone = true) (.invalidStructure absent))

/-- Stream direct properties: from the live source, or projected. -/
def appendDirectProperties (absent : String) : List DirectPropertySpec → Live τ StreamedProperties
  | [] => return ⟨[], [], 0⟩
  | specs => do
      requireSource output absent
      appendStreamedProperties "direct" "direct property value node" (·.id) (·.propertyType)
        (fun spec => appendBlobDataTree around output absent spec.blob) 0 specs

/-- An empty range of the spool must name a file and the digest of nothing. -/
def verifyEmptyFileBlob (blob : FileBlobSpec) : Except WriterError Unit := do
  refuse (blob.byteLen ≠ 0)
    (.invalidStructure "empty blob verification requires a zero-byte range")
  let mismatch : WriterError := .invalidStructure "empty blob identity mismatch"
  match around.spool blob.path with
  | .unreadable reason => throw (.io reason)
  | .notAFile => throw mismatch
  | .file bytes =>
      refuse (bytes.length < blob.offset) mismatch
      refuse (blob.sha256 ≠ around.sha256 []) (.invalidStructure "empty blob hash mismatch")

end Properties

end PstForge.Writer
