import PstForge.Writer.Transaction

/-! # Finishing a store

The blocks of the finalization plan are written behind the messages, then the pages
of the block B-tree and of the node B-tree, the map pages and the header. The length
of the file is compared with the one that the plan computed beforehand.
-/

namespace PstForge.Writer

open PstForge.Foundation PstForge.Ndb PstForge.Ltp

variable {τ : Type}

section Pages

/-- Spread entries over pages of a capacity, as evenly as they go: the position of the
first entry of each page and the number of its entries. -/
def planLeafPages (entryCount capacity : Nat) : Except WriterError (List (Nat × Nat)) := do
  refuse (capacity = 0) (.invalidStructure "B-tree leaf capacity must be nonzero")
  if entryCount = 0 then
    return []
  let pageCount := divCeil entryCount capacity
  let minimum := entryCount / pageCount
  let largerPages := entryCount % pageCount
  return (List.range pageCount).map fun page =>
    (page * minimum + min page largerPages, minimum + if page < largerPages then 1 else 0)

/-- An entry of an intermediate B-tree page. -/
structure BTreePageEntry where
  key : Nat
  page : Nat
  offset : Nat
  deriving DecidableEq, Repr

/-- Where the next page of a B-tree goes, and the identifier it gets. -/
structure PageCursor where
  offset : Nat
  page : Nat
  deriving DecidableEq, Repr

/-- What the two B-trees differ in: the capacity of their leaf pages and the texts of
their errors. -/
structure BTreeKind where
  leafCapacity : Nat
  empty : String
  pageId : String
  depth : String

def blockBTree : BTreeKind := ⟨20, "BBT is empty", "BBT page id", "BBT depth"⟩

def nodeBTree : BTreeKind := ⟨15, "NBT is empty", "NBT page id", "NBT depth"⟩

variable (around : Surroundings τ) (kind : BTreeKind)

/-- The checks that the page types make. -/
def checkPage (level capacity entries : Nat) (isLeaf : Bool) : Except WriterError Unit := do
  refuse (isLeaf = false ∧ (level < 1 ∨ 8 < level))
    (.invalidStructure ("Invalid BTPAGE cLevel: 0x" ++ hex 2 level))
  refuse (capacity < entries)
    (.invalidStructure ("Invalid BTPAGE cEnt: " ++ toString entries))

/-- Write the pages of one level over the keys of its entries. -/
def writeLevel (level capacity : Nat) (isLeaf : Bool) (keys : List Nat) :
    List (Nat × Nat) → PageCursor → Live τ (List BTreePageEntry × PageCursor)
  | [], cursor => return ([], cursor)
  | (start, size) :: rest, cursor => do
      let (offset, next) ← attempt (allocateExtent cursor.offset pageSize pageSize)
      attempt (checkPage level capacity size isLeaf)
      touchOutput around
      touchOutput around
      let page ← attempt (okOr (.valueTooLarge kind.pageId) (checkedAdd 64 cursor.page 1))
      let (entries, last) ← writeLevel level capacity isLeaf keys rest ⟨next, page⟩
      return (⟨keys.getD start 0, cursor.page, offset⟩ :: entries, last)

/-- Put levels of intermediate pages over the pages of a level until one is left.
Every level has fewer pages than the one below, so their number bounds the levels. -/
def writeUpperLevels : (fuel level : Nat) → List BTreePageEntry → PageCursor →
    Live τ (List BTreePageEntry × PageCursor)
  | 0, _, roots, cursor => return (roots, cursor)
  | fuel + 1, level, roots, cursor => do
      if 1 < roots.length then
        let ranges ← attempt (planLeafPages roots.length 20)
        let (parents, cursor) ← writeLevel around kind level 20 false (roots.map (·.key)) ranges
          cursor
        let level ← attempt (okOr (.valueTooLarge kind.depth) (checkedAdd 8 level 1))
        writeUpperLevels fuel level parents cursor
      else
        return (roots, cursor)

/-- Write a B-tree over the keys of its entries. -/
def writeBTree (keys : List Nat) (cursor : PageCursor) : Live τ (BTreePageEntry × PageCursor) := do
  let pages ← attempt (planLeafPages keys.length kind.leafCapacity)
  attempt (refuse (pages.isEmpty = true) (.invalidStructure kind.empty))
  let (leaves, cursor) ← writeLevel around kind 0 kind.leafCapacity true keys pages cursor
  let (roots, cursor) ← writeUpperLevels around kind leaves.length 1 leaves cursor
  let root ← attempt (okOr (.invalidStructure kind.empty) roots.head?)
  return (root, cursor)

def writeBbt (blocks : List WrittenBlock) (cursor : PageCursor) :
    Live τ (BTreePageEntry × PageCursor) :=
  writeBTree around blockBTree (blocks.map (·.spec.id.value)) cursor

def writeNbt (nodes : List NodeBTreeEntry) (cursor : PageCursor) :
    Live τ (BTreePageEntry × PageCursor) :=
  writeBTree around nodeBTree (nodes.map (·.node.value)) cursor

end Pages

section Counters

/-- The node counters of a new store, by type code. -/
def initialNidCounters : List Nat :=
  [0x400, 0x400, 0x400, 0x4000, 0x10000, 0x400, 0x400, 0x400, 0x8000]
    ++ List.replicate 23 0x400

/-- The type codes that nodes may have. -/
def isNodeIdType (code : Nat) : Bool := code ≤ 0x13 || code = 0x1F

/-- The templates whose type values are reserved. -/
def isReservedTemplate (id : NodeId) : Bool :=
  id.value = 0x6B6 || id.value = 0x6D7 || id.value = 0x6F8

/-- Raise the counter of a node's type to the node, and beyond it for a node of the
node B-tree. -/
def updateNidCounter (counters : List Nat) (id : NodeId) (topLevel : Bool) :
    Except WriterError (List Nat) := do
  if isNodeIdType id.typeCode then
    let highWater ← if topLevel then
        okOr (.valueTooLarge "node counter") (checkedAdd 32 id.index 1)
      else .ok id.index
    return counters.modify id.typeCode (max · highWater)
  else
    refuse (isReservedTemplate id = false)
      (.invalidStructure ("Invalid nidType: 0x" ++ hex 2 id.typeCode))
    return counters

/-- The node counters of the header. -/
def nidCounters (entries : List NodeBTreeEntry) (blocks : List BlockSpec)
    (streamedSubnodes : List NodeId) : Except WriterError (List Nat) := do
  let counters ← entries.foldlM (fun counters entry => updateNidCounter counters entry.node true)
    initialNidCounters
  let counters ← (subnodeIds blocks).foldlM (fun counters id => updateNidCounter counters id false)
    counters
  streamedSubnodes.foldlM (fun counters id => updateNidCounter counters id false) counters

end Counters

/-- A store as it was written: its blocks in the order of their identifiers, its
nodes, the roots of its B-trees, and what its header says. -/
structure FinishedStore where
  blocks : List WrittenBlock
  nodes : List NodeBTreeEntry
  blockRoot : BTreePageEntry
  nodeRoot : BTreePageEntry
  mapPages : List MapPage
  allocation : ConstructedAllocation
  fileEof : Nat
  nextPage : Nat
  nextBlock : BlockId
  nids : List Nat

variable (around : Surroundings τ)

/-- Write the blocks of a finalization plan. -/
def writeBlocks (blocks : List BlockSpec) : Live τ Unit := emitAll around .physical blocks

/-- Write the rest of a store behind its messages. -/
def writeStore (plan : FinalizationPlan) : Live τ FinishedStore := do
  let subnodes := (← get).stream.streamedSubnodes
  writeBlocks around plan.blocks
  let stream := (← get).stream
  let written := sortByKey (·.spec.id.value) stream.written
  let start : PageCursor := ⟨alignUp stream.allocationCursor pageSize, 0x100⟩
  let (blockRoot, cursor) ← writeBbt around written start
  let (nodeRoot, cursor) ← writeNbt around plan.nodes cursor
  let fileEof ← attempt (allocationFileEof cursor.offset)
  attempt (refuse (fileEof ≠ plan.projectedFileEof)
    (.invalidStructure "projected and written transactional PST extents disagree"))
  truncateOutput around
  let (mapPages, allocation) ← attempt (allocationPages cursor.offset)
  touchOutput around
  let nextBlock ← attempt (leafBid plan.nextBlockIndex)
  let nids ← attempt (nidCounters plan.nodes plan.blocks subnodes)
  touchOutput around
  return {
    blocks := written
    nodes := plan.nodes
    blockRoot
    nodeRoot
    mapPages
    allocation
    fileEof
    nextPage := cursor.page
    nextBlock
    nids }

/-- Whether a folder holds a message. -/
def MailFolderSpec.holdsMessage (folder : MailFolderSpec) : Bool :=
  !folder.messages.isEmpty || !folder.associatedMessages.isEmpty

/-- The plan of the rest of a store that holds messages. -/
def finalizationPlan : Writing τ FinalizationPlan := do
  let writer := (← get).writer
  attempt (refuse (writer.messageStream.messageCount = 0)
    (.invalidStructure "transactional store has no accepted message"))
  let first ← attempt (okOr (.invalidStructure "transactional store has no accepted message")
    (writer.spec.folders.find? (·.holdsMessage)))
  let plans ← attempt (planTransactionFolders writer.spec.folders writer.preserveEmptyFolders)
  attempt (refuse ((plans.any fun plan => plan.location = first.location && plan.path = first.path)
      = false)
    (.invalidStructure "transactional first message folder was not planned"))
  inspect (buildFinalizationPlan around writer.spec.storeName writer.spec.recordKey
    writer.namedIdentities plans)

/-- Finish the store. -/
def finalizeWithPolicy : Writing τ FinishedStore := do
  inspect (checkInterrupted around)
  let plan ← finalizationPlan around
  inSession false (writeStore around plan)

end PstForge.Writer
