import PstForge.Writer.Folders
import PstForge.Writer.Stream

/-! # The finalization plan

When the last message is written, the rest of the store is planned: the folders
with their tables, the blocks and nodes of the fixed part of a store, and the
name-to-id map. The plan also computes the length of the finished file, before any
of it is written.
-/

namespace PstForge.Writer

open PstForge.Foundation PstForge.Ndb PstForge.Ltp

variable {τ : Type}

/-- The schemas of the tables of a store. -/
structure Schemas where
  hierarchy : List TableColumnDescriptor
  contents : List TableColumnDescriptor
  associated : List TableColumnDescriptor
  searchContents : List TableColumnDescriptor
  receiveFolder : List TableColumnDescriptor
  outgoingQueue : List TableColumnDescriptor
  contentsIndex : List TableColumnDescriptor
  searchIndex : List TableColumnDescriptor
  attachmentIndex : List TableColumnDescriptor

def schemas : Except WriterError Schemas := do
  return {
    hierarchy := ← hierarchyColumns
    contents := ← contentsColumns
    associated := ← associatedColumns
    searchContents := ← searchContentsColumns
    receiveFolder := ← receiveFolderColumns
    outgoingQueue := ← outgoingQueueColumns
    contentsIndex := ← contentsIndexColumns
    searchIndex := ← searchIndexColumns
    attachmentIndex := ← attachmentIndexColumns }

def spamSearchIndex : Nat := 0x111

/-- The nodes of the fixed folders of a store. -/
structure FixedNodes where
  root : NodeId
  ipm : NodeId
  searchRoot : NodeId
  deleted : NodeId
  spamSearch : NodeId

def fixedNodes : Except WriterError FixedNodes := do
  return {
    root := nidRootFolder
    ipm := ← node .normalFolder ipmFolderIndex
    searchRoot := ← node .normalFolder searchRootIndex
    deleted := ← node .normalFolder deletedFolderIndex
    spamSearch := ← node .searchFolder spamSearchIndex }

/-- An entry of the node B-tree. -/
structure NodeBTreeEntry where
  node : NodeId
  data : BlockId
  subNode : Option BlockId
  parent : Option NodeId
  deriving DecidableEq, Repr

/-- The nodes of a planned folder. -/
structure TopFolderNode where
  node : NodeId
  parent : NodeId
  propertyBlock : BlockId
  hierarchyBlock : BlockId
  hierarchySubnode : Option BlockId
  contentsBlock : BlockId
  contentsSubnode : Option BlockId
  associatedBlock : BlockId
  associatedSubnode : Option BlockId
  deriving DecidableEq, Repr

section Folders

/-- The table of a folder's messages: the shared empty table, a compact table for a
single message where that fits, and the external form otherwise. -/
def buildRowsTable (columns : List TableColumnDescriptor) (shared : BlockId)
    (reserve : Ids BlockId) : List TableRowSpec → Ids TableBuild
  | [] => return ⟨shared, none, []⟩
  | [row] => do
      let block ← reserve
      match tableContext columns [row] with
      | .ok table => return ⟨block, none, [⟨block, .data table, 2⟩]⟩
      | .error (.valueTooLarge "heap page") => tableContextExternal columns [row]
      | .error error => throw error
  | rows => tableContextExternal columns rows

/-- The hierarchy table of a planned folder. -/
def buildHierarchyTable (columns : List TableColumnDescriptor) (plans : List FolderPlan)
    (plan : FolderPlan) : Ids TableBuild := do
  if plan.children.isEmpty then
    let shared ← attempt (leafBid 9)
    return ⟨shared, none, []⟩
  else
    let rows ← attempt (childRows plans plan)
    buildTableContext columns rows none

/-- The property list of a planned folder. -/
def folderPlanProperties (plan : FolderPlan) : Except WriterError Properties := do
  let name ← okOr (.invalidStructure "folder path is empty") plan.path.getLast?
  let count ← asInt32 "folder message count" plan.messages.length
  let unread ← folderUnreadCount plan.messages
  return folderPropertiesWithUnread name count unread (!plan.children.isEmpty) plan.containerClass

/-- The property block of a planned folder; that of the deleted items stands among
the fixed blocks. -/
def buildFolderProperties (deleted : NodeId) (index : Nat) (plan : FolderPlan) :
    Ids (BlockId × List BlockSpec) := do
  if plan.node = deleted then
    let block ← attempt (leafBid 8)
    return (block, [])
  else
    let block ← if index = 0 then attempt (leafBid 10) else takeBlockId false
    let properties ← attempt (folderPlanProperties plan)
    let context ← attempt (propertyContext properties)
    return (block, [⟨block, .data context, 2⟩])

/-- The node that holds a planned folder. -/
def folderParent (fixed : FixedNodes) (plans : List FolderPlan) (plan : FolderPlan) : NodeId :=
  match plan.parent.bind (plans[·]?) with
  | some parent => parent.node
  | none =>
      match plan.location with
      | .storeRoot => fixed.root
      | .ipmSubtree => fixed.ipm

/-- The rows of the messages of a folder, and those of other folders. -/
def claimRows (folder : NodeId) (rows : List (NodeId × TableRowSpec)) :
    List TableRowSpec × List (NodeId × TableRowSpec) :=
  ((rows.filter (·.1 = folder)).map (·.2), rows.filter (·.1 ≠ folder))

/-- The rows of the message tables that no folder has claimed yet. -/
structure OpenRows where
  contents : List (NodeId × TableRowSpec)
  associated : List (NodeId × TableRowSpec)

/-- The blocks and nodes of one planned folder. -/
def buildFolder (schema : Schemas) (fixed : FixedNodes) (plans : List FolderPlan) (index : Nat)
    (plan : FolderPlan) (rows : OpenRows) :
    Ids (TopFolderNode × List BlockSpec × OpenRows) := do
  attempt (discard (folderUnreadCount plan.messages))
  let (propertyBlock, propertyBlocks) ← buildFolderProperties fixed.deleted index plan
  let hierarchy ← buildHierarchyTable schema.hierarchy plans plan
  let (contentsRows, openContents) := claimRows plan.node rows.contents
  attempt (refuse (contentsRows.length ≠ plan.messages.length) (.invalidStructure
    "streamed normal contents rows disagree with the final folder plan"))
  let sharedContents ← attempt (leafBid 5)
  let reserveContents : Ids BlockId := if index = 0 then attempt (leafBid 11) else takeBlockId false
  let contents ← buildRowsTable schema.contents sharedContents reserveContents contentsRows
  let (associatedRows, openAssociated) := claimRows plan.node rows.associated
  attempt (refuse (associatedRows.length ≠ plan.associatedMessages.length) (.invalidStructure
    "streamed associated contents rows disagree with the final folder plan"))
  let sharedAssociated ← attempt (leafBid 13)
  let associated ←
    buildRowsTable schema.associated sharedAssociated (takeBlockId false) associatedRows
  return ({
      node := plan.node
      parent := folderParent fixed plans plan
      propertyBlock
      hierarchyBlock := hierarchy.dataBlock
      hierarchySubnode := hierarchy.subnodeBlock
      contentsBlock := contents.dataBlock
      contentsSubnode := contents.subnodeBlock
      associatedBlock := associated.dataBlock
      associatedSubnode := associated.subnodeBlock },
    propertyBlocks ++ hierarchy.blocks ++ contents.blocks ++ associated.blocks,
    ⟨openContents, openAssociated⟩)

/-- The blocks and nodes of the planned folders from a position on. -/
def buildFolders (around : Surroundings τ) (schema : Schemas) (fixed : FixedNodes)
    (plans : List FolderPlan) : (index : Nat) → OpenRows → List FolderPlan →
      Live τ (List TopFolderNode × List BlockSpec × OpenRows)
  | _, rows, [] => return ([], [], rows)
  | index, rows, plan :: rest => do
      checkInterrupted around
      let (folder, blocks, rows) ← takeIds (buildFolder schema fixed plans index plan rows)
      let (folders, others, rows) ← buildFolders around schema fixed plans (index + 1) rows rest
      return (folder :: folders, blocks ++ others, rows)

end Folders

section FixedPart

/-- The references of a shared block: a number known beforehand, and one from each
folder that uses it. -/
def sharedRefCount (base extra : Nat) : Except WriterError Nat :=
  okOr (.valueTooLarge "shared block reference count") (tryFrom 16 (saturatingAdd 64 base extra))

/-- How many planned folders other than the deleted items lack something. -/
def countFolders (deleted : NodeId) (plans : List FolderPlan) (lacks : FolderPlan → Bool) : Nat :=
  (plans.filter fun plan => plan.node ≠ deleted && lacks plan).length

/-- Whether the folder of the deleted items lacks something; it does when it is not
planned. -/
def deletedLacks (deleted : NodeId) (plans : List FolderPlan) (lacks : FolderPlan → Bool) : Nat :=
  match plans.find? (·.node = deleted) with
  | some plan => if lacks plan then 1 else 0
  | none => 1

/-- A fixed block. -/
def fixedBlock (index refCount : Nat) (bytes : Bytes) : Except WriterError BlockSpec := do
  return ⟨← leafBid index, .data bytes, refCount⟩

/-- The properties of the folder of the deleted items. -/
def deletedProperties (deleted : NodeId) (plans : List FolderPlan) :
    Except WriterError Properties :=
  match plans.find? (·.node = deleted) with
  | some plan => folderPlanProperties plan
  | none => .ok (folderProperties "Deleted Items".toList 0 false)

/-- A table that is written without rows. -/
def emptyTable (index refCount : Nat) (columns : List TableColumnDescriptor) :
    Except WriterError BlockSpec := do
  fixedBlock index refCount (← tableContext columns [])

/-- The block of a property list. -/
def propertyBlock (index : Nat) (properties : Properties) : Except WriterError BlockSpec := do
  fixedBlock index 2 (← propertyContext properties)

/-- The blocks that every store has. -/
def fixedBlocks (storeName : Text) (recordKey : Bytes) (schema : Schemas) (fixed : FixedNodes)
    (plans : List FolderPlan) : Except WriterError (List BlockSpec) := do
  let noMessages : FolderPlan → Bool := fun plan => plan.messages.isEmpty
  let noChildren : FolderPlan → Bool := fun plan => plan.children.isEmpty
  let noAssociated : FolderPlan → Bool := fun plan => plan.associatedMessages.isEmpty
  let shared (base : Nat) (lacks : FolderPlan → Bool) : Except WriterError Nat :=
    sharedRefCount (base + deletedLacks fixed.deleted plans lacks)
      (countFolders fixed.deleted plans lacks)
  let store ← propertyBlock 1
    (storeProperties storeName recordKey fixed.ipm fixed.deleted fixed.searchRoot)
  let root ← propertyBlock 3 (folderProperties [] 0 true)
  let contents ← emptyTable 5 (← shared 5 noMessages) schema.contents
  let ipm ← propertyBlock 6 (folderProperties "Top of Personal Folders".toList 0 true)
  let deleted ← propertyBlock 8 (← deletedProperties fixed.deleted plans)
  let hierarchy ← emptyTable 9 (← shared 3 noChildren) schema.hierarchy
  let associated ← emptyTable 13 (← shared 5 noAssociated) schema.associated
  let searchRoot ← propertyBlock 14 (folderProperties "Search Root".toList 0 false)
  let spam ← propertyBlock 15 (folderProperties "SPAM Search Folder 2".toList 0 false)
  let searchContents ← emptyTable 16 3 schema.searchContents
  let activity ← fixedBlock 19 2 (leBytes 4 fixed.spamSearch.value)
  let receive ← tableContext schema.receiveFolder
    [⟨⟨1⟩, [(0x001A, .unicode []), (0x6605, .integer32 fixed.root.value)]⟩]
  let receiveFolder ← fixedBlock 20 2 receive
  let outgoing ← emptyTable 21 2 schema.outgoingQueue
  let contentsIndex ← emptyTable 22 2 schema.contentsIndex
  let searchIndex ← emptyTable 23 2 schema.searchIndex
  let attachmentIndex ← emptyTable 24 2 schema.attachmentIndex
  let criteria ← propertyBlock 25 [(0x660B, .integer32 0)]
  let map ← fixedBlock 26 2 hierarchyMap
  return [store, root, contents, ipm, deleted, hierarchy, associated, searchRoot, spam,
    searchContents, activity, receiveFolder, outgoing, contentsIndex, searchIndex,
    attachmentIndex, criteria, map]

/-- The entry of a folder's table in the node B-tree. -/
def tableNode (folder : NodeId) (kind : NodeIdType) (data : BlockId) (subNode : Option BlockId) :
    Except WriterError NodeBTreeEntry := do
  return ⟨← node kind folder.index, data, subNode, none⟩

/-- The entries of a folder and its three tables. -/
def folderEntries (folder : TopFolderNode) : Except WriterError (List NodeBTreeEntry) := do
  let hierarchy ← tableNode folder.node .hierarchyTable folder.hierarchyBlock
    folder.hierarchySubnode
  let contents ← tableNode folder.node .contentsTable folder.contentsBlock folder.contentsSubnode
  let associated ← tableNode folder.node .associatedContentsTable folder.associatedBlock
    folder.associatedSubnode
  return [⟨folder.node, folder.propertyBlock, none, some folder.parent⟩, hierarchy, contents,
    associated]

/-- The entry of a template or of another node that refers to a fixed block. -/
def fixedEntry (nid index : Nat) : Except WriterError NodeBTreeEntry := do
  return ⟨⟨nid⟩, ← leafBid index, none, none⟩

/-- The templates and the other nodes outside the folders. -/
def templateEntries (named : BlockId × Option BlockId) :
    Except WriterError (List NodeBTreeEntry) := do
  let fixed ← [(nidMessageStore.value, 1), (0x201, 19), (0x62B, 20), (0x64C, 21), (0x60D, 9),
    (0x60E, 5), (0x60F, 13), (0x610, 16), (0x692, 17), (0x671, 18), (0x6B6, 22), (0x6D7, 23),
    (0x6F8, 24), (0xC01, 26)].mapM fun (nid, index) => fixedEntry nid index
  return [⟨nidNameToIdMap, named.1, named.2, none⟩,
    ⟨nidSearchManagementQueue, .null, none, none⟩, ⟨⟨0xEC1⟩, .null, none, none⟩] ++ fixed

/-- The nodes of the search folder. -/
def searchEntries (fixed : FixedNodes) : Except WriterError (List NodeBTreeEntry) := do
  let search : NodeBTreeEntry := ⟨fixed.spamSearch, ← leafBid 15, none, some fixed.root⟩
  let queue : NodeBTreeEntry :=
    ⟨← node .searchUpdateQueue spamSearchIndex, .null, none, none⟩
  let criteria : NodeBTreeEntry :=
    ⟨← node .searchCriteria spamSearchIndex, ← leafBid 25, none, none⟩
  let contents : NodeBTreeEntry :=
    ⟨← node .searchContentsTable spamSearchIndex, ← leafBid 16, none, none⟩
  return [search, queue, criteria, contents]

/-- The fixed folders; the deleted items take the nodes of their plan when they have
one. -/
def fixedFolders (fixed : FixedNodes) (rootHierarchy ipmHierarchy : BlockId × Option BlockId)
    (folders : List TopFolderNode) : Except WriterError (List TopFolderNode) := do
  let contents ← leafBid 5
  let hierarchy ← leafBid 9
  let associated ← leafBid 13
  let root : TopFolderNode := ⟨fixed.root, fixed.root, ← leafBid 3, rootHierarchy.1,
    rootHierarchy.2, contents, none, associated, none⟩
  let ipm : TopFolderNode := ⟨fixed.ipm, fixed.root, ← leafBid 6, ipmHierarchy.1, ipmHierarchy.2,
    contents, none, associated, none⟩
  let search : TopFolderNode := ⟨fixed.searchRoot, fixed.root, ← leafBid 14, hierarchy, none,
    contents, none, associated, none⟩
  let deletedProperties ← leafBid 8
  let deleted : TopFolderNode :=
    match folders.find? (·.node = fixed.deleted) with
    | some folder => { folder with parent := fixed.ipm }
    | none => ⟨fixed.deleted, fixed.ipm, deletedProperties, hierarchy, none, contents, none,
        associated, none⟩
  return [root, ipm, search, deleted]

/-- The entries of the node B-tree, in the order of their nodes. -/
def nodeEntries (fixed : FixedNodes) (named rootHierarchy ipmHierarchy : BlockId × Option BlockId)
    (folders : List TopFolderNode) (messages : List TopMessageNode) :
    Except WriterError (List NodeBTreeEntry) := do
  let templates ← templateEntries named
  let search ← searchEntries fixed
  let fixedOnes ← (← fixedFolders fixed rootHierarchy ipmHierarchy folders).mapM folderEntries
  let planned ← (folders.filter (·.node ≠ fixed.deleted)).mapM folderEntries
  let messageEntries := messages.map fun message =>
    (⟨message.node, message.propertyBlock, some message.subnodeBlock, some message.parent⟩ :
      NodeBTreeEntry)
  return sortByKey (·.node.value)
    (templates ++ fixedOnes.flatten ++ search ++ planned.flatten ++ messageEntries)

end FixedPart

section Extents

/-- Place blocks one after another. -/
def placeBlocks (cursor : Nat) : List BlockSpec → Except WriterError Nat
  | [] => return cursor
  | block :: rest => do
      let (_, physical) ← blockExtent block
      let (_, cursor) ← allocateExtent cursor physical slotSize
      placeBlocks cursor rest

/-- Place pages one after another. -/
def placePages : (pages cursor : Nat) → Except WriterError Nat
  | 0, cursor => return cursor
  | pages + 1, cursor => do
      let (_, cursor) ← allocateExtent cursor pageSize pageSize
      placePages pages cursor

/-- The pages over a level of a B-tree. -/
def upperPageCount (capacity : Nat) : (fuel level pages : Nat) → Except WriterError Nat
  | 0, _, pages => return pages
  | fuel + 1, level, pages => do
      if 1 < level then
        let level := divCeil level capacity
        let pages ← okOr (.valueTooLarge "B-tree page count") (checkedAdd 64 pages level)
        upperPageCount capacity fuel level pages
      else
        return pages

/-- The number of pages of a B-tree. Every level has fewer pages than the one below
it, so their number bounds the levels. -/
def btreePageCount (entries leafCapacity intermediateCapacity : Nat) : Except WriterError Nat := do
  refuse (entries = 0 ∨ leafCapacity = 0 ∨ intermediateCapacity = 0)
    (.invalidStructure "B-tree projection requires entries and nonzero capacities")
  let level := divCeil entries leafCapacity
  upperPageCount intermediateCapacity level level level

/-- The length of the file when the blocks and B-trees of a plan are written. -/
def projectedFinalizedFileEof (cursor writtenCount : Nat) (blocks : List BlockSpec)
    (nodeCount : Nat) : Except WriterError Nat := do
  let cursor ← placeBlocks cursor blocks
  let blockCount ← okOr (.valueTooLarge "BBT entry count")
    (checkedAdd 64 writtenCount blocks.length)
  let cursor ← placePages (← btreePageCount blockCount 20 20) (alignUp cursor pageSize)
  let cursor ← placePages (← btreePageCount nodeCount 15 20) cursor
  allocationFileEof cursor

end Extents

/-- What is written after the last message. -/
structure FinalizationPlan where
  blocks : List BlockSpec
  nodes : List NodeBTreeEntry
  nextBlockIndex : Nat
  projectedFileEof : Nat

/-- Plan the rest of the store behind the messages of a stream. -/
def buildFinalizationPlan (around : Surroundings τ) (storeName : Text) (recordKey : Bytes)
    (identities : List NamedIdentity) (plans : List FolderPlan) : Live τ FinalizationPlan := do
  let schema ← attempt schemas
  let fixed ← attempt fixedNodes
  let stream := (← get).stream
  let (folders, folderBlocks, left) ← buildFolders around schema fixed plans 0
    ⟨stream.contentsRows, stream.associatedRows⟩ plans
  attempt (refuse (!left.contents.isEmpty || !left.associated.isEmpty)
    (.invalidStructure "streamed contents rows reference an unplanned folder"))
  let deleted ← attempt (deletedRow plans fixed.deleted)
  let ipmRows ← attempt ((plans.filter fun plan =>
    plan.location = .ipmSubtree && plan.parent.isNone && plan.node ≠ fixed.deleted).mapM
      folderPlanRow)
  let rootRows ← attempt ((plans.filter fun plan =>
    plan.location = .storeRoot && plan.parent.isNone).mapM folderPlanRow)
  let rootBlock ← attempt (leafBid 4)
  let ipmBlock ← attempt (leafBid 7)
  let rootHierarchy ← takeIds (buildTableContext schema.hierarchy
    ([folderTableRow fixed.ipm "Top of Personal Folders".toList 0 true,
      folderTableRow fixed.searchRoot "Search Root".toList 0 false,
      folderTableRow fixed.spamSearch "SPAM Search Folder 2".toList 0 false] ++ rootRows)
    (some rootBlock))
  let ipmHierarchy ← takeIds
    (buildTableContext schema.hierarchy (deleted :: ipmRows) (some ipmBlock))
  let named ← takeIds (buildNamedPropertyContext identities)
  let fixedOnes ← attempt (fixedBlocks storeName recordKey schema fixed plans)
  let blocks := sortByKey (·.id.value) (fixedOnes ++ named.blocks ++ rootHierarchy.blocks
    ++ ipmHierarchy.blocks ++ folderBlocks)
  let nodes ← attempt (nodeEntries fixed (named.dataBlock, named.subnodeBlock)
    (rootHierarchy.dataBlock, rootHierarchy.subnodeBlock)
    (ipmHierarchy.dataBlock, ipmHierarchy.subnodeBlock) folders stream.topNodes)
  let projected ← attempt (projectedFinalizedFileEof stream.allocationCursor
    stream.written.length blocks nodes.length)
  return ⟨blocks, nodes, (← get).stream.counters.nextBlockIndex, projected⟩

end PstForge.Writer
