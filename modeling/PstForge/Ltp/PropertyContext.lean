import PstForge.Ltp.Heap
import PstForge.Ndb.Block

/-! # Property contexts

A property list becomes a heap with a tree of property records. The compact form
is one heap page; when that does not fit, the external form spreads the
allocations over as many pages as it takes, under a data tree. Values longer than
`2048` bytes are moved into subnodes beforehand.
-/

namespace PstForge.Ltp

open PstForge.Foundation PstForge.Ndb

/-- The records of a compact property context, and the allocations they refer to. -/
def compactRecords (allocations : List Bytes) : Properties → Except WriterError (Bytes × List Bytes)
  | [] => return ([], allocations)
  | (propertyId, value) :: rest => do
      let key := leBytes 2 propertyId ++ leBytes 2 value.propertyType.code
      match value.inlineValue with
      | some inline =>
          let (records, allocations) ← compactRecords allocations rest
          return (key ++ leBytes 4 inline ++ records, allocations)
      | none =>
          let encoded ← value.variableBytes
          let bytes ← okOr (.invalidStructure "property has no serialized value") encoded
          if bytes.isEmpty then
            let (records, allocations) ← compactRecords allocations rest
            return (key ++ leBytes 4 0 ++ records, allocations)
          else
            let allocations := allocations ++ [bytes]
            -- two allocations, the tree header and the records, come before these
            let index ← okOr (.valueTooLarge "heap page") (tryFrom 16 (allocations.length + 2))
            match HeapId.new index 0 with
            | .error _ => throw (.valueTooLarge "heap page")
            | .ok heapId =>
                let (records, allocations) ← compactRecords allocations rest
                return (key ++ leBytes 4 heapId.value ++ records, allocations)

/-- The compact form of a property context. -/
def propertyContext (properties : Properties) : Except WriterError Bytes := do
  let (records, values) ← compactRecords [] (sortByKey (·.1) properties)
  let root ← HeapId.ofIndex 2 0
  heapPage .properties (heapTreeHeader 2 6 0 root :: records :: values)

/-- The records of an external property context, and the heap pages they refer to. -/
def externalRecords (pages : List (List Bytes)) :
    Properties → Except WriterError (Bytes × List (List Bytes))
  | [] => return ([], pages)
  | (propertyId, value) :: rest => do
      let key := leBytes 2 propertyId ++ leBytes 2 value.propertyType.code
      match value.inlineValue with
      | some inline =>
          let (records, pages) ← externalRecords pages rest
          return (key ++ leBytes 4 inline ++ records, pages)
      | none =>
          let encoded ← value.variableBytes
          let bytes ← okOr (.invalidStructure "property has no serialized value") encoded
          if bytes.isEmpty then
            let (records, pages) ← externalRecords pages rest
            return (key ++ leBytes 4 0 ++ records, pages)
          else
            let (pages, heapId) ← pushHeapAllocation pages bytes
            let (records, pages) ← externalRecords pages rest
            return (key ++ leBytes 4 heapId.value ++ records, pages)

/-- Put each piece of a level of a heap tree on the heap, with its first key. -/
def pushTreeLevel (keySize : Nat) (pages : List (List Bytes)) :
    List Bytes → Except WriterError (List (List Bytes) × List (Nat × HeapId))
  | [] => return (pages, [])
  | piece :: rest => do
      let (pages, heapId) ← pushHeapAllocation pages piece
      let (pages, roots) ← pushTreeLevel keySize pages rest
      return (pages, (leValue (piece.take keySize), heapId) :: roots)

/-- Put index levels over the leaves of a heap tree until one root is left. -/
def pushTreeLevels (keySize : Nat) (what : String) : (fuel levels : Nat) → List (List Bytes) →
    List (Nat × HeapId) → Except WriterError (List (List Bytes) × Nat × HeapId)
  | _, levels, pages, [(_, root)] => return (pages, levels, root)
  | 0, _, _, _ => throw (.valueTooLarge what)
  | fuel + 1, levels, pages, roots => do
      let levels ← okOr (.valueTooLarge what) (checkedAdd 8 levels 1)
      let groups := chunks (maxHeapAllocation / (keySize + 4)) roots
      let entries := groups.map fun group =>
        group.flatMap fun (key, nextLevel) => leBytes keySize key ++ leBytes 4 nextLevel.value
      let (pages, parents) ← pushTreeLevel keySize pages entries
      pushTreeLevels keySize what fuel levels pages parents

/-- Lay out heap pages behind their first page: all but the last are filled up, and
the fill levels are recorded. -/
def finishHeapPages (first : Bytes) (pageAllocations : List (List Bytes)) :
    Except WriterError (List Bytes) := do
  let rest ← pageAllocations.zipIdx.mapM fun (allocations, index) => do
    let pageIndex ← okOr (.valueTooLarge "heap page index") (tryFrom 16 (index + 1))
    heapContinuationPageAllocations pageIndex allocations
  let pages := first :: rest
  let filled ← pages.dropLast.mapM fillHeapPage
  updateHeapFillLevels (filled ++ pages.getLast?.toList)

/-- The external form of a property context. -/
def propertyContextExternal (properties : Properties) : Except WriterError (List Bytes) := do
  let sorted := sortByKey (·.1) properties
  refuse (sorted.isEmpty = true)
    (.invalidStructure "external property context must contain properties")
  let (records, pages) ← externalRecords [] sorted
  let (pages, roots) ← pushTreeLevel 2 pages (chunks (maxHeapAllocation / 8 * 8) records)
  let (pages, levels, root) ← pushTreeLevels 2 "PC BTH depth" roots.length 0 pages roots
  let first ← heapPage .properties [heapTreeHeader 2 6 levels root]
  finishHeapPages first pages

/-- The bytes a property context takes, in whichever form it is written. -/
def propertyContextLogicalSize (properties : Properties) : Except WriterError Nat :=
  match propertyContext properties with
  | .ok context => .ok context.length
  | .error (.valueTooLarge "heap page") => do
      let pages ← propertyContextExternal properties
      okOr (.valueTooLarge "property context") (tryFrom 64 (pages.map List.length).sum)
  | .error error => .error error

/-- The blocks of a property context and the block that its node refers to. -/
structure PropertyBuild where
  dataBlock : BlockId
  blocks : List BlockSpec

/-- The blocks of a property context: the preferred block in the compact form, a
data tree of its own in the external form. -/
def buildPropertyContext (properties : Properties) (preferredBlock : BlockId) :
    Ids PropertyBuild :=
  match propertyContext properties with
  | .ok context => return ⟨preferredBlock, [⟨preferredBlock, .data context, 2⟩]⟩
  | .error (.valueTooLarge "heap page") => do
      let pages ← attempt (propertyContextExternal properties)
      let (dataBlock, blocks) ← appendDataTreePages pages
      return ⟨dataBlock, blocks⟩
  | .error error => throw error

/-- A property list whose large values were moved into subnodes. -/
structure Externalized where
  properties : Properties
  blocks : List BlockSpec
  subnodes : List LeafSubnodeEntry

/-- Move the values longer than `2048` bytes into subnodes of their own. -/
def externalizeLargeProperties : Properties → Ids Externalized
  | [] => return ⟨[], [], []⟩
  | (propertyId, value) :: rest => do
      let keep : Ids Externalized := do
        let tail ← externalizeLargeProperties rest
        return { tail with properties := (propertyId, value) :: tail.properties }
      match ← attempt value.variableBytes with
      | none => keep
      | some bytes =>
          attempt (validatePstPropertyLen "property subnode" bytes.length)
          if bytes.length ≤ 2048 ∨ value.propertyType = .object then
            keep
          else
            let valueNode ← takeValueNode .listsTablesProperties "property subnode id"
            let (root, blocks) ← appendDataTree bytes
            let tail ← externalizeLargeProperties rest
            return ⟨(propertyId, .external value.propertyType valueNode) :: tail.properties,
              blocks ++ tail.blocks, ⟨valueNode, root, none⟩ :: tail.subnodes⟩

end PstForge.Ltp
