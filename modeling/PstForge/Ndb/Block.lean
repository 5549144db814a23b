import Mathlib.Data.List.Sort
import PstForge.Ndb.Identifiers

/-! # Blocks, data trees and subnode trees

The blocks a store is made of, before they are placed in the file. A byte string
that does not fit one block becomes a data tree: its leaves are grouped under
level-one blocks, and these under one level-two block. A list of subnodes becomes
a subnode tree in the same way. The builders here work in memory: they take block
identifiers from the running counter and return the blocks they made.
-/

namespace PstForge.Ndb

open PstForge.Foundation

/-- A stable sort by a numeric key. -/
def sortByKey {α : Type} (key : α → Nat) (source : List α) : List α :=
  source.insertionSort fun a b => key a ≤ key b

/-- An entry of a leaf subnode block. -/
structure LeafSubnodeEntry where
  node : NodeId
  block : BlockId
  subnode : Option BlockId
  deriving DecidableEq, Repr

/-- An entry of an intermediate subnode block. -/
structure IntermediateSubnodeEntry where
  node : NodeId
  block : BlockId
  deriving DecidableEq, Repr

/-- The content of a block. -/
inductive BlockPayload where
  | data (bytes : Bytes)
  | projectedData (size : Nat)
  | subnode (entries : List LeafSubnodeEntry)
  | intermediateSubnode (level : Nat) (entries : List IntermediateSubnodeEntry)
  | dataTree (level totalSize : Nat) (entries : List BlockId)
  deriving DecidableEq, Repr

namespace BlockPayload

/-- The number of bytes the payload takes in its block. -/
def logicalSize : BlockPayload → Nat
  | data bytes => bytes.length
  | projectedData size => size
  | subnode entries => 8 + entries.length * 24
  | intermediateSubnode _ entries => 8 + entries.length * 16
  | dataTree _ _ entries => 8 + entries.length * 8

/-- What a payload counts towards the size of its message. -/
def messageSizeContribution : BlockPayload → Nat
  | data bytes => bytes.length
  | projectedData size => size
  | subnode _ | intermediateSubnode _ _ | dataTree _ _ _ => 0

/-- The blocks a payload refers to. -/
def references : BlockPayload → List BlockId
  | data _ | projectedData _ => []
  | subnode entries => entries.flatMap fun entry => entry.block :: entry.subnode.toList
  | intermediateSubnode _ entries => entries.map (·.block)
  | dataTree _ _ entries => entries

end BlockPayload

/-- A block that is to be written. -/
structure BlockSpec where
  id : BlockId
  payload : BlockPayload
  refCount : Nat
  deriving DecidableEq, Repr

/-- The identifiers of some blocks. -/
def blockIds (blocks : List BlockSpec) : List BlockId := blocks.map (·.id)

/-- The references that some blocks hold. -/
def blockReferences (blocks : List BlockSpec) : List BlockId :=
  blocks.flatMap (·.payload.references)

def maxDataTreeEntries : Nat := 1021

/-- Whether a block of a data tree may have a child of this kind. -/
def isDataTreeChild (level : Nat) (child : BlockId) : Bool :=
  (level = 1 && !child.isInternal) || (level = 2 && child.isInternal)

section DataTree

/-- The size of a group of children, as a 32-bit word. -/
def groupTotal (what : String) (group : List (BlockId × Nat)) : Except WriterError Nat :=
  okOr (.valueTooLarge what) (tryFrom 32 (group.map (·.2)).sum)

/-- A block of a data tree over its children. -/
def dataTreeSpec (id : BlockId) (level total : Nat) (children : List (BlockId × Nat)) :
    BlockSpec :=
  ⟨id, .dataTree level total (children.map (·.1)), 2⟩

/-- One data block for each piece, with the identifier and length of each. -/
def appendLeaves : List Bytes → Ids (List (BlockId × Nat) × List BlockSpec)
  | [] => return ([], [])
  | piece :: rest => do
      let id ← takeBlockId false
      let (leaves, blocks) ← appendLeaves rest
      return ((id, piece.length) :: leaves, ⟨id, .data piece, 2⟩ :: blocks)

/-- One level-one block for each group of leaves. -/
def appendXBlocks (describe : List (BlockId × Nat) → Ids (BlockId × Nat)) :
    List (List (BlockId × Nat)) → Ids (List (BlockId × Nat) × List BlockSpec)
  | [] => return ([], [])
  | group :: rest => do
      let (id, total) ← describe group
      let (xblocks, blocks) ← appendXBlocks describe rest
      return ((id, total) :: xblocks, dataTreeSpec id 1 total group :: blocks)

/-- Close a data tree over its leaves: no further block over a single leaf, one
level-one block over one group, and a level-two block over several. -/
def closeDataTree (describe : List (BlockId × Nat) → Ids (BlockId × Nat))
    (tooMany tooLarge : String) (leaves : List (BlockId × Nat)) :
    Ids (BlockId × List BlockSpec) := do
  if let [(id, _)] := leaves then
    return (id, [])
  let (xblocks, blocks) ← appendXBlocks describe (chunks maxDataTreeEntries leaves)
  if let [(id, _)] := xblocks then
    return (id, blocks)
  attempt (refuse (maxDataTreeEntries < xblocks.length) (.valueTooLarge tooMany))
  let total ← attempt (groupTotal tooLarge xblocks)
  let id ← takeBlockId true
  return (id, blocks ++ [dataTreeSpec id 2 total xblocks])

/-- The data tree of a byte string, cut into pieces of a given length. -/
def appendDataTreeSized (bytes : Bytes) (chunkSize : Nat) : Ids (BlockId × List BlockSpec) := do
  let (leaves, blocks) ← appendLeaves (chunks chunkSize bytes)
  let describe : List (BlockId × Nat) → Ids (BlockId × Nat) := fun group => do
    let id ← takeBlockId true
    let total ← attempt (groupTotal "data-tree size" group)
    return (id, total)
  let (root, inner) ← closeDataTree describe "XXBLOCK entry count" "XXBLOCK size" leaves
  return (root, blocks ++ inner)

/-- The data tree of a byte string. -/
def appendDataTree (bytes : Bytes) : Ids (BlockId × List BlockSpec) :=
  appendDataTreeSized bytes 8176

/-- The data tree of a table's row matrix, where no row crosses a block. -/
def appendRowMatrixDataTree (bytes : Bytes) (rowSize : Nat) : Ids (BlockId × List BlockSpec) := do
  attempt (refuse (rowSize = 0 ∨ 8176 < rowSize) (.valueTooLarge "table row size"))
  let chunkSize := 8176 / rowSize * rowSize
  let pieces := chunks chunkSize bytes
  let framed := pieces.zipIdx.flatMap fun (piece, index) =>
    if index + 1 < pieces.length then piece ++ List.replicate (8176 - piece.length) 0 else piece
  appendDataTree framed

/-- The data tree of a list of pages, one leaf each. -/
def appendDataTreePages (pages : List Bytes) : Ids (BlockId × List BlockSpec) := do
  attempt (refuse (pages.isEmpty) (.invalidStructure "data tree must contain pages"))
  let rec appendPages : List Bytes → Ids (List (BlockId × Nat) × List BlockSpec)
    | [] => return ([], [])
    | page :: rest => do
        attempt (refuse (8176 < page.length) (.valueTooLarge "heap data page"))
        let id ← takeBlockId false
        let (leaves, blocks) ← appendPages rest
        return ((id, page.length) :: leaves, ⟨id, .data page, 2⟩ :: blocks)
  let (leaves, blocks) ← appendPages pages
  let describe : List (BlockId × Nat) → Ids (BlockId × Nat) := fun group => do
    let total ← attempt (groupTotal "heap data-tree size" group)
    let id ← takeBlockId true
    return (id, total)
  let (root, inner) ←
    closeDataTree describe "heap data-tree XBLOCK count" "heap data-tree size" leaves
  return (root, blocks ++ inner)

end DataTree

section SubnodeTree

def subnodeLeafCapacity : Nat := (8176 - 8) / 24
def subnodeIntermediateCapacity : Nat := (8176 - 8) / 16
def maxSubnodeTreeEntries : Nat := subnodeLeafCapacity * subnodeIntermediateCapacity

/-- One leaf block for each group of subnode entries. -/
def appendSubnodeLeaves :
    List (List LeafSubnodeEntry) → Ids (List IntermediateSubnodeEntry × List BlockSpec)
  | [] => return ([], [])
  | group :: rest => do
      let id ← takeBlockId true
      let (roots, blocks) ← appendSubnodeLeaves rest
      let key := (group.head?.map (·.node)).getD ⟨0⟩
      return (⟨key, id⟩ :: roots, ⟨id, .subnode group, 2⟩ :: blocks)

/-- One intermediate block for each group of subtrees. -/
def appendSubnodeParents (level : Nat) : List (List IntermediateSubnodeEntry) →
    Ids (List IntermediateSubnodeEntry × List BlockSpec)
  | [] => return ([], [])
  | group :: rest => do
      let id ← takeBlockId true
      let (parents, blocks) ← appendSubnodeParents level rest
      let key := (group.head?.map (·.node)).getD ⟨0⟩
      return (⟨key, id⟩ :: parents, ⟨id, .intermediateSubnode level group, 2⟩ :: blocks)

/-- Put intermediate levels over the subtrees until one root is left. Every level
has fewer subtrees than the one below, so their number bounds the levels. -/
def appendSubnodeLevels : (fuel level : Nat) → List IntermediateSubnodeEntry →
    Ids (BlockId × List BlockSpec)
  | _, _, [] => throw (.invalidStructure "subnode tree must contain entries")
  | _, _, [root] => return (root.block, [])
  | 0, _, _ => throw (.valueTooLarge "subnode tree depth")
  | fuel + 1, level, roots => do
      let (parents, blocks) ←
        appendSubnodeParents level (chunks subnodeIntermediateCapacity roots)
      let next ← attempt (okOr (.valueTooLarge "subnode tree depth") (checkedAdd 8 level 1))
      let (root, upper) ← appendSubnodeLevels fuel next parents
      return (root, blocks ++ upper)

/-- A subnode tree whose root takes a fresh identifier. -/
def appendSubnodeTree (entries : List LeafSubnodeEntry) : Ids (BlockId × List BlockSpec) := do
  attempt (refuse (entries.isEmpty) (.invalidStructure "subnode tree must contain entries"))
  attempt (refuse (maxSubnodeTreeEntries < entries.length)
    (.valueTooLarge "subnode tree entry count"))
  let entries := sortByKey (·.node.value) entries
  let (roots, blocks) ← appendSubnodeLeaves (chunks subnodeLeafCapacity entries)
  let (root, upper) ← appendSubnodeLevels roots.length 1 roots
  return (root, blocks ++ upper)

/-- A subnode tree whose root was given its identifier beforehand. -/
def appendSubnodeTreeAt (entries : List LeafSubnodeEntry) (root : BlockId) :
    Ids (List BlockSpec) := do
  attempt (refuse (entries.isEmpty) (.invalidStructure "subnode tree must contain entries"))
  attempt (refuse (maxSubnodeTreeEntries < entries.length)
    (.valueTooLarge "subnode tree entry count"))
  let entries := sortByKey (·.node.value) entries
  if entries.length ≤ subnodeLeafCapacity then
    return [⟨root, .subnode entries, 2⟩]
  let (leaves, blocks) ← appendSubnodeLeaves (chunks subnodeLeafCapacity entries)
  return blocks ++ [⟨root, .intermediateSubnode 1 leaves, 2⟩]

end SubnodeTree

end PstForge.Ndb
