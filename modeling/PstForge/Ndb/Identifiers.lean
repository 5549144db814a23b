import PstForge.Foundation.Bytes
import PstForge.Foundation.Effect
import PstForge.Ndb.Allocation

/-! # Node and block identifiers

A node identifier is a 32-bit word with its type in the low five bits; a block
identifier is a 64-bit word whose second bit marks internal blocks. The writer
takes block identifiers from a running counter (`takeBlockId`).
-/

namespace PstForge.Ndb

open PstForge.Foundation

/-- The types of node, by their place in the low bits of a node identifier. -/
inductive NodeIdType where
  | heapNode
  | internal
  | normalFolder
  | searchFolder
  | normalMessage
  | attachment
  | searchUpdateQueue
  | searchCriteria
  | associatedMessage
  | oleObjectData
  | contentsTableIndex
  | receiveFolderTable
  | outgoingQueueTable
  | hierarchyTable
  | contentsTable
  | associatedContentsTable
  | searchContentsTable
  | attachmentTable
  | recipientTable
  | searchTableIndex
  | listsTablesProperties
  deriving DecidableEq, Repr

def NodeIdType.code : NodeIdType → Nat
  | heapNode => 0x00
  | internal => 0x01
  | normalFolder => 0x02
  | searchFolder => 0x03
  | normalMessage => 0x04
  | attachment => 0x05
  | searchUpdateQueue => 0x06
  | searchCriteria => 0x07
  | associatedMessage => 0x08
  | oleObjectData => 0x09
  | contentsTableIndex => 0x0A
  | receiveFolderTable => 0x0B
  | outgoingQueueTable => 0x0C
  | hierarchyTable => 0x0D
  | contentsTable => 0x0E
  | associatedContentsTable => 0x0F
  | searchContentsTable => 0x10
  | attachmentTable => 0x11
  | recipientTable => 0x12
  | searchTableIndex => 0x13
  | listsTablesProperties => 0x1F

/-- A node identifier. -/
structure NodeId where
  value : Nat
  deriving DecidableEq, Repr

namespace NodeId

/-- The type bits of a node identifier. -/
def typeCode (id : NodeId) : Nat := id.value % 32

/-- The index of a node identifier within its type. -/
def index (id : NodeId) : Nat := id.value / 32

end NodeId

/-- Form a node identifier; the index has 27 bits. -/
def node (kind : NodeIdType) (index : Nat) : Except WriterError NodeId :=
  if index < 2 ^ 27 then .ok ⟨index * 32 + kind.code⟩
  else .error (.invalidStructure ("Invalid nidIndex: 0x" ++ hex 8 index))

def nidMessageStore : NodeId := ⟨0x21⟩
def nidNameToIdMap : NodeId := ⟨0x61⟩
def nidRootFolder : NodeId := ⟨0x122⟩
def nidSearchManagementQueue : NodeId := ⟨0x1E1⟩

/-- A block identifier. -/
structure BlockId where
  value : Nat
  deriving DecidableEq, Repr

namespace BlockId

/-- The identifier of no block. -/
def null : BlockId := ⟨0⟩

def isInternal (id : BlockId) : Bool := id.value / 2 % 2 = 1

def index (id : BlockId) : Nat := id.value / 4

end BlockId

/-- Form a block identifier; the index has 62 bits. -/
def blockId (isInternal : Bool) (index : Nat) : Except WriterError BlockId :=
  if index < 2 ^ 62 then .ok ⟨index * 4 + (if isInternal then 2 else 0)⟩
  else .error (.invalidStructure ("Invalid bidIndex: 0x" ++ hex 16 index))

def leafBid (index : Nat) : Except WriterError BlockId := blockId false index

def internalBid (index : Nat) : Except WriterError BlockId := blockId true index

/-- The running counters of the writer: the index of the next block, and the index
of the next node that carries an external property value. -/
structure Counters where
  nextBlockIndex : Nat
  nextValueNode : Nat
  deriving DecidableEq, Repr

/-- Computations that take identifiers from the running counters. -/
abbrev Ids := EStateM WriterError Counters

/-- Take the next block identifier. -/
def takeBlockId (isInternal : Bool) : Ids BlockId := do
  let index := (← get).nextBlockIndex
  let next ← attempt (okOr (.valueTooLarge "block id") (checkedAdd 64 index 1))
  modify fun counters => { counters with nextBlockIndex := next }
  attempt (if isInternal then internalBid index else leafBid index)

/-- Take the next node for an external value. -/
def takeValueNode (kind : NodeIdType) (what : String) : Ids NodeId := do
  let index := (← get).nextValueNode
  let valueNode ← attempt (node kind index)
  let next ← attempt (okOr (.valueTooLarge what) (checkedAdd 32 index 1))
  modify fun counters => { counters with nextValueNode := next }
  return valueNode

theorem node_eq_ok {kind : NodeIdType} {index : Nat} {id : NodeId} :
    node kind index = .ok id ↔ index < 2 ^ 27 ∧ id = ⟨index * 32 + kind.code⟩ := by
  unfold node
  split <;> simp_all [eq_comm]

theorem NodeIdType.code_lt (kind : NodeIdType) : kind.code < 32 := by
  cases kind <;> decide

theorem node_index {kind : NodeIdType} {index : Nat} {id : NodeId}
    (hnode : node kind index = .ok id) : id.index = index ∧ id.typeCode = kind.code := by
  obtain ⟨-, rfl⟩ := node_eq_ok.mp hnode
  have small := kind.code_lt
  simp only [NodeId.index, NodeId.typeCode]
  omega

theorem blockId_eq_ok {isInternal : Bool} {index : Nat} {id : BlockId} :
    blockId isInternal index = .ok id ↔
      index < 2 ^ 62 ∧ id = ⟨index * 4 + (if isInternal then 2 else 0)⟩ := by
  unfold blockId
  split <;> simp_all [eq_comm]

theorem blockId_index {isInternal : Bool} {index : Nat} {id : BlockId}
    (hid : blockId isInternal index = .ok id) :
    id.index = index ∧ id.isInternal = isInternal := by
  obtain ⟨-, rfl⟩ := blockId_eq_ok.mp hid
  cases isInternal <;> simp [BlockId.index, BlockId.isInternal] <;> omega

/-- The data block of an index. -/
def leafBlock (index : Nat) : BlockId := ⟨index * 4⟩

@[simp] theorem leafBlock_index (index : Nat) : (leafBlock index).index = index := by
  simp [leafBlock, BlockId.index]

theorem leafBlock_inj {first second : Nat} : leafBlock first = leafBlock second ↔
    first = second := by
  simp only [leafBlock, BlockId.mk.injEq]
  omega

theorem leafBid_eq_ok {index : Nat} {id : BlockId} (hid : leafBid index = .ok id) :
    id = leafBlock index := by
  obtain ⟨-, rfl⟩ := blockId_eq_ok.mp hid
  rfl

/-- A taken identifier has the index of the counter, which moves on by one. -/
theorem takeBlockId_ok {isInternal : Bool} {counters final : Counters} {id : BlockId}
    (htake : takeBlockId isInternal counters = .ok id final) :
    id.index = counters.nextBlockIndex ∧ id.isInternal = isInternal ∧
      final = { counters with nextBlockIndex := counters.nextBlockIndex + 1 } := by
  simp only [takeBlockId, bind_run_ok, get_run_ok, attempt_run_ok, okOr_eq_ok, checkedAdd_eq_some,
    modify_run_ok] at htake
  obtain ⟨start, _, ⟨rfl, rfl⟩, next, _, ⟨⟨rfl, -⟩, rfl⟩, _, _, rfl, hid, rfl⟩ := htake
  cases isInternal with
  | true =>
      obtain ⟨index, kind⟩ := @blockId_index true _ _ hid
      exact ⟨index, kind, rfl⟩
  | false =>
      obtain ⟨index, kind⟩ := @blockId_index false _ _ hid
      exact ⟨index, kind, rfl⟩

/-- The count of value nodes has not moved. -/
def SameValues (before after : Counters) : Prop := after.nextValueNode = before.nextValueNode

namespace SameValues

theorem refl (counters : Counters) : SameValues counters counters := rfl

theorem trans {first second third : Counters} (left : SameValues first second)
    (right : SameValues second third) : SameValues first third :=
  Eq.trans right left

end SameValues

/-- A sequence leaves the count when both of its parts do. -/
theorem sameValues_bind {α β : Type} {first : Ids α} {next : α → Ids β}
    (keepsFirst : Keeps SameValues first) (keepsNext : ∀ value, Keeps SameValues (next value)) :
    Keeps SameValues (first >>= next) := by
  refine Keeps.bind ?_ keepsFirst keepsNext
  exact fun left right => left.trans right

/-- Taking a block identifier leaves the count of value nodes, however it ends. -/
theorem takeBlockId_values (isInternal : Bool) : Keeps SameValues (takeBlockId isInternal) := by
  apply sameValues_bind (Keeps.of_get SameValues.refl)
  intro counters
  apply sameValues_bind (Keeps.of_attempt SameValues.refl _)
  intro next
  apply sameValues_bind
  · exact Keeps.of_modify fun _ => rfl
  · exact fun _ => Keeps.of_attempt SameValues.refl _

/-- A taken value node has the type asked for and the index of its counter. -/
theorem takeValueNode_ok {kind : NodeIdType} {what : String} {counters final : Counters}
    {id : NodeId} (htake : takeValueNode kind what counters = .ok id final) :
    id.index = counters.nextValueNode ∧ id.typeCode = kind.code ∧
      final = { counters with nextValueNode := counters.nextValueNode + 1 } := by
  simp only [takeValueNode, bind_run_ok, get_run_ok, attempt_run_ok, okOr_eq_ok,
    checkedAdd_eq_some, modify_run_ok, pure_run_ok] at htake
  obtain ⟨start, _, ⟨rfl, rfl⟩, taken, _, ⟨hnode, rfl⟩, next, _, ⟨⟨rfl, -⟩, rfl⟩, _, _, rfl, rfl,
    rfl⟩ := htake
  obtain ⟨index, kindEq⟩ := node_index hnode
  exact ⟨index, kindEq, rfl⟩

end PstForge.Ndb
