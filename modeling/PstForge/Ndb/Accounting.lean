import PstForge.Ndb.Block

/-! # Accounting for blocks

Every builder of blocks keeps a balance: what its blocks owe, by their reference
counts, is what refers to them, from among the blocks themselves or from outside.
It also takes every block index at most once, either from the running counter or
from an identifier that was set aside for it. Both are counted for one identifier
at a time, so that the accounts of builders that run one after another add up.
-/

namespace PstForge.Ndb

open PstForge.Foundation

section Counting

/-- The references that some blocks expect to a block, beyond the one of its owner. -/
def owed (blocks : List BlockSpec) (id : BlockId) : Nat :=
  (blocks.map fun block => if block.id = id then block.refCount - 1 else 0).sum

/-- How many of some identifiers have an index. -/
def indexCount (ids : List BlockId) (index : Nat) : Nat := ids.countP (·.index = index)

/-- Whether an index lies between two readings of the counter. -/
def span (first last index : Nat) : Nat := if first ≤ index ∧ index < last then 1 else 0

theorem span_self (first index : Nat) : span first first index = 0 := by
  unfold span
  split <;> omega

theorem span_add {first middle last : Nat} (lower : first ≤ middle) (upper : middle ≤ last)
    (index : Nat) : span first last index = span first middle index + span middle last index := by
  unfold span
  split <;> split <;> split <;> omega

@[simp] theorem owed_nil (id : BlockId) : owed [] id = 0 := rfl

@[simp] theorem owed_append (first second : List BlockSpec) (id : BlockId) :
    owed (first ++ second) id = owed first id + owed second id := by
  simp [owed]

@[simp] theorem owed_cons (block : BlockSpec) (rest : List BlockSpec) (id : BlockId) :
    owed (block :: rest) id = (if block.id = id then block.refCount - 1 else 0) + owed rest id := by
  simp [owed]

@[simp] theorem indexCount_nil (index : Nat) : indexCount [] index = 0 := rfl

@[simp] theorem indexCount_append (first second : List BlockId) (index : Nat) :
    indexCount (first ++ second) index = indexCount first index + indexCount second index := by
  simp [indexCount]

@[simp] theorem indexCount_cons (id : BlockId) (rest : List BlockId) (index : Nat) :
    indexCount (id :: rest) index =
      (if id.index = index then 1 else 0) + indexCount rest index := by
  simp only [indexCount, List.countP_cons, decide_eq_true_eq]
  omega

@[simp] theorem blockIds_nil : blockIds [] = [] := rfl

@[simp] theorem blockIds_append (first second : List BlockSpec) :
    blockIds (first ++ second) = blockIds first ++ blockIds second := by
  simp [blockIds]

@[simp] theorem blockIds_cons (block : BlockSpec) (rest : List BlockSpec) :
    blockIds (block :: rest) = block.id :: blockIds rest := rfl

@[simp] theorem blockReferences_nil : blockReferences [] = [] := rfl

@[simp] theorem blockReferences_append (first second : List BlockSpec) :
    blockReferences (first ++ second) = blockReferences first ++ blockReferences second := by
  simp [blockReferences]

@[simp] theorem blockReferences_cons (block : BlockSpec) (rest : List BlockSpec) :
    blockReferences (block :: rest) = block.payload.references ++ blockReferences rest := by
  simp [blockReferences]

/-- The blocks that subnode entries refer to. -/
def entryReferences (entries : List LeafSubnodeEntry) : List BlockId :=
  entries.flatMap fun entry => entry.block :: entry.subnode.toList

@[simp] theorem entryReferences_nil : entryReferences [] = [] := rfl

@[simp] theorem entryReferences_append (first second : List LeafSubnodeEntry) :
    entryReferences (first ++ second) = entryReferences first ++ entryReferences second := by
  simp [entryReferences]

@[simp] theorem entryReferences_cons (entry : LeafSubnodeEntry) (rest : List LeafSubnodeEntry) :
    entryReferences (entry :: rest) =
      entry.block :: (entry.subnode.toList ++ entryReferences rest) := by
  simp [entryReferences]

theorem references_subnode (entries : List LeafSubnodeEntry) :
    (BlockPayload.subnode entries).references = entryReferences entries := rfl

theorem sortByKey_perm {α : Type} (key : α → Nat) (source : List α) :
    (sortByKey key source).Perm source :=
  List.perm_insertionSort _ source

theorem nodup_of_indexCount {ids : List BlockId} (once : ∀ index, indexCount ids index ≤ 1) :
    ids.Nodup := by
  rw [List.nodup_iff_count_le_one]
  intro id
  refine Nat.le_trans ?_ (once id.index)
  rw [List.count_eq_countP, indexCount]
  refine List.countP_mono_left fun other _ same => ?_
  rw [beq_iff_eq] at same
  simp [same]

end Counting

/-- A block of a kind that can be written, whatever its size: its identifier is
internal where its content is a tree block, and the children of a data-tree block
are of the kind that its level asks for. -/
def Writable (block : BlockSpec) : Prop :=
  match block.payload with
  | .data bytes => bytes ≠ []
  | .projectedData _ => False
  | .subnode _ | .intermediateSubnode _ _ => block.id.isInternal = true
  | .dataTree level _ entries => block.id.isInternal = true ∧ (level = 1 ∨ level = 2) ∧
      ∀ entry ∈ entries, isDataTreeChild level entry = true

/-- The account of a builder that ran between two readings of the counters: the
identifiers set aside for it, the references it was given (`outer`) and those that
it hands on (`roots`), and the blocks it made. -/
structure Built (before after : Counters) (given outer roots : List BlockId)
    (blocks : List BlockSpec) : Prop where
  indexes : before.nextBlockIndex ≤ after.nextBlockIndex
  fresh : ∀ index, indexCount (blockIds blocks) index ≤
    indexCount given index + span before.nextBlockIndex after.nextBlockIndex index
  balanced : ∀ id, (blockReferences blocks).count id + roots.count id =
    owed blocks id + outer.count id
  writable : ∀ block ∈ blocks, Writable block
  owned : ∀ block ∈ blocks, 0 < block.refCount

namespace Built

variable {first second third : Counters} {given given' outer outer' roots roots' : List BlockId}
variable {blocks blocks' : List BlockSpec}

/-- A builder that makes no blocks and hands on what it was given. -/
theorem idle (indexes : first.nextBlockIndex ≤ second.nextBlockIndex) (outer : List BlockId) :
    Built first second [] outer outer [] :=
  ⟨indexes, fun _ => by simp, fun _ => by simp, by simp, by simp⟩

/-- The accounts of two builders add up. -/
theorem append (left : Built first second given outer roots blocks)
    (right : Built second third given' outer' roots' blocks') :
    Built first third (given ++ given') (outer ++ outer') (roots ++ roots')
      (blocks ++ blocks') where
  indexes := left.indexes.trans right.indexes
  fresh index := by
    have leftFresh := left.fresh index
    have rightFresh := right.fresh index
    rw [span_add left.indexes right.indexes]
    simp only [blockIds_append, indexCount_append]
    omega
  balanced id := by
    have leftBalanced := left.balanced id
    have rightBalanced := right.balanced id
    simp only [blockReferences_append, owed_append, List.count_append]
    omega
  writable block member := by
    rcases List.mem_append.mp member with member | member
    · exact left.writable block member
    · exact right.writable block member
  owned block member := by
    rcases List.mem_append.mp member with member | member
    · exact left.owned block member
    · exact right.owned block member

/-- What one builder hands on is what the next one was given. -/
theorem link {shared : List BlockId} (left : Built first second given outer shared blocks)
    (right : Built second third given' shared roots blocks') :
    Built first third (given ++ given') outer roots (blocks ++ blocks') := by
  have both := left.append right
  refine { both with balanced := fun id => ?_ }
  have balanced := both.balanced id
  simp only [List.count_append] at balanced ⊢
  omega

/-- Only the numbers of references matter, not their order. -/
theorem congr (built : Built first second given outer roots blocks)
    (sameGiven : ∀ index, indexCount given index = indexCount given' index)
    (sameReferences : ∀ id, roots'.count id + outer.count id = roots.count id + outer'.count id) :
    Built first second given' outer' roots' blocks := by
  refine { built with fresh := fun index => ?_, balanced := fun id => ?_ }
  · have fresh := built.fresh index
    rw [sameGiven] at fresh
    exact fresh
  · have balanced := built.balanced id
    have same := sameReferences id
    omega

/-- The order of the blocks does not matter. -/
theorem perm (built : Built first second given outer roots blocks)
    (reordered : blocks'.Perm blocks) : Built first second given outer roots blocks' where
  indexes := built.indexes
  fresh index := by
    have same : indexCount (blockIds blocks') index = indexCount (blockIds blocks) index :=
      (reordered.map _).countP_eq _
    rw [same]
    exact built.fresh index
  balanced id := by
    have sameReferences : (blockReferences blocks').count id = (blockReferences blocks).count id :=
      (reordered.flatMap_right _).count_eq id
    have sameOwed : owed blocks' id = owed blocks id := (reordered.map _).sum_eq
    rw [sameReferences, sameOwed]
    exact built.balanced id
  writable block member := built.writable block (reordered.mem_iff.mp member)
  owned block member := built.owned block (reordered.mem_iff.mp member)

/-- Only the block indexes of the counters matter. -/
theorem reindex {first' second' : Counters} (built : Built first second given outer roots blocks)
    (sameFirst : first'.nextBlockIndex = first.nextBlockIndex)
    (sameSecond : second'.nextBlockIndex = second.nextBlockIndex) :
    Built first' second' given outer roots blocks where
  indexes := by
    rw [sameFirst, sameSecond]
    exact built.indexes
  fresh index := by
    rw [sameFirst, sameSecond]
    exact built.fresh index
  balanced := built.balanced
  writable := built.writable
  owned := built.owned

/-- More identifiers may have been set aside than are used. -/
theorem spare (built : Built first second given outer roots blocks) (extra : List BlockId) :
    Built first second (given ++ extra) outer roots blocks := by
  refine { built with fresh := fun index => ?_ }
  have fresh := built.fresh index
  rw [indexCount_append]
  omega

/-- An identifier that was taken just before need not have been set aside. -/
theorem claim {id : BlockId} (taken : id.index = first.nextBlockIndex)
    (moved : second.nextBlockIndex = first.nextBlockIndex + 1)
    (built : Built second third (id :: given) outer roots blocks) :
    Built first third given outer roots blocks := by
  refine { built with indexes := by have := built.indexes; omega, fresh := fun index => ?_ }
  have fresh := built.fresh index
  have indexes := built.indexes
  rw [span_add (by omega : first.nextBlockIndex ≤ second.nextBlockIndex) indexes]
  rw [indexCount_cons] at fresh
  have one : (if id.index = index then 1 else 0) =
      span first.nextBlockIndex second.nextBlockIndex index := by
    unfold span
    split <;> split <;> omega
  omega

/-- One block with a number of references, under an identifier that was set aside. -/
theorem counted {id : BlockId} {payload : BlockPayload} (references : Nat) (counters : Counters)
    (writable : Writable ⟨id, payload, references + 1⟩) :
    Built counters counters [id] payload.references (List.replicate references id)
      [⟨id, payload, references + 1⟩] where
  indexes := Nat.le_refl _
  fresh index := by simp
  balanced other := by
    simp only [blockReferences_cons, blockReferences_nil, List.append_nil, owed_cons, owed_nil,
      List.count_replicate, beq_iff_eq, Nat.add_zero, Nat.add_sub_cancel]
    split <;> omega
  writable block member := by
    rw [List.mem_singleton] at member
    exact member ▸ writable
  owned block member := by
    rw [List.mem_singleton] at member
    rw [member]
    exact Nat.succ_pos _

/-- One block with a single reference. -/
theorem single {id : BlockId} {payload : BlockPayload} (counters : Counters)
    (writable : Writable ⟨id, payload, 2⟩) :
    Built counters counters [id] payload.references [id] [⟨id, payload, 2⟩] :=
  counted 1 counters writable

/-- A builder that was given no identifiers makes distinct ones. -/
theorem distinct (built : Built first second [] outer roots blocks) : (blockIds blocks).Nodup := by
  refine nodup_of_indexCount fun index => (built.fresh index).trans ?_
  rw [indexCount_nil, Nat.zero_add, span]
  split <;> omega

end Built

end PstForge.Ndb
