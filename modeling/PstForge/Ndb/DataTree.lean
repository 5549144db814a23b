import PstForge.Foundation.Chunks
import PstForge.Ndb.TreeAccounts

/-! # Data trees read back

What a data tree stands for: leaves in order, under at most two levels of tree blocks. The
builders all make the tree that has one shape over its leaves (`DataTree.above`), with as few
levels as a tree can have that has so many leaves.
-/

namespace PstForge.Ndb

open PstForge.Foundation

/-- A data tree, with the size that each of its tree blocks records. -/
inductive DataTree where
  | leaf (bytes : Bytes)
  | xblock (total : Nat) (leaves : List Bytes)
  | xxblock (total : Nat) (groups : List (Nat × List Bytes))
  deriving DecidableEq, Repr

/-- The number of bytes in some leaves. -/
def totalSize (leaves : List Bytes) : Nat := (leaves.map List.length).sum

namespace DataTree

/-- The leaves of a tree, in order. -/
def leaves : DataTree → List Bytes
  | leaf bytes => [bytes]
  | xblock _ leaves => leaves
  | xxblock _ groups => groups.flatMap (·.2)

/-- The levels of tree blocks above the leaves. -/
def levels : DataTree → Nat
  | leaf _ => 0
  | xblock _ _ => 1
  | xxblock _ _ => 2

/-- How many blocks a tree is made of. -/
def blockCount : DataTree → Nat
  | leaf _ => 1
  | xblock _ leaves => leaves.length + 1
  | xxblock _ groups => (groups.flatMap (·.2)).length + groups.length + 1

/-- No tree block has too many entries, and each records the size of what is below it. -/
def Exact : DataTree → Prop
  | leaf _ => True
  | xblock total leaves => leaves.length ≤ maxDataTreeEntries ∧ total = totalSize leaves
  | xxblock total groups => groups.length ≤ maxDataTreeEntries ∧
      total = totalSize (groups.flatMap (·.2)) ∧
      ∀ group ∈ groups, group.2.length ≤ maxDataTreeEntries ∧ group.1 = totalSize group.2

/-- The tree with as few levels as possible over some leaves. -/
def above (pieces : List Bytes) : DataTree :=
  match chunks maxDataTreeEntries pieces with
  | [[piece]] => leaf piece
  | [group] => xblock (totalSize group) group
  | groups => xxblock (totalSize pieces) (groups.map fun group => (totalSize group, group))

end DataTree

section Reading

/-- The payload of the block with an identifier. -/
def payloadOf (blocks : List BlockSpec) (id : BlockId) : Option BlockPayload :=
  (blocks.find? fun block => block.id = id).map (·.payload)

variable (find : BlockId → Option BlockPayload)

/-- Read a leaf of a data tree. -/
def readLeaf (id : BlockId) : Option Bytes :=
  match id.isInternal, find id with
  | false, some (.data bytes) => some bytes
  | _, _ => none

/-- Read a level-one block and its leaves, whose sizes must add up to the recorded one. -/
def readXBlock (id : BlockId) : Option (Nat × List Bytes) :=
  match id.isInternal, find id with
  | true, some (.dataTree 1 total entries) => do
      let leaves ← entries.mapM (readLeaf find)
      if totalSize leaves = total then some (total, leaves) else none
  | _, _ => none

/-- Read a data tree from its root. -/
def readDataTree (root : BlockId) : Option DataTree :=
  match root.isInternal, find root with
  | false, _ => (readLeaf find root).map .leaf
  | true, some (.dataTree 2 total entries) => do
      let groups ← entries.mapM (readXBlock find)
      if totalSize (groups.flatMap (·.2)) = total then some (.xxblock total groups) else none
  | true, _ => (readXBlock find root).map fun group => .xblock group.1 group.2

end Reading

section Shape

variable {pieces : List Bytes}

theorem totalSize_eq (leaves : List Bytes) : totalSize leaves = leaves.flatten.length := by
  rw [totalSize, List.length_flatten]

theorem totalSize_append (first second : List Bytes) :
    totalSize (first ++ second) = totalSize first + totalSize second := by
  rw [totalSize_eq, totalSize_eq, totalSize_eq, List.flatten_append, List.length_append]

theorem totalSize_groups (groups : List (List Bytes)) :
    (groups.map totalSize).sum = totalSize groups.flatten := by
  induction groups with
  | nil => rfl
  | cons group groups ih =>
      rw [List.map_cons, List.sum_cons, List.flatten_cons, totalSize_append, ih]

theorem entries_positive : 0 < maxDataTreeEntries := by decide

/-- The three shapes, by the groups that the leaves are cut into. -/
theorem above_cases (pieces : List Bytes) :
    (∃ piece, chunks maxDataTreeEntries pieces = [[piece]] ∧ DataTree.above pieces = .leaf piece) ∨
    (∃ group, chunks maxDataTreeEntries pieces = [group] ∧ group.length ≠ 1 ∧
      DataTree.above pieces = .xblock (totalSize group) group) ∨
    ((chunks maxDataTreeEntries pieces).length ≠ 1 ∧
      DataTree.above pieces = .xxblock (totalSize pieces)
        ((chunks maxDataTreeEntries pieces).map fun group => (totalSize group, group))) := by
  rw [DataTree.above]
  split
  case h_1 piece one => exact Or.inl ⟨piece, one, rfl⟩
  case h_2 _ group several one =>
    refine Or.inr (Or.inl ⟨group, one, fun single => ?_, rfl⟩)
    obtain ⟨piece, rfl⟩ := List.length_eq_one_iff.mp single
    exact several piece rfl
  case h_3 groups _ several =>
    refine Or.inr (Or.inr ⟨fun single => ?_, rfl⟩)
    obtain ⟨group, one⟩ := List.length_eq_one_iff.mp single
    exact several group one

theorem above_leaf (piece : Bytes) : DataTree.above [piece] = .leaf piece := rfl

theorem above_xblock (several : pieces.length ≠ 1) (some : pieces ≠ [])
    (fits : pieces.length ≤ maxDataTreeEntries) :
    DataTree.above pieces = .xblock (totalSize pieces) pieces := by
  have one := chunks_single some fits
  rcases above_cases pieces with ⟨piece, single, -⟩ | ⟨group, single, -, shape⟩ | ⟨more, -⟩
  · rw [one] at single
    rw [(List.cons.inj single).1] at several
    exact absurd rfl several
  · rw [one] at single
    rw [shape, (List.cons.inj single).1]
  · rw [one] at more
    exact absurd rfl more

theorem above_xxblock (more : (chunks maxDataTreeEntries pieces).length ≠ 1) :
    DataTree.above pieces = .xxblock (totalSize pieces)
      ((chunks maxDataTreeEntries pieces).map fun group => (totalSize group, group)) := by
  rcases above_cases pieces with ⟨piece, single, -⟩ | ⟨group, single, -, -⟩ | ⟨-, shape⟩
  · rw [single] at more
    exact absurd rfl more
  · rw [single] at more
    exact absurd rfl more
  · exact shape

theorem flatMap_groups (groups : List (List Bytes)) :
    (groups.map fun group => (totalSize group, group)).flatMap (·.2) = groups.flatten := by
  rw [List.flatMap_map, List.flatMap_id']

/-- The leaves of the tree are the ones it was made over. -/
theorem above_leaves (pieces : List Bytes) : (DataTree.above pieces).leaves = pieces := by
  have whole := chunks_flatten entries_positive pieces
  rcases above_cases pieces with ⟨piece, single, shape⟩ | ⟨group, single, -, shape⟩ | ⟨-, shape⟩
  · rw [single] at whole
    rw [shape, ← whole]
    rfl
  · rw [single] at whole
    rw [shape, ← whole, DataTree.leaves, List.flatten_singleton]
  · rw [shape, DataTree.leaves, flatMap_groups, whole]

/-- The tree is exact while its groups fit one level-two block. -/
theorem above_exact (fits : (chunks maxDataTreeEntries pieces).length ≤ maxDataTreeEntries) :
    (DataTree.above pieces).Exact := by
  have bound := fun group => @mem_chunks _ _ entries_positive pieces group
  rcases above_cases pieces with ⟨piece, -, shape⟩ | ⟨group, single, -, shape⟩ | ⟨-, shape⟩
  · rw [shape]
    exact trivial
  · rw [shape]
    exact ⟨(bound group (by rw [single]; exact List.mem_singleton_self group)).2, rfl⟩
  · rw [shape, DataTree.Exact, flatMap_groups, List.length_map, chunks_flatten entries_positive]
    refine ⟨fits, rfl, fun group member => ?_⟩
    obtain ⟨leaves, there, rfl⟩ := List.mem_map.mp member
    exact ⟨(bound leaves there).2, rfl⟩

/-- The levels of the tree, by the number of its leaves. -/
theorem above_levels (some : pieces ≠ []) :
    (DataTree.above pieces).levels =
      if pieces.length = 1 then 0 else if pieces.length ≤ maxDataTreeEntries then 1 else 2 := by
  by_cases one : pieces.length = 1
  · obtain ⟨piece, rfl⟩ := List.length_eq_one_iff.mp one
    rfl
  · by_cases fits : pieces.length ≤ maxDataTreeEntries
    · rw [if_neg one, if_pos fits, above_xblock one some fits]
      rfl
    · have many : (chunks maxDataTreeEntries pieces).length ≠ 1 := by
        intro single
        obtain ⟨group, only⟩ := List.length_eq_one_iff.mp single
        have whole := chunks_flatten entries_positive pieces
        have member : group ∈ chunks maxDataTreeEntries pieces := by
          rw [only]
          exact List.mem_singleton_self group
        rw [only, List.flatten_singleton] at whole
        rw [← whole] at fits
        exact fits (mem_chunks entries_positive member).2
      rw [if_neg one, if_neg fits, above_xxblock many]
      rfl

/-- No exact tree with at least as many leaves has fewer levels. -/
theorem above_least (some : pieces ≠ []) {tree : DataTree} (exact : tree.Exact)
    (enough : pieces.length ≤ tree.leaves.length) :
      (DataTree.above pieces).levels ≤ tree.levels := by
  have length := List.length_pos_of_ne_nil some
  rw [above_levels some]
  cases tree with
  | leaf bytes =>
      have one : pieces.length = 1 := Nat.le_antisymm enough length
      rw [if_pos one]
      exact Nat.le_refl 0
  | xblock total leaves =>
      have fits : pieces.length ≤ maxDataTreeEntries := enough.trans exact.1
      rw [if_pos fits]
      split
      case isTrue => exact Nat.zero_le 1
      case isFalse => exact Nat.le_refl 1
  | xxblock total groups =>
      split
      case isTrue => exact Nat.zero_le 2
      case isFalse =>
        split
        case isTrue => exact Nat.le_succ 1
        case isFalse => exact Nat.le_refl 2

/-- Leaves of at most so many bytes are at least as many as the full pieces of what they hold. -/
theorem length_chunks_le {size : Nat} (positive : 0 < size) {leaves : List Bytes}
    (short : ∀ leaf ∈ leaves, leaf.length ≤ size) :
    (chunks size leaves.flatten).length ≤ leaves.length := by
  have bound : leaves.flatten.length ≤ leaves.length * size := by
    rw [List.length_flatten]
    have each := List.sum_le_card_nsmul (leaves.map List.length) size fun count member => by
      obtain ⟨leaf, there, rfl⟩ := List.mem_map.mp member
      exact short leaf there
    rwa [List.length_map, smul_eq_mul] at each
  have fewer := divCeil_mul_lt leaves.flatten.length positive
  rw [length_chunks positive]
  by_contra more
  have next : (leaves.length + 1) * size ≤ divCeil leaves.flatten.length size * size :=
    Nat.mul_le_mul_right size (Nat.not_le.mp more)
  rw [Nat.succ_mul] at next
  omega

end Shape

section Blocks

/-- A block holds a leaf. -/
def HoldsLeaf (blocks : List BlockSpec) (leaf : BlockId × Nat) (piece : Bytes) : Prop :=
  leaf.1.isInternal = false ∧ leaf.2 = piece.length ∧ ⟨leaf.1, .data piece, 2⟩ ∈ blocks

/-- A level-one block stands over a group of leaves. -/
def HoldsXBlock (blocks : List BlockSpec) (xblock : BlockId × Nat) (group : List Bytes) : Prop :=
  xblock.1.isInternal = true ∧ xblock.2 = totalSize group ∧
    ∃ leaves, List.Forall₂ (HoldsLeaf blocks) leaves group ∧
      dataTreeSpec xblock.1 1 xblock.2 leaves ∈ blocks

/-- The blocks hold a tree under a root. -/
def HoldsTree (blocks : List BlockSpec) (root : BlockId) : DataTree → Prop
  | .leaf bytes => HoldsLeaf blocks (root, bytes.length) bytes
  | .xblock total leaves => HoldsXBlock blocks (root, total) leaves
  | .xxblock total groups => root.isInternal = true ∧ total = totalSize (groups.flatMap (·.2)) ∧
      ∃ xblocks : List (BlockId × Nat), List.Forall₂ (fun xblock group =>
        xblock.2 = group.1 ∧ HoldsXBlock blocks xblock group.2) xblocks groups ∧
        dataTreeSpec root 2 total xblocks ∈ blocks

/-- The blocks are numbered one after another from an index on. -/
def Numbered (first : Nat) (blocks : List BlockSpec) : Prop :=
  blocks.map (·.id.index) = List.range' first blocks.length

variable {blocks more : List BlockSpec} {first : Nat} {root : BlockId} {tree : DataTree}

theorem HoldsLeaf.mono (within : blocks ⊆ more) {leaf : BlockId × Nat} {piece : Bytes}
    (holds : HoldsLeaf blocks leaf piece) : HoldsLeaf more leaf piece :=
  ⟨holds.1, holds.2.1, within holds.2.2⟩

theorem HoldsXBlock.mono (within : blocks ⊆ more) {xblock : BlockId × Nat} {group : List Bytes}
    (holds : HoldsXBlock blocks xblock group) : HoldsXBlock more xblock group := by
  obtain ⟨kind, size, leaves, below, there⟩ := holds
  exact ⟨kind, size, leaves, below.imp fun _ _ leaf => leaf.mono within, within there⟩

theorem HoldsTree.mono (within : blocks ⊆ more) (holds : HoldsTree blocks root tree) :
    HoldsTree more root tree := by
  cases tree with
  | leaf bytes => exact HoldsLeaf.mono within holds
  | xblock total leaves => exact HoldsXBlock.mono within holds
  | xxblock total groups =>
      obtain ⟨kind, size, xblocks, below, there⟩ := holds
      exact ⟨kind, size, xblocks, below.imp fun _ _ group => ⟨group.1, group.2.mono within⟩,
        within there⟩

theorem Numbered.append (numbered : Numbered first blocks)
    (later : Numbered (first + blocks.length) more) : Numbered first (blocks ++ more) := by
  rw [Numbered, List.map_append, numbered, later, List.length_append, List.range'_append_1]

theorem Numbered.single {block : BlockSpec} (index : block.id.index = first) :
    Numbered first [block] := by
  rw [Numbered, List.map_singleton, index]
  rfl

theorem Numbered.nodup (numbered : Numbered first blocks) : (blockIds blocks).Nodup := by
  have distinct : (blocks.map fun block => block.id.index).Nodup := by
    rw [numbered]
    exact List.nodup_range'
  refine List.Nodup.of_map BlockId.index ?_
  rwa [blockIds, List.map_map]

theorem payloadOf_eq (distinct : (blockIds blocks).Nodup) {block : BlockSpec}
    (member : block ∈ blocks) : payloadOf blocks block.id = some block.payload := by
  induction blocks with
  | nil => cases member
  | cons head rest ih =>
      obtain ⟨new, others⟩ := List.nodup_cons.mp distinct
      rcases List.mem_cons.mp member with rfl | later
      · rw [payloadOf, List.find?_cons, decide_eq_true rfl]
        rfl
      · have different : head.id ≠ block.id := fun same =>
          new (List.mem_map.mpr ⟨block, later, same.symm⟩)
        rw [payloadOf, List.find?_cons_of_neg (by rwa [decide_eq_true_eq])]
        exact ih others later

/-- A payload that is found in some blocks is found in more of them. -/
theorem payloadOf_mono (within : blocks ⊆ more) (distinct : (blockIds more).Nodup) {id : BlockId}
    {payload : BlockPayload} (found : payloadOf blocks id = some payload) :
    payloadOf more id = some payload := by
  obtain ⟨block, there, rfl⟩ := Option.map_eq_some_iff.mp found
  have own : block.id = id := by simpa using List.find?_some there
  rw [← own]
  exact payloadOf_eq distinct (within (List.mem_of_find?_eq_some there))

/-- Reading entry by entry. -/
theorem mapM_some {α β : Type} {read : α → Option β} {source : List α} {target : List β}
    (reads : List.Forall₂ (fun entry value => read entry = some value) source target) :
    source.mapM read = some target := by
  induction reads with
  | nil => rfl
  | cons head _ ih =>
      rw [List.mapM_cons, head, ih]
      rfl

theorem HoldsLeaf.reads (distinct : (blockIds blocks).Nodup) {leaf : BlockId × Nat} {piece : Bytes}
    (holds : HoldsLeaf blocks leaf piece) : readLeaf (payloadOf blocks) leaf.1 = some piece := by
  have payload := payloadOf_eq distinct holds.2.2
  rw [readLeaf, holds.1, payload]

theorem HoldsXBlock.reads (distinct : (blockIds blocks).Nodup) {xblock : BlockId × Nat}
    {group : List Bytes} (holds : HoldsXBlock blocks xblock group) :
    readXBlock (payloadOf blocks) xblock.1 = some (xblock.2, group) := by
  obtain ⟨kind, size, leaves, below, there⟩ := holds
  have payload := payloadOf_eq distinct there
  have leavesRead : (leaves.map (·.1)).mapM (readLeaf (payloadOf blocks)) = some group :=
    mapM_some (List.forall₂_map_left_iff.mpr (below.imp fun _ _ leaf => leaf.reads distinct))
  rw [dataTreeSpec] at payload
  rw [readXBlock, kind, payload]
  simp only [leavesRead, Option.bind_eq_bind, Option.bind_some, if_pos size.symm]

/-- What some blocks hold is read from them. -/
theorem HoldsTree.reads (distinct : (blockIds blocks).Nodup) (holds : HoldsTree blocks root tree) :
    readDataTree (payloadOf blocks) root = some tree := by
  cases tree with
  | leaf bytes =>
      have there := HoldsLeaf.reads distinct holds
      rw [readDataTree, holds.1, there]
      rfl
  | xblock total leaves =>
      have there := HoldsXBlock.reads distinct holds
      obtain ⟨kind, -, below, -, member⟩ := holds
      have payload := payloadOf_eq distinct member
      rw [dataTreeSpec] at payload
      rw [readDataTree, kind, payload]
      simp only [there, Option.map_some]
  | xxblock total groups =>
      obtain ⟨kind, size, xblocks, below, member⟩ := holds
      have payload := payloadOf_eq distinct member
      have groupsRead : (xblocks.map (·.1)).mapM (readXBlock (payloadOf blocks)) = some groups := by
        refine mapM_some (List.forall₂_map_left_iff.mpr (below.imp fun xblock group holds => ?_))
        rw [HoldsXBlock.reads distinct holds.2, holds.1]
      rw [dataTreeSpec] at payload
      rw [readDataTree, kind, payload]
      simp only [groupsRead, Option.bind_eq_bind, Option.bind_some, if_pos size.symm]

end Blocks

section Builders

/-- Blocks that a builder made for some pieces: a tree of the least shape over them and nothing
else, under identifiers that were taken one after another. -/
structure MakesTree (first : Nat) (pieces : List Bytes) (root : BlockId)
    (blocks : List BlockSpec) : Prop where
  holds : HoldsTree blocks root (.above pieces)
  exact : (DataTree.above pieces).Exact
  numbered : Numbered first blocks
  count : blocks.length = (DataTree.above pieces).blockCount

theorem MakesTree.reads {first : Nat} {pieces : List Bytes} {root : BlockId}
    {blocks : List BlockSpec} (makes : MakesTree first pieces root blocks) :
    readDataTree (payloadOf blocks) root = some (.above pieces) :=
  makes.holds.reads makes.numbered.nodup

theorem groupTotal_ok {what : String} {group : List (BlockId × Nat)} {total : Nat}
    (hrun : groupTotal what group = .ok total) : total = (group.map (·.2)).sum := by
  rw [groupTotal, okOr_eq_ok, tryFrom_eq_some] at hrun
  exact hrun.1

theorem leaves_total {blocks : List BlockSpec} {leaves : List (BlockId × Nat)}
    {pieces : List Bytes} (holds : List.Forall₂ (HoldsLeaf blocks) leaves pieces) :
    (leaves.map (·.2)).sum = totalSize pieces := by
  induction holds with
  | nil => rfl
  | cons head _ ih => rw [List.map_cons, List.sum_cons, ih, head.2.1, totalSize, totalSize,
      List.map_cons, List.sum_cons]

theorem xblocks_total {blocks : List BlockSpec} {xblocks : List (BlockId × Nat)}
    {groups : List (List Bytes)} (holds : List.Forall₂ (HoldsXBlock blocks) xblocks groups) :
    (xblocks.map (·.2)).sum = totalSize groups.flatten := by
  induction holds with
  | nil => rfl
  | cons head _ ih => rw [List.map_cons, List.sum_cons, ih, head.2.1, List.flatten_cons,
      totalSize_append]

theorem appendLeaves_holds {pieces : List Bytes} : ∀ {counters final : Counters}
    {leaves : List (BlockId × Nat)} {blocks : List BlockSpec},
    appendLeaves pieces counters = .ok (leaves, blocks) final →
      List.Forall₂ (HoldsLeaf blocks) leaves pieces ∧ Numbered counters.nextBlockIndex blocks ∧
        blocks.length = pieces.length ∧
        final.nextBlockIndex = counters.nextBlockIndex + blocks.length := by
  induction pieces with
  | nil =>
      intro counters final leaves blocks hrun
      simp only [appendLeaves, pure_run_ok, Prod.mk.injEq] at hrun
      obtain ⟨⟨rfl, rfl⟩, rfl⟩ := hrun
      exact ⟨.nil, rfl, rfl, rfl⟩
  | cons piece rest ih =>
      intro counters final leaves blocks hrun
      simp only [appendLeaves, bind_run_ok] at hrun
      obtain ⟨id, taken, htake, ⟨others, inner⟩, ended, hrest, hpure⟩ := hrun
      simp only [pure_run_ok, Prod.mk.injEq] at hpure
      obtain ⟨⟨rfl, rfl⟩, rfl⟩ := hpure
      obtain ⟨index, kind, rfl⟩ := takeBlockId_ok htake
      obtain ⟨holds, numbered, count, moved⟩ := ih hrest
      have own : HoldsLeaf (⟨id, .data piece, 2⟩ :: inner) (id, piece.length) piece :=
        ⟨kind, rfl, List.mem_cons_self⟩
      refine ⟨.cons own (holds.imp fun _ _ leaf => leaf.mono
        (List.subset_cons_self _ _)), ?_, ?_, ?_⟩
      · exact (Numbered.single index).append numbered
      · rw [List.length_cons, List.length_cons, count]
      · rw [moved, List.length_cons, Nat.add_comm inner.length 1, ← Nat.add_assoc]

/-- The pages of a heap become leaves like the pieces of a byte string. -/
theorem appendPages_leaves {pages : List Bytes} : ∀ {counters final : Counters}
    {made : List (BlockId × Nat) × List BlockSpec},
    appendDataTreePages.appendPages pages counters = .ok made final →
      appendLeaves pages counters = .ok made final := by
  induction pages with
  | nil => exact id
  | cons page rest ih =>
      intro counters final made hrun
      simp only [appendDataTreePages.appendPages, bind_run_ok, attempt_run_ok] at hrun
      obtain ⟨_, _, ⟨-, rfl⟩, id, taken, htake, more, ended, hrest, hpure⟩ := hrun
      simp only [appendLeaves, bind_run_ok]
      exact ⟨id, taken, htake, more, ended, ih hrest, hpure⟩

/-- What is needed of the step that names a group of leaves: it records their size. -/
def Totals (describe : List (BlockId × Nat) → Ids (BlockId × Nat)) : Prop :=
  ∀ group counters id total final, describe group counters = .ok (id, total) final →
    total = (group.map (·.2)).sum

theorem appendXBlocks_holds {describe : List (BlockId × Nat) → Ids (BlockId × Nat)}
    (describes : Describes describe) (totals : Totals describe) {held : List BlockSpec}
    {groups : List (List (BlockId × Nat))} {pieces : List (List Bytes)}
    (below : List.Forall₂ (List.Forall₂ (HoldsLeaf held)) groups pieces) :
    ∀ {counters final : Counters} {xblocks : List (BlockId × Nat)} {blocks : List BlockSpec},
      appendXBlocks describe groups counters = .ok (xblocks, blocks) final →
        List.Forall₂ (HoldsXBlock (held ++ blocks)) xblocks pieces ∧
          Numbered counters.nextBlockIndex blocks ∧ blocks.length = pieces.length ∧
          final.nextBlockIndex = counters.nextBlockIndex + blocks.length := by
  induction below with
  | nil =>
      intro counters final xblocks blocks hrun
      simp only [appendXBlocks, pure_run_ok, Prod.mk.injEq] at hrun
      obtain ⟨⟨rfl, rfl⟩, rfl⟩ := hrun
      exact ⟨.nil, rfl, rfl, rfl⟩
  | @cons group piece groups pieces head _ ih =>
      intro counters final xblocks blocks hrun
      simp only [appendXBlocks, bind_run_ok] at hrun
      obtain ⟨⟨id, total⟩, taken, htake, ⟨others, inner⟩, ended, hrest, hpure⟩ := hrun
      simp only [pure_run_ok, Prod.mk.injEq] at hpure
      obtain ⟨⟨rfl, rfl⟩, rfl⟩ := hpure
      obtain ⟨index, internal, moved⟩ := describes _ _ _ _ _ htake
      have size : total = totalSize piece := by
        rw [totals _ _ _ _ _ htake, leaves_total head]
      obtain ⟨holds, numbered, count, counted⟩ := ih hrest
      have wider : held ++ inner ⊆ held ++ dataTreeSpec id 1 total group :: inner :=
        List.append_subset.mpr ⟨List.subset_append_left _ _,
          List.subset_append_of_subset_right _ (List.subset_cons_self _ _)⟩
      have own : HoldsXBlock (held ++ dataTreeSpec id 1 total group :: inner) (id, total) piece :=
        ⟨internal, size, group, head.imp fun _ _ leaf => leaf.mono (List.subset_append_left _ _),
          List.mem_append_right _ List.mem_cons_self⟩
      refine ⟨.cons own (holds.imp fun _ _ xblock => xblock.mono wider), ?_, ?_, ?_⟩
      · rw [moved] at numbered
        exact (Numbered.single index).append numbered
      · rw [List.length_cons, List.length_cons, count]
      · rw [counted, moved, List.length_cons]
        omega

/-- Blocks over leaves that are there already make the tree over them. -/
theorem closeDataTree_holds {describe : List (BlockId × Nat) → Ids (BlockId × Nat)}
    (describes : Describes describe) (totals : Totals describe) {tooMany tooLarge : String}
    {held : List BlockSpec} {leaves : List (BlockId × Nat)} {pieces : List Bytes} {first : Nat}
    (below : List.Forall₂ (HoldsLeaf held) leaves pieces) (some : pieces ≠ [])
    (numbered : Numbered first held) (count : held.length = pieces.length)
    {counters final : Counters} (start : counters.nextBlockIndex = first + held.length)
    {root : BlockId} {blocks : List BlockSpec}
    (hrun : closeDataTree describe tooMany tooLarge leaves counters = .ok (root, blocks) final) :
    MakesTree first pieces root (held ++ blocks) := by
  unfold closeDataTree at hrun
  dsimp only at hrun
  split at hrun
  case h_1 id size =>
    simp only [pure_run_ok, Prod.mk.injEq] at hrun
    obtain ⟨⟨rfl, rfl⟩, rfl⟩ := hrun
    obtain ⟨piece, leaf, rfl⟩ : ∃ piece, HoldsLeaf held (root, size) piece ∧ pieces = [piece] := by
      cases below with
      | cons head tail =>
          cases tail
          exact ⟨_, head, rfl⟩
    rw [List.append_nil]
    exact ⟨⟨leaf.1, rfl, leaf.2.2⟩, trivial, numbered, count⟩
  case h_2 several =>
    obtain ⟨⟨xblocks, inner⟩, middle, hx, hrun⟩ := bind_run_ok.mp hrun
    have groups := forall₂_chunks entries_positive below
    obtain ⟨holds, later, groupCount, moved⟩ := appendXBlocks_holds describes totals groups hx
    rw [start] at later moved
    have notOne : pieces.length ≠ 1 := by
      intro one
      rw [← below.length_eq] at one
      obtain ⟨⟨id, size⟩, single⟩ := List.length_eq_one_iff.mp one
      exact several id size single
    dsimp only at hrun
    split at hrun
    case h_1 id size =>
      simp only [pure_run_ok, Prod.mk.injEq] at hrun
      obtain ⟨⟨rfl, rfl⟩, rfl⟩ := hrun
      obtain ⟨group, own, one⟩ : ∃ group, HoldsXBlock (held ++ blocks) (root, size) group ∧
          chunks maxDataTreeEntries pieces = [group] := by
        generalize hcut : chunks maxDataTreeEntries pieces = cut at holds
        cases holds with
        | cons head tail =>
            cases tail
            exact ⟨_, head, rfl⟩
      obtain rfl : pieces = group := by
        have whole := chunks_flatten entries_positive pieces
        rwa [one, List.flatten_singleton, eq_comm] at whole
      have fits : pieces.length ≤ maxDataTreeEntries :=
        (mem_chunks entries_positive (by rw [one]; exact List.mem_singleton_self pieces)).2
      have shape := above_xblock notOne some fits
      refine ⟨?_, ?_, numbered.append later, ?_⟩
      · rw [shape, HoldsTree, ← own.2.1]
        exact own
      · rw [shape]
        exact ⟨fits, rfl⟩
      · rw [shape, List.length_append, count, groupCount, one]
        rfl
    case h_2 many =>
      simp only [bind_run_ok, attempt_run_ok] at hrun
      obtain ⟨_, _, ⟨hfits, rfl⟩, total, _, ⟨htotal, rfl⟩, id, taken, htake, hpure⟩ := hrun
      simp only [pure_run_ok, Prod.mk.injEq] at hpure
      obtain ⟨⟨rfl, rfl⟩, rfl⟩ := hpure
      obtain ⟨index, internal, -⟩ := takeBlockId_ok htake
      have manyGroups : (chunks maxDataTreeEntries pieces).length ≠ 1 := by
        intro one
        rw [← holds.length_eq] at one
        obtain ⟨⟨id, size⟩, single⟩ := List.length_eq_one_iff.mp one
        exact many id size single
      have shape := above_xxblock manyGroups
      have fits : (chunks maxDataTreeEntries pieces).length ≤ maxDataTreeEntries := by
        rw [← holds.length_eq]
        exact Nat.not_lt.mp (refuse_eq_ok.mp hfits)
      have size : total = totalSize pieces := by
        rw [groupTotal_ok htotal, xblocks_total holds, chunks_flatten entries_positive]
      have wider : held ++ inner ⊆ held ++ (inner ++ [dataTreeSpec root 2 total xblocks]) := by
        rw [← List.append_assoc]
        exact List.subset_append_left _ _
      refine ⟨?_, above_exact fits, ?_, ?_⟩
      · rw [shape, HoldsTree, flatMap_groups, chunks_flatten entries_positive, ← size]
        refine ⟨internal, rfl, xblocks, List.forall₂_map_right_iff.mpr ?_, ?_⟩
        · exact holds.imp fun xblock group own => ⟨own.2.1, own.mono wider⟩
        · exact List.mem_append_right _ (List.mem_append_right _ (List.mem_singleton_self _))
      · refine numbered.append (later.append (Numbered.single ?_))
        rw [dataTreeSpec, index, moved]
      · rw [shape, DataTree.blockCount, flatMap_groups, chunks_flatten entries_positive,
          List.length_append, List.length_append, count, groupCount, List.length_map,
          List.length_singleton, Nat.add_assoc]

theorem totals_sized : Totals fun group => do
    let id ← takeBlockId true
    let total ← attempt (groupTotal "data-tree size" group)
    return (id, total) := by
  intro group counters id total final hrun
  simp only [bind_run_ok, attempt_run_ok, pure_run_ok, Prod.mk.injEq] at hrun
  obtain ⟨taken, middle, htake, size, _, ⟨htotal, rfl⟩, ⟨rfl, rfl⟩, rfl⟩ := hrun
  exact groupTotal_ok htotal

theorem totals_pages : Totals fun group => do
    let total ← attempt (groupTotal "heap data-tree size" group)
    let id ← takeBlockId true
    return (id, total) := by
  intro group counters id total final hrun
  simp only [bind_run_ok, attempt_run_ok, pure_run_ok, Prod.mk.injEq] at hrun
  obtain ⟨size, _, ⟨htotal, rfl⟩, taken, middle, htake, ⟨rfl, rfl⟩, rfl⟩ := hrun
  exact groupTotal_ok htotal

/-- The blocks of a byte string are the tree over its pieces. -/
theorem appendDataTreeSized_makes {bytes : Bytes} {chunkSize : Nat} (positive : 0 < chunkSize)
    (some : bytes ≠ []) {counters final : Counters} {root : BlockId} {blocks : List BlockSpec}
    (hrun : appendDataTreeSized bytes chunkSize counters = .ok (root, blocks) final) :
    MakesTree counters.nextBlockIndex (chunks chunkSize bytes) root blocks := by
  simp only [appendDataTreeSized, bind_run_ok] at hrun
  obtain ⟨⟨leaves, leafBlocks⟩, middle, hleaves, ⟨top, inner⟩, ended, hclose, hpure⟩ := hrun
  simp only [pure_run_ok, Prod.mk.injEq] at hpure
  obtain ⟨⟨rfl, rfl⟩, rfl⟩ := hpure
  obtain ⟨holds, numbered, count, moved⟩ := appendLeaves_holds hleaves
  exact closeDataTree_holds describes_sized totals_sized holds (chunks_ne_nil positive some)
    numbered count moved hclose

/-- All pieces but the last one filled up with zeros to the full block payload. -/
theorem framed_pieces {size total start : Nat} {pieces : List Bytes}
    (before : start + pieces.length < total) :
    (pieces.zipIdx start).flatMap (fun (piece, index) =>
      if index + 1 < total then piece ++ List.replicate (size - piece.length) 0 else piece) =
      (pieces.map fun piece => piece ++ List.replicate (size - piece.length) 0).flatten := by
  induction pieces generalizing start with
  | nil => rfl
  | cons piece pieces ih =>
      rw [List.length_cons] at before
      have rest := @ih (start + 1) (by omega)
      rw [List.zipIdx_cons, List.flatMap_cons, rest, List.map_cons, List.flatten_cons]
      exact congrArg (· ++ _) (if_pos (by omega : start + 1 < total))

/-- All pieces filled up but the last one, which stays as it is. -/
theorem framed_all {size : Nat} (init : List Bytes) (last : Bytes) :
    (init ++ [last]).zipIdx.flatMap (fun (piece, index) =>
      if index + 1 < (init ++ [last]).length then
        piece ++ List.replicate (size - piece.length) 0 else piece) =
      (init.map fun piece => piece ++ List.replicate (size - piece.length) 0).flatten ++ last := by
  have short : 0 + init.length < (init ++ [last]).length := by
    rw [List.length_append, List.length_singleton]
    omega
  rw [List.zipIdx_append, List.flatMap_append, framed_pieces short]
  simp

/-- The row matrix of a table is read back from the leaves of its tree, where the rows of a leaf
are followed by less than a row. -/
theorem appendRowMatrixDataTree_makes {bytes : Bytes} {rowSize count : Nat} (some : bytes ≠ [])
    (rows : bytes.length = count * rowSize) {counters final : Counters} {root : BlockId}
    {blocks : List BlockSpec}
    (hrun : appendRowMatrixDataTree bytes rowSize counters = .ok (root, blocks) final) :
    ∃ leaves, MakesTree counters.nextBlockIndex leaves root blocks ∧
      leaves.flatMap (fun leaf => leaf.take (leaf.length / rowSize * rowSize)) = bytes := by
  simp only [appendRowMatrixDataTree, bind_run_ok, attempt_run_ok, refuse_eq_ok, not_or,
    Nat.not_lt] at hrun
  obtain ⟨_, _, ⟨⟨nonzero, narrow⟩, rfl⟩, hrun⟩ := hrun
  have positive : 0 < rowSize := Nat.pos_of_ne_zero nonzero
  have most : 8176 / rowSize * rowSize ≤ 8176 := Nat.div_mul_le_self _ _
  have least : 0 < 8176 / rowSize * rowSize := Nat.mul_pos (Nat.div_pos narrow positive) positive
  have whole := chunks_flatten least bytes
  have full := chunks_full least (Nat.le_refl bytes.length)
  have each := fun piece (member : piece ∈ chunks _ bytes) => mem_chunks least member
  obtain ⟨init, last, cut⟩ : ∃ init last, chunks (8176 / rowSize * rowSize) bytes =
    init ++ [last] :=
    ⟨_, _, (List.dropLast_append_getLast (chunks_ne_nil least some)).symm⟩
  rw [cut] at whole full each hrun
  rw [List.dropLast_concat] at full
  obtain ⟨lastSome, lastShort⟩ := each last (List.mem_append_right _ (List.mem_singleton_self _))
  rw [framed_all, appendDataTree] at hrun
  have padded : ∀ piece ∈ init.map fun piece => piece ++ List.replicate (8176 - piece.length) 0,
      piece.length = 8176 := by
    intro piece member
    obtain ⟨source, there, rfl⟩ := List.mem_map.mp member
    rw [List.length_append, List.length_replicate, full source there]
    omega
  have makes := appendDataTreeSized_makes (by decide) (by simp [lastSome]) hrun
  rw [chunks_flatten_append (by decide) padded lastSome (lastShort.trans most)] at makes
  have rowsOf : ∀ piece ∈ init, (piece ++ List.replicate (8176 - piece.length) 0).take
      ((piece ++ List.replicate (8176 - piece.length) 0).length / rowSize * rowSize) = piece := by
    intro piece member
    have length := padded _ (List.mem_map_of_mem member)
    rw [length, List.take_left' (full piece member)]
  have lastRows : last.length / rowSize * rowSize = last.length := by
    have cutLength : bytes.length = init.length * (8176 / rowSize * rowSize) + last.length := by
      rw [← whole, List.flatten_append, List.length_append, List.length_flatten,
        List.map_congr_left full, List.map_const', List.sum_replicate, smul_eq_mul,
        List.flatten_singleton]
    have before : rowSize ∣ init.length * (8176 / rowSize * rowSize) :=
      Dvd.dvd.mul_left (Nat.dvd_mul_left _ _) _
    have divides : rowSize ∣ last.length := by
      rw [← Nat.dvd_add_right before, ← cutLength, rows]
      exact Nat.dvd_mul_left _ _
    exact Nat.div_mul_cancel divides
  refine ⟨_, makes, ?_⟩
  rw [List.flatMap_append, List.flatMap_singleton, lastRows, List.take_length, List.flatMap_map,
    List.flatMap_def, List.map_congr_left rowsOf, List.map_id', ← whole, List.flatten_append,
    List.flatten_singleton]

/-- The blocks of the pages of a heap are the tree over the pages. -/
theorem appendDataTreePages_makes {pages : List Bytes} {counters final : Counters} {root : BlockId}
    {blocks : List BlockSpec}
    (hrun : appendDataTreePages pages counters = .ok (root, blocks) final) :
    MakesTree counters.nextBlockIndex pages root blocks := by
  simp only [appendDataTreePages, bind_run_ok, attempt_run_ok] at hrun
  obtain ⟨_, _, ⟨hsome, rfl⟩, ⟨leaves, leafBlocks⟩, middle, hleaves, ⟨top, inner⟩, ended, hclose,
    hpure⟩ := hrun
  simp only [pure_run_ok, Prod.mk.injEq] at hpure
  obtain ⟨⟨rfl, rfl⟩, rfl⟩ := hpure
  have some : pages ≠ [] := by
    rintro rfl
    exact refuse_eq_ok.mp hsome rfl
  obtain ⟨holds, numbered, count, moved⟩ := appendLeaves_holds (appendPages_leaves hleaves)
  exact closeDataTree_holds describes_pages totals_pages holds some numbered count moved hclose

end Builders

section Success

theorem takeBlockId_runs (kind : Bool) {counters : Counters}
    (room : counters.nextBlockIndex < 2 ^ 62) :
    ∃ id, takeBlockId kind counters =
      .ok id { counters with nextBlockIndex := counters.nextBlockIndex + 1 } := by
  have formed : ∃ id, (if kind then internalBid counters.nextBlockIndex
      else leafBid counters.nextBlockIndex) = .ok id := by
    cases kind with
    | true => exact ⟨_, if_pos room⟩
    | false => exact ⟨_, if_pos room⟩
  obtain ⟨id, formed⟩ := formed
  have next : okOr (.valueTooLarge "block id") (checkedAdd 64 counters.nextBlockIndex 1) =
      (.ok (counters.nextBlockIndex + 1) : Except WriterError Nat) := by
    rw [okOr_eq_ok, checkedAdd_eq_some, wordCount]
    exact ⟨rfl, by omega⟩
  refine ⟨id, ?_⟩
  simp only [takeBlockId, bind_run_ok, get_run_ok, attempt_run_ok, modify_run_ok]
  exact ⟨counters, counters, ⟨rfl, rfl⟩, _, counters, ⟨next, rfl⟩, ⟨⟩, _, rfl, formed, rfl⟩

theorem groupTotal_runs (what : String) {group : List (BlockId × Nat)}
    (small : (group.map (·.2)).sum < wordCount 32) :
    groupTotal what group = .ok (group.map (·.2)).sum := by
  rw [groupTotal, okOr_eq_ok, tryFrom_eq_some]
  exact ⟨rfl, small⟩

theorem appendLeaves_runs {pieces : List Bytes} : ∀ {counters : Counters},
    counters.nextBlockIndex + pieces.length ≤ 2 ^ 62 → ∃ leaves blocks,
      appendLeaves pieces counters = .ok (leaves, blocks)
        { counters with nextBlockIndex := counters.nextBlockIndex + pieces.length } ∧
      leaves.map (·.2) = pieces.map List.length := by
  induction pieces with
  | nil => exact fun _ => ⟨[], [], rfl, rfl⟩
  | cons piece rest ih =>
      intro counters room
      rw [List.length_cons] at room
      obtain ⟨id, taken⟩ := takeBlockId_runs false (by omega : counters.nextBlockIndex < 2 ^ 62)
      obtain ⟨leaves, blocks, others, sizes⟩ := @ih
        { counters with nextBlockIndex := counters.nextBlockIndex + 1 } (by dsimp only; omega)
      refine ⟨(id, piece.length) :: leaves, ⟨id, .data piece, 2⟩ :: blocks, ?_, ?_⟩
      · simp only [appendLeaves, bind_run_ok, pure_run_ok]
        refine ⟨id, _, taken, _, _, others, rfl, ?_⟩
        rw [List.length_cons, Nat.add_comm rest.length 1, Nat.add_assoc]
      · rw [List.map_cons, List.map_cons, sizes]

/-- Leaves of small pages are made like the pieces of a byte string. -/
theorem appendPages_eq {pages : List Bytes} (small : ∀ page ∈ pages, page.length ≤ 8176) :
    appendDataTreePages.appendPages pages = appendLeaves pages := by
  induction pages with
  | nil => rfl
  | cons page rest ih =>
      have fits : refuse (8176 < page.length) (WriterError.valueTooLarge
          "heap data page") = .ok () :=
        refuse_eq_ok.mpr (Nat.not_lt.mpr (small page List.mem_cons_self))
      rw [appendDataTreePages.appendPages, appendLeaves, fits,
        ih fun other member => small other (List.mem_cons_of_mem _ member)]
      rfl

/-- What is needed of the step that names a group of leaves: it succeeds on small groups. -/
def Ready (describe : List (BlockId × Nat) → Ids (BlockId × Nat)) : Prop :=
  ∀ group counters, (group.map (·.2)).sum < wordCount 32 → counters.nextBlockIndex < 2 ^ 62 →
    ∃ id, describe group counters = .ok (id, (group.map (·.2)).sum)
      { counters with nextBlockIndex := counters.nextBlockIndex + 1 }

theorem ready_sized : Ready fun group => do
    let id ← takeBlockId true
    let total ← attempt (groupTotal "data-tree size" group)
    return (id, total) := by
  intro group counters small room
  obtain ⟨id, taken⟩ := takeBlockId_runs true room
  refine ⟨id, ?_⟩
  simp only [bind_run_ok, attempt_run_ok, pure_run_ok]
  exact ⟨id, _, taken, _, _, ⟨groupTotal_runs _ small, rfl⟩, rfl, rfl⟩

theorem ready_pages : Ready fun group => do
    let total ← attempt (groupTotal "heap data-tree size" group)
    let id ← takeBlockId true
    return (id, total) := by
  intro group counters small room
  obtain ⟨id, taken⟩ := takeBlockId_runs true room
  refine ⟨id, ?_⟩
  simp only [bind_run_ok, attempt_run_ok, pure_run_ok]
  exact ⟨_, _, ⟨groupTotal_runs _ small, rfl⟩, id, _, taken, rfl, rfl⟩

theorem appendXBlocks_runs {describe : List (BlockId × Nat) → Ids (BlockId × Nat)}
    (ready : Ready describe) {groups : List (List (BlockId × Nat))} : ∀ {counters : Counters},
    (groups.flatten.map (·.2)).sum < wordCount 32 →
    counters.nextBlockIndex + groups.length ≤ 2 ^ 62 → ∃ xblocks blocks,
      appendXBlocks describe groups counters = .ok (xblocks, blocks)
        { counters with nextBlockIndex := counters.nextBlockIndex + groups.length } ∧
      xblocks.length = groups.length ∧
      (xblocks.map (·.2)).sum = (groups.flatten.map (·.2)).sum := by
  induction groups with
  | nil => exact fun _ _ => ⟨[], [], rfl, rfl, rfl⟩
  | cons group groups ih =>
      intro counters small room
      rw [List.flatten_cons, List.map_append, List.sum_append] at small ⊢
      rw [List.length_cons] at room
      obtain ⟨id, described⟩ := ready group counters (by omega) (by omega)
      obtain ⟨xblocks, blocks, others, count, sizes⟩ := @ih
        { counters with nextBlockIndex := counters.nextBlockIndex + 1 } (by omega)
        (by dsimp only; omega)
      refine ⟨(id, (group.map (·.2)).sum) :: xblocks,
        dataTreeSpec id 1 (group.map (·.2)).sum group :: blocks, ?_, ?_, ?_⟩
      · simp only [appendXBlocks, bind_run_ok, pure_run_ok]
        refine ⟨_, _, described, _, _, others, rfl, ?_⟩
        rw [List.length_cons, Nat.add_comm groups.length 1, Nat.add_assoc]
      · rw [List.length_cons, List.length_cons, count]
      · rw [List.map_cons, List.sum_cons, sizes]

theorem closeDataTree_runs {describe : List (BlockId × Nat) → Ids (BlockId × Nat)}
    (ready : Ready describe) (tooMany tooLarge : String) {leaves : List (BlockId × Nat)}
    {counters : Counters} (small : (leaves.map (·.2)).sum < wordCount 32)
    (few : leaves.length ≤ maxDataTreeEntries * maxDataTreeEntries)
    (room : counters.nextBlockIndex + 1022 ≤ 2 ^ 62) :
    ∃ root blocks final, closeDataTree describe tooMany tooLarge leaves counters =
      .ok (root, blocks) final := by
  have groups : (chunks maxDataTreeEntries leaves).length ≤ 1021 := by
    rw [length_chunks entries_positive, divCeil]
    simp only [maxDataTreeEntries] at few ⊢
    omega
  rw [← chunks_flatten entries_positive leaves] at small
  obtain ⟨xblocks, blocks, closed, count, sizes⟩ :=
    (@appendXBlocks_runs _ ready _ counters) small (by omega)
  unfold closeDataTree
  dsimp only
  split
  case h_1 id size => exact ⟨id, [], counters, rfl⟩
  case h_2 =>
    simp only [bind_run_ok]
    by_cases one : ∃ id size, xblocks = [(id, size)]
    · obtain ⟨id, size, rfl⟩ := one
      exact ⟨id, blocks, _, _, _, closed, rfl⟩
    · obtain ⟨id, taken⟩ := @takeBlockId_runs true
        { counters with nextBlockIndex :=
            counters.nextBlockIndex + (chunks maxDataTreeEntries leaves).length }
        (by dsimp only; omega)
      refine ⟨id, blocks ++ [dataTreeSpec id 2 (xblocks.map (·.2)).sum xblocks],
        { counters with nextBlockIndex :=
            counters.nextBlockIndex + (chunks maxDataTreeEntries leaves).length + 1 },
        _, _, closed, ?_⟩
      dsimp only
      split
      case h_1 first size => exact absurd ⟨first, size, rfl⟩ one
      case h_2 =>
        have fits : ¬maxDataTreeEntries < xblocks.length := by
          rw [count]
          exact Nat.not_lt.mpr groups
        simp only [bind_run_ok, attempt_run_ok, pure_run_ok]
        exact ⟨⟨⟩, _, ⟨refuse_eq_ok.mpr fits, rfl⟩, _, _,
          ⟨groupTotal_runs _ (by rwa [sizes]), rfl⟩, id, _, taken, rfl, rfl⟩

/-- A byte string whose length is a 32-bit word has a tree. -/
theorem appendDataTreeSized_runs {bytes : Bytes} (small : bytes.length < wordCount 32)
    {counters : Counters} (room : counters.nextBlockIndex + 2 ^ 20 ≤ 2 ^ 62) :
    ∃ root blocks final, appendDataTreeSized bytes 8176 counters = .ok (root, blocks) final := by
  have count : (chunks 8176 bytes).length ≤ 525315 := by
    rw [length_chunks (by decide), divCeil]
    rw [wordCount] at small
    omega
  obtain ⟨leaves, blocks, made, sizes⟩ := (@appendLeaves_runs (chunks 8176 bytes) counters)
    (by omega)
  have lengths : leaves.length = (chunks 8176 bytes).length := by
    have same := congrArg List.length sizes
    rwa [List.length_map, List.length_map] at same
  have total : (leaves.map (·.2)).sum < wordCount 32 := by
    rw [sizes, ← List.length_flatten, chunks_flatten (by decide)]
    exact small
  obtain ⟨root, upper, final, closed⟩ := @closeDataTree_runs _ ready_sized "XXBLOCK entry count"
    "XXBLOCK size" _
    { counters with nextBlockIndex := counters.nextBlockIndex + (chunks 8176 bytes).length } total
    (by rw [lengths, maxDataTreeEntries]; omega) (by dsimp only; omega)
  refine ⟨root, blocks ++ upper, final, ?_⟩
  simp only [appendDataTreeSized, bind_run_ok, pure_run_ok]
  exact ⟨_, _, made, _, _, closed, rfl, rfl⟩

/-- Pages that fit their blocks, and are neither too many nor too large, have a tree. -/
theorem appendDataTreePages_runs {pages : List Bytes} (some : pages ≠ [])
    (short : ∀ page ∈ pages, page.length ≤ 8176)
    (few : pages.length ≤ maxDataTreeEntries * maxDataTreeEntries)
    (small : totalSize pages < wordCount 32) {counters : Counters}
    (room : counters.nextBlockIndex + 2 ^ 21 ≤ 2 ^ 62) :
    ∃ root blocks final, appendDataTreePages pages counters = .ok (root, blocks) final := by
  have count : pages.length ≤ 1042441 := few
  obtain ⟨leaves, blocks, made, sizes⟩ := (@appendLeaves_runs pages counters) (by omega)
  have lengths : leaves.length = pages.length := by
    have same := congrArg List.length sizes
    rwa [List.length_map, List.length_map] at same
  obtain ⟨root, upper, final, closed⟩ :=
    @closeDataTree_runs _ ready_pages "heap data-tree XBLOCK count" "heap data-tree size" _
      { counters with nextBlockIndex := counters.nextBlockIndex + pages.length }
    (by rwa [sizes]) (by rwa [lengths]) (by dsimp only; omega)
  have nonempty : ¬pages.isEmpty = true := by rwa [List.isEmpty_iff]
  refine ⟨root, blocks ++ upper, final, ?_⟩
  simp only [appendDataTreePages, bind_run_ok, attempt_run_ok, pure_run_ok, appendPages_eq short]
  exact ⟨⟨⟩, _, ⟨refuse_eq_ok.mpr nonempty, rfl⟩, _, _, made, _, _, closed, rfl, rfl⟩

end Success

end PstForge.Ndb
