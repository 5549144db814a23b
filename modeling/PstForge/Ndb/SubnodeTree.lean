import PstForge.Foundation.SearchTree
import PstForge.Ndb.DataTree

/-! # Subnode trees searched

How an entry of a subnode tree is looked up: from the root down, within the limits that a reader
sets itself, following the last child whose key is not greater than the node. The two builders
put the sorted entries into one leaf, or into leaves under one intermediate block, and every entry
is found in what they built.
-/

namespace PstForge.Ndb

open PstForge.Foundation

/-- Why a lookup fails. -/
inductive SubnodeError where
  | depthExceeded
  | entryLimitExceeded
  | cycle (block : BlockId)
  | notFound (node : NodeId)
  | unreadable
  deriving DecidableEq, Repr

/-- What a lookup has visited so far. -/
structure SubnodeTraversalBudget where
  visitedBlocks : List BlockId
  visitedEntries : Nat
  deriving DecidableEq, Repr

namespace SubnodeTraversalBudget

def observeTree (budget : SubnodeTraversalBudget) (depth entries : Nat) :
    Except SubnodeError SubnodeTraversalBudget := do
  refuse (32 < depth) .depthExceeded
  refuse (4096 < budget.visitedEntries + entries) .entryLimitExceeded
  return { budget with visitedEntries := budget.visitedEntries + entries }

def descendTo (budget : SubnodeTraversalBudget) (block : BlockId) :
    Except SubnodeError SubnodeTraversalBudget := do
  refuse (block ∈ budget.visitedBlocks) (.cycle block)
  return { budget with visitedBlocks := block :: budget.visitedBlocks }

end SubnodeTraversalBudget

section Lookup

variable (find : BlockId → Option BlockPayload) (node : NodeId)

/-- Look a node up below a block. The depth is limited, which bounds the descents. -/
def descend : (descents : Nat) → BlockPayload → (depth : Nat) → SubnodeTraversalBudget →
    Except SubnodeError LeafSubnodeEntry
  | _, .subnode entries, depth, budget => do
      let _ ← budget.observeTree depth entries.length
      okOr (.notFound node) (entries.find? (·.node.value = node.value))
  | 0, .intermediateSubnode _ _, _, _ => .error .depthExceeded
  | descents + 1, .intermediateSubnode _ entries, depth, budget => do
      let budget ← budget.observeTree depth entries.length
      let child ← okOr (.notFound node)
        (childFor (entries.map fun entry => (entry.node.value, entry.block)) node.value)
      let budget ← budget.descendTo child
      let payload ← okOr .unreadable (find child)
      descend descents payload (depth + 1) budget
  | _, _, _, _ => .error .unreadable

/-- Look a node up in the subnode tree under a root. -/
def findLeafEntry (root : BlockId) : Except SubnodeError LeafSubnodeEntry := do
  let payload ← okOr .unreadable (find root)
  descend find node 33 payload 0 ⟨[], 0⟩

end Lookup

/-- The level of a block of a subnode tree. -/
def subnodeLevel : BlockPayload → Option Nat
  | .subnode _ => some 0
  | .intermediateSubnode level _ => some level
  | _ => none

/-- Blocks that form a subnode tree over entries, under a root. -/
structure IsSubnodeTree (entries : List LeafSubnodeEntry) (root : BlockId)
    (blocks : List BlockSpec) : Prop where
  /-- Every entry is found under its node. -/
  found : ∀ entry ∈ entries, findLeafEntry (payloadOf blocks) entry.node root = .ok entry
  /-- No other node is found. -/
  absent : ∀ node, (∀ entry ∈ entries, entry.node ≠ node) →
    findLeafEntry (payloadOf blocks) node root = .error (.notFound node)
  fits : ∀ block ∈ blocks, block.payload.logicalSize ≤ 8176
  /-- The children of a block are of the level below its own. -/
  levels : ∀ block ∈ blocks, ∃ level, subnodeLevel block.payload = some level ∧
    ∀ child ∈ block.payload.references, level ≠ 0 → ∃ other ∈ blocks, other.id = child ∧
      subnodeLevel other.payload = some (level - 1)

section Holding

/-- A leaf block holds a group of entries, under the key of the first. -/
def HoldsGroup (blocks : List BlockSpec) (child : IntermediateSubnodeEntry)
    (group : List LeafSubnodeEntry) : Prop :=
  group.head?.map (·.node) = some child.node ∧ group.length ≤ subnodeLeafCapacity ∧
    ⟨child.block, .subnode group, 2⟩ ∈ blocks

/-- The blocks of a subnode tree: one leaf, or leaves under one intermediate block. -/
inductive HoldsSubnodes (entries : List LeafSubnodeEntry) (root : BlockId) :
    List BlockSpec → Prop where
  | leaf (fits : entries.length ≤ subnodeLeafCapacity) :
      HoldsSubnodes entries root [⟨root, .subnode entries, 2⟩]
  | branch {children : List IntermediateSubnodeEntry} {groups : List (List LeafSubnodeEntry)}
      {leaves : List BlockSpec} (whole : groups.flatten = entries)
      (few : children.length ≤ subnodeIntermediateCapacity)
      (below : List.Forall₂ (HoldsGroup leaves) children groups)
      (plain : ∀ leaf ∈ leaves, ∃ group, leaf.payload = .subnode group ∧
        group.length ≤ subnodeLeafCapacity) :
      HoldsSubnodes entries root (leaves ++ [⟨root, .intermediateSubnode 1 children, 2⟩])

variable {entries : List LeafSubnodeEntry} {root : BlockId} {blocks : List BlockSpec}

theorem find_leaf {node : NodeId} (group : List LeafSubnodeEntry) :
    ((group.map fun entry => (entry.node.value, entry)).find? fun entry => entry.1 = node.value) =
      (group.find? (·.node.value = node.value)).map fun entry => (entry.node.value, entry) := by
  rw [List.find?_map]
  rfl

/-- The entry of a node in a leaf block, with its key. -/
def leafSearch (node : NodeId) : Option BlockPayload → Option (Nat × LeafSubnodeEntry)
  | some (.subnode group) =>
      (group.map fun entry => (entry.node.value, entry)).find? fun entry => entry.1 = node.value
  | _ => none

/-- What is found among some blocks is found among more of them. -/
theorem findLeafEntry_mono {find find' : BlockId → Option BlockPayload} {node : NodeId}
    (more : ∀ id payload, find id = some payload → find' id = some payload)
    {entry : LeafSubnodeEntry} (found : findLeafEntry find node root = .ok entry) :
    findLeafEntry find' node root = .ok entry := by
  have below : ∀ {descents depth : Nat} {payload : BlockPayload} {budget : SubnodeTraversalBudget},
      descend find node descents payload depth budget = .ok entry →
        descend find' node descents payload depth budget = .ok entry := by
    intro descents
    induction descents with
    | zero =>
        intro depth payload budget found
        cases payload <;> exact found
    | succ descents ih =>
        intro depth payload budget found
        cases payload with
        | intermediateSubnode level entries =>
            simp only [descend, bind_eq_ok, okOr_eq_ok] at found ⊢
            obtain ⟨budget, hobserve, child, hchild, visited, hvisit, payload, hpayload,
              found⟩ := found
            exact ⟨budget, hobserve, child, hchild, visited, hvisit, payload,
              more child payload hpayload, ih found⟩
        | _ => exact found
  simp only [findLeafEntry, bind_eq_ok, okOr_eq_ok] at found ⊢
  obtain ⟨payload, hpayload, found⟩ := found
  exact ⟨payload, more root payload hpayload, below found⟩

theorem observeTree_ok {budget : SubnodeTraversalBudget} {depth entries : Nat} (low : depth ≤ 32)
    (few : budget.visitedEntries + entries ≤ 4096) : budget.observeTree depth entries =
      .ok { budget with visitedEntries := budget.visitedEntries + entries } := by
  have first : refuse (32 < depth) SubnodeError.depthExceeded = .ok () :=
    refuse_eq_ok.mpr (Nat.not_lt.mpr low)
  have second : refuse (4096 < budget.visitedEntries + entries) SubnodeError.entryLimitExceeded =
      .ok () := refuse_eq_ok.mpr (Nat.not_lt.mpr few)
  rw [SubnodeTraversalBudget.observeTree, first, second]
  rfl

theorem descend_leaf {find : BlockId → Option BlockPayload} {node : NodeId} {descents depth : Nat}
    {budget : SubnodeTraversalBudget} {group : List LeafSubnodeEntry} (low : depth ≤ 32)
    (few : budget.visitedEntries + group.length ≤ 4096) :
    descend find node descents (.subnode group) depth budget =
      okOr (.notFound node) (group.find? (·.node.value = node.value)) := by
  have seen := observeTree_ok low few
  cases descents with
  | zero => rw [descend, seen]; rfl
  | succ descents => rw [descend, seen]; rfl

/-- An entry is found under its key when the keys increase. -/
theorem find_distinct (increase : (entries.map (·.node.value)).Pairwise (· < ·))
    {entry : LeafSubnodeEntry} (member : entry ∈ entries) :
    entries.find? (·.node.value = entry.node.value) = some entry := by
  induction entries with
  | nil => cases member
  | cons head rest ih =>
      obtain ⟨first, others⟩ := List.pairwise_cons.mp increase
      rcases List.mem_cons.mp member with rfl | later
      · exact List.find?_cons_of_pos (decide_eq_true rfl)
      · have different : head.node.value ≠ entry.node.value :=
          Nat.ne_of_lt (first _ (List.mem_map_of_mem later))
        rw [List.find?_cons_of_neg (by rwa [decide_eq_true_eq]), ih others later]

/-- A lookup finds the first entry of a node, in the order of the leaves. -/
theorem HoldsSubnodes.lookup (holds : HoldsSubnodes entries root blocks)
    (distinct : (blockIds blocks).Nodup)
    (increase : (entries.map (·.node.value)).Pairwise (· < ·)) (node : NodeId) :
    findLeafEntry (payloadOf blocks) node root =
      okOr (.notFound node) (entries.find? (·.node.value = node.value)) := by
  have capacity : subnodeLeafCapacity ≤ 340 ∧ subnodeIntermediateCapacity ≤ 510 := by decide
  cases holds with
  | leaf fits =>
      have top := payloadOf_eq distinct (List.mem_singleton_self _)
      have below := (@descend_leaf (payloadOf [⟨root, .subnode entries, 2⟩]) node 33 _ ⟨[], 0⟩
        entries) (Nat.zero_le 32) (by dsimp only; omega)
      rw [findLeafEntry, top]
      exact below
  | @branch children groups leaves whole few below plain =>
      have top := payloadOf_eq distinct
        (List.mem_append_right leaves (List.mem_singleton_self _))
      dsimp only at top
      have seen := (@observeTree_ok ⟨[], 0⟩ 0 children.length)
        (Nat.zero_le _) (by dsimp only; omega)
      obtain ⟨all, allEq⟩ : ∃ all, leaves ++ [⟨root, .intermediateSubnode 1 children, 2⟩] = all :=
        ⟨_, rfl⟩
      have leafPayload : ∀ child group, HoldsGroup leaves child group →
          payloadOf all child.block = some (.subnode group) := by
        intro child group holds
        rw [← allEq]
        exact payloadOf_eq distinct (List.mem_append_left _ holds.2.2)
      rw [allEq] at top ⊢
      have keys : KeysIncrease
          (groups.map (List.map fun entry => (entry.node.value, entry))).flatten := by
        rw [KeysIncrease, ← List.map_flatten, whole]
        exact List.pairwise_map.mpr (List.pairwise_map.mp increase)
      have rows : List.Forall₂ (fun child part =>
          leafSearch node (payloadOf all child.2) = (part.find? fun entry => entry.1 = node.value) ∧
            part.head?.map (·.1) = some child.1)
          (children.map fun entry => (entry.node.value, entry.block))
          (groups.map (List.map fun entry => (entry.node.value, entry))) := by
        rw [List.forall₂_map_left_iff, List.forall₂_map_right_iff]
        refine below.imp fun child group holds => ⟨?_, ?_⟩
        · rw [leafPayload child group holds]
          rfl
        · have first := congrArg (Option.map NodeId.value) holds.1
          rw [Option.map_map, Option.map_some] at first
          rw [List.head?_map, Option.map_map]
          exact first
      -- the lookup is the search of the library in the same leaves
      have search := (@childFor_find _ _ node.value _ _
        (fun block => leafSearch node (payloadOf all block))) keys rows
      rw [← List.map_flatten, whole, find_leaf] at search
      rw [findLeafEntry, top]
      have start : descend (payloadOf all) node 33 (.intermediateSubnode 1 children) 0 ⟨[], 0⟩ =
          (do
            let child ← okOr (.notFound node)
              (childFor (children.map fun entry => (entry.node.value, entry.block)) node.value)
            let payload ← okOr .unreadable (payloadOf all child)
            descend (payloadOf all) node 32 payload 1 ⟨[child], 0 + children.length⟩) := by
        rw [descend, seen]
        rfl
      rw [okOr_some]
      refine (start : _ = _).trans ?_
      cases chosen : childFor (children.map fun entry => (entry.node.value, entry.block))
          node.value with
      | none =>
          rw [chosen] at search
          have missing : entries.find? (·.node.value = node.value) = none :=
            Option.map_eq_none_iff.mp search.symm
          rw [missing]
          rfl
      | some block =>
          rw [chosen] at search
          obtain ⟨child, member, rfl⟩ : ∃ child ∈ children, child.block = block := by
            obtain ⟨pair, there, same⟩ := childFor_mem chosen
            obtain ⟨child, member, rfl⟩ := List.mem_map.mp there
            exact ⟨child, member, same⟩
          obtain ⟨group, -, holds⟩ := forall₂_mem_left below member
          have small := holds.2.1
          have same : group.find? (·.node.value = node.value) =
              entries.find? (·.node.value = node.value) := by
            rw [Option.bind_some, leafPayload child group holds] at search
            have values := congrArg (Option.map Prod.snd) ((find_leaf group).symm.trans search)
            rwa [Option.map_map, Option.map_map, Function.comp_def, Option.map_id',
              Option.map_id'] at values
          have leafFound := (@descend_leaf (payloadOf all) node 32 1
            ⟨[child.block], 0 + children.length⟩ group)
            (by decide) (by dsimp only; omega)
          rw [same] at leafFound
          simp only [okOr_some, bind, Except.bind, leafPayload child group holds]
          exact leafFound

/-- What a subnode tree over entries of distinct nodes gives. -/
theorem HoldsSubnodes.isSubnodeTree {sorted : List LeafSubnodeEntry}
    (holds : HoldsSubnodes sorted root blocks) (distinct : (blockIds blocks).Nodup)
    (increase : (sorted.map (·.node.value)).Pairwise (· < ·)) (same : sorted.Perm entries) :
    IsSubnodeTree entries root blocks := by
  have lookup := holds.lookup distinct increase
  refine ⟨?_, ?_, ?_, ?_⟩
  · intro entry member
    rw [lookup, find_distinct increase (same.mem_iff.mpr member)]
    rfl
  · intro node others
    have missing : sorted.find? (·.node.value = node.value) = none := by
      rw [List.find?_eq_none]
      intro entry member
      rw [decide_eq_true_eq]
      intro equal
      refine others entry (same.mem_iff.mp member) ?_
      obtain ⟨⟨value⟩, _, _⟩ := entry
      exact congrArg NodeId.mk equal
    rw [lookup, missing]
    rfl
  · have capacity : subnodeLeafCapacity = 340 ∧ subnodeIntermediateCapacity = 510 := by decide
    intro block member
    cases holds with
    | leaf fits =>
        rw [List.mem_singleton.mp member, BlockPayload.logicalSize]
        omega
    | branch whole few below plain =>
        rcases List.mem_append.mp member with inLeaves | top
        · obtain ⟨group, payload, small⟩ := plain block inLeaves
          rw [payload, BlockPayload.logicalSize]
          omega
        · rw [List.mem_singleton.mp top, BlockPayload.logicalSize]
          omega
  · intro block member
    cases holds with
    | leaf fits =>
        rw [List.mem_singleton.mp member]
        exact ⟨0, rfl, fun _ _ notLeaf => absurd rfl notLeaf⟩
    | @branch children groups leaves whole few below plain =>
        rcases List.mem_append.mp member with inLeaves | top
        · obtain ⟨group, payload, -⟩ := plain block inLeaves
          rw [payload]
          exact ⟨0, rfl, fun _ _ notLeaf => absurd rfl notLeaf⟩
        · rw [List.mem_singleton.mp top]
          refine ⟨1, rfl, fun child reference _ => ?_⟩
          obtain ⟨entry, there, rfl⟩ := List.mem_map.mp reference
          obtain ⟨group, -, is⟩ := forall₂_mem_left below there
          exact ⟨_, List.mem_append_left _ is.2.2, rfl, rfl⟩

end Holding

section Builders

theorem sorted_increase {entries : List LeafSubnodeEntry}
    (distinct : (entries.map (·.node)).Nodup) :
    ((sortByKey (·.node.value) entries).map (·.node.value)).Pairwise (· < ·) := by
  have order : (sortByKey (·.node.value) entries).Pairwise fun first second =>
      first.node.value ≤ second.node.value := by
    rw [sortByKey]
    exact List.pairwise_insertionSort _ _
  have different : ((sortByKey (·.node.value) entries).map (·.node.value)).Nodup := by
    have perm := (sortByKey_perm (·.node.value) entries).map (·.node.value)
    have values : ((entries.map (·.node)).map (·.value)).Nodup :=
      distinct.map fun first second same => congrArg NodeId.mk same
    rw [List.map_map] at values
    exact perm.nodup_iff.mpr values
  rw [List.pairwise_map]
  exact order.imp₂ (fun _ _ le ne => Nat.lt_of_le_of_ne le ne) (List.pairwise_map.mp different)

theorem appendSubnodeLeaves_holds {groups : List (List LeafSubnodeEntry)}
    (some : ∀ group ∈ groups, group ≠ [] ∧ group.length ≤ subnodeLeafCapacity) :
    ∀ {counters final : Counters} {roots : List IntermediateSubnodeEntry}
      {blocks : List BlockSpec},
      appendSubnodeLeaves groups counters = .ok (roots, blocks) final →
        List.Forall₂ (HoldsGroup blocks) roots groups ∧
          (∀ leaf ∈ blocks, ∃ group, leaf.payload = .subnode group ∧
            group.length ≤ subnodeLeafCapacity) ∧
          Numbered counters.nextBlockIndex blocks ∧ blocks.length = groups.length ∧
          final.nextBlockIndex = counters.nextBlockIndex + blocks.length := by
  induction groups with
  | nil =>
      intro counters final roots blocks hrun
      simp only [appendSubnodeLeaves, pure_run_ok, Prod.mk.injEq] at hrun
      obtain ⟨⟨rfl, rfl⟩, rfl⟩ := hrun
      exact ⟨.nil, fun _ member => absurd member List.not_mem_nil, rfl, rfl, rfl⟩
  | cons group rest ih =>
      intro counters final roots blocks hrun
      simp only [appendSubnodeLeaves, bind_run_ok] at hrun
      obtain ⟨id, taken, htake, ⟨others, inner⟩, ended, hrest, hpure⟩ := hrun
      simp only [pure_run_ok, Prod.mk.injEq] at hpure
      obtain ⟨⟨rfl, rfl⟩, rfl⟩ := hpure
      obtain ⟨index, -, rfl⟩ := takeBlockId_ok htake
      obtain ⟨nonempty, fits⟩ := some group List.mem_cons_self
      obtain ⟨holds, plain, numbered, count, moved⟩ :=
        ih (fun group member => some group (List.mem_cons_of_mem _ member)) hrest
      have key : group.head?.map (·.node) = .some ((group.head?.map (·.node)).getD ⟨0⟩) := by
        cases group with
        | nil => exact absurd rfl nonempty
        | cons head tail => rfl
      refine ⟨.cons ⟨key, fits, List.mem_cons_self⟩ (holds.imp fun _ _ is =>
        ⟨is.1, is.2.1, List.mem_cons_of_mem _ is.2.2⟩), ?_, (Numbered.single index).append numbered,
        ?_, ?_⟩
      · intro leaf member
        rcases List.mem_cons.mp member with rfl | later
        · exact ⟨group, rfl, fits⟩
        · exact plain leaf later
      · rw [List.length_cons, List.length_cons, count]
      · rw [moved, List.length_cons, Nat.add_comm inner.length 1, ← Nat.add_assoc]

theorem few_groups {entries : List LeafSubnodeEntry}
    (few : entries.length ≤ maxSubnodeTreeEntries) :
    (chunks subnodeLeafCapacity entries).length ≤ subnodeIntermediateCapacity := by
  have capacity : subnodeLeafCapacity = 340 ∧ subnodeIntermediateCapacity = 510 := by decide
  rw [maxSubnodeTreeEntries, capacity.1, capacity.2] at few
  rw [length_chunks (by decide), divCeil, capacity.1, capacity.2]
  omega

/-- The identifiers of the leaves, and a root that was taken behind or before them. -/
theorem root_distinct {blocks : List BlockSpec} {first : Nat} (numbered : Numbered first blocks)
    {top : BlockSpec} (outside : top.id.index < first ∨ first + blocks.length ≤ top.id.index) :
    (blockIds (blocks ++ [top])).Nodup := by
  rw [blockIds_append, List.nodup_append]
  refine ⟨numbered.nodup, List.nodup_singleton _, ?_⟩
  rintro id inBlocks other isTop rfl
  obtain rfl := List.mem_singleton.mp isTop
  obtain ⟨block, member, same⟩ := List.mem_map.mp inBlocks
  have index : top.id.index ∈ blocks.map (·.id.index) :=
    List.mem_map.mpr ⟨block, member, congrArg BlockId.index same⟩
  rw [numbered, List.mem_range'_1] at index
  omega

/-- The tree whose root takes a fresh identifier. -/
theorem appendSubnodeTree_isSubnodeTree {entries : List LeafSubnodeEntry}
    (distinct : (entries.map (·.node)).Nodup) {counters final : Counters} {root : BlockId}
    {blocks : List BlockSpec}
    (hrun : appendSubnodeTree entries counters = .ok (root, blocks) final) :
    IsSubnodeTree entries root blocks := by
  simp only [appendSubnodeTree, bind_run_ok, attempt_run_ok] at hrun
  obtain ⟨_, _, ⟨hsome, rfl⟩, _, _, ⟨hfew, rfl⟩, ⟨roots, leaves⟩, middle, hleaves, ⟨top, upper⟩,
    ended, hlevels, hpure⟩ := hrun
  simp only [pure_run_ok, Prod.mk.injEq] at hpure
  obtain ⟨⟨rfl, rfl⟩, rfl⟩ := hpure
  have positive : 0 < subnodeLeafCapacity := by decide
  have whole := chunks_flatten positive (sortByKey (·.node.value) entries)
  have length : (sortByKey (·.node.value) entries).length = entries.length :=
    (sortByKey_perm _ _).length_eq
  have few := (@few_groups (sortByKey (·.node.value) entries))
    (by rw [length]; exact Nat.not_lt.mp (refuse_eq_ok.mp hfew))
  obtain ⟨holds, plain, numbered, count, moved⟩ := appendSubnodeLeaves_holds
    (fun group member => mem_chunks positive member) hleaves
  rw [← holds.length_eq] at few
  have increase := sorted_increase distinct
  have perm := sortByKey_perm (fun entry : LeafSubnodeEntry => entry.node.value) entries
  generalize chunks subnodeLeafCapacity (sortByKey (·.node.value) entries) = groups at *
  match roots, hlevels with
  | [], hlevels => simp [appendSubnodeLevels] at hlevels
  | [root], hlevels =>
      simp only [List.length_singleton, appendSubnodeLevels, pure_run_ok, Prod.mk.injEq] at hlevels
      obtain ⟨⟨rfl, rfl⟩, rfl⟩ := hlevels
      obtain ⟨group, others, own, rest, rfl⟩ := List.forall₂_cons_left_iff.mp holds
      obtain rfl := List.forall₂_nil_left_iff.mp rest
      obtain ⟨block, rfl⟩ := List.length_eq_one_iff.mp count
      rw [List.flatten_singleton] at whole
      have here := List.mem_singleton.mp own.2.2
      rw [List.append_nil]
      refine HoldsSubnodes.isSubnodeTree ?_ numbered.nodup increase perm
      rw [← here, whole]
      exact .leaf (whole ▸ own.2.1)
  | first :: second :: others, hlevels =>
      have one : chunks subnodeIntermediateCapacity (first :: second :: others) =
          [first :: second :: others] := chunks_single (List.cons_ne_nil _ _) few
      simp only [List.length_cons, appendSubnodeLevels, bind_run_ok, attempt_run_ok, one,
        appendSubnodeParents, pure_run_ok] at hlevels
      obtain ⟨_, _, ⟨id, taken, htake, _, _, ⟨rfl, rfl⟩, rfl, rfl⟩, next, _, ⟨-, rfl⟩, _, _, hroot,
        hsame, rfl⟩ := hlevels
      simp only [appendSubnodeLevels, pure_run_ok] at hroot
      obtain ⟨rfl, rfl⟩ := hroot
      simp only [Prod.mk.injEq] at hsame
      obtain ⟨rfl, rfl⟩ := hsame
      obtain ⟨index, -, -⟩ := takeBlockId_ok htake
      rw [List.append_nil]
      refine HoldsSubnodes.isSubnodeTree (.branch whole few holds plain) ?_ increase perm
      exact root_distinct numbered (.inr (by rw [index, moved]))

/-- The tree whose root was set aside. -/
theorem appendSubnodeTreeAt_isSubnodeTree {entries : List LeafSubnodeEntry}
    (distinct : (entries.map (·.node)).Nodup) {counters final : Counters} {root : BlockId}
    (aside : root.index < counters.nextBlockIndex) {blocks : List BlockSpec}
    (hrun : appendSubnodeTreeAt entries root counters = .ok blocks final) :
    IsSubnodeTree entries root blocks := by
  simp only [appendSubnodeTreeAt, bind_run_ok, attempt_run_ok] at hrun
  obtain ⟨_, _, ⟨hsome, rfl⟩, _, _, ⟨hfew, rfl⟩, hrun⟩ := hrun
  have increase := sorted_increase distinct
  have perm := sortByKey_perm (fun entry : LeafSubnodeEntry => entry.node.value) entries
  split at hrun
  case isTrue fits =>
    obtain ⟨rfl, rfl⟩ := pure_run_ok.mp hrun
    exact HoldsSubnodes.isSubnodeTree (.leaf fits) (List.nodup_singleton _) increase perm
  case isFalse =>
    obtain ⟨⟨leaves, inner⟩, middle, hleaves, hpure⟩ := bind_run_ok.mp hrun
    obtain ⟨rfl, rfl⟩ := pure_run_ok.mp hpure
    have positive : 0 < subnodeLeafCapacity := by decide
    have length : (sortByKey (·.node.value) entries).length = entries.length := perm.length_eq
    have few := (@few_groups (sortByKey (·.node.value) entries))
      (by rw [length]; exact Nat.not_lt.mp (refuse_eq_ok.mp hfew))
    obtain ⟨holds, plain, numbered, -, -⟩ := appendSubnodeLeaves_holds
      (fun group member => mem_chunks positive member) hleaves
    rw [← holds.length_eq] at few
    refine HoldsSubnodes.isSubnodeTree (.branch (chunks_flatten positive _) few holds plain)
      (root_distinct numbered (.inl aside)) increase perm

theorem appendSubnodeLeaves_runs {groups : List (List LeafSubnodeEntry)} :
    ∀ {counters : Counters}, counters.nextBlockIndex + groups.length ≤ 2 ^ 62 →
      ∃ roots blocks, appendSubnodeLeaves groups counters = .ok (roots, blocks)
          { counters with nextBlockIndex := counters.nextBlockIndex + groups.length } ∧
        roots.length = groups.length := by
  induction groups with
  | nil => exact fun _ => ⟨[], [], rfl, rfl⟩
  | cons group rest ih =>
      intro counters room
      rw [List.length_cons] at room
      obtain ⟨id, taken⟩ := takeBlockId_runs true (by omega : counters.nextBlockIndex < 2 ^ 62)
      obtain ⟨roots, blocks, others, count⟩ := @ih
        { counters with nextBlockIndex := counters.nextBlockIndex + 1 } (by dsimp only; omega)
      refine ⟨⟨(group.head?.map (·.node)).getD ⟨0⟩, id⟩ :: roots, ⟨id, .subnode group, 2⟩ :: blocks,
        ?_, ?_⟩
      · simp only [appendSubnodeLeaves, bind_run_ok, pure_run_ok]
        refine ⟨id, _, taken, _, _, others, rfl, ?_⟩
        rw [List.length_cons, Nat.add_comm rest.length 1, Nat.add_assoc]
      · rw [List.length_cons, List.length_cons, count]

/-- Up to the capacity both builders succeed. -/
theorem appendSubnodeTrees_run {entries : List LeafSubnodeEntry} (some : entries ≠ [])
    (few : entries.length ≤ maxSubnodeTreeEntries) {counters : Counters}
    (room : counters.nextBlockIndex + 512 ≤ 2 ^ 62) :
    (∃ root blocks final, appendSubnodeTree entries counters = .ok (root, blocks) final) ∧
    ∀ root, ∃ blocks final, appendSubnodeTreeAt entries root counters = .ok blocks final := by
  have nonempty : ¬entries.isEmpty = true := by rwa [List.isEmpty_iff]
  have length : (sortByKey (·.node.value) entries).length = entries.length :=
    (sortByKey_perm _ _).length_eq
  have groups := (@few_groups (sortByKey (·.node.value) entries)) (by rwa [length])
  have capacity : subnodeIntermediateCapacity = 510 := by decide
  obtain ⟨roots, leaves, made, count⟩ := (@appendSubnodeLeaves_runs
    (chunks subnodeLeafCapacity (sortByKey (·.node.value) entries)) counters) (by omega)
  rw [← count] at groups
  constructor
  · have upper : ∃ root blocks final, appendSubnodeLevels roots.length 1 roots
        { counters with nextBlockIndex := counters.nextBlockIndex +
          (chunks subnodeLeafCapacity (sortByKey (·.node.value) entries)).length } =
            .ok (root, blocks) final := by
      match roots with
      | [] =>
          have empty : sortByKey (·.node.value) entries ≠ [] := by
            rw [← List.length_pos_iff, length]
            exact List.length_pos_of_ne_nil some
          exact absurd (List.length_eq_zero_iff.mp count.symm)
            (chunks_ne_nil (by decide) empty)
      | [root] => exact ⟨root.block, [], _, rfl⟩
      | first :: second :: others =>
          have one : chunks subnodeIntermediateCapacity (first :: second :: others) =
              [first :: second :: others] := chunks_single (List.cons_ne_nil _ _) groups
          obtain ⟨id, taken⟩ := (@takeBlockId_runs true ({ counters with
            nextBlockIndex := counters.nextBlockIndex +
              (chunks subnodeLeafCapacity (sortByKey (·.node.value) entries)).length }))
            (by dsimp only; omega)
          refine ⟨id, [⟨id, .intermediateSubnode 1 (first :: second :: others), 2⟩],
            { counters with nextBlockIndex := counters.nextBlockIndex +
              (chunks subnodeLeafCapacity (sortByKey (·.node.value) entries)).length + 1 }, ?_⟩
          simp only [List.length_cons, appendSubnodeLevels, one, appendSubnodeParents, bind_run_ok,
            attempt_run_ok, pure_run_ok]
          exact ⟨_, _, ⟨id, _, taken, _, _, ⟨rfl, rfl⟩, rfl, rfl⟩, 2, _, ⟨rfl, rfl⟩, (id, []), _,
            rfl, rfl, rfl⟩
    obtain ⟨root, blocks, final, closed⟩ := upper
    refine ⟨root, leaves ++ blocks, final, ?_⟩
    simp only [appendSubnodeTree, bind_run_ok, attempt_run_ok, pure_run_ok]
    exact ⟨⟨⟩, _, ⟨refuse_eq_ok.mpr nonempty, rfl⟩, ⟨⟩, _,
      ⟨refuse_eq_ok.mpr (Nat.not_lt.mpr few), rfl⟩, _, _, made, _, _, closed, rfl, rfl⟩
  · intro root
    by_cases fits : (sortByKey (·.node.value) entries).length ≤ subnodeLeafCapacity
    · refine ⟨[⟨root, .subnode (sortByKey (·.node.value) entries), 2⟩], counters, ?_⟩
      simp only [appendSubnodeTreeAt, bind_run_ok, attempt_run_ok]
      refine ⟨⟨⟩, _, ⟨refuse_eq_ok.mpr nonempty, rfl⟩, ⟨⟩, _,
        ⟨refuse_eq_ok.mpr (Nat.not_lt.mpr few), rfl⟩, ?_⟩
      rw [if_pos fits]
      rfl
    · refine ⟨leaves ++ [⟨root, .intermediateSubnode 1 roots, 2⟩],
        { counters with nextBlockIndex := counters.nextBlockIndex +
          (chunks subnodeLeafCapacity (sortByKey (·.node.value) entries)).length }, ?_⟩
      simp only [appendSubnodeTreeAt, bind_run_ok, attempt_run_ok]
      refine ⟨⟨⟩, _, ⟨refuse_eq_ok.mpr nonempty, rfl⟩, ⟨⟩, _,
        ⟨refuse_eq_ok.mpr (Nat.not_lt.mpr few), rfl⟩, ?_⟩
      rw [if_neg fits]
      simp only [bind_run_ok, pure_run_ok]
      exact ⟨_, _, made, rfl, rfl⟩

end Builders

end PstForge.Ndb
