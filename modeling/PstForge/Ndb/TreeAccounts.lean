import PstForge.Ndb.Accounting

/-! # The accounts of the tree builders

A data tree owes one reference to each of its blocks and hands on one, to its root.
So does a subnode tree, which was given the references of its entries.
-/

namespace PstForge.Ndb

open PstForge.Foundation

section DataTree

theorem appendLeaves_built {pieces : List Bytes} (nonempty : ∀ piece ∈ pieces, piece ≠ []) :
    ∀ {counters final : Counters} {leaves : List (BlockId × Nat)} {blocks : List BlockSpec},
      appendLeaves pieces counters = .ok (leaves, blocks) final →
        Built counters final [] [] (leaves.map (·.1)) blocks ∧
          ∀ leaf ∈ leaves, leaf.1.isInternal = false := by
  induction pieces with
  | nil =>
      intro counters final leaves blocks hrun
      simp only [appendLeaves, pure_run_ok, Prod.mk.injEq] at hrun
      obtain ⟨⟨rfl, rfl⟩, rfl⟩ := hrun
      exact ⟨.idle (Nat.le_refl _) [], by simp⟩
  | cons piece rest ih =>
      intro counters final leaves blocks hrun
      simp only [appendLeaves, bind_run_ok] at hrun
      obtain ⟨id, taken, htake, ⟨others, inner⟩, ended, hrest, hpure⟩ := hrun
      simp only [pure_run_ok, Prod.mk.injEq] at hpure
      obtain ⟨⟨rfl, rfl⟩, rfl⟩ := hpure
      obtain ⟨index, kind, rfl⟩ := takeBlockId_ok htake
      obtain ⟨built, leafKind⟩ := ih (fun piece member => nonempty piece (.tail _ member)) hrest
      have writable : Writable ⟨id, .data piece, 2⟩ := nonempty piece List.mem_cons_self
      refine ⟨.claim index rfl ((Built.single _ writable).append built), ?_⟩
      intro leaf member
      rcases List.mem_cons.mp member with rfl | member
      · exact kind
      · exact leafKind leaf member

/-- What is needed of the step that names a group of leaves: it takes one internal
identifier. -/
def Describes (describe : List (BlockId × Nat) → Ids (BlockId × Nat)) : Prop :=
  ∀ group counters id total final, describe group counters = .ok (id, total) final →
    id.index = counters.nextBlockIndex ∧ id.isInternal = true ∧
      final.nextBlockIndex = counters.nextBlockIndex + 1

theorem dataTreeSpec_writable {id : BlockId} {level total : Nat} {children : List (BlockId × Nat)}
    (internal : id.isInternal = true) (levels : level = 1 ∨ level = 2)
    (kinds : ∀ child ∈ children, isDataTreeChild level child.1 = true) :
    Writable (dataTreeSpec id level total children) := by
  refine ⟨internal, levels, fun entry member => ?_⟩
  obtain ⟨child, found, rfl⟩ := List.mem_map.mp member
  exact kinds child found

theorem appendXBlocks_built {describe : List (BlockId × Nat) → Ids (BlockId × Nat)}
    (describes : Describes describe) {groups : List (List (BlockId × Nat))}
    (leafKind : ∀ group ∈ groups, ∀ leaf ∈ group, leaf.1.isInternal = false) :
    ∀ {counters final : Counters} {xblocks : List (BlockId × Nat)} {blocks : List BlockSpec},
      appendXBlocks describe groups counters = .ok (xblocks, blocks) final →
        Built counters final [] (groups.flatten.map (·.1)) (xblocks.map (·.1)) blocks ∧
          ∀ xblock ∈ xblocks, xblock.1.isInternal = true := by
  induction groups with
  | nil =>
      intro counters final xblocks blocks hrun
      simp only [appendXBlocks, pure_run_ok, Prod.mk.injEq] at hrun
      obtain ⟨⟨rfl, rfl⟩, rfl⟩ := hrun
      exact ⟨.idle (Nat.le_refl _) [], by simp⟩
  | cons group rest ih =>
      intro counters final xblocks blocks hrun
      simp only [appendXBlocks, bind_run_ok] at hrun
      obtain ⟨⟨id, total⟩, taken, htake, ⟨others, inner⟩, ended, hrest, hpure⟩ := hrun
      simp only [pure_run_ok, Prod.mk.injEq] at hpure
      obtain ⟨⟨rfl, rfl⟩, rfl⟩ := hpure
      obtain ⟨index, internal, moved⟩ := describes _ _ _ _ _ htake
      obtain ⟨built, kinds⟩ := ih (fun group member => leafKind group (.tail _ member)) hrest
      have writable : Writable (dataTreeSpec id 1 total group) := by
        refine dataTreeSpec_writable internal (.inl rfl) fun child member => ?_
        simp [isDataTreeChild, leafKind group List.mem_cons_self child member]
      have both := Built.claim index moved ((Built.single taken writable).append built)
      refine ⟨?_, ?_⟩
      · simpa [BlockPayload.references, dataTreeSpec] using both
      · intro xblock member
        rcases List.mem_cons.mp member with rfl | member
        · exact internal
        · exact kinds xblock member

theorem closeDataTree_built {describe : List (BlockId × Nat) → Ids (BlockId × Nat)}
    (describes : Describes describe) {tooMany tooLarge : String} {leaves : List (BlockId × Nat)}
    (leafKind : ∀ leaf ∈ leaves, leaf.1.isInternal = false) {counters final : Counters}
    {root : BlockId} {blocks : List BlockSpec}
    (hrun : closeDataTree describe tooMany tooLarge leaves counters = .ok (root, blocks) final) :
    Built counters final [] (leaves.map (·.1)) [root] blocks := by
  unfold closeDataTree at hrun
  dsimp only at hrun
  split at hrun
  · simp only [pure_run_ok, Prod.mk.injEq] at hrun
    obtain ⟨⟨rfl, rfl⟩, rfl⟩ := hrun
    exact .idle (Nat.le_refl _) _
  · obtain ⟨⟨xblocks, inner⟩, middle, hx, hrun⟩ := bind_run_ok.mp hrun
    have groupKind : ∀ group ∈ chunks maxDataTreeEntries leaves, ∀ leaf ∈ group,
        leaf.1.isInternal = false := by
      intro group memberGroup leaf memberLeaf
      refine leafKind leaf ?_
      rw [← chunks_flatten (by decide : 0 < maxDataTreeEntries) leaves]
      exact List.mem_flatten.mpr ⟨group, memberGroup, memberLeaf⟩
    obtain ⟨built, kinds⟩ := appendXBlocks_built describes groupKind hx
    rw [chunks_flatten (by decide : 0 < maxDataTreeEntries)] at built
    dsimp only at hrun
    split at hrun
    · simp only [pure_run_ok, Prod.mk.injEq] at hrun
      obtain ⟨⟨rfl, rfl⟩, rfl⟩ := hrun
      exact built
    · simp only [bind_run_ok, attempt_run_ok] at hrun
      obtain ⟨_, _, ⟨-, rfl⟩, total, _, ⟨-, rfl⟩, id, taken, htake, hpure⟩ := hrun
      simp only [pure_run_ok, Prod.mk.injEq] at hpure
      obtain ⟨⟨rfl, rfl⟩, rfl⟩ := hpure
      obtain ⟨index, internal, moved⟩ := takeBlockId_ok htake
      have writable : Writable (dataTreeSpec root 2 total xblocks) := by
        refine dataTreeSpec_writable internal (.inr rfl) fun child member => ?_
        simp [isDataTreeChild, kinds child member]
      have top := Built.claim index (by rw [moved]) (Built.single final writable)
      exact built.link top

theorem describes_sized : Describes fun group => do
    let id ← takeBlockId true
    let total ← attempt (groupTotal "data-tree size" group)
    return (id, total) := by
  intro group counters id total final hrun
  simp only [bind_run_ok, attempt_run_ok, pure_run_ok, Prod.mk.injEq] at hrun
  obtain ⟨taken, middle, htake, _, _, ⟨-, rfl⟩, ⟨rfl, rfl⟩, rfl⟩ := hrun
  obtain ⟨index, internal, rfl⟩ := takeBlockId_ok htake
  exact ⟨index, internal, rfl⟩

theorem describes_pages : Describes fun group => do
    let total ← attempt (groupTotal "heap data-tree size" group)
    let id ← takeBlockId true
    return (id, total) := by
  intro group counters id total final hrun
  simp only [bind_run_ok, attempt_run_ok, pure_run_ok, Prod.mk.injEq] at hrun
  obtain ⟨_, _, ⟨-, rfl⟩, taken, middle, htake, ⟨rfl, rfl⟩, rfl⟩ := hrun
  obtain ⟨index, internal, rfl⟩ := takeBlockId_ok htake
  exact ⟨index, internal, rfl⟩

theorem appendDataTreeSized_built {bytes : Bytes} {chunkSize : Nat} (positive : 0 < chunkSize)
    {counters final : Counters} {root : BlockId} {blocks : List BlockSpec}
    (hrun : appendDataTreeSized bytes chunkSize counters = .ok (root, blocks) final) :
    Built counters final [] [] [root] blocks := by
  simp only [appendDataTreeSized, bind_run_ok] at hrun
  obtain ⟨⟨leaves, leafBlocks⟩, middle, hleaves, ⟨top, inner⟩, ended, hclose, hpure⟩ := hrun
  simp only [pure_run_ok, Prod.mk.injEq] at hpure
  obtain ⟨⟨rfl, rfl⟩, rfl⟩ := hpure
  obtain ⟨built, kinds⟩ := appendLeaves_built
    (fun piece member => (mem_chunks positive member).1) hleaves
  exact built.link (closeDataTree_built describes_sized kinds hclose)

theorem appendDataTree_built {bytes : Bytes} {counters final : Counters} {root : BlockId}
    {blocks : List BlockSpec} (hrun : appendDataTree bytes counters = .ok (root, blocks) final) :
    Built counters final [] [] [root] blocks :=
  appendDataTreeSized_built (by decide) hrun

theorem appendRowMatrixDataTree_built {bytes : Bytes} {rowSize : Nat} {counters final : Counters}
    {root : BlockId} {blocks : List BlockSpec}
    (hrun : appendRowMatrixDataTree bytes rowSize counters = .ok (root, blocks) final) :
    Built counters final [] [] [root] blocks := by
  simp only [appendRowMatrixDataTree, bind_run_ok, attempt_run_ok] at hrun
  obtain ⟨_, _, ⟨-, rfl⟩, hrun⟩ := hrun
  exact appendDataTree_built hrun

theorem appendPages_built {pages : List Bytes} (nonempty : ∀ page ∈ pages, page ≠ []) :
    ∀ {counters final : Counters} {leaves : List (BlockId × Nat)} {blocks : List BlockSpec},
      appendDataTreePages.appendPages pages counters = .ok (leaves, blocks) final →
        Built counters final [] [] (leaves.map (·.1)) blocks ∧
          ∀ leaf ∈ leaves, leaf.1.isInternal = false := by
  induction pages with
  | nil =>
      intro counters final leaves blocks hrun
      simp only [appendDataTreePages.appendPages, pure_run_ok, Prod.mk.injEq] at hrun
      obtain ⟨⟨rfl, rfl⟩, rfl⟩ := hrun
      exact ⟨.idle (Nat.le_refl _) [], by simp⟩
  | cons page rest ih =>
      intro counters final leaves blocks hrun
      simp only [appendDataTreePages.appendPages, bind_run_ok, attempt_run_ok] at hrun
      obtain ⟨_, _, ⟨-, rfl⟩, id, taken, htake, ⟨others, inner⟩, ended, hrest, hpure⟩ := hrun
      simp only [pure_run_ok, Prod.mk.injEq] at hpure
      obtain ⟨⟨rfl, rfl⟩, rfl⟩ := hpure
      obtain ⟨index, kind, rfl⟩ := takeBlockId_ok htake
      obtain ⟨built, leafKind⟩ := ih (fun page member => nonempty page (.tail _ member)) hrest
      have writable : Writable ⟨id, .data page, 2⟩ := nonempty page List.mem_cons_self
      refine ⟨.claim index rfl ((Built.single _ writable).append built), ?_⟩
      intro leaf member
      rcases List.mem_cons.mp member with rfl | member
      · exact kind
      · exact leafKind leaf member

theorem appendDataTreePages_built {pages : List Bytes} (nonempty : ∀ page ∈ pages, page ≠ [])
    {counters final : Counters} {root : BlockId} {blocks : List BlockSpec}
    (hrun : appendDataTreePages pages counters = .ok (root, blocks) final) :
    Built counters final [] [] [root] blocks := by
  simp only [appendDataTreePages, bind_run_ok, attempt_run_ok] at hrun
  obtain ⟨_, _, ⟨-, rfl⟩, ⟨leaves, leafBlocks⟩, middle, hleaves, ⟨top, inner⟩, ended, hclose,
    hpure⟩ := hrun
  simp only [pure_run_ok, Prod.mk.injEq] at hpure
  obtain ⟨⟨rfl, rfl⟩, rfl⟩ := hpure
  obtain ⟨built, kinds⟩ := appendPages_built nonempty hleaves
  exact built.link (closeDataTree_built describes_pages kinds hclose)

end DataTree

section SubnodeTree

theorem appendSubnodeLeaves_built {groups : List (List LeafSubnodeEntry)} :
    ∀ {counters final : Counters} {roots : List IntermediateSubnodeEntry}
      {blocks : List BlockSpec},
      appendSubnodeLeaves groups counters = .ok (roots, blocks) final →
        Built counters final [] (entryReferences groups.flatten) (roots.map (·.block)) blocks := by
  induction groups with
  | nil =>
      intro counters final roots blocks hrun
      simp only [appendSubnodeLeaves, pure_run_ok, Prod.mk.injEq] at hrun
      obtain ⟨⟨rfl, rfl⟩, rfl⟩ := hrun
      exact .idle (Nat.le_refl _) []
  | cons group rest ih =>
      intro counters final roots blocks hrun
      simp only [appendSubnodeLeaves, bind_run_ok] at hrun
      obtain ⟨id, taken, htake, ⟨others, inner⟩, ended, hrest, hpure⟩ := hrun
      simp only [pure_run_ok, Prod.mk.injEq] at hpure
      obtain ⟨⟨rfl, rfl⟩, rfl⟩ := hpure
      obtain ⟨index, internal, moved⟩ := takeBlockId_ok htake
      have leaf : Built taken taken [id] (entryReferences group) [id] [⟨id, .subnode group, 2⟩] :=
        Built.single taken (show Writable ⟨id, .subnode group, 2⟩ from internal)
      rw [List.flatten_cons, entryReferences_append]
      exact Built.claim index (by rw [moved]) (leaf.append (ih hrest))

theorem appendSubnodeParents_built {level : Nat} {groups : List (List IntermediateSubnodeEntry)} :
    ∀ {counters final : Counters} {parents : List IntermediateSubnodeEntry}
      {blocks : List BlockSpec},
      appendSubnodeParents level groups counters = .ok (parents, blocks) final →
        Built counters final [] (groups.flatten.map (·.block)) (parents.map (·.block)) blocks := by
  induction groups with
  | nil =>
      intro counters final parents blocks hrun
      simp only [appendSubnodeParents, pure_run_ok, Prod.mk.injEq] at hrun
      obtain ⟨⟨rfl, rfl⟩, rfl⟩ := hrun
      exact .idle (Nat.le_refl _) []
  | cons group rest ih =>
      intro counters final parents blocks hrun
      simp only [appendSubnodeParents, bind_run_ok] at hrun
      obtain ⟨id, taken, htake, ⟨others, inner⟩, ended, hrest, hpure⟩ := hrun
      simp only [pure_run_ok, Prod.mk.injEq] at hpure
      obtain ⟨⟨rfl, rfl⟩, rfl⟩ := hpure
      obtain ⟨index, internal, moved⟩ := takeBlockId_ok htake
      have parent : Built taken taken [id] (group.map (·.block)) [id]
          [⟨id, .intermediateSubnode level group, 2⟩] :=
        Built.single taken (show Writable ⟨id, .intermediateSubnode level group, 2⟩ from internal)
      rw [List.flatten_cons, List.map_append]
      exact Built.claim index (by rw [moved]) (parent.append (ih hrest))

theorem appendSubnodeLevels_built : ∀ {fuel level : Nat} {roots : List IntermediateSubnodeEntry}
    {counters final : Counters} {root : BlockId} {blocks : List BlockSpec},
    appendSubnodeLevels fuel level roots counters = .ok (root, blocks) final →
      Built counters final [] (roots.map (·.block)) [root] blocks := by
  intro fuel
  induction fuel with
  | zero =>
      intro level roots counters final root blocks hrun
      rcases roots with _ | ⟨only, _ | ⟨second, rest⟩⟩
      · simp [appendSubnodeLevels] at hrun
      · simp only [appendSubnodeLevels, pure_run_ok, Prod.mk.injEq] at hrun
        obtain ⟨⟨rfl, rfl⟩, rfl⟩ := hrun
        exact .idle (Nat.le_refl _) _
      · simp [appendSubnodeLevels] at hrun
  | succ fuel ih =>
      intro level roots counters final root blocks hrun
      rcases roots with _ | ⟨head, _ | ⟨second, rest⟩⟩
      · simp [appendSubnodeLevels] at hrun
      · simp only [appendSubnodeLevels, pure_run_ok, Prod.mk.injEq] at hrun
        obtain ⟨⟨rfl, rfl⟩, rfl⟩ := hrun
        exact .idle (Nat.le_refl _) _
      · simp only [appendSubnodeLevels, bind_run_ok, attempt_run_ok] at hrun
        obtain ⟨⟨parents, lower⟩, middle, hparents, next, _, ⟨-, rfl⟩, ⟨top, upper⟩, ended,
          hupper, hpure⟩ := hrun
        simp only [pure_run_ok, Prod.mk.injEq] at hpure
        obtain ⟨⟨rfl, rfl⟩, rfl⟩ := hpure
        have built := appendSubnodeParents_built hparents
        rw [chunks_flatten (by decide : 0 < subnodeIntermediateCapacity)] at built
        exact built.link (ih hupper)

theorem count_entryReferences_sort (entries : List LeafSubnodeEntry) (id : BlockId) :
    (entryReferences (sortByKey (·.node.value) entries)).count id =
      (entryReferences entries).count id :=
  ((sortByKey_perm _ entries).flatMap_right _).count_eq id

theorem appendSubnodeTree_built {entries : List LeafSubnodeEntry} {counters final : Counters}
    {root : BlockId} {blocks : List BlockSpec}
    (hrun : appendSubnodeTree entries counters = .ok (root, blocks) final) :
    Built counters final [] (entryReferences entries) [root] blocks := by
  simp only [appendSubnodeTree, bind_run_ok, attempt_run_ok] at hrun
  obtain ⟨_, _, ⟨-, rfl⟩, _, _, ⟨-, rfl⟩, ⟨roots, leaves⟩, middle, hleaves, ⟨top, upper⟩, ended,
    hupper, hpure⟩ := hrun
  simp only [pure_run_ok, Prod.mk.injEq] at hpure
  obtain ⟨⟨rfl, rfl⟩, rfl⟩ := hpure
  have built := appendSubnodeLeaves_built hleaves
  rw [chunks_flatten (by decide : 0 < subnodeLeafCapacity)] at built
  refine (built.link (appendSubnodeLevels_built hupper)).congr (fun _ => rfl) fun id => ?_
  rw [count_entryReferences_sort]

theorem appendSubnodeTreeAt_built {entries : List LeafSubnodeEntry} {counters final : Counters}
    {root : BlockId} (internal : root.isInternal = true) {blocks : List BlockSpec}
    (hrun : appendSubnodeTreeAt entries root counters = .ok blocks final) :
    Built counters final [root] (entryReferences entries) [root] blocks := by
  simp only [appendSubnodeTreeAt, bind_run_ok, attempt_run_ok] at hrun
  obtain ⟨_, _, ⟨-, rfl⟩, _, _, ⟨-, rfl⟩, hrun⟩ := hrun
  have sorted := count_entryReferences_sort entries
  split at hrun
  · simp only [pure_run_ok] at hrun
    obtain ⟨rfl, rfl⟩ := hrun
    have writable : Writable ⟨root, .subnode (sortByKey (·.node.value) entries), 2⟩ := internal
    have single : Built final final [root] (entryReferences (sortByKey (·.node.value) entries))
        [root] [⟨root, .subnode (sortByKey (·.node.value) entries), 2⟩] :=
      Built.single final writable
    exact single.congr (fun _ => rfl) fun id => by rw [sorted]
  · simp only [bind_run_ok] at hrun
    obtain ⟨⟨leaves, inner⟩, middle, hleaves, hpure⟩ := hrun
    simp only [pure_run_ok] at hpure
    obtain ⟨rfl, rfl⟩ := hpure
    have built := appendSubnodeLeaves_built hleaves
    rw [chunks_flatten (by decide : 0 < subnodeLeafCapacity)] at built
    have writable : Writable ⟨root, .intermediateSubnode 1 leaves, 2⟩ := internal
    have top : Built final final [root] (leaves.map (·.block)) [root]
        [⟨root, .intermediateSubnode 1 leaves, 2⟩] := Built.single final writable
    exact (built.link top).congr (fun _ => rfl) fun id => by rw [sorted]

end SubnodeTree

end PstForge.Ndb
