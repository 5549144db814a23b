import PstForge.Writer.Finish
import PstForge.Writer.MessageAccounts

/-! # The accounts of the finalization plan

The folders of a plan share the empty tables, so the blocks of these tables owe as
many references as there are folders that lack messages, children or associated
messages. The other fixed blocks owe one reference each, or two where a template
uses them as well.
-/

namespace PstForge.Writer

open PstForge.Foundation PstForge.Ndb PstForge.Ltp

variable {τ : Type}

section Folders

/-- The references of the nodes of a folder. -/
def TopFolderNode.references (folder : TopFolderNode) : List BlockId :=
  [folder.propertyBlock] ++ folder.hierarchyBlock :: folder.hierarchySubnode.toList
    ++ folder.contentsBlock :: folder.contentsSubnode.toList
    ++ folder.associatedBlock :: folder.associatedSubnode.toList

/-- The references of a planned folder to blocks that it does not make itself. -/
def sharedReferences (deleted : NodeId) (plan : FolderPlan) : List BlockId :=
  (if plan.node = deleted then [leafBlock 8] else [])
    ++ (if plan.children.isEmpty then [leafBlock 9] else [])
    ++ (if plan.messages.isEmpty then [leafBlock 5] else [])
    ++ (if plan.associatedMessages.isEmpty then [leafBlock 13] else [])

/-- The identifiers that are set aside for the first planned folder. -/
def firstFolderIds (index : Nat) : List BlockId :=
  if index = 0 then [leafBlock 10, leafBlock 11] else []

theorem buildRowsTable_built {columns : List TableColumnDescriptor} {shared : BlockId}
    {reserve : Ids BlockId} {given : List BlockId} {rows : List TableRowSpec}
    {counters final : Counters} {build : TableBuild}
    (reserves : ∀ {id middle last outer roots blocks}, reserve counters = .ok id middle →
      Built middle last [id] outer roots blocks → Built counters last given outer roots blocks)
    (hrun : buildRowsTable columns shared reserve rows counters = .ok build final) :
    Built counters final given (if rows.isEmpty then [shared] else [])
      (build.dataBlock :: build.subnodeBlock.toList) build.blocks := by
  match rows with
  | [] =>
      simp only [buildRowsTable, pure_run_ok] at hrun
      obtain ⟨rfl, rfl⟩ := hrun
      exact (Built.idle (Nat.le_refl _) _).spare _
  | [row] =>
      simp only [buildRowsTable, bind_run_ok] at hrun
      obtain ⟨block, middle, hreserve, hrun⟩ := hrun
      generalize htable : tableContext columns [row] = result at hrun
      split at hrun
      · rename_i table
        obtain ⟨rfl, rfl⟩ := pure_run_ok.mp hrun
        have writable : Writable ⟨block, .data table, 2⟩ := tableContext_ne_nil htable
        exact reserves hreserve (Built.single _ writable)
      · exact reserves hreserve ((tableContextExternal_built hrun).spare _)
      · simp at hrun
  | first :: second :: rest =>
      exact (tableContextExternal_built hrun).spare _

theorem buildHierarchyTable_built {columns : List TableColumnDescriptor} {plans : List FolderPlan}
    {plan : FolderPlan} {counters final : Counters} {build : TableBuild}
    (hrun : buildHierarchyTable columns plans plan counters = .ok build final) :
    Built counters final [] (if plan.children.isEmpty then [leafBlock 9] else [])
      (build.dataBlock :: build.subnodeBlock.toList) build.blocks := by
  unfold buildHierarchyTable at hrun
  split at hrun
  · rename_i empty
    simp only [bind_run_ok, attempt_run_ok, pure_run_ok] at hrun
    obtain ⟨shared, _, ⟨hshared, rfl⟩, rfl, rfl⟩ := hrun
    obtain rfl := leafBid_eq_ok hshared
    rw [if_pos empty]
    exact .idle (Nat.le_refl _) _
  · rename_i children
    simp only [bind_run_ok, attempt_run_ok] at hrun
    obtain ⟨rows, _, ⟨-, rfl⟩, htable⟩ := hrun
    rw [if_neg children]
    exact buildTableContext_built htable

/-- The identifier that a folder reserves for its properties or contents: a fixed one
for the first folder, and one of the counter otherwise. -/
theorem reserve_built {index fixedIndex : Nat} {counters middle last : Counters} {id : BlockId}
    {outer roots : List BlockId} {blocks : List BlockSpec}
    (hreserve : (if index = 0 then attempt (leafBid fixedIndex) else takeBlockId false : Ids
      BlockId)
      counters = .ok id middle)
    (built : Built middle last [id] outer roots blocks) :
    Built counters last (if index = 0 then [leafBlock fixedIndex] else []) outer roots blocks := by
  split at hreserve
  · rename_i first
    obtain ⟨hid, rfl⟩ := attempt_run_ok.mp hreserve
    obtain rfl := leafBid_eq_ok hid
    rw [if_pos first]
    exact built
  · rename_i later
    obtain ⟨taken, -, rfl⟩ := takeBlockId_ok hreserve
    rw [if_neg later]
    exact built.claim taken rfl

theorem buildFolderProperties_built {deleted : NodeId} {index : Nat} {plan : FolderPlan}
    {counters final : Counters} {block : BlockId} {blocks : List BlockSpec}
    (hrun : buildFolderProperties deleted index plan counters = .ok (block, blocks) final) :
    Built counters final (if index = 0 then [leafBlock 10] else [])
      (if plan.node = deleted then [leafBlock 8] else []) [block] blocks := by
  unfold buildFolderProperties at hrun
  split at hrun
  · rename_i isDeleted
    simp only [bind_run_ok, attempt_run_ok, pure_run_ok, Prod.mk.injEq] at hrun
    obtain ⟨shared, _, ⟨hshared, rfl⟩, ⟨rfl, rfl⟩, rfl⟩ := hrun
    obtain rfl := leafBid_eq_ok hshared
    rw [if_pos isDeleted]
    exact (Built.idle (Nat.le_refl _) _).spare _
  · rename_i notDeleted
    rw [if_neg notDeleted]
    split at hrun
    · rename_i first
      simp only [bind_run_ok, attempt_run_ok, pure_run_ok, Prod.mk.injEq] at hrun
      obtain ⟨id, _, ⟨hid, rfl⟩, properties, _, ⟨-, rfl⟩, context, _, ⟨hcontext, rfl⟩,
        ⟨rfl, rfl⟩, rfl⟩ := hrun
      obtain rfl := leafBid_eq_ok hid
      rw [if_pos first]
      have writable : Writable ⟨leafBlock 10, .data context, 2⟩ := propertyContext_ne_nil hcontext
      exact Built.single _ writable
    · rename_i later
      simp only [bind_run_ok, attempt_run_ok, pure_run_ok, Prod.mk.injEq] at hrun
      obtain ⟨id, _, htake, properties, _, ⟨-, rfl⟩, context, _, ⟨hcontext, rfl⟩, ⟨rfl, rfl⟩,
        rfl⟩ := hrun
      obtain ⟨taken, -, moved⟩ := takeBlockId_ok htake
      rw [if_neg later]
      have writable : Writable ⟨block, .data context, 2⟩ := propertyContext_ne_nil hcontext
      exact Built.claim taken (by rw [moved]) (Built.single _ writable)

theorem isEmpty_eq_of_length {α β : Type} {first : List α} {second : List β}
    (same : first.length = second.length) : first.isEmpty = second.isEmpty := by
  cases first <;> cases second <;> simp_all

theorem buildFolder_built {schema : Schemas} {fixed : FixedNodes} {plans : List FolderPlan}
    {index : Nat} {plan : FolderPlan} {rows left : OpenRows} {counters final : Counters}
    {folder : TopFolderNode} {blocks : List BlockSpec}
    (hrun : buildFolder schema fixed plans index plan rows counters =
      .ok (folder, blocks, left) final) :
    folder.node = plan.node ∧
      Built counters final (firstFolderIds index) (sharedReferences fixed.deleted plan)
        folder.references blocks := by
  simp only [buildFolder, bind_run_ok, attempt_run_ok, refuse_eq_ok, not_not, pure_run_ok,
    Prod.mk.injEq] at hrun
  obtain ⟨_, _, ⟨-, rfl⟩, ⟨propertyBlock, propertyBlocks⟩, afterProperties, hproperties, hierarchy,
    _, hhierarchy, _, _, ⟨contentsCount, rfl⟩, sharedContents, afterHierarchy, ⟨hcontents, rfl⟩,
    contents, _, hcontentsTable, _, _, ⟨associatedCount, rfl⟩, sharedAssociated, afterContents,
    ⟨hassociated, rfl⟩, associated, _, hassociatedTable, ⟨rfl, rfl, -⟩, rfl⟩ := hrun
  obtain rfl := leafBid_eq_ok hcontents
  obtain rfl := leafBid_eq_ok hassociated
  have contentsBuilt : Built afterHierarchy afterContents
      (if index = 0 then [leafBlock 11] else []) _ _ contents.blocks :=
    buildRowsTable_built reserve_built hcontentsTable
  have associatedBuilt : Built afterContents final [] _ _ associated.blocks :=
    buildRowsTable_built (fun htake built => by
      obtain ⟨taken, -, rfl⟩ := takeBlockId_ok htake
      exact built.claim taken rfl) hassociatedTable
  rw [isEmpty_eq_of_length contentsCount] at contentsBuilt
  rw [isEmpty_eq_of_length associatedCount] at associatedBuilt
  have whole := (((buildFolderProperties_built hproperties).append
    (buildHierarchyTable_built hhierarchy)).append contentsBuilt).append associatedBuilt
  refine ⟨rfl, whole.congr (fun other => ?_) fun id => rfl⟩
  unfold firstFolderIds
  split <;> simp

/-- The accounts of the planned folders add up. -/
theorem buildFolders_built {around : Surroundings τ} {schema : Schemas} {fixed : FixedNodes}
    {plans rest : List FolderPlan} :
    ∀ {index : Nat} {rows left : OpenRows} {session final : Session τ}
      {folders : List TopFolderNode} {blocks : List BlockSpec},
      buildFolders around schema fixed plans index rows rest session =
          .ok (folders, blocks, left) final →
        folders.map (·.node) = rest.map (·.node) ∧
        final.stream.topNodes = session.stream.topNodes ∧
        Built session.stream.counters final.stream.counters (firstFolderIds index)
          (rest.flatMap (sharedReferences fixed.deleted)) (folders.flatMap (·.references))
          blocks := by
  induction rest with
  | nil =>
      intro index rows left session final folders blocks hrun
      simp only [buildFolders, pure_run_ok, Prod.mk.injEq] at hrun
      obtain ⟨⟨rfl, rfl, rfl⟩, rfl⟩ := hrun
      exact ⟨rfl, rfl, (Built.idle (Nat.le_refl _) []).spare _⟩
  | cons plan rest ih =>
      intro index rows left session final folders blocks hrun
      simp only [buildFolders, bind_run_ok, pure_run_ok, Prod.mk.injEq] at hrun
      obtain ⟨_, checked, hcheck, ⟨folder, own, middleRows⟩, middle, hfolder,
        ⟨others, otherBlocks, lastRows⟩, _, hrest, ⟨rfl, rfl, rfl⟩, rfl⟩ := hrun
      rw [← checkInterrupted_ok hcheck]
      obtain ⟨counters, hbuild, rfl⟩ := takeIds_ok hfolder
      obtain ⟨sameNode, built⟩ := buildFolder_built hbuild
      obtain ⟨sameNodes, topNodes, rest⟩ := ih hrest
      refine ⟨by simp [sameNode, sameNodes], topNodes, ?_⟩
      rw [List.flatMap_cons, List.flatMap_cons]
      exact (built.append rest).congr (fun other => by simp [firstFolderIds]) fun _ => rfl

end Folders

section FixedPart

/-- The references of one of the shared tables from the folders: those of the planned
folders that lack what the table lists, and that of the deleted items. -/
def folderUses (deleted : NodeId) (plans : List FolderPlan) (lacks : FolderPlan → Bool) : Nat :=
  deletedLacks deleted plans lacks + countFolders deleted plans lacks

/-- The fixed blocks with the number of references to each. -/
def fixedCounts (deleted : NodeId) (plans : List FolderPlan) : List (Nat × Nat) :=
  [(1, 1), (3, 1), (5, 4 + folderUses deleted plans (·.messages.isEmpty)), (6, 1), (8, 1),
    (9, 2 + folderUses deleted plans (·.children.isEmpty)),
    (13, 4 + folderUses deleted plans (·.associatedMessages.isEmpty)), (14, 1), (15, 1), (16, 2),
    (19, 1), (20, 1), (21, 1), (22, 1), (23, 1), (24, 1), (25, 1), (26, 1)]

/-- The references to blocks, each as often as its count says. -/
def countedReferences (counts : List (Nat × Nat)) : List BlockId :=
  counts.flatMap fun count => List.replicate count.2 (leafBlock count.1)

/-- Fixed blocks with counted references. -/
theorem built_fixed (counters : Counters) {counts : List (Nat × Nat)} {blocks : List BlockSpec}
    (same : List.Forall₂ (fun count block => ∃ bytes, bytes ≠ [] ∧
      block = (⟨leafBlock count.1, .data bytes, count.2 + 1⟩ : BlockSpec)) counts blocks) :
    Built counters counters (counts.map fun count => leafBlock count.1) []
      (countedReferences counts) blocks := by
  induction same with
  | nil => exact .idle (Nat.le_refl _) []
  | cons isBlock _ ih =>
      obtain ⟨bytes, nonempty, rfl⟩ := isBlock
      exact (Built.counted _ counters (show Writable ⟨_, .data bytes, _⟩ from nonempty)).append ih

theorem fixedBlock_ok {index references : Nat} {bytes : Bytes} {block : BlockSpec}
    (nonempty : bytes ≠ []) (hblock : fixedBlock index (references + 1) bytes = .ok block) :
    ∃ bytes, bytes ≠ [] ∧ block = ⟨leafBlock index, .data bytes, references + 1⟩ := by
  obtain ⟨id, hid, hpure⟩ := bind_eq_ok.mp hblock
  cases hpure
  obtain rfl := leafBid_eq_ok hid
  exact ⟨bytes, nonempty, rfl⟩

theorem emptyTable_ok {index references : Nat} {columns : List TableColumnDescriptor}
    {block : BlockSpec} (hblock : emptyTable index (references + 1) columns = .ok block) :
    ∃ bytes, bytes ≠ [] ∧ block = ⟨leafBlock index, .data bytes, references + 1⟩ := by
  obtain ⟨table, htable, hblock⟩ := bind_eq_ok.mp hblock
  exact fixedBlock_ok (tableContext_ne_nil htable) hblock

theorem propertyBlock_ok {index : Nat} {properties : Properties} {block : BlockSpec}
    (hblock : propertyBlock index properties = .ok block) :
    ∃ bytes, bytes ≠ [] ∧ block = ⟨leafBlock index, .data bytes, 2⟩ := by
  obtain ⟨context, hcontext, hblock⟩ := bind_eq_ok.mp hblock
  exact fixedBlock_ok (propertyContext_ne_nil hcontext) hblock

theorem sharedRefCount_ok {base extra count : Nat} (hcount : sharedRefCount base extra = .ok
    count) :
    count = base + extra := by
  simp only [sharedRefCount, okOr_eq_ok, tryFrom_eq_some, saturatingAdd, wordCount] at hcount
  omega

theorem fixedBlocks_built (counters : Counters) {storeName : Text} {recordKey : Bytes}
    {schema : Schemas} {fixed : FixedNodes} {plans : List FolderPlan} {blocks : List BlockSpec}
    (hblocks : fixedBlocks storeName recordKey schema fixed plans = .ok blocks) :
    Built counters counters ((fixedCounts fixed.deleted plans).map fun count => leafBlock count.1)
      [] (countedReferences (fixedCounts fixed.deleted plans)) blocks := by
  simp only [fixedBlocks, bind_eq_ok] at hblocks
  obtain ⟨store, hstore, root, hroot, contentsCount, hcontentsCount, contents, hcontents, ipm, hipm,
    deletedList, -, deleted, hdeleted, hierarchyCount, hhierarchyCount, hierarchy, hhierarchy,
    associatedCount, hassociatedCount, associated, hassociated, searchRoot, hsearchRoot, spam,
      hspam,
    searchContents, hsearchContents, activity, hactivity, receive, hreceive, receiveFolder,
    hreceiveFolder, outgoing, houtgoing, contentsIndex, hcontentsIndex, searchIndex, hsearchIndex,
    attachmentIndex, hattachmentIndex, criteria, hcriteria, map, hmap, hpure⟩ := hblocks
  cases hpure
  have shared {base extra uses count : Nat} (hcount : sharedRefCount
    (base + 1 + extra) uses = .ok count) :
      count = base + (extra + uses) + 1 := by
    have := sharedRefCount_ok hcount
    omega
  obtain rfl := shared hcontentsCount
  obtain rfl := shared hhierarchyCount
  obtain rfl := shared hassociatedCount
  refine built_fixed counters ?_
  refine .cons (propertyBlock_ok hstore) <| .cons (propertyBlock_ok hroot) <|
    .cons (emptyTable_ok hcontents) <| .cons (propertyBlock_ok hipm) <|
    .cons (propertyBlock_ok hdeleted) <| .cons (emptyTable_ok hhierarchy) <|
    .cons (emptyTable_ok hassociated) <| .cons (propertyBlock_ok hsearchRoot) <|
    .cons (propertyBlock_ok hspam) <| .cons (emptyTable_ok hsearchContents) <|
    .cons (fixedBlock_ok (leBytes_ne_nil (by decide) _) hactivity) <|
    .cons (fixedBlock_ok (tableContext_ne_nil hreceive) hreceiveFolder) <|
    .cons (emptyTable_ok houtgoing) <| .cons (emptyTable_ok hcontentsIndex) <|
    .cons (emptyTable_ok hsearchIndex) <| .cons (emptyTable_ok hattachmentIndex) <|
    .cons (propertyBlock_ok hcriteria) <| .cons (fixedBlock_ok ?_ hmap) .nil
  decide

theorem buildNamedPropertyContext_built {identities : List NamedIdentity}
    {counters final : Counters} {build : NamedPropertyMapBuild}
    (hrun : buildNamedPropertyContext identities counters = .ok build final) :
    Built counters final [leafBlock 2] [] (build.dataBlock :: build.subnodeBlock.toList)
      build.blocks := by
  simp only [buildNamedPropertyContext, bind_run_ok, attempt_run_ok, get_run_ok,
    modify_run_ok] at hrun
  obtain ⟨properties, _, ⟨-, rfl⟩, _, counters, ⟨rfl, rfl⟩, _, _, rfl, moved, middle, hmoved, _, _,
    rfl, block, _, ⟨hblock, rfl⟩, context, afterContext, hcontext, hrun⟩ := hrun
  obtain rfl := leafBid_eq_ok hblock
  have movedBuilt : Built counters middle [] [] (entryReferences moved.subnodes) moved.blocks :=
    (externalizeLargeProperties_built hmoved).reindex rfl rfl
  have contextBuilt : Built middle afterContext [leafBlock 2] [] [context.dataBlock]
      context.blocks := (buildPropertyContext_built hcontext).reindex rfl rfl
  have both := movedBuilt.append contextBuilt
  split at hrun
  · rename_i empty
    obtain ⟨rfl, rfl⟩ := pure_run_ok.mp hrun
    rw [List.isEmpty_iff.mp empty] at both
    exact both
  · simp only [bind_run_ok, pure_run_ok] at hrun
    obtain ⟨⟨root, tree⟩, _, htree, rfl, rfl⟩ := hrun
    refine (both.append (appendSubnodeTree_built htree)).congr (fun _ => rfl) fun id => ?_
    simp only [Option.toList_some, List.count_append, List.count_cons, List.count_nil]
    omega

end FixedPart

section Nodes

/-- The references of the node B-tree. -/
def nodeReferences (nodes : List NodeBTreeEntry) : List BlockId :=
  nodes.flatMap fun entry => entry.data :: entry.subNode.toList

@[simp] theorem nodeReferences_nil : nodeReferences [] = [] := rfl

@[simp] theorem nodeReferences_append (first second : List NodeBTreeEntry) :
    nodeReferences (first ++ second) = nodeReferences first ++ nodeReferences second := by
  simp [nodeReferences]

@[simp] theorem nodeReferences_cons (entry : NodeBTreeEntry) (rest : List NodeBTreeEntry) :
    nodeReferences (entry :: rest) = entry.data :: (entry.subNode.toList ++
      nodeReferences rest) := by
  simp [nodeReferences]

theorem folderEntries_references {folder : TopFolderNode} {entries : List NodeBTreeEntry}
    (hentries : folderEntries folder = .ok entries) :
    nodeReferences entries = folder.references := by
  simp only [folderEntries, tableNode, bind_eq_ok] at hentries
  obtain ⟨hierarchy, ⟨_, -, hhierarchy⟩, contents, ⟨_, -, hcontents⟩, associated,
    ⟨_, -, hassociated⟩, hpure⟩ := hentries
  cases hhierarchy
  cases hcontents
  cases hassociated
  cases hpure
  simp [TopFolderNode.references]

theorem folderEntries_mapM_references {folders : List TopFolderNode} :
    ∀ {entries : List (List NodeBTreeEntry)}, folders.mapM folderEntries = .ok entries →
      nodeReferences entries.flatten = folders.flatMap (·.references) := by
  induction folders with
  | nil =>
      intro entries hentries
      rw [List.mapM_nil] at hentries
      cases hentries
      rfl
  | cons folder rest ih =>
      intro entries hentries
      rw [List.mapM_cons] at hentries
      obtain ⟨first, hfirst, hentries⟩ := bind_eq_ok.mp hentries
      obtain ⟨others, hothers, hpure⟩ := bind_eq_ok.mp hentries
      cases hpure
      rw [List.flatten_cons, nodeReferences_append, folderEntries_references hfirst, ih hothers,
        List.flatMap_cons]

/-- The entry with a key and those with other keys, where keys are used once. -/
theorem perm_find_filter {α κ : Type} [DecidableEq κ] (key : α → κ) (wanted : κ) {source : List α}
    (distinct : (source.map key).Nodup) :
    ((source.find? fun element => key element = wanted).toList
      ++ source.filter fun element => key element ≠ wanted).Perm source := by
  induction source with
  | nil => exact .refl _
  | cons head tail ih =>
      rw [List.map_cons, List.nodup_cons] at distinct
      by_cases found : key head = wanted
      · have others : (tail.filter fun element => key element ≠ wanted) = tail := by
          rw [List.filter_eq_self]
          intro element member
          have differs : key element ≠ key head := fun same =>
            distinct.1 (same ▸ List.mem_map_of_mem member)
          simpa [found] using differs
        simp only [List.find?_cons, found, decide_true, Option.toList_some, List.filter_cons,
          ne_eq, not_true_eq_false, decide_false, Bool.false_eq_true, ↓reduceIte]
        rw [others]
        exact .refl _
      · simp only [List.find?_cons, found, decide_false, List.filter_cons, ne_eq,
          not_false_eq_true, decide_true, ↓reduceIte]
        exact List.perm_middle.trans ((ih distinct.2).cons head)

/-- One reference to each shared table from the folder of the deleted items, when no
plan stands for it. -/
def unplannedDeleted (deleted : NodeId) (plans : List FolderPlan) : Nat :=
  if (plans.find? (·.node = deleted)).isNone then 1 else 0

theorem countP_plans (deleted : NodeId) {plans : List FolderPlan}
    (distinct : (plans.map (·.node)).Nodup) (lacks : FolderPlan → Bool) :
    plans.countP lacks = (plans.find? (·.node = deleted)).toList.countP lacks
      + countFolders deleted plans lacks := by
  have split := (perm_find_filter FolderPlan.node deleted distinct).countP_eq lacks
  rw [← split, List.countP_append, countFolders]
  congr 1
  rw [List.countP_filter, ← List.countP_eq_length_filter]
  refine List.countP_congr fun plan _ => ?_
  simp [and_comm]

theorem folderUses_eq {deleted : NodeId} {plans : List FolderPlan}
    (distinct : (plans.map (·.node)).Nodup) (lacks : FolderPlan → Bool) :
    folderUses deleted plans lacks = plans.countP lacks + unplannedDeleted deleted plans := by
  rw [countP_plans deleted distinct lacks, folderUses, deletedLacks, unplannedDeleted]
  cases plans.find? (·.node = deleted) with
  | none => simp; omega
  | some plan => simp [List.countP_cons]

theorem countP_deleted (deleted : NodeId) {plans : List FolderPlan}
    (distinct : (plans.map (·.node)).Nodup) :
    plans.countP (·.node = deleted) + unplannedDeleted deleted plans = 1 := by
  rw [countP_plans deleted distinct, countFolders, unplannedDeleted]
  have none : (plans.filter fun plan => plan.node ≠ deleted && decide (plan.node = deleted)) =
      [] := by
    rw [List.filter_eq_nil_iff]
    intro plan _
    simp
  rw [none]
  cases hfind : plans.find? (·.node = deleted) with
  | none => simp
  | some plan =>
      have isDeleted := List.find?_some hfind
      simp only [decide_eq_true_eq] at isDeleted
      simp [isDeleted]

theorem count_sharedReferences (deleted : NodeId) (plans : List FolderPlan) (id : BlockId) :
    (plans.flatMap (sharedReferences deleted)).count id =
      (List.replicate (plans.countP (·.node = deleted)) (leafBlock 8)).count id
      + (List.replicate (plans.countP (·.children.isEmpty)) (leafBlock 9)).count id
      + (List.replicate (plans.countP (·.messages.isEmpty)) (leafBlock 5)).count id
      + (List.replicate (plans.countP (·.associatedMessages.isEmpty)) (leafBlock 13)).count id := by
  induction plans with
  | nil => rfl
  | cons plan rest ih =>
      have one (condition : Bool) (count : Nat) (block : BlockId) :
          (List.replicate (count + if condition then 1 else 0) block).count id =
            (List.replicate count block).count id
              + (if condition then [block] else []).count id := by
        cases condition <;> simp [List.replicate_succ, List.count_cons]
      rw [List.flatMap_cons, List.count_append, ih]
      simp only [List.countP_cons, one]
      simp only [sharedReferences, List.count_append, decide_eq_true_eq]
      omega

/-- The templates and the other nodes that refer to a fixed block, by node and block. -/
def templateNodes : List (Nat × Nat) :=
  [(0x21, 1), (0x201, 19), (0x62B, 20), (0x64C, 21), (0x60D, 9), (0x60E, 5), (0x60F, 13),
    (0x610, 16), (0x692, 17), (0x671, 18), (0x6B6, 22), (0x6D7, 23), (0x6F8, 24), (0xC01, 26)]

theorem templateEntries_eq (named : BlockId × Option BlockId) :
    templateEntries named = .ok ([⟨nidNameToIdMap, named.1, named.2, none⟩,
      ⟨nidSearchManagementQueue, .null, none, none⟩, ⟨⟨0xEC1⟩, .null, none, none⟩]
      ++ templateNodes.map fun (nid, index) => ⟨⟨nid⟩, leafBlock index, none, none⟩) := rfl

theorem searchEntries_eq (fixed : FixedNodes) :
    searchEntries fixed = .ok [⟨fixed.spamSearch, leafBlock 15, none, some fixed.root⟩,
      ⟨⟨spamSearchIndex * 32 + 0x06⟩, .null, none, none⟩,
      ⟨⟨spamSearchIndex * 32 + 0x07⟩, leafBlock 25, none, none⟩,
      ⟨⟨spamSearchIndex * 32 + 0x10⟩, leafBlock 16, none, none⟩] := rfl

/-- The folder of the deleted items when no plan stands for it. -/
def emptyDeleted (fixed : FixedNodes) : TopFolderNode :=
  ⟨fixed.deleted, fixed.ipm, leafBlock 8, leafBlock 9, none, leafBlock 5, none, leafBlock 13, none⟩

/-- The folder of the deleted items as it goes into the node B-tree. -/
def deletedFolder (fixed : FixedNodes) (folders : List TopFolderNode) : TopFolderNode :=
  match folders.find? (·.node = fixed.deleted) with
  | some folder => { folder with parent := fixed.ipm }
  | none => emptyDeleted fixed

theorem fixedFolders_eq (fixed : FixedNodes)
    (rootHierarchy ipmHierarchy : BlockId × Option BlockId) (folders : List TopFolderNode) :
    fixedFolders fixed rootHierarchy ipmHierarchy folders = .ok
      [⟨fixed.root, fixed.root, leafBlock 3, rootHierarchy.1, rootHierarchy.2, leafBlock 5, none,
          leafBlock 13, none⟩,
        ⟨fixed.ipm, fixed.root, leafBlock 6, ipmHierarchy.1, ipmHierarchy.2, leafBlock 5, none,
          leafBlock 13, none⟩,
        ⟨fixed.searchRoot, fixed.root, leafBlock 14, leafBlock 9, none, leafBlock 5, none,
          leafBlock 13, none⟩,
        deletedFolder fixed folders] := by
  rfl

/-- The references of a message in the node B-tree. -/
def TopMessageNode.references (message : TopMessageNode) : List BlockId :=
  [message.propertyBlock, message.subnodeBlock]

/-- The deleted items and the other planned folders refer to what the planned folders
refer to, and to the shared tables when no plan stands for the deleted items. -/
theorem count_deletedFolder (fixed : FixedNodes) {folders : List TopFolderNode}
    {plans : List FolderPlan} (sameNodes : folders.map (·.node) = plans.map (·.node))
    (distinct : (plans.map (·.node)).Nodup) (id : BlockId) :
    (deletedFolder fixed folders).references.count id
        + ((folders.filter (·.node ≠ fixed.deleted)).flatMap (·.references)).count id =
      (folders.flatMap (·.references)).count id
        + (List.replicate (unplannedDeleted fixed.deleted plans)
            [leafBlock 8, leafBlock 9, leafBlock 5, leafBlock 13]).flatten.count id := by
  have split := ((perm_find_filter TopFolderNode.node fixed.deleted
    (sameNodes ▸ distinct)).flatMap_right (·.references)).count_eq id
  have unplanned : (plans.find? (·.node = fixed.deleted)).isNone =
      (folders.find? (·.node = fixed.deleted)).isNone := by
    have lookup {α : Type} (key : α → NodeId) (source : List α) :
        (source.find? fun element => key element = fixed.deleted).isNone =
          decide (fixed.deleted ∉ source.map key) := by
      rw [Bool.eq_iff_iff, Option.isNone_iff_eq_none, List.find?_eq_none, decide_eq_true_eq]
      simp
    rw [lookup FolderPlan.node, lookup TopFolderNode.node, sameNodes]
  rw [unplannedDeleted, unplanned, deletedFolder, ← split]
  cases folders.find? (·.node = fixed.deleted) with
  | none =>
      have refers : (emptyDeleted fixed).references =
          [leafBlock 8, leafBlock 9, leafBlock 5, leafBlock 13] := rfl
      simp only [refers, Option.isNone_none, ↓reduceIte, Option.toList_none, List.nil_append,
        List.replicate_one, List.flatten_singleton]
      omega
  | some folder =>
      simp only [Option.toList_some, List.singleton_append, List.flatMap_cons, List.count_append,
        Option.isNone_some, Bool.false_eq_true, ↓reduceIte, List.replicate_zero,
        List.flatten_nil, List.count_nil, Nat.add_zero]
      rfl

/-- The references that the fixed blocks expect: those of the fixed nodes, and those of
the folders to the shared tables. -/
theorem count_fixedCounts {deleted : NodeId} {plans : List FolderPlan}
    (distinct : (plans.map (·.node)).Nodup) (id : BlockId) :
    (countedReferences (fixedCounts deleted plans)).count id =
      ([1, 3, 5, 5, 5, 5, 6, 8, 9, 9, 13, 13, 13, 13, 14, 15, 16, 16, 19, 20, 21, 22, 23, 24, 25,
          26].map leafBlock).count id
        + (List.replicate (plans.countP (·.messages.isEmpty)) (leafBlock 5)).count id
        + (List.replicate (plans.countP (·.children.isEmpty)) (leafBlock 9)).count id
        + (List.replicate (plans.countP (·.associatedMessages.isEmpty)) (leafBlock 13)).count id
        + (List.replicate (unplannedDeleted deleted plans)
            [leafBlock 5, leafBlock 9, leafBlock 13]).flatten.count id := by
  have shared (base : Nat) (lacks : FolderPlan → Bool) (block : BlockId) :
      (List.replicate (base + folderUses deleted plans lacks) block).count id =
        (List.replicate base block).count id
          + (List.replicate (plans.countP lacks) block).count id
          + (List.replicate (unplannedDeleted deleted plans) block).count id := by
    rw [folderUses_eq distinct, List.replicate_add, List.replicate_add, List.count_append,
      List.count_append]
    omega
  have three (count : Nat) :
      (List.replicate count [leafBlock 5, leafBlock 9, leafBlock 13]).flatten.count id =
        (List.replicate count (leafBlock 5)).count id
          + (List.replicate count (leafBlock 9)).count id
          + (List.replicate count (leafBlock 13)).count id := by
    induction count with
    | zero => rfl
    | succ count ih =>
        simp only [List.replicate_succ, List.flatten_cons, List.count_append, List.count_cons,
          List.count_nil, ih]
        omega
  rw [three]
  simp only [countedReferences, fixedCounts, List.flatMap_cons, List.flatMap_nil,
    List.count_append, List.count_nil]
  rw [shared 4 (·.messages.isEmpty), shared 2 (·.children.isEmpty),
    shared 4 (·.associatedMessages.isEmpty)]
  simp only [List.map_cons, List.map_nil, List.replicate, List.count_cons, List.count_nil]
  omega

/-- What the node B-tree refers to, beyond the blocks that the planned folders share. -/
theorem nodeEntries_references {fixed : FixedNodes}
    {named rootHierarchy ipmHierarchy : BlockId × Option BlockId} {folders : List TopFolderNode}
    {messages : List TopMessageNode} {nodes : List NodeBTreeEntry} {plans : List FolderPlan}
    (sameNodes : folders.map (·.node) = plans.map (·.node))
    (distinct : (plans.map (·.node)).Nodup)
    (hnodes : nodeEntries fixed named rootHierarchy ipmHierarchy folders messages = .ok nodes)
    {id : BlockId} (notNull : id ≠ .null) :
    (nodeReferences nodes).count id + (plans.flatMap (sharedReferences fixed.deleted)).count id =
      (named.1 :: named.2.toList).count id + (rootHierarchy.1 :: rootHierarchy.2.toList).count id
        + (ipmHierarchy.1 :: ipmHierarchy.2.toList).count id
        + (folders.flatMap (·.references)).count id
        + (messages.flatMap (·.references)).count id
        + (templateReferences 0).count id
        + (countedReferences (fixedCounts fixed.deleted plans)).count id := by
  simp only [nodeEntries, templateEntries_eq, searchEntries_eq, fixedFolders_eq, bind_eq_ok,
    Except.ok.injEq] at hnodes
  obtain ⟨_, rfl, _, rfl, _, rfl, fixedOnes, hfixed, planned, hplanned, hpure⟩ := hnodes
  obtain rfl := Except.ok.inj hpure
  have sorted : ∀ entries : List NodeBTreeEntry,
      (nodeReferences (sortByKey (·.node.value) entries)).count id =
        (nodeReferences entries).count id :=
    fun entries => ((sortByKey_perm _ entries).flatMap_right _).count_eq id
  have messageReferences : nodeReferences (messages.map fun message =>
      (⟨message.node, message.propertyBlock, some message.subnodeBlock, some message.parent⟩ :
        NodeBTreeEntry)) = messages.flatMap (·.references) := by
    rw [nodeReferences, List.flatMap_map]
    rfl
  have deletedCount := count_deletedFolder fixed sameNodes distinct id
  have deletedPlans := countP_deleted fixed.deleted distinct
  have fixedReferences : nodeReferences fixedOnes.flatten = [leafBlock 3]
      ++ rootHierarchy.1 :: rootHierarchy.2.toList ++ [leafBlock 5, leafBlock 13, leafBlock 6]
      ++ ipmHierarchy.1 :: ipmHierarchy.2.toList
      ++ [5, 13, 14, 9, 5, 13].map leafBlock ++ (deletedFolder fixed folders).references := by
    rw [folderEntries_mapM_references hfixed]
    simp [TopFolderNode.references]
  have templates : nodeReferences (templateNodes.map fun (nid, index) =>
      (⟨⟨nid⟩, leafBlock index, none, none⟩ : NodeBTreeEntry)) =
        [1, 19, 20, 21, 9, 5, 13, 16, 17, 18, 22, 23, 24, 26].map leafBlock := rfl
  have nullCount : ((BlockId.null == id) = true) = False := by
    rw [beq_iff_eq, eq_iff_iff, iff_false]
    exact fun same => notNull same.symm
  rw [sorted, count_sharedReferences, count_fixedCounts distinct]
  simp only [nodeReferences_append, fixedReferences, folderEntries_mapM_references hplanned,
    messageReferences, templates, List.count_append, nodeReferences_cons, nodeReferences_nil,
    List.map_cons, List.map_nil, Option.toList_none, List.nil_append, List.count_cons,
    List.count_nil, nullCount, ↓reduceIte, templateReferences, isFirst, decide_true]
  -- either one plan stands for the deleted items, or they use the shared tables themselves
  obtain ⟨one, unplanned⟩ | ⟨none, unplanned⟩ : plans.countP (·.node = fixed.deleted) = 1
      ∧ unplannedDeleted fixed.deleted plans = 0 ∨
      plans.countP (·.node = fixed.deleted) = 0 ∧ unplannedDeleted fixed.deleted plans = 1 := by
    omega
  · rw [unplanned, List.replicate_zero, List.flatten_nil, List.count_nil] at deletedCount ⊢
    rw [one, List.replicate_one, List.count_cons, List.count_nil]
    omega
  · rw [unplanned, List.replicate_one, List.flatten_singleton] at deletedCount ⊢
    rw [none, List.replicate_zero, List.count_nil, List.count_cons, List.count_cons,
      List.count_cons, List.count_nil]
    simp only [List.count_cons, List.count_nil] at deletedCount
    omega

end Nodes

end PstForge.Writer
