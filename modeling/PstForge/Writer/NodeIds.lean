import PstForge.Writer.PlanAccounts

/-! # The nodes of a finished store

The planned folders have distinct keys, because they are kept in a strict order, and
so they have distinct nodes. Together with the fixed nodes and those of the messages
the node B-tree lists every node once, and the counters of the header stand behind
all nodes and subnodes.
-/

namespace PstForge.Writer

open PstForge.Foundation PstForge.Ndb PstForge.Ltp

variable {τ : Type}

section Order

theorem nameLt_trans {first second third : Text} (left : nameLt first second = true)
    (right : nameLt second third = true) : nameLt first third = true := by
  simp only [nameLt, List.lex_eq_true_iff_lt] at *
  exact List.lt_trans left right

theorem nameLt_irrefl (name : Text) : nameLt name name = false := by
  rw [nameLt, List.lex_eq_false_iff_ge]
  exact List.le_refl _

theorem pathLt_irrefl (path : List Text) : pathLt path path = false := by
  induction path with
  | nil => rfl
  | cons name rest ih => simp [pathLt, nameLt_irrefl, ih]

theorem pathLt_trans {first second third : List Text} (left : pathLt first second = true)
    (right : pathLt second third = true) : pathLt first third = true := by
  induction first generalizing second third with
  | nil =>
      cases third with
      | nil => cases second <;> simp [pathLt] at right
      | cons name rest => rfl
  | cons name rest ih =>
      cases second with
      | nil => simp [pathLt] at left
      | cons name' rest' =>
          cases third with
          | nil => simp [pathLt] at right
          | cons name'' rest'' =>
              simp only [pathLt, Bool.or_eq_true, Bool.and_eq_true, decide_eq_true_eq] at *
              rcases left with left | ⟨rfl, left⟩
              · rcases right with right | ⟨rfl, right⟩
                · exact .inl (nameLt_trans left right)
                · exact .inl left
              · rcases right with right | ⟨rfl, right⟩
                · exact .inl right
                · exact .inr ⟨rfl, ih left right⟩

theorem folderKeyLt_irrefl (key : FolderKey) : folderKeyLt key key = false := by
  simp [folderKeyLt, pathLt_irrefl]

theorem MailFolderLocation.rank_inj {first second : MailFolderLocation}
    (same : first.rank = second.rank) : first = second := by
  cases first <;> cases second <;> simp [rank] at same <;> rfl

theorem folderKeyLt_trans {first second third : FolderKey}
    (left : folderKeyLt first second = true) (right : folderKeyLt second third = true) :
    folderKeyLt first third = true := by
  simp only [folderKeyLt, Bool.or_eq_true, Bool.and_eq_true, decide_eq_true_eq] at *
  rcases left with left | ⟨sameLeft, left⟩
  · rcases right with right | ⟨sameRight, right⟩
    · exact .inl (left.trans right)
    · exact .inl (sameRight ▸ left)
  · rcases right with right | ⟨sameRight, right⟩
    · exact .inl (sameLeft ▸ right)
    · exact .inr ⟨sameLeft.trans sameRight, pathLt_trans left right⟩

theorem nameLt_total {first second : Text} (notLt : nameLt first second = false)
    (notGt : nameLt second first = false) : first = second := by
  simp only [nameLt, List.lex_eq_false_iff_ge] at notLt notGt
  have same := List.le_antisymm notGt notLt
  refine List.map_injective_iff.mpr ?_ same
  intro left right code
  exact Char.ext (UInt32.toNat.inj code)

theorem pathLt_total {first second : List Text} (notLt : pathLt first second = false)
    (notGt : pathLt second first = false) : first = second := by
  induction first generalizing second with
  | nil => cases second <;> simp_all [pathLt]
  | cons name rest ih =>
      cases second with
      | nil => simp [pathLt] at notGt
      | cons name' rest' =>
          simp only [pathLt, Bool.or_eq_false_iff, Bool.and_eq_false_iff,
            decide_eq_false_iff_not] at notLt notGt
          have sameName := nameLt_total notLt.1 notGt.1
          subst sameName
          have sameRest := ih (notLt.2.resolve_left (by simp)) (notGt.2.resolve_left (by simp))
          rw [sameRest]

/-- Two keys that are not before one another are the same. -/
theorem folderKeyLt_total {first second : FolderKey} (notLt : folderKeyLt first second = false)
    (notSame : first ≠ second) : folderKeyLt second first = true := by
  by_contra notGt
  rw [Bool.not_eq_true] at notGt
  simp only [folderKeyLt, Bool.or_eq_false_iff, Bool.and_eq_false_iff,
    decide_eq_false_iff_not] at notLt notGt
  have sameLocation : first.1 = second.1 := MailFolderLocation.rank_inj (by omega)
  have samePath := pathLt_total (notLt.2.resolve_left (by simp [sameLocation]))
    (notGt.2.resolve_left (by simp [sameLocation]))
  exact notSame (Prod.ext sameLocation samePath)

end Order

section Keys

/-- The paths planned so far stand in strict order. -/
def Ordered (paths : PlannedPaths) : Prop :=
  paths.Pairwise fun first second => folderKeyLt first.1 second.1 = true

theorem mem_fileUnder {key : FolderKey} {messages associated : List MessageSpec}
    {paths : PlannedPaths} {entry : FolderKey × (List MessageSpec × List MessageSpec)}
    (member : entry ∈ fileUnder key messages associated paths) :
    entry.1 = key ∨ ∃ old ∈ paths, old.1 = entry.1 := by
  induction paths with
  | nil =>
      simp only [fileUnder, List.mem_singleton] at member
      exact .inl (by rw [member])
  | cons head tail ih =>
      obtain ⟨headKey, filed⟩ := head
      simp only [fileUnder] at member
      split at member
      · rename_i same
        rcases List.mem_cons.mp member with rfl | member
        · exact .inl same.symm
        · exact .inr ⟨entry, .tail _ member, rfl⟩
      · split at member
        · rcases List.mem_cons.mp member with rfl | member
          · exact .inl rfl
          · exact .inr ⟨entry, member, rfl⟩
        · rcases List.mem_cons.mp member with rfl | member
          · exact .inr ⟨_, List.mem_cons_self, rfl⟩
          · rcases ih member with same | ⟨old, found, same⟩
            · exact .inl same
            · exact .inr ⟨old, .tail _ found, same⟩

/-- Filing messages keeps the paths in order. -/
theorem Ordered.fileUnder {paths : PlannedPaths} (ordered : Ordered paths) (key : FolderKey)
    (messages associated : List MessageSpec) :
    Ordered (Writer.fileUnder key messages associated paths) := by
  induction paths with
  | nil => exact List.pairwise_singleton _ _
  | cons head tail ih =>
      obtain ⟨headKey, filed⟩ := head
      obtain ⟨below, ordered⟩ := List.pairwise_cons.mp ordered
      simp only [Writer.fileUnder]
      split
      · exact List.pairwise_cons.mpr ⟨below, ordered⟩
      · rename_i different
        split
        · rename_i before
          refine List.pairwise_cons.mpr ⟨fun entry member => ?_,
            List.pairwise_cons.mpr ⟨below, ordered⟩⟩
          rcases List.mem_cons.mp member with rfl | member
          · exact before
          · exact folderKeyLt_trans before (below entry member)
        · rename_i notBefore
          refine List.pairwise_cons.mpr ⟨fun entry member => ?_, ih ordered⟩
          rcases mem_fileUnder member with same | ⟨old, found, same⟩
          · rw [same]
            exact folderKeyLt_total (by simpa using notBefore) different
          · rw [← same]
            exact below old found

theorem planPaths_ordered {preserve : Bool} {folders : List MailFolderSpec} :
    ∀ {seen : List FolderKey} {paths planned : PlannedPaths}, Ordered paths →
      planPaths preserve seen paths folders = .ok planned → Ordered planned := by
  induction folders with
  | nil =>
      intro seen paths planned ordered hplan
      cases hplan
      exact ordered
  | cons folder rest ih =>
      intro seen paths planned ordered hplan
      obtain ⟨_, -, hplan⟩ := bind_eq_ok.mp hplan
      refine ih ?_ hplan
      unfold planFolder
      split
      · exact ordered
      · refine Ordered.fileUnder ?_ _ _ _
        have all : ∀ (list : List (List Text)) (paths : PlannedPaths), Ordered paths →
            Ordered (list.foldl
              (fun paths path => Writer.fileUnder (folder.location, path) [] [] paths) paths) := by
          intro list
          induction list with
          | nil => exact fun _ ordered => ordered
          | cons path others ihPaths =>
              exact fun paths ordered => ihPaths _ (ordered.fileUnder _ _ _)
        exact all _ _ ordered

def FolderPlan.key (plan : FolderPlan) : FolderKey := (plan.location, plan.path)

/-- Naming the children of the folders keeps the keys of the folders. -/
theorem withChildren_keys (started : List FolderPlan) :
    (started.zipIdx.map fun (plan, index) =>
      { plan with children := (List.range started.length).filter fun child =>
        (started[child]?.bind (·.parent)) = some index }).map (·.key) = started.map (·.key) := by
  rw [List.map_map]
  calc started.zipIdx.map _ = (started.zipIdx.map Prod.fst).map FolderPlan.key := by
        rw [List.map_map]
        rfl
    _ = started.map FolderPlan.key := by rw [List.zipIdx_map_fst]

/-- The planned folders have distinct keys, and one of them at most has the role of the
deleted items. -/
theorem planFoldersExpected_keys {folders : List MailFolderSpec} {preserve allowEmpty : Bool}
    {plans : List FolderPlan} (hplans : planFoldersExpected folders preserve allowEmpty = .ok
      plans) :
    (plans.map (·.key)).Nodup ∧ (folders.filter (·.role = .deletedItems)).length ≤ 1 := by
  simp only [planFoldersExpected, bind_eq_ok, refuse_eq_ok] at hplans
  obtain ⟨paths, hpaths, _, roles, _, -, started, hstarted, hpure⟩ := hplans
  cases hpure
  refine ⟨?_, by omega⟩
  have keys : started.map (·.key) = paths.zipIdx.map (·.1.1) := by
    refine map_eq_of_mapM_ok hstarted ?_
    intro entry plan hplan
    obtain ⟨node, -, hpure⟩ := bind_eq_ok.mp hplan
    cases hpure
    rfl
  rw [withChildren_keys, keys]
  have distinct : (paths.map (·.1)).Nodup := by
    refine List.Pairwise.map _ (fun first second before => ?_)
      (planPaths_ordered List.Pairwise.nil hpaths)
    intro equal
    rw [equal, folderKeyLt_irrefl] at before
    cases before
  have unzip : paths.zipIdx.map (·.1.1) = paths.map (·.1) := by
    calc paths.zipIdx.map (·.1.1) = (paths.zipIdx.map Prod.fst).map Prod.fst := by
          rw [List.map_map]
          rfl
      _ = paths.map (·.1) := by rw [List.zipIdx_map_fst]
  rw [unzip]
  exact distinct

end Keys

section FolderNodes

/-- A folder that has the role of the deleted items is among those with that role. -/
theorem mem_of_folderRole {folders : List MailFolderSpec} {key : FolderKey}
    (role : folderRole folders key = .deletedItems) :
    ∃ folder ∈ folders.filter (·.role = .deletedItems), folder.key = key := by
  unfold folderRole at role
  cases hfind : folders.find? (·.key = key) with
  | none => simp [hfind] at role
  | some folder =>
      rw [hfind, Option.map_some, Option.getD_some] at role
      have found := List.find?_some hfind
      exact ⟨folder, List.mem_filter.mpr ⟨List.mem_of_find?_eq_some hfind, by simpa using role⟩,
        by simpa using found⟩

/-- The node of a folder while messages are streamed: that of the deleted items for
their role, and otherwise one that tells the place of the folder's path. -/
theorem transactionFolderNode_ok {folders : List MailFolderSpec} {key : FolderKey} {id : NodeId}
    (hnode : transactionFolderNode folders key = .ok id) :
    (folderRole folders key = .deletedItems ∧ id = ⟨deletedFolderIndex * 32 + 2⟩) ∨
      ∃ index, (observedPaths folders)[index]? = some key ∧
        id = ⟨(mailFolderIndex + index) * 32 + 2⟩ := by
  simp only [transactionFolderNode, bind_eq_ok, okOr_eq_ok] at hnode
  obtain ⟨index, hindex, hnode⟩ := hnode
  cases hrole : folderRole folders key with
  | deletedItems =>
      rw [hrole] at hnode
      obtain ⟨-, rfl⟩ := node_eq_ok.mp hnode
      exact .inl ⟨rfl, rfl⟩
  | ordinary =>
      rw [hrole] at hnode
      simp only [folderNode, bind_eq_ok, okOr_eq_ok, tryFrom_eq_some, checkedAdd_eq_some] at hnode
      obtain ⟨_, ⟨rfl, -⟩, _, ⟨rfl, -⟩, hnode⟩ := hnode
      obtain ⟨-, rfl⟩ := node_eq_ok.mp hnode
      obtain ⟨bound, found, -⟩ := List.findIdx?_eq_some_iff_getElem.mp hindex
      refine .inr ⟨_, ?_, rfl⟩
      rw [List.getElem?_eq_getElem bound]
      simpa using found

/-- The nodes of the planned folders are distinct; each is that of the deleted items or
lies behind the fixed folders. -/
theorem planTransactionFolders_nodes {folders : List MailFolderSpec} {preserve : Bool}
    {plans : List FolderPlan} (hplans : planTransactionFolders folders preserve = .ok plans) :
    (plans.map (·.node)).Nodup ∧ ∀ plan ∈ plans, plan.node = ⟨deletedFolderIndex * 32 + 2⟩ ∨
      ∃ index, plan.node = ⟨(mailFolderIndex + index) * 32 + 2⟩ := by
  simp only [planTransactionFolders, bind_eq_ok] at hplans
  obtain ⟨started, hstarted, hplans⟩ := hplans
  obtain ⟨distinct, roles⟩ := planFoldersExpected_keys hstarted
  have nodes : ∀ plan ∈ plans, transactionFolderNode folders plan.key = .ok plan.node := by
    intro plan member
    obtain ⟨old, -, hplan⟩ := exists_of_mem_mapM_ok hplans member
    obtain ⟨node, hnode, hpure⟩ := bind_eq_ok.mp hplan
    cases hpure
    exact hnode
  have keys : plans.map (·.key) = started.map (·.key) := by
    refine map_eq_of_mapM_ok hplans ?_
    intro old plan hplan
    obtain ⟨node, -, hpure⟩ := bind_eq_ok.mp hplan
    cases hpure
    rfl
  rw [← keys] at distinct
  constructor
  · rw [List.Nodup, List.pairwise_map] at distinct ⊢
    refine distinct.imp_of_mem fun {first second} memberFirst memberSecond different same => ?_
    have firstNode := transactionFolderNode_ok (nodes first memberFirst)
    have secondNode := transactionFolderNode_ok (nodes second memberSecond)
    rw [same] at firstNode
    rcases firstNode with ⟨firstRole, isDeleted⟩ | ⟨index, found, hfirst⟩
    · rcases secondNode with ⟨secondRole, -⟩ | ⟨index, -, hsecond⟩
      · -- two folders with the role of the deleted items
        obtain ⟨folder, member, folderKey⟩ := mem_of_folderRole firstRole
        obtain ⟨folder', member', folderKey'⟩ := mem_of_folderRole secondRole
        match hfilter : folders.filter (·.role = .deletedItems) with
        | [] =>
            rw [hfilter] at member
            cases member
        | [only] =>
            rw [hfilter, List.mem_singleton] at member member'
            exact different (by rw [← folderKey, ← folderKey', member, member'])
        | _ :: _ :: _ => simp [hfilter] at roles
      · rw [isDeleted] at hsecond
        simp only [NodeId.mk.injEq, deletedFolderIndex, mailFolderIndex] at hsecond
        omega
    · rcases secondNode with ⟨-, isDeleted⟩ | ⟨index', found', hsecond⟩
      · rw [hfirst] at isDeleted
        simp only [NodeId.mk.injEq, deletedFolderIndex, mailFolderIndex] at isDeleted
        omega
      · rw [hfirst] at hsecond
        have sameIndex : index = index' := by
          simp only [NodeId.mk.injEq] at hsecond
          omega
        rw [sameIndex, found'] at found
        exact different (Option.some.inj found).symm
  · intro plan member
    rcases transactionFolderNode_ok (nodes plan member) with ⟨-, isDeleted⟩ | ⟨index, -, hnode⟩
    · exact .inl isDeleted
    · exact .inr ⟨index, hnode⟩

end FolderNodes

section BTreeNodes

/-- The nodes of the folder with an index: the folder and its three tables. -/
def folderNodes (index : Nat) : List NodeId :=
  [⟨index * 32 + 0x02⟩, ⟨index * 32 + 0x0D⟩, ⟨index * 32 + 0x0E⟩, ⟨index * 32 + 0x0F⟩]

theorem folderEntries_nodes {folder : TopFolderNode} {entries : List NodeBTreeEntry} {index : Nat}
    (isFolder : folder.node = ⟨index * 32 + 2⟩) (hentries : folderEntries folder = .ok entries) :
    entries.map (·.node) = folderNodes index := by
  have same : folder.node.index = index := by
    rw [isFolder, NodeId.index]
    dsimp only
    omega
  simp only [folderEntries, tableNode, bind_eq_ok, same, node_eq_ok] at hentries
  obtain ⟨_, ⟨_, ⟨-, rfl⟩, hhierarchy⟩, _, ⟨_, ⟨-, rfl⟩, hcontents⟩, _, ⟨_, ⟨-, rfl⟩, hassociated⟩,
    hpure⟩ := hentries
  cases hhierarchy
  cases hcontents
  cases hassociated
  cases hpure
  simp [folderNodes, isFolder, NodeIdType.code]

theorem folderEntries_mapM_nodes {folders : List TopFolderNode} {indexes : List Nat}
    (areFolders : folders.map (·.node) = indexes.map fun index => ⟨index * 32 + 2⟩) :
    ∀ {entries : List (List NodeBTreeEntry)}, folders.mapM folderEntries = .ok entries →
      entries.flatten.map (·.node) = indexes.flatMap folderNodes := by
  induction folders generalizing indexes with
  | nil =>
      intro entries hentries
      rw [List.mapM_nil] at hentries
      cases hentries
      cases indexes with
      | nil => rfl
      | cons _ _ => simp at areFolders
  | cons folder rest ih =>
      intro entries hentries
      cases indexes with
      | nil => simp at areFolders
      | cons index others =>
          rw [List.map_cons, List.map_cons, List.cons.injEq] at areFolders
          rw [List.mapM_cons] at hentries
          obtain ⟨first, hfirst, hentries⟩ := bind_eq_ok.mp hentries
          obtain ⟨tail, htail, hpure⟩ := bind_eq_ok.mp hentries
          cases hpure
          rw [List.flatten_cons, List.map_append, List.flatMap_cons,
            folderEntries_nodes areFolders.1 hfirst, ih areFolders.2 htail]

/-- The nodes that every store has. -/
def fixedNodeIds : List NodeId :=
  [nidNameToIdMap, nidSearchManagementQueue, ⟨0xEC1⟩] ++ templateNodes.map (fun node => ⟨node.1⟩)
    ++ [9, ipmFolderIndex, searchRootIndex, deletedFolderIndex].flatMap folderNodes
    ++ [⟨spamSearchIndex * 32 + 0x03⟩, ⟨spamSearchIndex * 32 + 0x06⟩,
      ⟨spamSearchIndex * 32 + 0x07⟩, ⟨spamSearchIndex * 32 + 0x10⟩]

theorem fixedNodes_eq : fixedNodes = .ok ⟨⟨9 * 32 + 2⟩, ⟨ipmFolderIndex * 32 + 2⟩,
    ⟨searchRootIndex * 32 + 2⟩, ⟨deletedFolderIndex * 32 + 2⟩, ⟨spamSearchIndex * 32 + 3⟩⟩ := rfl

theorem deletedFolder_node (fixed : FixedNodes) (folders : List TopFolderNode) :
    (deletedFolder fixed folders).node = fixed.deleted := by
  unfold deletedFolder
  cases hfind : folders.find? (·.node = fixed.deleted) with
  | none => rfl
  | some folder => simpa using List.find?_some hfind

/-- The nodes of the node B-tree, before they are put in order. -/
theorem nodeEntries_nodes {fixed : FixedNodes}
    {named rootHierarchy ipmHierarchy : BlockId × Option BlockId} {folders : List TopFolderNode}
    {messages : List TopMessageNode} {nodes : List NodeBTreeEntry} {indexes : List Nat}
    (hfixed : fixedNodes = .ok fixed)
    (areFolders : (folders.filter (·.node ≠ fixed.deleted)).map (·.node) =
      indexes.map fun index => ⟨index * 32 + 2⟩)
    (hnodes : nodeEntries fixed named rootHierarchy ipmHierarchy folders messages = .ok nodes) :
    (nodes.map (·.node)).Perm (fixedNodeIds ++ indexes.flatMap folderNodes
      ++ messages.map (·.node)) := by
  rw [fixedNodes_eq] at hfixed
  obtain rfl := Except.ok.inj hfixed
  simp only [nodeEntries, templateEntries_eq, searchEntries_eq, fixedFolders_eq, bind_eq_ok,
    Except.ok.injEq] at hnodes
  obtain ⟨_, rfl, _, rfl, _, rfl, fixedOnes, hfixedOnes, planned, hplanned, hpure⟩ := hnodes
  obtain rfl := Except.ok.inj hpure
  have fixedFolders : fixedOnes.flatten.map (·.node) =
      [9, ipmFolderIndex, searchRootIndex, deletedFolderIndex].flatMap folderNodes :=
    folderEntries_mapM_nodes (by simp [deletedFolder_node]) hfixedOnes
  refine ((sortByKey_perm _ _).map _).trans ?_
  simp only [List.map_append, fixedFolders, folderEntries_mapM_nodes areFolders hplanned,
    List.map_map]
  exact .of_eq rfl

theorem mem_folderNodes {indexes : List Nat} {id : NodeId}
    (member : id ∈ indexes.flatMap folderNodes) :
    id.index ∈ indexes ∧ id.typeCode ∈ [0x02, 0x0D, 0x0E, 0x0F] := by
  obtain ⟨index, found, member⟩ := List.mem_flatMap.mp member
  simp only [folderNodes, List.mem_cons, List.not_mem_nil, or_false] at member
  have sameIndex : ∀ code < 32, (⟨index * 32 + code⟩ : NodeId).index = index := by
    intro code small
    rw [NodeId.index]
    dsimp only
    omega
  rcases member with rfl | rfl | rfl | rfl
  all_goals
    rw [sameIndex _ (by decide)]
    refine ⟨found, ?_⟩
    simp [NodeId.typeCode]

theorem folderNodes_nodup {indexes : List Nat} (distinct : indexes.Nodup) :
    (indexes.flatMap folderNodes).Nodup := by
  rw [List.nodup_flatMap]
  refine ⟨fun index _ => by simp [folderNodes], ?_⟩
  refine distinct.imp fun {first second} different => ?_
  intro id memberFirst memberSecond
  have one := (mem_folderNodes (List.mem_flatMap.mpr ⟨first, List.mem_singleton_self _,
    memberFirst⟩)).1
  have two := (mem_folderNodes
    (List.mem_flatMap.mpr ⟨second, List.mem_singleton_self _, memberSecond⟩)).1
  simp only [List.mem_singleton] at one two
  omega

/-- The fixed nodes lie before the planned folders, and none is a message. -/
theorem fixedNodeIds_spec : fixedNodeIds.Nodup ∧
    ∀ id ∈ fixedNodeIds, id.index < mailFolderIndex ∧ id.typeCode ≠ 4 ∧ id.typeCode ≠ 8 := by
  decide

/-- The nodes of the messages of a stream: the index tells the place of the message. -/
theorem messageNode_ok {associated : Bool} {index : Nat} {id : NodeId}
    (hnode : messageNode associated index = .ok id) :
    id.index = messageIndex + index ∧ (id.typeCode = 4 ∨ id.typeCode = 8) := by
  simp only [messageNode, bind_eq_ok, okOr_eq_ok, tryFrom_eq_some, checkedAdd_eq_some] at hnode
  obtain ⟨_, ⟨rfl, -⟩, _, ⟨rfl, -⟩, hnode⟩ := hnode
  obtain ⟨sameIndex, kind⟩ := node_index hnode
  refine ⟨sameIndex, ?_⟩
  rw [kind]
  cases associated with
  | true => exact .inr rfl
  | false => exact .inl rfl

theorem messageNodes_nodup {messages : List TopMessageNode}
    (numbered : ∀ index top, messages[index]? = some top →
      ∃ associated, messageNode associated index = .ok top.node) :
    (messages.map (·.node)).Nodup := by
  rw [List.nodup_iff_getElem?_ne_getElem?]
  intro first second before bound
  rw [List.length_map] at bound
  rw [List.getElem?_map, List.getElem?_map, List.getElem?_eq_getElem (by omega),
    List.getElem?_eq_getElem bound]
  obtain ⟨_, hfirst⟩ := numbered first _ (List.getElem?_eq_getElem (by omega))
  obtain ⟨_, hsecond⟩ := numbered second _ (List.getElem?_eq_getElem bound)
  have firstIndex := (messageNode_ok hfirst).1
  have secondIndex := (messageNode_ok hsecond).1
  intro same
  have sameNode : messages[first].node = messages[second].node := Option.some.inj same
  rw [sameNode] at firstIndex
  omega

/-- The node B-tree lists every node once. -/
theorem nodeEntries_nodup {fixed : FixedNodes}
    {named rootHierarchy ipmHierarchy : BlockId × Option BlockId} {folders : List TopFolderNode}
    {plans : List FolderPlan} {messages : List TopMessageNode} {nodes : List NodeBTreeEntry}
    (hfixed : fixedNodes = .ok fixed)
    (sameNodes : folders.map (·.node) = plans.map (·.node))
    (distinct : (plans.map (·.node)).Nodup)
    (planned : ∀ plan ∈ plans, plan.node = ⟨deletedFolderIndex * 32 + 2⟩ ∨
      ∃ index, plan.node = ⟨(mailFolderIndex + index) * 32 + 2⟩)
    (numbered : ∀ index top, messages[index]? = some top →
      ∃ associated, messageNode associated index = .ok top.node)
    (hnodes : nodeEntries fixed named rootHierarchy ipmHierarchy folders messages = .ok nodes) :
    (nodes.map (·.node)).Nodup := by
  have isDeleted : fixed.deleted = ⟨deletedFolderIndex * 32 + 2⟩ := by
    rw [fixedNodes_eq] at hfixed
    rw [← Except.ok.inj hfixed]
  let others := (folders.filter (·.node ≠ fixed.deleted)).map (·.node)
  let indexes := others.map (·.index)
  have folderNode : ∀ id ∈ others, ∃ index, id = ⟨(mailFolderIndex + index) * 32 + 2⟩ := by
    intro id member
    obtain ⟨folder, found, rfl⟩ := List.mem_map.mp member
    obtain ⟨found, notDeleted⟩ := List.mem_filter.mp found
    have inPlans : folder.node ∈ plans.map (·.node) := sameNodes ▸ List.mem_map_of_mem found
    obtain ⟨plan, memberPlan, same⟩ := List.mem_map.mp inPlans
    rcases planned plan memberPlan with deleted | ⟨index, hindex⟩
    · rw [← isDeleted, same] at deleted
      simp [deleted] at notDeleted
    · exact ⟨index, same ▸ hindex⟩
  have areFolders : others = indexes.map fun index => ⟨index * 32 + 2⟩ := by
    rw [List.map_map]
    refine (List.map_id others).symm.trans (List.map_congr_left fun id member => ?_)
    obtain ⟨index, rfl⟩ := folderNode id member
    simp only [Function.comp, NodeId.index, NodeId.mk.injEq, id]
    omega
  have behind : ∀ index ∈ indexes, mailFolderIndex ≤ index := by
    intro index member
    obtain ⟨id, found, rfl⟩ := List.mem_map.mp member
    obtain ⟨place, rfl⟩ := folderNode id found
    simp only [NodeId.index]
    omega
  have othersDistinct : others.Nodup :=
    (sameNodes ▸ distinct : (folders.map (·.node)).Nodup).sublist (List.filter_sublist.map _)
  have indexesDistinct : indexes.Nodup := by
    rw [areFolders] at othersDistinct
    exact List.Nodup.of_map _ othersDistinct
  refine (nodeEntries_nodes hfixed areFolders hnodes).nodup_iff.mpr ?_
  obtain ⟨fixedDistinct, fixedSpec⟩ := fixedNodeIds_spec
  rw [List.nodup_append, List.nodup_append]
  refine ⟨⟨fixedDistinct, folderNodes_nodup indexesDistinct, ?_⟩, messageNodes_nodup numbered, ?_⟩
  · rintro id member _ memberFolder rfl
    have inside := (fixedSpec id member).1
    have outside := behind _ (mem_folderNodes memberFolder).1
    omega
  · rintro id member _ memberMessage rfl
    obtain ⟨message, found, rfl⟩ := List.mem_map.mp memberMessage
    obtain ⟨place, hplace⟩ := List.getElem?_of_mem found
    obtain ⟨_, hmessage⟩ := numbered place message hplace
    have kind := (messageNode_ok hmessage).2
    rcases List.mem_append.mp member with member | member
    · have notMessage := (fixedSpec _ member).2
      omega
    · have folderKind := (mem_folderNodes member).2
      simp only [List.mem_cons, List.not_mem_nil, or_false] at folderKind
      omega

end BTreeNodes

section HeaderCounters

/-- The counter of a node's type stands behind the node, or at it for a subnode. -/
def Covers (counters : List Nat) (topLevel : Bool) (id : NodeId) : Prop :=
  ∃ counter, counters[id.typeCode]? = some counter ∧
    if topLevel then id.index < counter else id.index ≤ counter

/-- Counters have only been raised. -/
def Raised (before after : List Nat) : Prop :=
  ∀ (place : Nat) counter, before[place]? = some counter →
    ∃ higher, after[place]? = some higher ∧ counter ≤ higher

theorem Raised.refl (counters : List Nat) : Raised counters counters :=
  fun _ counter found => ⟨counter, found, Nat.le_refl _⟩

theorem Raised.trans {first second third : List Nat} (left : Raised first second)
    (right : Raised second third) : Raised first third := by
  intro place counter found
  obtain ⟨middle, foundMiddle, lower⟩ := left place counter found
  obtain ⟨last, foundLast, upper⟩ := right place middle foundMiddle
  exact ⟨last, foundLast, lower.trans upper⟩

theorem Covers.raised {before after : List Nat} {topLevel : Bool} {id : NodeId}
    (covers : Covers before topLevel id) (raised : Raised before after) :
    Covers after topLevel id := by
  obtain ⟨counter, found, bound⟩ := covers
  obtain ⟨higher, foundHigher, lower⟩ := raised _ counter found
  refine ⟨higher, foundHigher, ?_⟩
  cases topLevel with
  | true => exact Nat.lt_of_lt_of_le bound lower
  | false => exact Nat.le_trans bound lower

/-- One update raises the counters and covers its node, or the node is one of the
templates, which the initial counters cover. -/
theorem updateNidCounter_covers {counters updated : List Nat} {id : NodeId} {topLevel : Bool}
    (initial : Raised initialNidCounters counters)
    (hupdate : updateNidCounter counters id topLevel = .ok updated) :
    Raised counters updated ∧ Covers updated topLevel id := by
  unfold updateNidCounter at hupdate
  split at hupdate
  · obtain ⟨highWater, reaches, rfl⟩ : ∃ highWater,
        (if topLevel then id.index < highWater else id.index ≤ highWater) ∧
          updated = counters.modify id.typeCode (max · highWater) := by
      cases topLevel with
      | true =>
          simp only [↓reduceIte, bind_eq_ok, okOr_eq_ok, checkedAdd_eq_some] at hupdate
          obtain ⟨_, ⟨rfl, -⟩, hpure⟩ := hupdate
          cases hpure
          exact ⟨_, Nat.lt_succ_self _, rfl⟩
      | false =>
          cases hupdate
          exact ⟨_, Nat.le_refl _, rfl⟩
    have small : id.typeCode < 32 := Nat.mod_lt _ (by decide)
    have present : ∃ counter, initialNidCounters[id.typeCode]? = some counter :=
      ⟨_, List.getElem?_eq_getElem (by simpa [initialNidCounters] using small)⟩
    obtain ⟨start, hstart⟩ := present
    obtain ⟨counter, found, -⟩ := initial _ start hstart
    constructor
    · intro place old foundOld
      rw [List.getElem?_modify, foundOld]
      split
      · exact ⟨_, rfl, Nat.le_max_left _ _⟩
      · exact ⟨_, rfl, Nat.le_refl _⟩
    · refine ⟨max counter highWater, by simp [found], ?_⟩
      cases topLevel with
      | true => exact Nat.lt_of_lt_of_le reaches (Nat.le_max_right _ _)
      | false => exact Nat.le_trans reaches (Nat.le_max_right _ _)
  · simp only [bind_eq_ok, refuse_eq_ok, Bool.not_eq_false] at hupdate
    obtain ⟨_, template, hpure⟩ := hupdate
    cases hpure
    refine ⟨.refl _, Covers.raised ?_ initial⟩
    obtain ⟨value⟩ := id
    simp only [isReservedTemplate, Bool.or_eq_true, decide_eq_true_eq] at template
    rcases template with (rfl | rfl) | rfl <;> cases topLevel <;> exact ⟨0x400, rfl, by decide⟩

theorem updateNidCounters_cover {α : Type} {key : α → NodeId} {source : List α}
    {topLevel : Bool} :
    ∀ {counters updated : List Nat}, Raised initialNidCounters counters →
      source.foldlM (fun counters element => updateNidCounter counters (key element) topLevel)
          counters = .ok updated →
        Raised counters updated ∧ ∀ element ∈ source, Covers updated topLevel (key element) := by
  induction source with
  | nil =>
      intro counters updated _ hfold
      cases hfold
      exact ⟨.refl _, by simp⟩
  | cons head tail ih =>
      intro counters updated initial hfold
      rw [List.foldlM_cons] at hfold
      obtain ⟨middle, hhead, htail⟩ := bind_eq_ok.mp hfold
      obtain ⟨raised, covers⟩ := updateNidCounter_covers initial hhead
      obtain ⟨raisedTail, coversTail⟩ := ih (initial.trans raised) htail
      refine ⟨raised.trans raisedTail, fun element member => ?_⟩
      rcases List.mem_cons.mp member with rfl | member
      · exact covers.raised raisedTail
      · exact coversTail element member

/-- The header counters stand behind all nodes and subnodes. -/
theorem nidCounters_cover {entries : List NodeBTreeEntry} {blocks : List BlockSpec}
    {streamedSubnodes : List NodeId} {counters : List Nat}
    (hcounters : nidCounters entries blocks streamedSubnodes = .ok counters) :
    (∀ entry ∈ entries, Covers counters true entry.node) ∧
      ∀ id ∈ subnodeIds blocks ++ streamedSubnodes, Covers counters false id := by
  simp only [nidCounters, bind_eq_ok] at hcounters
  obtain ⟨first, hfirst, second, hsecond, hthird⟩ := hcounters
  obtain ⟨raisedFirst, coversFirst⟩ := updateNidCounters_cover (.refl _) hfirst
  obtain ⟨raisedSecond, coversSecond⟩ := updateNidCounters_cover raisedFirst hsecond
  obtain ⟨raisedThird, coversThird⟩ :=
    updateNidCounters_cover (raisedFirst.trans raisedSecond) hthird
  constructor
  · intro entry member
    exact (coversFirst entry member).raised (raisedSecond.trans raisedThird)
  · intro id member
    rcases List.mem_append.mp member with member | member
    · exact (coversSecond id member).raised raisedThird
    · exact coversThird id member

end HeaderCounters

end PstForge.Writer
