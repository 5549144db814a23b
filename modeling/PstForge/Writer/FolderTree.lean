import PstForge.Writer.NodeIds

/-! # The tree of the planned folders

A plan of folders is read off the paths that the layout names. It is a forest: every
prefix of a planned path is planned, a folder refers to the folder one component up,
and the children of a folder are exactly those that refer to it. The messages of a
planned folder are those that the layout files under its key.
-/

namespace PstForge.Writer

open PstForge.Foundation PstForge.Ndb PstForge.Ltp

section Filed

/-- The messages filed under a key. -/
def filedUnder (paths : PlannedPaths) (key : FolderKey) : List MessageSpec × List MessageSpec :=
  ((paths.find? (·.1 = key)).map (·.2)).getD ([], [])

theorem filedUnder_cons {head : FolderKey × (List MessageSpec × List MessageSpec)}
    {tail : PlannedPaths} {key : FolderKey} :
    filedUnder (head :: tail) key = if head.1 = key then head.2 else filedUnder tail key := by
  unfold filedUnder
  rw [List.find?_cons]
  by_cases same : head.1 = key
  · simp only [same, decide_true, ↓reduceIte, Option.map_some, Option.getD_some]
  · simp only [same, decide_false, ↓reduceIte]

theorem filedUnder_of_not_mem {paths : PlannedPaths} {key : FolderKey}
    (absent : key ∉ paths.map (·.1)) : filedUnder paths key = ([], []) := by
  have none : paths.find? (·.1 = key) = none := by
    rw [List.find?_eq_none]
    intro entry member same
    exact absent (List.mem_map.mpr ⟨entry, member, of_decide_eq_true same⟩)
  rw [filedUnder, none]
  rfl

theorem filedUnder_getElem {paths : PlannedPaths} (ordered : Ordered paths) {index : Nat}
    {entry : FolderKey × (List MessageSpec × List MessageSpec)}
    (here : paths[index]? = some entry) : filedUnder paths entry.1 = entry.2 := by
  induction paths generalizing index with
  | nil => cases here
  | cons head tail ih =>
      obtain ⟨below, ordered⟩ := List.pairwise_cons.mp ordered
      rw [filedUnder_cons]
      cases index with
      | zero =>
          cases here
          rw [if_pos rfl]
      | succ index =>
          rw [List.getElem?_cons_succ] at here
          have before := below entry (List.mem_of_getElem? here)
          have different : head.1 ≠ entry.1 := by
            intro same
            rw [same, folderKeyLt_irrefl] at before
            cases before
          rw [if_neg different]
          exact ih ordered here

theorem mem_keys_fileUnder {key other : FolderKey} {messages associated : List MessageSpec}
    {paths : PlannedPaths} :
    other ∈ (fileUnder key messages associated paths).map (·.1) ↔
      other = key ∨ other ∈ paths.map (·.1) := by
  induction paths with
  | nil => simp [fileUnder]
  | cons head tail ih =>
      obtain ⟨headKey, filed⟩ := head
      rw [fileUnder]
      split
      case isTrue same =>
        rw [List.map_cons, List.map_cons, List.mem_cons, same]
        tauto
      case isFalse =>
        split
        case isTrue => rw [List.map_cons, List.mem_cons]
        case isFalse =>
          rw [List.map_cons, List.map_cons, List.mem_cons, List.mem_cons, ih]
          tauto

/-- Filing messages under a key adds them to those filed there before. -/
theorem filedUnder_fileUnder {key other : FolderKey} {messages associated : List MessageSpec}
    {paths : PlannedPaths} (ordered : Ordered paths) :
    filedUnder (fileUnder key messages associated paths) other =
      if other = key then
        ((filedUnder paths other).1 ++ messages, (filedUnder paths other).2 ++ associated)
      else filedUnder paths other := by
  induction paths with
  | nil =>
      rw [fileUnder, filedUnder_cons]
      by_cases same : other = key
      · rw [if_pos same.symm, if_pos same]
        rfl
      · rw [if_neg (Ne.symm same), if_neg same]
  | cons head tail ih =>
      obtain ⟨headKey, filed⟩ := head
      obtain ⟨below, orderedTail⟩ := List.pairwise_cons.mp ordered
      rw [fileUnder]
      by_cases atHead : key = headKey
      · rw [if_pos atHead, filedUnder_cons, filedUnder_cons, ← atHead]
        by_cases same : other = key
        · rw [if_pos same.symm, if_pos same, if_pos same.symm]
        · rw [if_neg (Ne.symm same), if_neg same, if_neg (Ne.symm same)]
      · rw [if_neg atHead]
        split
        case isTrue before =>
          rw [filedUnder_cons]
          by_cases same : other = key
          · have absent : key ∉ (((headKey, filed) :: tail : PlannedPaths)).map (·.1) := by
              intro member
              obtain ⟨entry, found, isKey⟩ := List.mem_map.mp member
              rcases List.mem_cons.mp found with rfl | found
              · exact atHead isKey.symm
              · have later := folderKeyLt_trans before (below entry found)
                rw [isKey, folderKeyLt_irrefl] at later
                cases later
            rw [if_pos same.symm, if_pos same, same, filedUnder_of_not_mem absent]
            rfl
          · rw [if_neg (Ne.symm same), if_neg same]
        case isFalse =>
          rw [filedUnder_cons, filedUnder_cons, ih orderedTail]
          by_cases same : other = key
          · have notHead : headKey ≠ other := fun isHead => atHead (same.symm.trans isHead.symm)
            rw [if_neg notHead, if_pos same, if_neg notHead]
            rw [if_pos same]
          · rw [if_neg same, if_neg same]

end Filed

section Paths

theorem mem_pathPrefixes {path taken : List Text} :
    taken ∈ pathPrefixes path ↔ taken ≠ [] ∧ taken <+: path := by
  unfold pathPrefixes
  constructor
  · intro member
    obtain ⟨depth, inside, rfl⟩ := List.mem_map.mp member
    rw [List.mem_range] at inside
    refine ⟨fun empty => ?_, List.take_prefix _ _⟩
    have length := congrArg List.length empty
    rw [List.length_take, List.length_nil] at length
    omega
  · rintro ⟨some, isPrefix⟩
    have positive : 0 < taken.length := List.length_pos_of_ne_nil some
    have bound := isPrefix.length_le
    refine List.mem_map.mpr ⟨taken.length - 1, List.mem_range.mpr (by omega), ?_⟩
    rw [Nat.sub_add_cancel positive]
    exact (List.prefix_iff_eq_take.mp isPrefix).symm

/-- Whether a folder is planned on its own account. -/
def MailFolderSpec.IsPlanned (preserveEmptyFolders : Bool) (folder : MailFolderSpec) : Prop :=
  preserveEmptyFolders = true ∨ folder.messages ≠ [] ∨ folder.associatedMessages ≠ []

/-- What the paths of some folders are when those of others are planned behind them. -/
structure PlansPaths (preserveEmptyFolders : Bool) (before : PlannedPaths)
    (folders : List MailFolderSpec) (after : PlannedPaths) : Prop where
  ordered : Ordered after
  keys : ∀ key, key ∈ after.map (·.1) ↔ key ∈ before.map (·.1) ∨
    ∃ folder ∈ folders, folder.IsPlanned preserveEmptyFolders ∧ key.1 = folder.location ∧
      key.2 ≠ [] ∧ key.2 <+: folder.path
  messages : ∀ key, (filedUnder after key).1 = (filedUnder before key).1 ++
    (folders.filter (·.key = key)).flatMap (·.messages)
  associated : ∀ key, (filedUnder after key).2 = (filedUnder before key).2 ++
    (folders.filter (·.key = key)).flatMap (·.associatedMessages)

variable {preserve : Bool}

/-- Filing nothing under the prefixes of a path adds just these keys. -/
theorem filePrefixes (location : MailFolderLocation) (prefixes : List (List Text)) :
    ∀ {paths : PlannedPaths}, Ordered paths →
      Ordered (prefixes.foldl (fun paths path => fileUnder (location, path) [] [] paths) paths) ∧
        (∀ key, key ∈ (prefixes.foldl (fun paths path =>
            fileUnder (location, path) [] [] paths) paths).map (·.1) ↔
          key ∈ paths.map (·.1) ∨ (key.1 = location ∧ key.2 ∈ prefixes)) ∧
        ∀ key, filedUnder (prefixes.foldl (fun paths path =>
          fileUnder (location, path) [] [] paths) paths) key = filedUnder paths key := by
  induction prefixes with
  | nil =>
      intro paths ordered
      exact ⟨ordered, fun key => by simp, fun key => rfl⟩
  | cons path rest ih =>
      intro paths ordered
      obtain ⟨kept, keys, filed⟩ := ih (ordered.fileUnder (location, path) [] [])
      rw [List.foldl_cons]
      refine ⟨kept, fun key => ?_, fun key => ?_⟩
      · rw [keys, mem_keys_fileUnder, List.mem_cons, Prod.ext_iff]
        tauto
      · rw [filed, filedUnder_fileUnder ordered, List.append_nil, List.append_nil]
        split <;> rfl

/-- One folder is planned with the prefixes of its path. -/
theorem planFolder_plans {folder : MailFolderSpec} {paths : PlannedPaths} (ordered : Ordered paths)
    (named : folder.path ≠ []) :
    PlansPaths preserve paths [folder] (planFolder preserve folder paths) := by
  unfold planFolder
  split
  case isTrue left =>
    simp only [Bool.and_eq_true, Bool.not_eq_true', List.isEmpty_iff] at left
    obtain ⟨⟨notPreserved, noMessages⟩, noAssociated⟩ := left
    have unplanned : ¬folder.IsPlanned preserve := by
      rintro (preserved | some | some)
      · rw [preserved] at notPreserved
        cases notPreserved
      · exact some noMessages
      · exact some noAssociated
    have nothing {list : MailFolderSpec → List MessageSpec} (none : list folder = []) :
        ∀ key, ([folder].filter (·.key = key)).flatMap list = [] := by
      intro key
      rw [List.flatMap_eq_nil_iff]
      intro other member
      obtain rfl := List.mem_singleton.mp (List.mem_filter.mp member).1
      exact none
    refine ⟨ordered, fun key => ?_, fun key => ?_, fun key => ?_⟩
    · simp [unplanned]
    · rw [nothing noMessages, List.append_nil]
    · rw [nothing noAssociated, List.append_nil]
  case isFalse kept =>
    have planned : folder.IsPlanned preserve := by
      by_contra unplanned
      apply kept
      simp only [MailFolderSpec.IsPlanned, not_or, Bool.not_eq_true, ne_eq, not_not] at unplanned
      obtain ⟨notPreserved, noMessages, noAssociated⟩ := unplanned
      rw [notPreserved, noMessages, noAssociated]
      rfl
    obtain ⟨prefixed, keys, filed⟩ :=
      filePrefixes folder.location (pathPrefixes folder.path) ordered
    refine ⟨prefixed.fileUnder _ _ _, fun key => ?_, fun key => ?_, fun key => ?_⟩
    · rw [mem_keys_fileUnder, keys, mem_pathPrefixes]
      have itself : key = folder.key →
          key.1 = folder.location ∧ key.2 ≠ [] ∧ key.2 <+: folder.path := by
        rintro rfl
        exact ⟨rfl, named, List.prefix_rfl⟩
      simp only [List.mem_singleton, exists_eq_left, planned, true_and]
      tauto
    · rw [filedUnder_fileUnder prefixed, filed, List.filter_cons, List.filter_nil]
      by_cases same : key = folder.key
      · simp [same]
      · simp [same, Ne.symm same]
    · rw [filedUnder_fileUnder prefixed, filed, List.filter_cons, List.filter_nil]
      by_cases same : key = folder.key
      · simp [same]
      · simp [same, Ne.symm same]

theorem PlansPaths.trans {first second third : PlannedPaths} {folders others : List MailFolderSpec}
    (left : PlansPaths preserve first folders second)
    (right : PlansPaths preserve second others third) :
    PlansPaths preserve first (folders ++ others) third where
  ordered := right.ordered
  keys key := by
    rw [right.keys, left.keys]
    simp only [List.mem_append, or_and_right, exists_or, or_assoc]
  messages key := by
    rw [right.messages, left.messages, List.filter_append, List.flatMap_append, List.append_assoc]
  associated key := by
    rw [right.associated, left.associated, List.filter_append, List.flatMap_append,
      List.append_assoc]

/-- What is accepted of the folders of a layout. -/
theorem checkFolder_ok {seen : List FolderKey} {folder : MailFolderSpec}
    (hcheck : checkFolder seen folder = .ok ()) : folder.path ≠ [] ∧ folder.key ∉ seen := by
  simp only [checkFolder, bind_eq_ok, refuse_eq_ok, Bool.or_eq_true, not_or] at hcheck
  obtain ⟨_, ⟨some, -⟩, _, fresh, -⟩ := hcheck
  exact ⟨fun empty => some (by rw [empty]; rfl), fresh⟩

theorem planPaths_plans {folders : List MailFolderSpec} :
    ∀ {seen : List FolderKey} {paths planned : PlannedPaths}, Ordered paths →
      planPaths preserve seen paths folders = .ok planned →
        PlansPaths preserve paths folders planned ∧ (∀ folder ∈ folders, folder.path ≠ []) ∧
          (folders.map (·.key)).Nodup ∧ ∀ folder ∈ folders, folder.key ∉ seen := by
  induction folders with
  | nil =>
      intro seen paths planned ordered hplan
      cases hplan
      exact ⟨⟨ordered, by simp, by simp, by simp⟩, by simp, List.nodup_nil, by simp⟩
  | cons folder rest ih =>
      intro seen paths planned ordered hplan
      rw [planPaths, bind_eq_ok] at hplan
      obtain ⟨_, hcheck, hplan⟩ := hplan
      obtain ⟨named, fresh⟩ := checkFolder_ok hcheck
      have one : PlansPaths preserve paths [folder] (planFolder preserve folder paths) :=
        planFolder_plans ordered named
      obtain ⟨others, allNamed, distinct, unseen⟩ := ih one.ordered hplan
      refine ⟨one.trans others, ?_, ?_, ?_⟩
      · exact List.forall_mem_cons.mpr ⟨named, allNamed⟩
      · rw [List.map_cons, List.nodup_cons]
        refine ⟨fun member => ?_, distinct⟩
        obtain ⟨other, found, same⟩ := List.mem_map.mp member
        exact unseen other found (same ▸ List.mem_cons_self)
      · refine List.forall_mem_cons.mpr ⟨fresh, fun other member seenBefore => ?_⟩
        exact unseen other member (List.mem_cons_of_mem _ seenBefore)

end Paths

section Tree

variable {preserve allowEmpty : Bool} {folders : List MailFolderSpec} {plans : List FolderPlan}

/-- The plan of a layout is a forest over the prefixes of its paths. -/
structure FolderForest (preserveEmptyFolders : Bool) (folders : List MailFolderSpec)
    (plans : List FolderPlan) : Prop where
  distinct : (plans.map (·.key)).Nodup
  planned : ∀ key, key ∈ plans.map (·.key) ↔ ∃ folder ∈ folders,
    folder.IsPlanned preserveEmptyFolders ∧ key.1 = folder.location ∧ key.2 ≠ [] ∧
      key.2 <+: folder.path
  messages : ∀ plan ∈ plans,
    plan.messages = (folders.filter (·.key = plan.key)).flatMap (·.messages)
  associatedMessages : ∀ plan ∈ plans,
    plan.associatedMessages = (folders.filter (·.key = plan.key)).flatMap (·.associatedMessages)
  parent : ∀ plan ∈ plans, ∀ place : Nat, plan.parent = some place ↔
    ∃ (above : FolderPlan) (name : Text), plans[place]? = some above ∧
      above.location = plan.location ∧ plan.path = above.path ++ [name]
  root : ∀ plan ∈ plans, plan.parent = none ↔ ∃ name : Text, plan.path = [name]
  children : ∀ (place : Nat) (above : FolderPlan), plans[place]? = some above → ∀ child : Nat,
    child ∈ above.children ↔ ∃ plan : FolderPlan, plans[child]? = some plan ∧
      plan.parent = some place

/-- What a plan keeps of the path at its position. -/
structure PlanOf (paths : PlannedPaths) (entry : FolderKey × (List MessageSpec × List MessageSpec))
    (plan : FolderPlan) : Prop where
  key : plan.key = entry.1
  messages : plan.messages = entry.2.1
  associatedMessages : plan.associatedMessages = entry.2.2
  parent : plan.parent = parentIndex paths entry.1

/-- The plans before their children are named. -/
structure Started (preserveEmptyFolders : Bool) (folders : List MailFolderSpec)
    (paths : PlannedPaths) (started : List FolderPlan) : Prop where
  checked : planPaths preserveEmptyFolders [] [] folders = .ok paths
  length : started.length = paths.length
  entry : ∀ (place : Nat) (plan : FolderPlan), started[place]? = some plan →
    ∃ entry, paths[place]? = some entry ∧ PlanOf paths entry plan

/-- Name the children of the folders. -/
def nameChildren (started : List FolderPlan) : List FolderPlan :=
  started.zipIdx.map fun (plan, index) =>
    { plan with children := (List.range started.length).filter fun child =>
        (started[child]?.bind (·.parent)) = some index }

theorem planFoldersExpected_started
    (hplans : planFoldersExpected folders preserve allowEmpty = .ok plans) :
    ∃ paths started, Started preserve folders paths started ∧ plans = nameChildren started := by
  simp only [planFoldersExpected, bind_eq_ok] at hplans
  obtain ⟨paths, hpaths, _, -, _, -, started, hstarted, hpure⟩ := hplans
  cases hpure
  have length : started.length = paths.length := by
    have related := (forall₂_of_mapM_ok hstarted).length_eq
    rw [← related, List.length_zipIdx]
  refine ⟨paths, started, ⟨hpaths, length, fun place plan here => ?_⟩, rfl⟩
  have bound : place < paths.length := by
    rw [← length]
    exact (List.getElem?_eq_some_iff.mp here).1
  have found : paths.zipIdx[place]? = some (paths[place], place) := by
    rw [List.getElem?_zipIdx, List.getElem?_eq_getElem bound]
    simp
  obtain ⟨result, atPlace, hplan⟩ := getElem?_of_mapM_ok hstarted found
  rw [here] at atPlace
  obtain rfl := Option.some.inj atPlace
  obtain ⟨node, -, hpure⟩ := bind_eq_ok.mp hplan
  cases hpure
  exact ⟨paths[place], List.getElem?_eq_getElem bound, rfl, rfl, rfl, rfl⟩

theorem nameChildren_getElem? {started : List FolderPlan} {place : Nat} {plan : FolderPlan} :
    (nameChildren started)[place]? = some plan ↔ ∃ before, started[place]? = some before ∧
      plan = { before with children := (List.range started.length).filter fun child =>
        (started[child]?.bind (·.parent)) = some place } := by
  unfold nameChildren
  rw [List.getElem?_map, List.getElem?_zipIdx]
  cases here : started[place]? with
  | none => simp
  | some before =>
      rw [Option.map_some, Option.map_some, Option.some.injEq, Nat.zero_add]
      constructor
      · rintro rfl
        exact ⟨before, rfl, rfl⟩
      · rintro ⟨other, same, rfl⟩
        obtain rfl := Option.some.inj same
        rfl

/-- The position of the element with a key, where the keys are distinct. -/
theorem findIdx?_key {α β : Type} [DecidableEq β] {key : α → β} {source : List α}
    (distinct : (source.map key).Nodup) {wanted : β} {place : Nat} :
    source.findIdx? (fun element => key element = wanted) = some place ↔
      (source.map key)[place]? = some wanted := by
  rw [List.findIdx?_eq_some_iff_getElem]
  constructor
  · rintro ⟨bound, same, -⟩
    rw [List.getElem?_map, List.getElem?_eq_getElem bound, Option.map_some, of_decide_eq_true same]
  · intro here
    obtain ⟨bound, same⟩ := List.getElem?_eq_some_iff.mp here
    rw [List.length_map] at bound
    rw [List.getElem_map] at same
    refine ⟨bound, decide_eq_true same, fun earlier before => ?_⟩
    intro also
    have earlierSame := of_decide_eq_true also
    have different := List.pairwise_iff_getElem.mp distinct earlier place
      (by rw [List.length_map]; omega) (by rwa [List.length_map]) before
    rw [List.getElem_map, List.getElem_map] at different
    exact different (earlierSame.trans same.symm)

theorem Ordered.nodup {paths : PlannedPaths} (ordered : Ordered paths) :
    (paths.map (·.1)).Nodup := by
  refine List.Pairwise.map _ (fun first second before => ?_) ordered
  intro same
  rw [same, folderKeyLt_irrefl] at before
  cases before

/-- The folder one component up, as the plan of the paths has it. -/
theorem parentIndex_eq_some {paths : PlannedPaths} (ordered : Ordered paths) {key : FolderKey}
    {place : Nat} : parentIndex paths key = some place ↔
      1 < key.2.length ∧ (paths.map (·.1))[place]? = some (key.1, key.2.dropLast) := by
  unfold parentIndex
  split
  case isTrue long => rw [findIdx?_key ordered.nodup, and_iff_right long]
  case isFalse short =>
    constructor
    · intro none
      cases none
    · exact fun both => absurd both.1 short

theorem Started.named_entry {paths : PlannedPaths} {started : List FolderPlan}
    (begun : Started preserve folders paths started) {place : Nat} {plan : FolderPlan}
    (here : (nameChildren started)[place]? = some plan) :
    ∃ entry, paths[place]? = some entry ∧ PlanOf paths entry plan := by
  obtain ⟨before, there, rfl⟩ := nameChildren_getElem?.mp here
  obtain ⟨entry, found, holds⟩ := begun.entry place before there
  exact ⟨entry, found, holds.key, holds.messages, holds.associatedMessages, holds.parent⟩

theorem Started.named_keys {paths : PlannedPaths} {started : List FolderPlan}
    (begun : Started preserve folders paths started) :
    (nameChildren started).map (·.key) = paths.map (·.1) := by
  apply List.ext_getElem?
  intro place
  rw [List.getElem?_map, List.getElem?_map]
  cases here : (nameChildren started)[place]? with
  | some plan =>
      obtain ⟨entry, found, holds⟩ := begun.named_entry here
      rw [found, Option.map_some, Option.map_some, holds.key]
  | none =>
      have beyond : paths.length ≤ place := by
        rw [← begun.length]
        have length : (nameChildren started).length = started.length := by simp [nameChildren]
        rw [← length]
        exact List.getElem?_eq_none_iff.mp here
      rw [List.getElem?_eq_none beyond]
      rfl

theorem mem_nameChildren {started : List FolderPlan} {place child : Nat} {above : FolderPlan}
    (here : (nameChildren started)[place]? = some above) :
    child ∈ above.children ↔ ∃ plan : FolderPlan, (nameChildren started)[child]? = some plan ∧
      plan.parent = some place := by
  obtain ⟨before, -, rfl⟩ := nameChildren_getElem?.mp here
  rw [List.mem_filter, List.mem_range, decide_eq_true_eq, Option.bind_eq_some_iff]
  constructor
  · rintro ⟨-, plan, found, parent⟩
    exact ⟨_, nameChildren_getElem?.mpr ⟨plan, found, rfl⟩, parent⟩
  · rintro ⟨plan, found, parent⟩
    obtain ⟨other, there, rfl⟩ := nameChildren_getElem?.mp found
    exact ⟨(List.getElem?_eq_some_iff.mp there).1, other, there, parent⟩

/-- The plan of the folder one component up, found by its key. -/
theorem keyAbove_iff (named : ∀ plan ∈ plans, plan.path ≠ []) {plan : FolderPlan}
    {place : Nat} :
    1 < plan.path.length ∧
        (plans.map (·.key))[place]? = some (plan.location, plan.path.dropLast) ↔
      ∃ (above : FolderPlan) (name : Text), plans[place]? = some above ∧
        above.location = plan.location ∧ plan.path = above.path ++ [name] := by
  constructor
  · rintro ⟨long, here⟩
    rw [List.getElem?_map] at here
    obtain ⟨above, found, same⟩ := Option.map_eq_some_iff.mp here
    have some : plan.path ≠ [] := by
      intro empty
      rw [empty] at long
      cases long
    have pair : above.location = plan.location ∧ above.path = plan.path.dropLast :=
      Prod.ext_iff.mp same
    refine ⟨above, plan.path.getLast some, found, pair.1, ?_⟩
    rw [pair.2, List.dropLast_append_getLast]
  · rintro ⟨above, name, found, sameLocation, path⟩
    have positive : 0 < above.path.length :=
      List.length_pos_of_ne_nil (named above (List.mem_of_getElem? found))
    rw [path, List.length_append, List.length_singleton, List.dropLast_concat, ← sameLocation]
    refine ⟨by omega, ?_⟩
    rw [List.getElem?_map, found]
    rfl

/-- A folder has none above it when its path is a single name. -/
theorem parent_none_iff {plan : FolderPlan} (named : plan.path ≠ [])
    (parents : ∀ place : Nat, plan.parent = some place ↔ 1 < plan.path.length ∧
      (plans.map (·.key))[place]? = some (plan.location, plan.path.dropLast))
    (closed : 1 < plan.path.length →
      (plan.location, plan.path.dropLast) ∈ plans.map (·.key)) :
    plan.parent = none ↔ ∃ name : Text, plan.path = [name] := by
  constructor
  · intro none
    by_contra long
    have longer : 1 < plan.path.length := by
      rcases path : plan.path with _ | ⟨name, _ | ⟨second, rest⟩⟩
      · exact absurd path named
      · exact absurd ⟨name, path⟩ long
      · rw [List.length_cons, List.length_cons]
        omega
    obtain ⟨place, here⟩ := List.getElem?_of_mem (closed longer)
    have parent := (parents place).mpr ⟨longer, here⟩
    rw [none] at parent
    cases parent
  · rintro ⟨name, path⟩
    cases parent : plan.parent with
    | none => rfl
    | some place =>
        have long := ((parents place).mp parent).1
        rw [path] at long
        exact absurd long (Nat.lt_irrefl 1)

/-- The plans of a layout make a forest. -/
theorem planFoldersExpected_forest
    (hplans : planFoldersExpected folders preserve allowEmpty = .ok plans) :
    FolderForest preserve folders plans := by
  obtain ⟨paths, started, begun, rfl⟩ := planFoldersExpected_started hplans
  obtain ⟨planned, -, -, -⟩ := planPaths_plans List.Pairwise.nil begun.checked
  have keys := begun.named_keys
  have plannedKeys : ∀ key, key ∈ (nameChildren started).map (·.key) ↔ ∃ folder ∈ folders,
      folder.IsPlanned preserve ∧ key.1 = folder.location ∧ key.2 ≠ [] ∧
        key.2 <+: folder.path := by
    intro key
    rw [keys, planned.keys, List.map_nil]
    simp
  have named : ∀ plan ∈ nameChildren started, plan.path ≠ [] := by
    intro plan member
    obtain ⟨-, -, -, -, named, -⟩ := (plannedKeys plan.key).mp (List.mem_map_of_mem member)
    exact named
  have parents : ∀ plan ∈ nameChildren started, ∀ place : Nat, plan.parent = some place ↔
      1 < plan.path.length ∧ ((nameChildren started).map (·.key))[place]? =
        some (plan.location, plan.path.dropLast) := by
    intro plan member place
    obtain ⟨index, here⟩ := List.getElem?_of_mem member
    obtain ⟨entry, -, holds⟩ := begun.named_entry here
    rw [holds.parent, parentIndex_eq_some planned.ordered, keys, ← holds.key]
    rfl
  refine ⟨?_, plannedKeys, fun plan member => ?_, fun plan member => ?_,
    fun plan member place => (parents plan member place).trans (keyAbove_iff named),
    fun plan member => parent_none_iff (named plan member) (parents plan member) fun long => ?_,
    fun place above here child => mem_nameChildren here⟩
  · rw [keys]
    exact planned.ordered.nodup
  · obtain ⟨index, here⟩ := List.getElem?_of_mem member
    obtain ⟨entry, found, holds⟩ := begun.named_entry here
    rw [holds.messages, ← filedUnder_getElem planned.ordered found, planned.messages, holds.key]
    rfl
  · obtain ⟨index, here⟩ := List.getElem?_of_mem member
    obtain ⟨entry, found, holds⟩ := begun.named_entry here
    rw [holds.associatedMessages, ← filedUnder_getElem planned.ordered found, planned.associated,
      holds.key]
    rfl
  -- The folder above is planned for the same folder of the layout.
  · obtain ⟨folder, inLayout, isPlanned, sameLocation, -, isPrefix⟩ :=
      (plannedKeys plan.key).mp (List.mem_map_of_mem member)
    refine (plannedKeys _).mpr ⟨folder, inLayout, isPlanned, sameLocation, ?_,
      (List.dropLast_prefix _).trans isPrefix⟩
    apply List.ne_nil_of_length_pos
    rw [List.length_dropLast]
    omega

/-- Plans that differ from others at most in their nodes. -/
def Renoded (started plans : List FolderPlan) : Prop :=
  ∀ place : Nat, (started[place]? = none ∧ plans[place]? = none) ∨
    ∃ before plan : FolderPlan, started[place]? = some before ∧ plans[place]? = some plan ∧
      plan = { before with node := plan.node }

theorem Renoded.before {started : List FolderPlan} (renoded : Renoded started plans) {place : Nat}
    {plan : FolderPlan} (here : plans[place]? = some plan) :
    ∃ before : FolderPlan, started[place]? = some before ∧
      plan = { before with node := plan.node } := by
  rcases renoded place with ⟨-, none⟩ | ⟨before, other, found, there, same⟩
  · rw [none] at here
    cases here
  · rw [there] at here
    obtain rfl := Option.some.inj here
    exact ⟨before, found, same⟩

theorem Renoded.after {started : List FolderPlan} (renoded : Renoded started plans) {place : Nat}
    {before : FolderPlan} (here : started[place]? = some before) :
    ∃ plan : FolderPlan, plans[place]? = some plan ∧ plan = { before with node := plan.node } := by
  rcases renoded place with ⟨none, -⟩ | ⟨other, plan, found, there, same⟩
  · rw [none] at here
    cases here
  · rw [found] at here
    obtain rfl := Option.some.inj here
    exact ⟨plan, there, same⟩

/-- Giving the folders other nodes keeps the forest. -/
theorem FolderForest.renode {started : List FolderPlan}
    (forest : FolderForest preserve folders started) (renoded : Renoded started plans) :
    FolderForest preserve folders plans := by
  have keys : plans.map (·.key) = started.map (·.key) := by
    apply List.ext_getElem?
    intro place
    rw [List.getElem?_map, List.getElem?_map]
    rcases renoded place with ⟨none, none'⟩ | ⟨before, plan, found, there, same⟩
    · rw [none, none']
    · rw [found, there, same]
      rfl
  have source : ∀ plan ∈ plans, ∃ before ∈ started, plan = { before with node := plan.node } := by
    intro plan member
    obtain ⟨place, here⟩ := List.getElem?_of_mem member
    obtain ⟨before, found, same⟩ := renoded.before here
    exact ⟨before, List.mem_of_getElem? found, same⟩
  refine ⟨keys ▸ forest.distinct, fun key => ?_, fun plan member => ?_, fun plan member => ?_,
    fun plan member place => ?_, fun plan member => ?_, fun place above here child => ?_⟩
  · rw [keys]
    exact forest.planned key
  · obtain ⟨before, found, same⟩ := source plan member
    rw [same]
    exact forest.messages before found
  · obtain ⟨before, found, same⟩ := source plan member
    rw [same]
    exact forest.associatedMessages before found
  · obtain ⟨before, found, same⟩ := source plan member
    rw [same]
    refine (forest.parent before found place).trans ⟨?_, ?_⟩
    · rintro ⟨above, name, there, sameLocation, path⟩
      obtain ⟨other, otherThere, sameOther⟩ := renoded.after there
      refine ⟨other, name, otherThere, ?_, ?_⟩
      · rw [sameOther]
        exact sameLocation
      · rw [sameOther]
        exact path
    · rintro ⟨other, name, there, sameLocation, path⟩
      obtain ⟨above, aboveThere, sameOther⟩ := renoded.before there
      rw [sameOther] at sameLocation path
      exact ⟨above, name, aboveThere, sameLocation, path⟩
  · obtain ⟨before, found, same⟩ := source plan member
    rw [same]
    exact forest.root before found
  · obtain ⟨before, found, same⟩ := renoded.before here
    rw [same]
    refine (forest.children place before found child).trans ⟨?_, ?_⟩
    · rintro ⟨plan, there, parent⟩
      obtain ⟨other, otherThere, sameOther⟩ := renoded.after there
      refine ⟨other, otherThere, ?_⟩
      rw [sameOther]
      exact parent
    · rintro ⟨other, there, parent⟩
      obtain ⟨plan, planThere, sameOther⟩ := renoded.before there
      rw [sameOther] at parent
      exact ⟨plan, planThere, parent⟩

/-- The plans of a streamed store are those of its layout under the nodes that the messages were
streamed under. -/
theorem planTransactionFolders_renoded
    (hplans : planTransactionFolders folders preserve = .ok plans) :
    ∃ started, planFoldersExpected folders preserve false = .ok started ∧ Renoded started plans ∧
      ∀ plan ∈ plans, transactionFolderNode folders plan.key = .ok plan.node := by
  simp only [planTransactionFolders, bind_eq_ok] at hplans
  obtain ⟨started, hstarted, hplans⟩ := hplans
  have length := (forall₂_of_mapM_ok hplans).length_eq
  refine ⟨started, hstarted, fun place => ?_, fun plan member => ?_⟩
  · cases here : started[place]? with
    | none =>
        refine .inl ⟨rfl, ?_⟩
        rw [List.getElem?_eq_none_iff, ← length]
        exact List.getElem?_eq_none_iff.mp here
    | some before =>
        obtain ⟨plan, there, hplan⟩ := getElem?_of_mapM_ok hplans here
        obtain ⟨node, -, hpure⟩ := bind_eq_ok.mp hplan
        cases hpure
        exact .inr ⟨before, _, rfl, there, rfl⟩
  · obtain ⟨before, -, hplan⟩ := exists_of_mem_mapM_ok hplans member
    obtain ⟨node, hnode, hpure⟩ := bind_eq_ok.mp hplan
    cases hpure
    exact hnode

theorem planTransactionFolders_tree
    (hplans : planTransactionFolders folders preserve = .ok plans) :
    FolderForest preserve folders plans := by
  obtain ⟨started, hstarted, renoded, -⟩ := planTransactionFolders_renoded hplans
  exact (planFoldersExpected_forest hstarted).renode renoded

/-- The plan of a streamed store is a forest over the prefixes of the paths of its folders. The
nodes of its folders are distinct, and each is the one under which the folder's messages were
streamed. -/
theorem planTransactionFolders_forest
    (hplans : planTransactionFolders folders preserve = .ok plans) :
    FolderForest preserve folders plans ∧ (plans.map (·.node)).Nodup ∧
      ∀ plan ∈ plans, transactionFolderNode folders plan.key = .ok plan.node := by
  obtain ⟨-, -, -, streamed⟩ := planTransactionFolders_renoded hplans
  exact ⟨planTransactionFolders_tree hplans, (planTransactionFolders_nodes hplans).1, streamed⟩

/-- A folder two levels down with one message, behind a folder that holds nothing. -/
def nestedFolders : List MailFolderSpec :=
  [MailFolderSpec.mail "Inbox".toList,
    { MailFolderSpec.mail "Inbox".toList with
      path := ["Projects".toList, "Old".toList]
      messages := [.note [] []] }]

theorem planTransactionFolders_forest_nested : ∃ plans,
    planTransactionFolders nestedFolders false = .ok plans ∧ FolderForest false nestedFolders plans ∧
      (plans.map (·.node)).Nodup := by
  have success : (planTransactionFolders nestedFolders false).toBool = true := by
    decide +kernel
  obtain ⟨plans, hplans⟩ := exists_ok success
  obtain ⟨forest, distinct, -⟩ := planTransactionFolders_forest hplans
  exact ⟨plans, hplans, forest, distinct⟩

end Tree

end PstForge.Writer
