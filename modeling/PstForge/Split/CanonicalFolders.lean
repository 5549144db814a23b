import PstForge.Split.Packing

/-! # Where the folder of a candidate stands

The folders of a store are turned into canonical folders, each with its path, its place and its
role, by a walk over the addresses above it. The same is asked of the folder of every candidate,
by walks of their own. On the folders that are in the canonical set the walks agree, unless a
folder outside the mail subtree stands at the deepest level or below a folder that carries the
identifier of that subtree in another place.
-/

namespace PstForge.Split

open PstForge.Foundation PstForge.Catalog PstForge.Job

section Addresses

/-- The address of the folder above. -/
def parentAddress (address : FolderAddress) : Option FolderAddress :=
  if address = [] then none else some address.dropLast

/-- The addresses that a walk over parents visits, the last of which is the root. -/
def ancestry (address : FolderAddress) : List FolderAddress := address.inits.reverse

/-- The indices at every level in the order in which they are compared: those below the address
are zero, and the depth comes last. -/
def addressOrder (address : FolderAddress) : List Nat ×ₗ Nat :=
  toLex (address ++ List.replicate (maxFolderDepth - address.length) 0, address.length)

/-- The first address in that order. -/
def leastAddress (addresses : List FolderAddress) : Option FolderAddress :=
  addresses.argmin addressOrder

end Addresses

section Folders

inductive CanonicalFolderRole where
  | ordinary
  | deletedItems
  deriving DecidableEq, Repr

structure CanonicalFolder where
  path : List Text
  location : CanonicalFolderLocation
  role : CanonicalFolderRole
  containerClass : Option Text
  deriving DecidableEq, Repr

structure CanonicalFolderSet where
  folders : List CanonicalFolder
  omittedFolders : Nat
  deriving DecidableEq, Repr

inductive CanonicalError where
  | interrupted
  | invalidFolderHierarchy (sourceId : Nat)
  deriving DecidableEq, Repr

def nidIpmSubtree : Nat := 0x8022
def nidDeletedItems : Nat := 0x8062

variable (folders : List FolderRow)

/-- The folder at an address; of several, the one that comes last. -/
def folderAt (address : FolderAddress) : Option FolderRow :=
  folders.reverse.find? (·.address = some address)

/-- The folder with an identifier that no other folder has. -/
def folderById (sourceId : Nat) : Option FolderRow :=
  match folders.filter (·.sourceId = sourceId) with
  | [folder] => some folder
  | _ => none

/-- What a number is written as. -/
def decimal (value : Nat) : Text := (Nat.repr value).toList

def recoveredFolder : Text := "Recovered Folder".toList

/-- The name of a folder, or one made of a number in the place of a missing or empty name. -/
def folderName (folder : FolderRow) (number : Nat) : Text :=
  match folder.name.filter (· ≠ []) with
  | some name => name
  | none => recoveredFolder ++ [' '] ++ decimal number

local instance lawfulAddress : LawfulBEq FolderAddress := inferInstance

/-- The addresses of the mail subtree: a child of the root with its identifier. -/
def ipmAddresses : List FolderAddress :=
  (folders.filter fun folder => folder.sourceId = nidIpmSubtree ∧
    folder.address.bind parentAddress = some .root).filterMap (·.address)

/-- The address of the deleted items: below the mail subtree, under their identifier. -/
def deletedItemsAddress : Option FolderAddress :=
  leastAddress (((folders.filter (·.sourceId = nidDeletedItems)).filterMap (·.address)).filter
    fun address => (parentAddress address).any (· ∈ ipmAddresses folders))

/-- The place and the path that a walk over the addresses above a folder comes to. -/
def walkFolder (sourceId : Nat) : (path : List Text) → (seen : List FolderAddress) →
    List FolderAddress → Except CanonicalError (Option (CanonicalFolderLocation × List Text))
  | _, _, [] => .ok none
  | path, seen, address :: above =>
      if address ∈ ipmAddresses folders then .ok (some (.ipmSubtree, path))
      else if address = .root then .ok (some (.storeRoot, path))
      else if path.length = 64 ∨ address ∈ seen then .error (.invalidFolderHierarchy sourceId)
      else
        match folderAt folders address with
        | none => .error (.invalidFolderHierarchy sourceId)
        | some folder =>
            walkFolder sourceId (path ++ [folderName folder folder.sourceId])
              (address :: seen) above

/-- The canonical folder of a folder that stands at an address, where it has one. Outside of the
mail subtree only those with the identifier of a folder have one. -/
def canonicalFolder (folder : FolderRow) (address : FolderAddress) :
    Except CanonicalError (Option CanonicalFolder) := do
  match ← walkFolder folders folder.sourceId [] [] (ancestry address) with
  | none => return none
  | some (location, path) =>
      if path = [] then return none
      else if location = .storeRoot ∧ (folder.sourceId % 32 ≠ 0x02 ∨ folder.sourceId = 0x8042) then
        return none
      else
        return some {
          path := path.reverse
          location
          role := if folder.address = deletedItemsAddress folders then .deletedItems else .ordinary
          containerClass := folder.containerClass }

/-- Put a canonical folder among the others. Of several with one place and path the first is kept,
unless a later one holds the deleted items. -/
def insertFolder (set : CanonicalFolderSet) (candidate : CanonicalFolder) : CanonicalFolderSet :=
  let same (other : CanonicalFolder) : Bool :=
    other.location = candidate.location ∧ other.path = candidate.path
  if set.folders.any same then
    { folders :=
        if candidate.role = .deletedItems then
          set.folders.map fun other => if same other then candidate else other
        else set.folders
      omittedFolders := saturatingAdd 64 set.omittedFolders 1 }
  else { set with folders := set.folders ++ [candidate] }

/-- Collect the canonical folders of some folders; the interrupt is looked at before each. -/
def collectFolders (interrupted : Nat → Bool) : CanonicalFolderSet → List (FolderRow × Nat) →
    Except CanonicalError CanonicalFolderSet
  | set, [] => .ok set
  | set, (folder, turn) :: rest => do
      refuse (interrupted turn = true) .interrupted
      let candidate ← match folder.address with
        | none => pure none
        | some address => canonicalFolder folders folder address
      collectFolders interrupted (candidate.elim set (insertFolder set)) rest

/-- What canonical folders are ordered by: the place and the path. -/
def folderOrder (folder : CanonicalFolder) : Nat ×ₗ List Text :=
  toLex (folder.location.rank, folder.path)

/-- The canonical folders of a store, in the order of their places and paths. -/
def loadCanonicalFolders (interrupted : Nat → Bool) : Except CanonicalError CanonicalFolderSet := do
  let placed := folders.filter fun folder =>
    folder.address.any fun address => address ∉ ipmAddresses folders
  let set ← collectFolders folders interrupted ⟨[], 0⟩ placed.zipIdx
  return { set with
    folders := set.folders.insertionSort fun left right => folderOrder left ≤ folderOrder right }

end Folders

section Candidates

variable (folders : List FolderRow) (candidate : CandidateRow)

/-- The address of the folder of a candidate. -/
def candidateFolderAddress : Option FolderAddress :=
  match candidate.unit with
  | some (.normal folder _ _) | some (.associated folder _ _) => some folder
  | _ => (candidate.metadata.folderId.bind (folderById folders)).bind (·.address)

/-- The address of the deleted items, as it is looked for among the addresses. -/
def wellKnownDeletedItemsAddress : Option FolderAddress :=
  leastAddress ((folders.filterMap (·.address)).filter fun address =>
    (folderAt folders address).any (·.sourceId = nidDeletedItems) ∧
      (parentAddress address).any fun parent =>
        (folderAt folders parent).any (·.sourceId = nidIpmSubtree) ∧
          parentAddress parent = some .root)

def candidateFolderRole : CanonicalFolderRole :=
  if candidateFolderAddress folders candidate = wellKnownDeletedItemsAddress folders then
    .deletedItems
  else .ordinary

/-- The place that a walk over the addresses above a candidate's folder comes to. -/
def walkLocation : List FolderAddress → CanonicalFolderLocation
  | [] => .ipmSubtree
  | current :: above =>
      match parentAddress current with
      | none => .ipmSubtree
      | some parent =>
          if (folderAt folders current).any (·.sourceId = nidIpmSubtree) then .ipmSubtree
          else if parent = .root then .storeRoot
          else walkLocation above

def candidateFolderLocation : CanonicalFolderLocation :=
  match candidateFolderAddress folders candidate with
  | none => .ipmSubtree
  | some address => walkLocation folders (ancestry address)

def isVisibleMailFolder (address : FolderAddress) (sourceId : Nat) : Bool :=
  address ≠ .root ∧ ¬ (sourceId = nidIpmSubtree ∧ parentAddress address = some .root)

/-- The folder of the candidates that belong to none. -/
def unfiledFolder : CatalogProvenance → Text
  | .normal => "Unfiled Mail".toList
  | .recovered => "Recovered Mail".toList
  | .orphan => "Orphan Mail".toList
  | .fragment => "Fragment Mail".toList

def nonemptyFolderPath (path : List Text) (provenance : CatalogProvenance) : List Text :=
  if path = [] then [unfiledFolder provenance] else path

/-- The path that a walk over the addresses above a candidate's folder comes to. -/
def walkPath (sourceNodeId : Nat) : (path : List Text) → List FolderAddress →
    Except CanonicalError (List Text)
  | path, [] => .ok path
  | path, address :: above =>
      if path.length = 64 then .error (.invalidFolderHierarchy sourceNodeId)
      else
        match folderAt folders address with
        | some folder =>
            if isVisibleMailFolder address folder.sourceId then
              walkPath sourceNodeId (path ++ [folderName folder folder.sourceId]) above
            else walkPath sourceNodeId path above
        | none =>
            if address = .root then walkPath sourceNodeId path above
            else walkPath sourceNodeId (path ++ [recoveredFolder]) above

/-- The path that a walk over the identifiers of parents comes to. Every turn sees another
identifier of a folder, so there are no more turns than folders. -/
def walkIdentifiers (folderId : Nat) : (turns : Nat) → (path : List Text) → (seen : List Nat) →
    Option Nat → Except CanonicalError (List Text)
  | _, path, _, none => .ok path
  | 0, _, _, some _ => .error (.invalidFolderHierarchy folderId)
  | turns + 1, path, seen, some id =>
      if path.length = 64 ∨ id ∈ seen then .error (.invalidFolderHierarchy folderId)
      else
        match folderById folders id with
        | none => .ok (path ++ [recoveredFolder ++ [' '] ++ decimal id])
        | some folder =>
            if folder.address.all (isVisibleMailFolder · folder.sourceId) then
              walkIdentifiers folderId turns (path ++ [folderName folder id]) (id :: seen)
                folder.parentSourceId
            else walkIdentifiers folderId turns path (id :: seen) folder.parentSourceId

def candidateFolderPath : Except CanonicalError (List Text) :=
  match candidate.unit with
  | some (.normal folder _ _) | some (.associated folder _ _) => do
      let path ← walkPath folders (candidate.itemKey.sourceNodeId.getD 0) [] (ancestry folder)
      return nonemptyFolderPath path.reverse candidate.itemKey.provenance
  | _ =>
      match candidate.metadata.folderId with
      | none => .ok [unfiledFolder candidate.itemKey.provenance]
      | some folderId => do
          let path ← walkIdentifiers folders folderId (folders.length + 1) [] [] (some folderId)
          return nonemptyFolderPath path.reverse candidate.itemKey.provenance

end Candidates

section Tables

/-- The folders of a job, each under the key of its address, or under its identifier where it has
none. -/
structure FolderTable where
  folders : List FolderRow
  keyed : ∀ folder ∈ folders,
    folder.folderKey = folder.address.elim (.inr folder.sourceId) Sum.inl
  unique : (folders.map (·.folderKey)).Nodup

/-- A folder put in the place of one with the same key. -/
def FolderTable.replace (table : FolderTable) (row : FolderRow)
    (keyed : row.folderKey = row.address.elim (.inr row.sourceId) Sum.inl) : FolderTable where
  folders := table.folders.filter (·.folderKey ≠ row.folderKey) ++ [row]
  keyed := by
    intro folder member
    rcases List.mem_append.mp member with old | new
    · exact table.keyed folder (List.mem_of_mem_filter old)
    · obtain rfl := List.mem_singleton.mp new
      exact keyed
  unique := by
    rw [List.map_append, List.map_singleton]
    apply List.Nodup.append
    · exact table.unique.sublist (List.filter_sublist.map _)
    · exact List.nodup_singleton _
    · intro key old new
      obtain ⟨folder, member, rfl⟩ := List.mem_map.mp old
      obtain ⟨-, other⟩ := List.mem_filter.mp member
      exact of_decide_eq_true other (List.mem_singleton.mp new)

theorem folderAt_found {folders : List FolderRow} {address : FolderAddress} {folder : FolderRow}
    (found : folderAt folders address = some folder) :
    folder ∈ folders ∧ folder.address = some address := by
  rw [folderAt] at found
  have placed := List.find?_some found
  exact ⟨List.mem_reverse.mp (List.mem_of_find?_eq_some found), of_decide_eq_true placed⟩

variable (table : FolderTable)

/-- There is one folder at an address. -/
theorem FolderTable.folderAt_eq_some {address : FolderAddress} {folder : FolderRow} :
    folderAt table.folders address = some folder ↔
      folder ∈ table.folders ∧ folder.address = some address := by
  constructor
  · exact folderAt_found
  · rintro ⟨member, placed⟩
    cases found : folderAt table.folders address with
    | none =>
        have missing := List.find?_eq_none.mp found folder (List.mem_reverse.mpr member)
        exact absurd (decide_eq_true placed) missing
    | some other =>
        obtain ⟨there, placed'⟩ := folderAt_found found
        have same : other.folderKey = folder.folderKey := by
          rw [table.keyed other there, table.keyed folder member, placed, placed']
          rfl
        exact congrArg some (List.inj_on_of_nodup_map table.unique there member same)

theorem FolderTable.mem_ipmAddresses {address : FolderAddress} :
    address ∈ ipmAddresses table.folders ↔
      (folderAt table.folders address).any (·.sourceId = nidIpmSubtree) = true ∧
        parentAddress address = some .root := by
  simp only [ipmAddresses, List.mem_filterMap, List.mem_filter, decide_eq_true_eq,
    Option.any_eq_true, table.folderAt_eq_some]
  constructor
  · rintro ⟨folder, ⟨member, identified, below⟩, placed⟩
    rw [placed] at below
    exact ⟨⟨folder, ⟨member, placed⟩, identified⟩, below⟩
  · rintro ⟨⟨folder, ⟨member, placed⟩, identified⟩, below⟩
    refine ⟨folder, ⟨member, identified, ?_⟩, placed⟩
    rw [placed]
    exact below

end Tables

section Walks

theorem ancestry_root : ancestry [] = [FolderAddress.root] := rfl

theorem below_ne_root (above : FolderAddress) (index : Nat) :
    above ++ [index] ≠ FolderAddress.root :=
  List.concat_ne_nil index above

theorem ancestry_below (above : FolderAddress) (index : Nat) :
    ancestry (above ++ [index]) = (above ++ [index]) :: ancestry above := by
  rw [ancestry, ancestry, List.inits_append, List.reverse_append]
  simp

theorem parentAddress_below (above : FolderAddress) (index : Nat) :
    parentAddress (above ++ [index]) = some above := by
  rw [parentAddress, if_neg (List.concat_ne_nil index above), List.dropLast_concat]

theorem length_le_of_mem_ancestry {address ancestor : FolderAddress}
    (member : ancestor ∈ ancestry address) : ancestor.length ≤ address.length := by
  rw [ancestry, List.mem_reverse, List.mem_inits] at member
  exact member.length_le

/-- A folder stands in the mail subtree. -/
def UnderIpmSubtree (folders : List FolderRow) (address : FolderAddress) : Prop :=
  ∃ ancestor ∈ ancestry address, ancestor ∈ ipmAddresses folders

/-- No folder on the way to the root carries the identifier of the mail subtree. -/
def NoIpmOnTheWay (folders : List FolderRow) (address : FolderAddress) : Prop :=
  ∀ ancestor ∈ ancestry address, ancestor ≠ .root →
    (folderAt folders ancestor).any (·.sourceId = nidIpmSubtree) = false

variable {table : FolderTable} {location : CanonicalFolderLocation} {path result : List Text}
  {seen : List FolderAddress} {sourceId sourceNodeId : Nat} {address : FolderAddress}

theorem FolderTable.not_mem_ipmAddresses_root :
    FolderAddress.root ∉ ipmAddresses table.folders := by
  rw [table.mem_ipmAddresses]
  rintro ⟨-, below⟩
  cases below

theorem not_underIpmSubtree_root : ¬ UnderIpmSubtree table.folders [] := by
  rintro ⟨ancestor, member, inside⟩
  rw [ancestry_root, List.mem_singleton] at member
  exact FolderTable.not_mem_ipmAddresses_root (member ▸ inside)

theorem underIpmSubtree_below {above : FolderAddress} {index : Nat} :
    UnderIpmSubtree table.folders (above ++ [index]) ↔
      above ++ [index] ∈ ipmAddresses table.folders ∨ UnderIpmSubtree table.folders above := by
  simp only [UnderIpmSubtree, ancestry_below, List.mem_cons, exists_eq_or_imp]

theorem noIpmOnTheWay_below {above : FolderAddress} {index : Nat} :
    NoIpmOnTheWay table.folders (above ++ [index]) ↔
      (folderAt table.folders (above ++ [index])).any (·.sourceId = nidIpmSubtree) = false ∧
        NoIpmOnTheWay table.folders above := by
  have below := below_ne_root above index
  simp only [NoIpmOnTheWay, ancestry_below, List.forall_mem_cons]
  exact and_congr_left fun _ => ⟨fun alone => alone below, fun alone _ => alone⟩

/-- The walk of a candidate's folder ends in the mail subtree when the folder stands there, and
otherwise unless it meets the identifier of the subtree on its way. -/
theorem walkLocation_eq (below : address ≠ []) :
    walkLocation table.folders (ancestry address) = .storeRoot ↔
      ¬ UnderIpmSubtree table.folders address ∧ NoIpmOnTheWay table.folders address := by
  induction address using List.reverseRecOn with
  | nil => exact absurd rfl below
  | append_singleton above index ih =>
      rw [ancestry_below, walkLocation, parentAddress_below, underIpmSubtree_below,
        noIpmOnTheWay_below]
      dsimp only
      by_cases met : (folderAt table.folders (above ++ [index])).any
          (·.sourceId = nidIpmSubtree) = true
      · rw [if_pos met]
        constructor
        · intro wrong
          cases wrong
        · rintro ⟨-, other, -⟩
          exact absurd met (by rw [other]; exact Bool.false_ne_true)
      · rw [if_neg met]
        have outside : above ++ [index] ∉ ipmAddresses table.folders := fun inside =>
          met (table.mem_ipmAddresses.mp inside).1
        have unmet := Bool.eq_false_iff.mpr met
        by_cases top : above = FolderAddress.root
        · subst top
          have clear : NoIpmOnTheWay table.folders FolderAddress.root := by
            intro ancestor member apart
            exact absurd (List.mem_singleton.mp member) apart
          rw [if_pos rfl]
          exact iff_of_true rfl ⟨fun under => under.elim outside not_underIpmSubtree_root,
            unmet, clear⟩
        · rw [if_neg top, ih top]
          constructor
          · rintro ⟨apart, clear⟩
            exact ⟨fun under => under.elim outside apart, unmet, clear⟩
          · rintro ⟨apart, -, clear⟩
            exact ⟨fun under => apart (.inr under), clear⟩

end Walks

section Agreement

variable {table : FolderTable} {location : CanonicalFolderLocation} {path result : List Text}
  {seen : List FolderAddress} {sourceId sourceNodeId : Nat} {address : FolderAddress}

/-- A folder that is neither the root nor the top of the mail subtree is visible. -/
theorem isVisibleMailFolder_iff {folder : FolderRow}
    (found : folderAt table.folders address = some folder) :
    isVisibleMailFolder address folder.sourceId = true ↔
      address ≠ .root ∧ address ∉ ipmAddresses table.folders := by
  rw [isVisibleMailFolder, decide_eq_true_eq, table.mem_ipmAddresses, found, Option.any_some,
    decide_eq_true_eq]

/-- The walk of a candidate's folder goes past the top of the mail subtree and past the root. -/
theorem walkPath_hidden {above : List FolderAddress} (short : path.length ≠ 64)
    (hidden : address = .root ∨ address ∈ ipmAddresses table.folders) :
    walkPath table.folders sourceNodeId path (address :: above) =
      walkPath table.folders sourceNodeId path above := by
  rw [walkPath, if_neg short]
  cases found : folderAt table.folders address with
  | none =>
      rcases hidden with root | inside
      · exact if_pos root
      · have there := (table.mem_ipmAddresses.mp inside).1
        rw [found] at there
        cases there
  | some folder =>
      have unseen : ¬ isVisibleMailFolder address folder.sourceId = true := by
        rw [isVisibleMailFolder_iff found]
        rintro ⟨below, outside⟩
        exact hidden.elim below outside
      exact if_neg unseen

/-- Both walks put the name of a visible folder on their path. -/
theorem walkPath_visible {above : List FolderAddress} {folder : FolderRow}
    (short : path.length ≠ 64) (found : folderAt table.folders address = some folder)
    (below : address ≠ .root) (outside : address ∉ ipmAddresses table.folders) :
    walkPath table.folders sourceNodeId path (address :: above) =
      walkPath table.folders sourceNodeId
        (path ++ [folderName folder folder.sourceId]) above := by
  rw [walkPath, if_neg short, found]
  exact if_pos ((isVisibleMailFolder_iff found).mpr ⟨below, outside⟩)

/-- What the walk of a canonical folder has met when it ends. -/
theorem walkFolder_below {above : FolderAddress} {index : Nat}
    (hwalk : walkFolder table.folders sourceId path seen (ancestry (above ++ [index])) =
      .ok (some (location, result))) (outside : above ++ [index] ∉ ipmAddresses table.folders) :
    path.length ≠ 64 ∧ ∃ folder, folderAt table.folders (above ++ [index]) = some folder ∧
      walkFolder table.folders sourceId (path ++ [folderName folder folder.sourceId])
        ((above ++ [index]) :: seen) (ancestry above) = .ok (some (location, result)) := by
  rw [ancestry_below, walkFolder, if_neg outside, if_neg (below_ne_root above index)] at hwalk
  split at hwalk
  · cases hwalk
  · rename_i fresh
    split at hwalk
    · cases hwalk
    · rename_i folder found
      exact ⟨fun full => fresh (.inl full), folder, found, hwalk⟩

/-- In the mail subtree the two walks come to the same path. -/
theorem walks_agree_inside (hwalk : walkFolder table.folders sourceId path seen
      (ancestry address) = .ok (some (location, result)))
    (under : UnderIpmSubtree table.folders address) (room : path.length + address.length ≤ 64) :
    location = .ipmSubtree ∧
      walkPath table.folders sourceNodeId path (ancestry address) = .ok result := by
  induction address using List.reverseRecOn generalizing path seen with
  | nil => exact absurd under not_underIpmSubtree_root
  | append_singleton above index ih =>
      rw [List.length_append, List.length_singleton] at room
      have short : path.length ≠ 64 := by omega
      by_cases inside : above ++ [index] ∈ ipmAddresses table.folders
      · have top := (table.mem_ipmAddresses.mp inside).2
        rw [parentAddress_below, Option.some.injEq] at top
        subst top
        rw [ancestry_below, walkFolder, if_pos inside] at hwalk
        cases hwalk
        refine ⟨rfl, ?_⟩
        rw [ancestry_below, walkPath_hidden short (.inr inside)]
        exact (walkPath_hidden short (.inl rfl)).trans rfl
      · obtain ⟨-, folder, found, hrest⟩ := walkFolder_below hwalk inside
        have under' := (underIpmSubtree_below.mp under).resolve_left inside
        have room' : (path ++ [folderName folder folder.sourceId]).length + above.length ≤ 64 := by
          rw [List.length_append, List.length_singleton]
          omega
        obtain ⟨place, same⟩ := ih hrest under' room'
        refine ⟨place, ?_⟩
        rw [ancestry_below, walkPath_visible short found (below_ne_root above index) inside]
        exact same

/-- Outside of the mail subtree the walk of a candidate's folder comes to the same path, unless
the folder stands at the deepest level. -/
theorem walks_agree_outside (hwalk : walkFolder table.folders sourceId path seen
      (ancestry address) = .ok (some (location, result)))
    (apart : ¬ UnderIpmSubtree table.folders address) :
    location = .storeRoot ∧ (path.length ≤ 64 → path.length + address.length ≤ 64) ∧
      walkPath table.folders sourceNodeId path (ancestry address) =
        if path.length + address.length = 64 then .error (.invalidFolderHierarchy sourceNodeId)
        else .ok result := by
  induction address using List.reverseRecOn generalizing path seen with
  | nil =>
      have outside := @FolderTable.not_mem_ipmAddresses_root table
      rw [ancestry_root, walkFolder, if_neg outside, if_pos rfl] at hwalk
      cases hwalk
      refine ⟨rfl, fun short => short, ?_⟩
      rw [ancestry_root, List.length_nil, Nat.add_zero]
      by_cases full : result.length = 64
      · rw [walkPath, if_pos full, if_pos full]
      · rw [if_neg full, walkPath_hidden full (.inl rfl)]
        rfl
  | append_singleton above index ih =>
      rw [underIpmSubtree_below, not_or] at apart
      obtain ⟨outside, apart'⟩ := apart
      obtain ⟨short, folder, found, hrest⟩ := walkFolder_below hwalk outside
      obtain ⟨place, room, same⟩ := ih hrest apart'
      have shift : (path ++ [folderName folder folder.sourceId]).length + above.length =
          path.length + (above ++ [index]).length := by
        simp only [List.length_append, List.length_singleton]
        omega
      have more : path.length ≤ 64 → (path ++ [folderName folder folder.sourceId]).length ≤ 64 := by
        rw [List.length_append, List.length_singleton]
        omega
      rw [shift] at room same
      rw [ancestry_below, walkPath_visible short found (below_ne_root above index) outside]
      exact ⟨place, fun within => room (more within), same⟩

end Agreement

section Roles

variable {table : FolderTable} {address : FolderAddress}

theorem addressOrder_injective : Function.Injective addressOrder := by
  intro left right same
  obtain ⟨indices, depth⟩ := Prod.mk.inj (toLex_inj.mp same)
  exact (List.append_inj indices depth).1

/-- The first address is one of the addresses, and depends on nothing else. -/
theorem leastAddress_congr {left right : List FolderAddress}
    (same : ∀ address, address ∈ left ↔ address ∈ right) :
    leastAddress left = leastAddress right := by
  apply Option.ext
  intro address
  have least {addresses : List FolderAddress} : leastAddress addresses = some address ↔
      address ∈ addresses ∧ ∀ other ∈ addresses, addressOrder address ≤ addressOrder other := by
    rw [leastAddress, ← Option.mem_def, List.mem_argmin_iff]
    constructor
    · rintro ⟨member, first, -⟩
      exact ⟨member, first⟩
    · rintro ⟨member, first⟩
      refine ⟨member, first, fun other there before => ?_⟩
      rw [addressOrder_injective (le_antisymm before (first other there))]
  rw [least, least]
  simp only [same]

/-- The deleted items are looked for in two ways and found at one address. -/
theorem wellKnownDeletedItemsAddress_eq :
    wellKnownDeletedItemsAddress table.folders = deletedItemsAddress table.folders := by
  rw [wellKnownDeletedItemsAddress, deletedItemsAddress]
  apply leastAddress_congr
  intro address
  have mailParent : (parentAddress address).any (fun parent =>
      (folderAt table.folders parent).any (·.sourceId = nidIpmSubtree) ∧
        parentAddress parent = some .root) = true ↔
      (parentAddress address).any (· ∈ ipmAddresses table.folders) = true := by
    simp only [Option.any_eq_true, decide_eq_true_eq, table.mem_ipmAddresses]
  have deleted : (folderAt table.folders address).any (·.sourceId = nidDeletedItems) = true ↔
      ∃ folder ∈ table.folders, folder.sourceId = nidDeletedItems ∧
        folder.address = some address := by
    simp only [Option.any_eq_true, decide_eq_true_eq, table.folderAt_eq_some]
    constructor
    · rintro ⟨folder, ⟨member, placed⟩, identified⟩
      exact ⟨folder, member, identified, placed⟩
    · rintro ⟨folder, member, identified, placed⟩
      exact ⟨folder, ⟨member, placed⟩, identified⟩
  simp only [List.mem_filter, List.mem_filterMap, decide_eq_true_eq, mailParent, deleted]
  constructor
  · rintro ⟨-, ⟨folder, member, identified, placed⟩, inside⟩
    exact ⟨⟨folder, ⟨member, identified⟩, placed⟩, inside⟩
  · rintro ⟨⟨folder, ⟨member, identified⟩, placed⟩, inside⟩
    exact ⟨⟨folder, member, placed⟩, ⟨folder, member, identified, placed⟩, inside⟩

end Roles

section Sets

variable {table : FolderTable} {address : FolderAddress} {canonical : CanonicalFolder}

/-- A canonical folder and the folder that it is made of. -/
def DerivedFrom (folders : List FolderRow) (address : FolderAddress) (canonical : CanonicalFolder) :
    Prop :=
  ∃ folder ∈ folders, folder.address = some address ∧
    canonicalFolder folders folder address = .ok (some canonical)

/-- The folder at an address is in the canonical set, as the canonical folder made of it. -/
def Included (folders : List FolderRow) (address : FolderAddress) (canonical : CanonicalFolder) :
    Prop :=
  DerivedFrom folders address canonical ∧ ∃ interrupted set,
    loadCanonicalFolders folders interrupted = .ok set ∧ canonical ∈ set.folders

theorem mem_insertFolder {set : CanonicalFolderSet} {candidate other : CanonicalFolder}
    (member : other ∈ (insertFolder set candidate).folders) :
    other ∈ set.folders ∨ other = candidate := by
  simp only [insertFolder] at member
  split at member
  · dsimp only at member
    split at member
    · obtain ⟨old, there, same⟩ := List.mem_map.mp member
      split at same
      · exact .inr same.symm
      · exact .inl (same ▸ there)
    · exact .inl member
  · rcases List.mem_append.mp member with old | new
    · exact .inl old
    · exact .inr (List.mem_singleton.mp new)

theorem collectFolders_derived {folders : List FolderRow} {interrupted : Nat → Bool}
    {source : List (FolderRow × Nat)} : ∀ {set set' : CanonicalFolderSet},
      collectFolders folders interrupted set source = .ok set' →
      (∀ entry ∈ source, entry.1 ∈ folders) →
      (∀ canonical ∈ set.folders, ∃ address, DerivedFrom folders address canonical) →
      ∀ canonical ∈ set'.folders, ∃ address, DerivedFrom folders address canonical := by
  induction source with
  | nil =>
      intro set set' hcollect _ derived
      cases hcollect
      exact derived
  | cons entry rest ih =>
      obtain ⟨folder, turn⟩ := entry
      intro set set' hcollect known derived
      obtain ⟨here, others⟩ := List.forall_mem_cons.mp known
      obtain ⟨_, -, hcollect⟩ := bind_eq_ok.mp hcollect
      cases placed : folder.address with
      | none =>
          rw [placed] at hcollect
          exact ih hcollect others derived
      | some address =>
          rw [placed] at hcollect
          obtain ⟨made, hmade, hrest⟩ := bind_eq_ok.mp hcollect
          apply ih hrest others
          cases made with
          | none => exact derived
          | some candidate =>
              intro canonical member
              rcases mem_insertFolder member with old | rfl
              · exact derived canonical old
              · exact ⟨address, folder, here, placed, hmade⟩

/-- Every folder of the canonical set is made of one of the folders. -/
theorem loadCanonicalFolders_derived {folders : List FolderRow} {interrupted : Nat → Bool}
    {set : CanonicalFolderSet} (hload : loadCanonicalFolders folders interrupted = .ok set) :
    ∀ canonical ∈ set.folders, ∃ address, Included folders address canonical := by
  have hwhole := hload
  simp only [loadCanonicalFolders, bind_eq_ok] at hload
  obtain ⟨collected, hcollect, hpure⟩ := hload
  cases hpure
  have known : ∀ entry ∈ (folders.filter fun folder => decide (folder.address.any fun address =>
      address ∉ ipmAddresses folders)).zipIdx, entry.1 ∈ folders := by
    intro entry member
    obtain ⟨folder, turn⟩ := entry
    exact List.mem_of_mem_filter (List.fst_mem_of_mem_zipIdx member)
  have derived := collectFolders_derived hcollect (by simpa using known)
    (fun _ member => absurd member List.not_mem_nil)
  intro canonical member
  obtain ⟨address, made⟩ := derived canonical ((List.mem_insertionSort _).mp member)
  exact ⟨address, made, interrupted, _, hwhole, member⟩

/-- What a canonical folder says about the walk it comes from. -/
theorem DerivedFrom.walk (derived : DerivedFrom table.folders address canonical) :
    ∃ sourceId path, walkFolder table.folders sourceId [] [] (ancestry address) =
        .ok (some (canonical.location, path)) ∧ path ≠ [] ∧ canonical.path = path.reverse ∧
      canonical.role = if some address = deletedItemsAddress table.folders then .deletedItems
        else .ordinary := by
  obtain ⟨folder, -, placed, hmade⟩ := derived
  simp only [canonicalFolder, bind_eq_ok] at hmade
  obtain ⟨walked, hwalk, hmade⟩ := hmade
  split at hmade
  · cases hmade
  · rename_i location path
    split at hmade
    · cases hmade
    · rename_i nonempty
      split at hmade
      · cases hmade
      · cases hmade
        exact ⟨_, path, hwalk, nonempty, rfl, by rw [placed]⟩

end Sets

section Instances

/-- A folder below another one, under an identifier and a name. -/
def namedFolder (address : FolderAddress) (sourceId : Nat) (name : String) : FolderRow where
  folderKey := .inl address
  sourceId
  parentSourceId := none
  name := some name.toList
  address := some address
  containerClass := none

/-- A message of a folder. -/
def filedCandidate (folder : FolderAddress) (folderId : Nat) : CandidateRow where
  itemKey := ⟨.normal, some 0x200004, none, 0⟩
  completeness := .complete
  status := .spooled
  metadata := ⟨some folderId, none, none, [], false, none, none, none, none, none, none, none, true⟩
  unit := some (.normal folder folderId 0)
  parentItemKey := none
  parentAttachmentIndex := none
  embeddedPath := []

/-- The mail subtree with one folder in it. -/
def inboxTable : FolderTable where
  folders := [namedFolder [0] 0x8022 "Top", namedFolder [0, 0] 0x82A2 "Inbox"]
  keyed := by decide
  unique := by decide

/-- An identifier of the mail subtree below a folder that is not part of it. -/
def archiveTable : FolderTable where
  folders := [namedFolder [0] 0x122 "Archive", namedFolder [0, 0] 0x8022 "Top"]
  keyed := by decide
  unique := by decide

end Instances

section Claim

variable {table : FolderTable} {candidate : CandidateRow} {address : FolderAddress}
  {canonical : CanonicalFolder} {folderId messageIndex : Nat}

/-- The path, the place and the role of a candidate's folder are those of its canonical folder
exactly when the folder stands in the mail subtree, or above the deepest level and with nothing
on the way to the root that carries the identifier of the subtree. -/
theorem candidateFolder_agrees_iff
    (filed : candidate.unit = some (.normal address folderId messageIndex) ∨
      candidate.unit = some (.associated address folderId messageIndex))
    (shallow : address.length ≤ maxFolderDepth)
    (included : Included table.folders address canonical) :
    (candidateFolderPath table.folders candidate = .ok canonical.path ∧
        candidateFolderLocation table.folders candidate = canonical.location ∧
        candidateFolderRole table.folders candidate = canonical.role) ↔
      (UnderIpmSubtree table.folders address ∨
        address.length < maxFolderDepth ∧ NoIpmOnTheWay table.folders address) := by
  obtain ⟨sourceId, path, hwalk, nonempty, named, role⟩ := included.1.walk
  have owner : candidateFolderAddress table.folders candidate = some address := by
    rcases filed with unit | unit <;> rw [candidateFolderAddress, unit]
  have roles : candidateFolderRole table.folders candidate = canonical.role := by
    rw [candidateFolderRole, owner, wellKnownDeletedItemsAddress_eq, role]
  have walked : candidateFolderPath table.folders candidate = (do
      let path ← walkPath table.folders (candidate.itemKey.sourceNodeId.getD 0) []
        (ancestry address)
      return nonemptyFolderPath path.reverse candidate.itemKey.provenance) := by
    rcases filed with unit | unit <;> rw [candidateFolderPath, unit]
  have kept : nonemptyFolderPath path.reverse candidate.itemKey.provenance = canonical.path := by
    rw [nonemptyFolderPath, if_neg (List.reverse_eq_nil_iff.not.mpr nonempty), named]
  have located : candidateFolderLocation table.folders candidate =
      walkLocation table.folders (ancestry address) := by
    rw [candidateFolderLocation, owner]
  rw [located, roles, walked]
  have room : ([] : List Text).length + address.length ≤ 64 := by
    rw [List.length_nil, Nat.zero_add]
    exact shallow
  by_cases under : UnderIpmSubtree table.folders address
  · obtain ⟨place, same⟩ := (@walks_agree_inside _ _ _ _ _ _
      (candidate.itemKey.sourceNodeId.getD 0)) hwalk under room
    have below : address ≠ [] := by
      rintro rfl
      exact not_underIpmSubtree_root under
    have inside : walkLocation table.folders (ancestry address) = .ipmSubtree := by
      cases found : walkLocation table.folders (ancestry address) with
      | ipmSubtree => rfl
      | storeRoot => exact absurd under ((walkLocation_eq below).mp found).1
    rw [same, place]
    refine iff_of_true ⟨?_, inside, rfl⟩ (.inl under)
    exact congrArg Except.ok kept
  · obtain ⟨place, -, same⟩ := (@walks_agree_outside _ _ _ _ _ _
      (candidate.itemKey.sourceNodeId.getD 0)) hwalk under
    rw [List.length_nil, Nat.zero_add] at same
    have below : address ≠ [] := by
      rintro rfl
      have outside := @FolderTable.not_mem_ipmAddresses_root table
      rw [ancestry_root, walkFolder, if_neg outside, if_pos rfl] at hwalk
      have same := Option.some.inj (Except.ok.inj hwalk)
      exact nonempty (Prod.mk.inj same).2.symm
    rw [same, place, walkLocation_eq below]
    constructor
    · rintro ⟨hpath, ⟨-, clear⟩, -⟩
      refine .inr ⟨?_, clear⟩
      by_contra deep
      have deepest : address.length = 64 := Nat.le_antisymm shallow (Nat.not_lt.mp deep)
      rw [if_pos deepest] at hpath
      cases hpath
    · intro condition
      obtain ⟨short, clear⟩ := condition.resolve_left under
      have above : address.length ≠ 64 := Nat.ne_of_lt short
      rw [if_neg above]
      exact ⟨congrArg Except.ok kept, ⟨under, clear⟩, rfl⟩

/-- In the mail subtree all three agree. -/
theorem candidateFolder_agrees_inbox :
    ∃ canonical, Included inboxTable.folders [0, 0] canonical ∧
      ((candidateFolderPath inboxTable.folders (filedCandidate [0, 0] 0x82A2) = .ok canonical.path ∧
          candidateFolderLocation inboxTable.folders (filedCandidate [0, 0] 0x82A2) =
            canonical.location ∧
          candidateFolderRole inboxTable.folders (filedCandidate [0, 0] 0x82A2) = canonical.role) ↔
        (UnderIpmSubtree inboxTable.folders [0, 0] ∨
          [0, 0].length < maxFolderDepth ∧ NoIpmOnTheWay inboxTable.folders [0, 0])) := by
  have included : Included inboxTable.folders [0, 0]
      ⟨["Inbox".toList], .ipmSubtree, .ordinary, none⟩ := by
    refine ⟨⟨namedFolder [0, 0] 0x82A2 "Inbox", by decide, rfl, by rfl⟩, fun _ => false, ?_⟩
    exact ⟨⟨[⟨["Inbox".toList], .ipmSubtree, .ordinary, none⟩], 0⟩, by rfl, by decide⟩
  exact ⟨_, included, candidateFolder_agrees_iff (.inl rfl) (by decide) included⟩

/-- A message below an identifier of the mail subtree that stands in another place is put into
the mail subtree, where its folder is not. -/
theorem candidateFolder_misplaced :
    ∃ canonical, Included archiveTable.folders [0, 0] canonical ∧
      canonical.location = .storeRoot ∧
      candidateFolderPath archiveTable.folders (filedCandidate [0, 0] 0x8022) =
        .ok canonical.path ∧
      candidateFolderLocation archiveTable.folders (filedCandidate [0, 0] 0x8022) =
        .ipmSubtree := by
  refine ⟨⟨["Archive".toList, "Top".toList], .storeRoot, .ordinary, none⟩, ?_, rfl, by rfl, by rfl⟩
  refine ⟨⟨namedFolder [0, 0] 0x8022 "Top", by decide, rfl, by rfl⟩, fun _ => false, ?_⟩
  exact ⟨⟨[⟨["Archive".toList], .storeRoot, .ordinary, none⟩,
    ⟨["Archive".toList, "Top".toList], .storeRoot, .ordinary, none⟩], 0⟩, by rfl, by decide⟩

end Claim

end PstForge.Split
