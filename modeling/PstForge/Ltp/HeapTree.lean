import Mathlib.Data.List.TakeWhile
import PstForge.Ltp.HeapRead
import PstForge.Ndb.DataTree

/-! # Heaps under construction

An allocation put on a heap keeps its identifier while the heap grows and when its pages are
finished. The levels of a tree that is built over leaves lead down to these leaves.
-/

namespace PstForge.Ltp

open PstForge.Foundation PstForge.Ndb

section Entries

/-- The allocation that an identifier designates among the contents of pages. -/
def entryOf (contents : List (List Bytes)) (id : HeapId) : Option Bytes := do
  let allocations ← contents[id.blockIndex]?
  allocations[← id.index]?

/-- What one lookup finds is found by another. -/
def Extends (find find' : HeapId → Option Bytes) : Prop :=
  ∀ id bytes, find id = some bytes → find' id = some bytes

namespace Extends

variable {find find' find'' : HeapId → Option Bytes}

theorem refl (find : HeapId → Option Bytes) : Extends find find := fun _ _ found => found

theorem trans (left : Extends find find') (right : Extends find' find'') : Extends find find'' :=
  fun id bytes found => right id bytes (left id bytes found)

theorem mapM (extends' : Extends find find') {ids : List HeapId} {contents : List Bytes}
    (found : ids.mapM find = some contents) : ids.mapM find' = some contents := by
  induction ids generalizing contents with
  | nil => exact found
  | cons id ids ih =>
      simp only [List.mapM_cons, Option.bind_eq_bind, Option.bind_eq_some_iff] at found
      obtain ⟨bytes, here, others, later, same⟩ := found
      rw [List.mapM_cons, extends' id bytes here, ih later]
      exact same

theorem descendTree (extends' : Extends find find') {keySize levels : Nat}
    {ids leaves : List HeapId} (found : descendTree find keySize levels ids = some leaves) :
    descendTree find' keySize levels ids = some leaves := by
  induction levels generalizing ids with
  | zero => exact found
  | succ levels ih =>
      rw [Ltp.descendTree, Option.bind_eq_bind, Option.bind_eq_some_iff] at found
      obtain ⟨contents, here, below⟩ := found
      rw [Ltp.descendTree, extends'.mapM here]
      exact ih below

end Extends

variable {contents contents' : List (List Bytes)}

theorem HeapFrom.findEntry {pages : List Bytes} (holds : HeapFrom 0 pages contents) (id : HeapId) :
    findEntry pages id = entryOf contents id := by
  have page := holds.reads id.blockIndex
  rw [Nat.zero_add] at page
  rw [Ltp.findEntry, entryOf, page]

/-- Pages whose allocations are followed by others hold what they held. -/
theorem extends_entryOf (grown : ∀ (index : Nat) (allocations : List Bytes),
      contents[index]? = some allocations → ∃ more, contents'[index]? =
        some (allocations ++ more)) :
    Extends (entryOf contents) (entryOf contents') := by
  intro id bytes found
  simp only [entryOf, Option.bind_eq_bind, Option.bind_eq_some_iff] at found
  obtain ⟨allocations, page, index, position, here⟩ := found
  obtain ⟨more, page'⟩ := grown _ _ page
  have inside : index < allocations.length := by
    obtain ⟨inside, -⟩ := List.getElem?_eq_some_iff.mp here
    exact inside
  rw [entryOf, page', position]
  simp only [Option.bind_eq_bind, Option.bind_some, List.getElem?_append_left inside, here]

theorem Extends.of_padded (padded : List.Forall₂ Padded contents contents') :
    Extends (entryOf contents) (entryOf contents') := by
  refine extends_entryOf fun index allocations page => ?_
  induction padded generalizing index with
  | nil => simp at page
  | cons head _ ih =>
      cases index with
      | zero =>
          obtain ⟨pads, rfl, -⟩ := head
          rw [List.getElem?_cons_zero, Option.some.injEq] at page
          exact ⟨pads, by rw [List.getElem?_cons_zero, page]⟩
      | succ index =>
          rw [List.getElem?_cons_succ] at page ⊢
          exact ih index page

/-- An identifier that can be written into a word and be told from a node. -/
structure HeapId.Valid (id : HeapId) : Prop where
  kind : id.value % 32 = 0
  positive : 0 < id.value
  small : id.value < 256 ^ 4

theorem ofIndex_ok {index blockIndex : Nat} {id : HeapId}
    (hid : HeapId.ofIndex index blockIndex = .ok id) (counted : 0 < index)
    (small : blockIndex < 2 ^ 16) :
    id.Valid ∧ id.blockIndex = blockIndex ∧ id.index = some (index - 1) := by
  simp only [HeapId.ofIndex, HeapId.new] at hid
  split at hid
  · rename_i found
    split at found
    · cases found
      cases hid
      rename_i fits
      have position : (blockIndex * 2 ^ 11 + index) * 32 / 2 ^ 5 % 2 ^ 11 = index := by omega
      refine ⟨⟨by simp, ?_, ?_⟩, ?_, ?_⟩
      · dsimp only
        omega
      · dsimp only
        omega
      · dsimp only [HeapId.blockIndex]
        omega
      · rw [HeapId.index, position]
        exact if_pos counted
    · cases found
  · cases hid

end Entries

section Pushing

/-- Every allocation on the later pages of a heap is within the limit, and taken. -/
def Limited (pages : List (List Bytes)) : Prop :=
  ∀ allocations ∈ pages, ∀ allocation ∈ allocations,
    allocation ≠ [] ∧ allocation.length ≤ maxHeapAllocation

/-- A heap that grew: what it held is where it was, and the limit is kept. -/
structure Grew (pages pages' : List (List Bytes)) : Prop where
  keeps : Extends (entryOf ([] :: pages)) (entryOf ([] :: pages'))
  limited : Limited pages → Limited pages'

/-- An allocation on a heap, under an identifier. -/
structure Stored (pages : List (List Bytes)) (id : HeapId) (allocation : Bytes) : Prop where
  valid : id.Valid
  found : entryOf ([] :: pages) id = some allocation

variable {pages pages' pages'' : List (List Bytes)} {allocation : Bytes} {id : HeapId}

theorem Grew.refl (pages : List (List Bytes)) : Grew pages pages :=
    ⟨.refl _, fun limited => limited⟩

theorem Grew.trans (left : Grew pages pages') (right : Grew pages' pages'') : Grew pages pages'' :=
  ⟨left.keeps.trans right.keeps, fun limited => right.limited (left.limited limited)⟩

theorem Stored.mono (stored : Stored pages id allocation) (grew : Grew pages pages') :
    Stored pages' id allocation :=
  ⟨stored.valid, grew.keeps id allocation stored.found⟩

/-- An allocation on a page of its own. -/
theorem push_newPage (within : allocation ≠ [] ∧ allocation.length ≤ maxHeapAllocation)
    (small : (pages ++ [[allocation]]).length < 2 ^ 16)
    (hid : HeapId.ofIndex 1 (pages ++ [[allocation]]).length = .ok id) :
    Grew pages (pages ++ [[allocation]]) ∧ Stored (pages ++ [[allocation]]) id allocation := by
  obtain ⟨valid, block, index⟩ := ofIndex_ok hid Nat.one_pos small
  refine ⟨⟨extends_entryOf fun index allocations page => ⟨[], ?_⟩, fun limited => ?_⟩, valid, ?_⟩
  · rw [← List.cons_append, List.append_nil, List.getElem?_append_left, page]
    exact (List.getElem?_eq_some_iff.mp page).1
  · intro allocations member
    rcases List.mem_append.mp member with old | new
    · exact limited allocations old
    · obtain rfl := List.mem_singleton.mp new
      intro other here
      obtain rfl := List.mem_singleton.mp here
      exact within
  · have there : ([] :: (pages ++ [[allocation]]))[pages.length + 1]? = some [allocation] := by
      rw [List.getElem?_cons_succ, List.getElem?_append_right (Nat.le_refl _), Nat.sub_self]
      rfl
    rw [List.length_append, List.length_singleton] at block
    rw [entryOf, block, there, index]
    rfl

/-- An allocation behind those of the last page. -/
theorem push_lastPage {init : List (List Bytes)} {current : List Bytes}
    (within : allocation ≠ [] ∧ allocation.length ≤ maxHeapAllocation)
    (small : (init ++ [current]).length < 2 ^ 16)
    (hid : HeapId.ofIndex (current ++ [allocation]).length (init ++ [current]).length = .ok id) :
    Grew (init ++ [current]) (init ++ [current ++ [allocation]]) ∧
      Stored (init ++ [current ++ [allocation]]) id allocation := by
  rw [List.length_append, List.length_singleton, List.length_append, List.length_singleton] at hid
  rw [List.length_append, List.length_singleton] at small
  obtain ⟨valid, block, index⟩ := ofIndex_ok hid (Nat.succ_pos _) small
  have last (others : List Bytes) : ([] :: (init ++ [others]))[init.length + 1]? = some others := by
    rw [List.getElem?_cons_succ, List.getElem?_append_right (Nat.le_refl _), Nat.sub_self]
    rfl
  refine ⟨⟨extends_entryOf fun index allocations page => ?_, fun limited => ?_⟩, valid, ?_⟩
  · by_cases own : index = init.length + 1
    · rw [own, last] at page
      cases page
      exact ⟨[allocation], own ▸ last _⟩
    · refine ⟨[], ?_⟩
      have bound := (List.getElem?_eq_some_iff.mp page).1
      rw [List.length_cons, List.length_append, List.length_singleton] at bound
      have inside : index < ([] :: init).length := by
        rw [List.length_cons]
        omega
      rw [← List.cons_append, List.getElem?_append_left inside] at page ⊢
      rw [page, List.append_nil]
  · intro allocations member
    rcases List.mem_append.mp member with old | new
    · exact limited allocations (List.mem_append_left _ old)
    · obtain rfl := List.mem_singleton.mp new
      intro other here
      rcases List.mem_append.mp here with old | new
      · exact limited current (List.mem_append_right _ (List.mem_singleton_self _)) other old
      · obtain rfl := List.mem_singleton.mp new
        exact within
  · rw [entryOf, block, last, index]
    simp

/-- What a successful push does: the allocation opens a new page, or goes behind those of the last
page, which then still has room for padding. -/
theorem pushHeapAllocation_cases (hpush : pushHeapAllocation pages allocation = .ok (pages', id)) :
    (allocation ≠ [] ∧ allocation.length ≤ maxHeapAllocation) ∧ pages.length < 2 ^ 16 ∧
      ((∃ page, pages' = pages ++ [[allocation]] ∧ pages'.length < 2 ^ 16 ∧
          heapContinuationPageAllocations pages'.length [allocation] = .ok page ∧
          HeapId.ofIndex 1 pages'.length = .ok id) ∨
        ∃ init current page, pages = init ++ [current] ∧
          pages' = init ++ [current ++ [allocation]] ∧
          heapContinuationPageAllocations pages.length (current ++ [allocation]) = .ok page ∧
          page.length + 3 ≤ maxDataBlockPayload ∧
          HeapId.ofIndex (current ++ [allocation]).length pages.length = .ok id) := by
  simp only [pushHeapAllocation, bind_eq_ok, refuse_eq_ok, okOr_eq_ok, tryFrom_eq_some,
    List.isEmpty_iff, not_or, Nat.not_lt] at hpush
  obtain ⟨_, within, _, ⟨rfl, small⟩, hpush⟩ := hpush
  have onNewPage : (do
      let pageIndex ← okOr (.valueTooLarge "heap page index")
        (tryFrom 16 (pages ++ [[allocation]]).length)
      let _ ← heapContinuationPageAllocations pageIndex [allocation]
      return (pages ++ [[allocation]], ← HeapId.ofIndex 1 pageIndex) :
        Except WriterError (List (List Bytes) × HeapId)) = .ok (pages', id) →
      ∃ page, pages' = pages ++ [[allocation]] ∧ pages'.length < 2 ^ 16 ∧
        heapContinuationPageAllocations pages'.length [allocation] = .ok page ∧
        HeapId.ofIndex 1 pages'.length = .ok id := by
    intro hnew
    simp only [bind_eq_ok, okOr_eq_ok, tryFrom_eq_some] at hnew
    obtain ⟨_, ⟨rfl, few⟩, page, hpage, id', hid, hpure⟩ := hnew
    cases hpure
    exact ⟨page, rfl, few, hpage, hid⟩
  refine ⟨within, small, ?_⟩
  split at hpush
  · exact .inl (onNewPage hpush)
  · rename_i current hlast
    split at hpush
    · rename_i page hpage
      split at hpush
      · rename_i room
        simp only [bind_eq_ok, okOr_eq_ok, tryFrom_eq_some] at hpush
        obtain ⟨_, ⟨rfl, -⟩, id', hid, hpure⟩ := hpush
        cases hpure
        obtain ⟨init, rfl⟩ := List.getLast?_eq_some_iff.mp hlast
        refine .inr ⟨init, current, page, rfl, ?_, hpage, room, hid⟩
        rw [List.dropLast_concat]
      · exact .inl (onNewPage hpush)
    · exact .inl (onNewPage hpush)
    · cases hpush

/-- A successful push puts the allocation under the identifier it returns. -/
theorem pushHeapAllocation_ok (hpush : pushHeapAllocation pages allocation = .ok (pages', id)) :
    Grew pages pages' ∧ Stored pages' id allocation := by
  obtain ⟨within, small, new | last⟩ := pushHeapAllocation_cases hpush
  · obtain ⟨page, rfl, few, -, hid⟩ := new
    exact push_newPage within few hid
  · obtain ⟨init, current, page, rfl, rfl, -, -, hid⟩ := last
    exact push_lastPage within small hid

end Pushing

section Trees

variable {find : HeapId → Option Bytes} {keySize : Nat}

/-- The records of a block of records that are whole. -/
theorem wholeRecords {size : Nat} (positive : 0 < size) {records : List Bytes}
    (full : ∀ record ∈ records, record.length = size) :
    (chunks size records.flatten).filter (·.length = size) = records := by
  rw [chunks_flatten_full positive full, List.filter_eq_self]
  exact fun record member => decide_eq_true (full record member)

/-- An index record leads to the block it was made for. -/
theorem nextLevel_records {group : List (Nat × HeapId)} (valid : ∀ root ∈ group, root.2.Valid) :
    nextLevel keySize (group.flatMap fun (key, nextLevel) =>
      leBytes keySize key ++ leBytes 4 nextLevel.value) = group.map (·.2) := by
  have full : ∀ record ∈ group.map fun root => leBytes keySize root.1 ++ leBytes 4 root.2.value,
      record.length = keySize + 4 := by
    intro record member
    obtain ⟨root, -, rfl⟩ := List.mem_map.mp member
    rw [List.length_append, length_leBytes, length_leBytes]
  have read : ∀ root ∈ group, ((fun record => (⟨leValue (record.drop keySize)⟩ : HeapId)) ∘
      fun root : Nat × HeapId => leBytes keySize root.1 ++
        leBytes 4 root.2.value) root = root.2 := by
    intro root member
    rw [Function.comp_apply, List.drop_left' (length_leBytes _ _),
      leValue_leBytes (valid root member).small]
  rw [nextLevel, List.flatMap_def, wholeRecords (Nat.succ_pos _) full, List.map_map,
    List.map_congr_left read, List.takeWhile_eq_self_iff]
  intro id member
  obtain ⟨root, there, rfl⟩ := List.mem_map.mp member
  exact decide_eq_true (valid root there).kind

/-- One more level below the blocks that a descent ends at. -/
theorem descendTree_below {levels : Nat} {ids middle : List HeapId} {contents : List Bytes}
    (above : descendTree find keySize levels ids = some middle)
    (found : middle.mapM find = some contents) :
    descendTree find keySize (levels + 1) ids = some (contents.flatMap (nextLevel keySize)) := by
  induction levels generalizing ids with
  | zero =>
      rw [descendTree, Option.some.injEq] at above
      rw [descendTree, above, found]
      rfl
  | succ levels ih =>
      rw [descendTree, Option.bind_eq_bind, Option.bind_eq_some_iff] at above
      obtain ⟨contents', here, below⟩ := above
      rw [descendTree, here]
      exact ih below

variable {pages pages' : List (List Bytes)}

/-- The pieces of a level are on the heap under the identifiers of their roots. -/
theorem pushTreeLevel_ok {pieces : List Bytes} : ∀ {pages pages' : List (List Bytes)}
    {roots : List (Nat × HeapId)}, pushTreeLevel keySize pages pieces = .ok (pages', roots) →
      Grew pages pages' ∧
        List.Forall₂ (fun root piece => Stored pages' root.2 piece) roots pieces := by
  induction pieces with
  | nil =>
      intro pages pages' roots hpush
      cases hpush
      exact ⟨.refl _, .nil⟩
  | cons piece pieces ih =>
      intro pages pages' roots hpush
      simp only [pushTreeLevel, bind_eq_ok] at hpush
      obtain ⟨⟨middle, id⟩, hpiece, ⟨last, others⟩, hothers, hpure⟩ := hpush
      cases hpure
      obtain ⟨grew, stored⟩ := pushHeapAllocation_ok hpiece
      obtain ⟨grew', stored'⟩ := ih hothers
      exact ⟨grew.trans grew', .cons (stored.mono grew') stored'⟩

theorem stored_mapM {roots : List (Nat × HeapId)} {pieces : List Bytes}
    (stored : List.Forall₂ (fun root piece => Stored pages root.2 piece) roots pieces) :
    (roots.map (·.2)).mapM (entryOf ([] :: pages)) = some pieces :=
  mapM_some (List.forall₂_map_left_iff.mpr (stored.imp fun _ _ here => here.found))

theorem stored_valid {roots : List (Nat × HeapId)} {pieces : List Bytes}
    (stored : List.Forall₂ (fun root piece => Stored pages root.2 piece) roots pieces) :
    ∀ root ∈ roots, root.2.Valid := by
  induction stored with
  | nil => exact fun _ member => absurd member List.not_mem_nil
  | cons head _ ih => exact List.forall_mem_cons.mpr ⟨head.valid, ih⟩

/-- From the root that the index levels end at, the descent leads to the leaves. -/
theorem pushTreeLevels_ok {what : String} {fuel : Nat} (narrow : keySize + 4 ≤ maxHeapAllocation) :
    ∀ {levels levels' : Nat} {pages pages' : List (List Bytes)} {roots : List (Nat × HeapId)}
      {root : HeapId}, pushTreeLevels keySize what fuel levels pages roots =
        .ok (pages', levels', root) → (∀ root ∈ roots, root.2.Valid) → levels < 256 →
      Grew pages pages' ∧ root.Valid ∧ levels' < 256 ∧ ∃ added, levels' = levels + added ∧
        descendTree (entryOf ([] :: pages')) keySize added [root] = some (roots.map (·.2)) := by
  induction fuel with
  | zero =>
      intro levels levels' pages pages' roots root hpush valid small
      match roots with
      | [] => cases hpush
      | [(key, single)] =>
          cases hpush
          exact ⟨.refl _, valid _ (List.mem_singleton_self _), small, 0, rfl, rfl⟩
      | _ :: _ :: _ => cases hpush
  | succ fuel ih =>
      intro levels levels' pages pages' roots root hpush valid small
      by_cases one : ∃ single, roots = [single]
      · obtain ⟨⟨key, single⟩, rfl⟩ := one
        cases hpush
        exact ⟨.refl _, valid _ (List.mem_singleton_self _), small, 0, rfl, rfl⟩
      · rw [pushTreeLevels.eq_3 _ _ _ _ _ _ (fun key single same => one ⟨(key, single), same⟩)]
          at hpush
        simp only [bind_eq_ok, okOr_eq_ok, checkedAdd_eq_some] at hpush
        obtain ⟨_, ⟨rfl, few⟩, ⟨middle, parents⟩, hlevel, hrest⟩ := hpush
        obtain ⟨grew, stored⟩ := pushTreeLevel_ok hlevel
        obtain ⟨grew', rootValid, small', added, rfl, below⟩ :=
          ih hrest (stored_valid stored) few
        have positive : 0 < maxHeapAllocation / (keySize + 4) := Nat.div_pos narrow (Nat.succ_pos _)
        have found := grew'.keeps.mapM (stored_mapM stored)
        have led : ∀ group ∈ chunks (maxHeapAllocation / (keySize + 4)) roots,
            nextLevel keySize (group.flatMap fun (key, nextLevel) =>
              leBytes keySize key ++ leBytes 4 nextLevel.value) = group.map (·.2) := by
          intro group member
          refine nextLevel_records fun root there => valid root ?_
          rw [← chunks_flatten positive roots]
          exact List.mem_flatten_of_mem member there
        refine ⟨grew.trans grew', rootValid, small', added + 1, by omega, ?_⟩
        rw [descendTree_below below found, List.flatMap_map, List.flatMap_def,
          List.map_congr_left led, ← List.map_flatten, chunks_flatten positive]

/-- The records of a tree are those of the leaves that the descent from its root ends at. -/
theorem readTree_ok {entrySize levels : Nat} {header root : HeapId} {leaves : List HeapId}
    {contents : List Bytes}
    (headed : find header = some (heapTreeHeader keySize entrySize levels root))
    (valid : root.Valid) (few : levels < 256)
    (below : descendTree find keySize levels [root] = some leaves)
    (found : leaves.mapM find = some contents) :
    readTree find keySize entrySize header = some (contents.flatMap fun content =>
      (chunks (keySize + entrySize) content).filter (·.length = keySize + entrySize)) := by
  have length : (heapTreeHeader keySize entrySize levels root).length = 8 := by
    simp [heapTreeHeader]
  have marks : (heapTreeHeader keySize entrySize levels root).take 3 =
      [UInt8.ofNat HeapNodeType.tree.code, UInt8.ofNat keySize, UInt8.ofNat entrySize] := rfl
  have depth : leValue (((heapTreeHeader keySize entrySize levels root).drop 3).take 1) =
      levels := by
    have digit : (UInt8.ofNat levels).toNat = levels := by
      rw [UInt8.toNat_ofNat', Nat.mod_eq_of_lt few]
    simp only [heapTreeHeader, List.cons_append, List.nil_append, List.drop_succ_cons,
      List.drop_zero, List.take_succ_cons, List.take_zero, leValue, digit]
    omega
  have word : leValue (((heapTreeHeader keySize entrySize levels root).drop 4).take 4) =
      root.value := by
    have cut : (heapTreeHeader keySize entrySize levels root).drop 4 = leBytes 4 root.value :=
      List.drop_left' rfl
    rw [cut, List.take_of_length_le (length_leBytes 4 _).le, leValue_leBytes valid.small]
  have fine : ¬ ((heapTreeHeader keySize entrySize levels root).length < 8 ∨
      (heapTreeHeader keySize entrySize levels root).take 3 ≠
        [UInt8.ofNat HeapNodeType.tree.code, UInt8.ofNat keySize, UInt8.ofNat entrySize] ∨
      root.value % 32 ≠ 0) := by
    rw [length, marks, valid.kind]
    simp
  have positive : root.value ≠ 0 := Nat.ne_of_gt valid.positive
  simp only [readTree, headed, Option.bind_eq_bind, Option.bind_some, word, depth, if_neg fine,
    if_neg positive, below, found]
  rfl

end Trees

section Finishing

/-- Every page of a heap is readable, and no allocation on it exceeds the limit. -/
def WithinLimit (pages : List Bytes) : Prop :=
  ∀ (index : Nat) (page : Bytes), pages[index]? = some page →
    ∃ allocations, readPage index page = some allocations ∧
      ∀ allocation ∈ allocations, allocation.length ≤ maxHeapAllocation

variable {pages : List Bytes} {contents : List (List Bytes)}

theorem HeapFrom.length {first : Nat} (holds : HeapFrom first pages contents) :
    pages.length = contents.length := by
  induction pages generalizing first contents with
  | nil =>
      cases contents with
      | nil => rfl
      | cons => exact holds.elim
  | cons page pages ih =>
      cases contents with
      | nil => exact holds.elim
      | cons => rw [List.length_cons, List.length_cons, ih holds.2]

theorem HeapFrom.withinLimit (holds : HeapFrom 0 pages contents) : WithinLimit pages ↔
    ∀ allocations ∈ contents, ∀ allocation ∈ allocations,
      allocation.length ≤ maxHeapAllocation := by
  have reads (index : Nat) : pages[index]?.bind (readPage index) = contents[index]? := by
    have read := holds.reads index
    rwa [Nat.zero_add] at read
  constructor
  · intro within allocations member
    obtain ⟨index, here⟩ := List.getElem?_of_mem member
    obtain ⟨page, there, read⟩ := Option.bind_eq_some_iff.mp ((reads index).trans here)
    obtain ⟨allocations', read', limit⟩ := within index page there
    rw [read, Option.some.injEq] at read'
    exact read' ▸ limit
  · intro limit index page here
    have inside : index < contents.length := holds.length ▸ (List.getElem?_eq_some_iff.mp here).1
    have read := reads index
    rw [here, Option.bind_some, List.getElem?_eq_getElem inside] at read
    exact ⟨contents[index], read, limit _ (List.getElem_mem inside)⟩

theorem HeapFrom.userRoot (holds : HeapFrom 0 pages contents) (nonempty : pages ≠ []) :
    userRoot pages = some ⟨32⟩ := by
  cases pages with
  | nil => exact absurd rfl nonempty
  | cons page pages =>
      cases contents with
      | nil => exact holds.elim
      | cons => exact holds.1.root

theorem padded_limit {contents' : List (List Bytes)}
    (padded : List.Forall₂ Padded contents contents')
    (limit : ∀ allocations ∈ contents, ∀ allocation ∈ allocations,
      allocation.length ≤ maxHeapAllocation) :
    ∀ allocations ∈ contents', ∀ allocation ∈ allocations,
      allocation.length ≤ maxHeapAllocation := by
  induction padded with
  | nil => exact limit
  | cons head _ ih =>
      obtain ⟨pads, rfl, small⟩ := head
      obtain ⟨first, others⟩ := List.forall_mem_cons.mp limit
      refine List.forall_mem_cons.mpr ⟨fun allocation member => ?_, ih others⟩
      rcases List.mem_append.mp member with own | pad
      · exact first allocation own
      · exact small allocation pad

/-- The allocations of the first page leave those of the later ones where they are. -/
theorem extends_root (rootAllocations : List Bytes) (pageAllocations : List (List Bytes)) :
    Extends (entryOf ([] :: pageAllocations)) (entryOf (rootAllocations :: pageAllocations)) := by
  refine extends_entryOf fun index allocations page => ?_
  cases index with
  | zero =>
      rw [List.getElem?_cons_zero, Option.some.injEq] at page
      exact ⟨rootAllocations, by rw [List.getElem?_cons_zero, ← page, List.nil_append]⟩
  | succ index => exact ⟨[], by rwa [List.getElem?_cons_succ, List.append_nil]⟩

/-- What is found on a heap before its pages are finished is found on the finished pages, which
keep within the limit. -/
theorem finishHeapPages_finds {root : Bytes} {rootAllocations : List Bytes}
    {pageAllocations : List (List Bytes)} (headed : PageAt 0 rootAllocations root)
    (rootLimit : ∀ allocation ∈ rootAllocations, allocation.length ≤ maxHeapAllocation)
    (limited : Limited pageAllocations)
    (hfinish : finishHeapPages root pageAllocations = .ok pages) :
    WithinLimit pages ∧ userRoot pages = some ⟨32⟩ ∧
      Extends (entryOf [rootAllocations]) (findEntry pages) ∧
      Extends (entryOf ([] :: pageAllocations)) (findEntry pages) := by
  obtain ⟨contents, holds, padded⟩ := finishHeapPages_heapFrom headed
    (fun allocations member allocation there => (limited allocations member allocation there).1)
      hfinish
  have found : findEntry pages = entryOf contents := funext holds.findEntry
  have whole := Extends.of_padded padded
  have nonempty : pages ≠ [] := by
    rintro rfl
    cases padded
    exact holds.elim
  refine ⟨holds.withinLimit.mpr ?_, holds.userRoot nonempty, ?_, ?_⟩
  · refine padded_limit padded (List.forall_mem_cons.mpr ⟨rootLimit, ?_⟩)
    exact fun allocations member allocation there => (limited allocations member allocation there).2
  · rw [found]
    refine Extends.trans (extends_entryOf fun index allocations page => ⟨[], ?_⟩) whole
    cases index with
    | zero => rwa [List.getElem?_cons_zero, List.append_nil]
    | succ index => simp at page
  · rw [found]
    exact (extends_root rootAllocations pageAllocations).trans whole

end Finishing

end PstForge.Ltp
