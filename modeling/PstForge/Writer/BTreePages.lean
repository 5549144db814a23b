import PstForge.Foundation.SearchTree
import PstForge.Writer.Finish
import PstForge.Ndb.AllocationSafety

/-! # The pages of the B-trees

The block B-tree and the node B-tree are written page by page, the leaves first and then each
level over the one below it. Here the pages are kept, with what each of them holds: they form
a search tree, with as many pages as the plan of the file counts.
-/

namespace PstForge.Writer

open PstForge.Foundation PstForge.Ndb PstForge.Ltp

variable {α β τ : Type}

section Pages

/-- What a page of a B-tree holds. -/
inductive PageContent (α : Type) where
  | leaf (entries : List α)
  | intermediate (entries : List BTreePageEntry)

/-- A page of a B-tree at its place in the file. -/
structure BTreePage (α : Type) where
  level : Nat
  id : Nat
  offset : Nat
  content : PageContent α

namespace BTreePage

/-- The entries of a leaf. -/
def entries (page : BTreePage α) : List α :=
  match page.content with
  | .leaf entries => entries
  | .intermediate _ => []

/-- The entries of an intermediate page. -/
def children (page : BTreePage α) : List BTreePageEntry :=
  match page.content with
  | .leaf _ => []
  | .intermediate entries => entries

variable (key : α → Nat)

/-- The keys of the entries of a page. -/
def keys (page : BTreePage α) : List Nat :=
  match page.content with
  | .leaf entries => entries.map key
  | .intermediate entries => entries.map (·.key)

/-- The entry of the next level for a page. -/
def entry (page : BTreePage α) : BTreePageEntry :=
  ⟨((page.keys key).head?).getD 0, page.id, page.offset⟩

/-- How the page is searched. -/
def treePage (page : BTreePage α) : TreePage Nat α :=
  match page.content with
  | .leaf entries => .leaf (entries.map fun entry => (key entry, entry))
  | .intermediate entries => .branch (entries.map fun entry => (entry.key, entry.offset))

end BTreePage

/-- A range of a list. -/
def slice (source : List β) (range : Nat × Nat) : List β := (source.drop range.1).take range.2

variable (kind : BTreeKind)

/-- The pages of one level over its entries, the entries for the next level, and where the next
page goes. -/
def levelPages (level capacity : Nat) (isLeaf : Bool) (key : β → Nat)
    (content : List β → PageContent α) (entries : List β) :
    List (Nat × Nat) → PageCursor →
      Except WriterError (List (BTreePage α) × List BTreePageEntry × PageCursor)
  | [], cursor => return ([], [], cursor)
  | range :: rest, cursor => do
      let (offset, next) ← allocateExtent cursor.offset pageSize pageSize
      checkPage level capacity range.2 isLeaf
      let page ← okOr (.valueTooLarge kind.pageId) (checkedAdd 64 cursor.page 1)
      let (pages, parents, last) ← levelPages level capacity isLeaf key content entries rest
        ⟨next, page⟩
      return (⟨level, cursor.page, offset, content (slice entries range)⟩ :: pages,
        ⟨(entries.map key).getD range.1 0, cursor.page, offset⟩ :: parents, last)

/-- The pages over a level, up to the root. -/
def upperPages : (fuel level : Nat) → List BTreePageEntry → PageCursor →
    Except WriterError (List (BTreePage α) × List BTreePageEntry × PageCursor)
  | 0, _, roots, cursor => return ([], roots, cursor)
  | fuel + 1, level, roots, cursor => do
      if 1 < roots.length then
        let ranges ← planLeafPages roots.length 20
        let (pages, parents, cursor) ← levelPages kind level 20 false BTreePageEntry.key
          .intermediate roots ranges cursor
        let level ← okOr (.valueTooLarge kind.depth) (checkedAdd 8 level 1)
        let (upper, roots, cursor) ← upperPages fuel level parents cursor
        return (pages ++ upper, roots, cursor)
      else
        return ([], roots, cursor)

/-- The pages of a B-tree over its entries, and its root. -/
def btreePages (key : α → Nat) (entries : List α) (cursor : PageCursor) :
    Except WriterError (List (BTreePage α) × BTreePageEntry × PageCursor) := do
  let ranges ← planLeafPages entries.length kind.leafCapacity
  refuse (ranges.isEmpty = true) (.invalidStructure kind.empty)
  let (leaves, parents, cursor) ← levelPages kind 0 kind.leafCapacity true key .leaf entries ranges
    cursor
  let (upper, roots, cursor) ← upperPages kind parents.length 1 parents cursor
  let root ← okOr (.invalidStructure kind.empty) roots.head?
  return (leaves ++ upper, root, cursor)

/-- The page at an offset of the file. -/
def pageAt (key : α → Nat) (pages : List (BTreePage α)) (offset : Nat) :
    Option (TreePage Nat α) :=
  (pages.find? (·.offset = offset)).map (·.treePage key)

/-- The entry with a key, from the root of a B-tree; a search visits no page twice. -/
def findEntry (key : α → Nat) (pages : List (BTreePage α)) (root : BTreePageEntry) (target : Nat) :
    Option α :=
  (searchTree (pageAt key pages) target pages.length root.offset).map (·.2)

end Pages

section Ranges

theorem planLeafPages_nil {capacity : Nat} {ranges : List (Nat × Nat)}
    (planned : planLeafPages 0 capacity = .ok ranges) : ranges = [] := by
  obtain ⟨_, -, same⟩ := bind_eq_ok.mp planned
  rw [if_pos rfl] at same
  exact (Except.ok.inj same).symm

/-- Adjoining ranges, of which each starts where the one before it ends. -/
theorem flatten_slices (source : List β) {start : Nat → Nat} (first : start 0 = 0)
    (up : ∀ page, start page ≤ start (page + 1)) (count : Nat) :
    ((List.range count).map fun page =>
      slice source (start page, start (page + 1) - start page)).flatten =
        source.take (start count) := by
  induction count with
  | zero => rw [first, List.take_zero, List.range_zero, List.map_nil, List.flatten_nil]
  | succ count ih =>
      have total : start (count + 1) = start count + (start (count + 1) - start count) := by
        have := up count
        omega
      rw [List.range_succ, List.map_append, List.flatten_append, ih, List.map_singleton,
        List.flatten_singleton, slice]
      rw [total, List.take_add, Nat.add_sub_cancel_left]

/-- How many entries the pages get that share them evenly. -/
theorem even_pages {entries capacity pages : Nat} (positive : 0 < capacity) (some : 0 < entries)
    (count : pages = divCeil entries capacity) :
    0 < pages ∧ 1 ≤ entries / pages ∧ entries / pages ≤ capacity ∧
      (0 < entries % pages → entries / pages < capacity) := by
  have lower := le_divCeil_mul entries positive
  have upper := divCeil_mul_lt entries positive
  rw [← count] at lower upper
  have pagesPositive : 0 < pages := by
    refine Nat.pos_of_ne_zero ?_
    rintro rfl
    omega
  have fewer : pages ≤ entries := by
    have wide := Nat.le_mul_of_pos_right (pages - 1) positive
    have split : pages * capacity = (pages - 1) * capacity + capacity := by
      rw [← Nat.succ_mul]
      congr 1
      omega
    omega
  have total := Nat.div_add_mod entries pages
  refine ⟨pagesPositive, (Nat.one_le_div_iff pagesPositive).mpr fewer, ?_, fun rest => ?_⟩
  · exact Nat.le_of_mul_le_mul_left (by omega) pagesPositive
  · exact Nat.lt_of_mul_lt_mul_left (show pages * (entries / pages) < pages * capacity by omega)

/-- Pages are planned over all the entries, none empty and none too full. -/
theorem planLeafPages_spec {source : List β} {capacity : Nat} {ranges : List (Nat × Nat)}
    (some : source ≠ []) (planned : planLeafPages source.length capacity = .ok ranges) :
    (ranges.map (slice source)).flatten = source ∧
      ranges.length = divCeil source.length capacity ∧
      ∀ range ∈ ranges, 1 ≤ range.2 ∧ range.2 ≤ capacity ∧ range.1 + range.2 ≤ source.length := by
  obtain ⟨_, positive, planned⟩ := bind_eq_ok.mp planned
  have positive := Nat.pos_of_ne_zero (refuse_eq_ok.mp positive)
  have length := List.length_pos_of_ne_nil some
  rw [if_neg (Nat.ne_of_gt length)] at planned
  obtain rfl := Except.ok.inj planned
  obtain ⟨pagesPositive, least, most, fuller⟩ := even_pages positive length rfl
  have total := Nat.div_add_mod source.length (divCeil source.length capacity)
  have larger := Nat.mod_lt source.length pagesPositive
  generalize divCeil source.length capacity = pages at *
  generalize source.length / pages = minimum at *
  generalize source.length % pages = rest at *
  let start (page : Nat) : Nat := page * minimum + min page rest
  have step : ∀ page, start (page + 1) = start page + (minimum + if page < rest then 1 else 0) := by
    intro page
    change (page + 1) * minimum + min (page + 1) rest =
      page * minimum + min page rest + (minimum + if page < rest then 1 else 0)
    rw [Nat.succ_mul]
    split
    · omega
    · omega
  have monotone : ∀ {page last}, page ≤ last → start page ≤ start last := by
    intro page last le
    induction le with
    | refl => exact Nat.le_refl _
    | step _ ih =>
        rw [Nat.succ_eq_add_one, step]
        omega
  have last : start pages = source.length := by
    change pages * minimum + min pages rest = source.length
    omega
  refine ⟨?_, ?_, ?_⟩
  · have whole := flatten_slices source (show start 0 = 0 by simp [start])
      (fun page => monotone (Nat.le_succ page)) pages
    rw [last, List.take_length] at whole
    rw [List.map_map]
    convert whole using 4 with page
    rw [Function.comp_apply, step, Nat.add_sub_cancel_left]
  · rw [List.length_map, List.length_range]
  · intro range member
    obtain ⟨page, inside, rfl⟩ := List.mem_map.mp member
    have inside := monotone (Nat.succ_le_of_lt (List.mem_range.mp inside))
    rw [Nat.succ_eq_add_one, step, last] at inside
    refine ⟨?_, ?_, inside⟩
    · exact Nat.le_add_right_of_le least
    · split
      · omega
      · omega

end Ranges

section Levels

/-- Pages that follow one another in the file, from a cursor to another one. -/
structure InOrder (cursor : Nat) (pages : List (BTreePage α)) (last : Nat) : Prop where
  apart : pages.Pairwise fun first second => first.offset < second.offset
  after : cursor < wordCount 64 → ∀ page ∈ pages, cursor ≤ page.offset
  before : ∀ page ∈ pages, page.offset < last
  fits : pages ≠ [] → last < wordCount 64
  none : pages = [] → last = cursor

theorem InOrder.nil (cursor : Nat) : InOrder cursor ([] : List (BTreePage α)) cursor :=
  ⟨.nil, fun _ => List.forall_mem_nil _, List.forall_mem_nil _, fun some => absurd rfl some,
    fun _ => rfl⟩

theorem InOrder.append {cursor middle last : Nat} {first second : List (BTreePage α)}
    (here : InOrder cursor first middle) (there : InOrder middle second last) :
    InOrder cursor (first ++ second) last := by
  by_cases none : first = []
  · obtain rfl := here.none none
    subst none
    exact there
  · have fits := here.fits none
    have reaches : middle ≤ last := by
      cases second with
      | nil => exact Nat.le_of_eq (there.none rfl).symm
      | cons page rest =>
          exact (there.after fits page List.mem_cons_self).trans
            (Nat.le_of_lt (there.before page List.mem_cons_self))
    refine ⟨?_, fun word page member => ?_, fun page member => ?_, fun _ => ?_, fun empty => ?_⟩
    · refine List.pairwise_append.mpr ⟨here.apart, there.apart, fun page member other later => ?_⟩
      exact Nat.lt_of_lt_of_le (here.before page member) (there.after fits other later)
    · rcases List.mem_append.mp member with early | late
      · exact here.after word page early
      · have after := there.after fits page late
        cases first with
        | nil => exact absurd rfl none
        | cons head tail =>
            have start := here.after word head List.mem_cons_self
            have stop := here.before head List.mem_cons_self
            omega
    · rcases List.mem_append.mp member with early | late
      · exact Nat.lt_of_lt_of_le (here.before page early) reaches
      · exact there.before page late
    · by_cases empty : second = []
      · rwa [there.none empty]
      · exact there.fits empty
    · exact absurd (List.append_eq_nil_iff.mp empty).1 none

theorem allocateExtent_page {cursor offset next : Nat}
    (allocated : allocateExtent cursor pageSize pageSize = .ok (offset, next)) :
    offset < next ∧ next < wordCount 64 ∧ (cursor < wordCount 64 → cursor ≤ offset) := by
  have after : cursor < wordCount 64 → cursor ≤ offset := fun word =>
    (allocateExtent_placement ⟨pageSize, pageSize, by decide, Or.inr rfl⟩ word allocated).1.after
  unfold allocateExtent at allocated
  split at allocated
  case h_1 place looped =>
    cases allocated
    have placement := allocateLoop_placement (show 0 < pageSize by decide)
      (show pageSize ∣ 512 by decide) (alignUp_mod cursor (by decide)) looped
    exact ⟨Nat.lt_add_of_pos_right (by decide), placement.fits, after⟩
  case h_2 => cases allocated
  case h_3 => cases allocated

theorem head?_slice {source : List β} {range : Nat × Nat} (some : 1 ≤ range.2) :
    (slice source range).head? = source[range.1]? := by
  rw [slice, List.head?_take, if_neg (by omega), List.head?_drop]

variable {kind : BTreeKind} {level capacity : Nat} {isLeaf : Bool} {key' : β → Nat}
  {key : α → Nat} {content : List β → PageContent α} {entries : List β}

/-- What the pages of a level are. -/
theorem levelPages_spec (keysOf : ∀ page : BTreePage α, ∀ group, page.content = content group →
      page.keys key = group.map key') {ranges : List (Nat × Nat)}
    (some : ∀ range ∈ ranges, 1 ≤ range.2 ∧ range.1 + range.2 ≤ entries.length)
    {cursor last : PageCursor} {pages : List (BTreePage α)} {parents : List BTreePageEntry}
    (written : levelPages kind level capacity isLeaf key' content entries ranges cursor =
      .ok (pages, parents, last)) :
    List.Forall₂ (fun group page => page.level = level ∧ page.content = content group)
        (ranges.map (slice entries)) pages ∧
      parents = pages.map (·.entry key) ∧ InOrder cursor.offset pages last.offset ∧
      last.page = cursor.page + pages.length ∧ (pages ≠ [] → last.page < wordCount 64) := by
  induction ranges generalizing cursor pages parents with
  | nil =>
      cases written
      exact ⟨.nil, rfl, .nil _, rfl, fun some => absurd rfl some⟩
  | cons range rest ih =>
      obtain ⟨⟨offset, next⟩, allocated, written⟩ := bind_eq_ok.mp written
      obtain ⟨_, -, written⟩ := bind_eq_ok.mp written
      obtain ⟨page, counted, written⟩ := bind_eq_ok.mp written
      obtain ⟨⟨others, parents, behind⟩, later, same⟩ := bind_eq_ok.mp written
      cases same
      obtain ⟨rfl, word⟩ := checkedAdd_eq_some.mp (okOr_eq_ok.mp counted)
      obtain ⟨⟨large, inside⟩, more⟩ := List.forall_mem_cons.mp some
      obtain ⟨contents, entries_, ordered, counter, bound⟩ := ih more later
      obtain ⟨up, fits, after⟩ := allocateExtent_page allocated
      refine ⟨.cons ⟨rfl, rfl⟩ contents, ?_, ?_, ?_, fun _ => ?_⟩
      · have least : ((⟨level, cursor.page, offset, content (slice entries range)⟩ :
            BTreePage α).keys key).head? = (entries.map key')[range.1]? := by
          rw [keysOf _ _ rfl, List.head?_map, head?_slice large, List.getElem?_map]
        rw [List.map_cons, ← entries_, BTreePage.entry, least, List.getD_eq_getElem?_getD]
      · have first : InOrder cursor.offset
            [(⟨level, cursor.page, offset, content (slice entries range)⟩ : BTreePage α)] next := by
          refine ⟨List.pairwise_singleton _ _, fun word => ?_, ?_, fun _ => fits, nofun⟩
          · exact List.forall_mem_singleton.mpr (after word)
          · exact List.forall_mem_singleton.mpr up
        exact first.append ordered
      · rw [counter, List.length_cons]
        dsimp only
        omega
      · by_cases none : others = []
        · rw [counter, none]
          exact word
        · exact bound none

end Levels

section Tree

variable {kind : BTreeKind} {key : α → Nat} {entries : List α} {level : Nat}
  {all row next : List (BTreePage α)}

variable (kind key entries) in
/-- Pages that are built level by level over entries: all of them, and those of the last level. -/
inductive PageTree : (level : Nat) → (all row : List (BTreePage α)) → Prop
  | leaves {groups : List (List α)} {row : List (BTreePage α)} (whole : groups.flatten = entries)
      (sizes : ∀ group ∈ groups, 1 ≤ group.length ∧ group.length ≤ kind.leafCapacity)
      (pages : List.Forall₂ (fun group page => page.level = 0 ∧ page.content = .leaf group)
        groups row) : PageTree 0 row row
  | level {level : Nat} {all row next : List (BTreePage α)} {groups : List (List BTreePageEntry)}
      (below : PageTree level all row) (whole : groups.flatten = row.map (·.entry key))
      (sizes : ∀ group ∈ groups, 1 ≤ group.length ∧ group.length ≤ 20)
      (pages : List.Forall₂ (fun group page => page.level = level + 1 ∧
        page.content = .intermediate group) groups next) : PageTree (level + 1) (all ++ next) next

/-- No page is empty, and none is too full. -/
theorem PageTree.filled (built : PageTree kind key entries level all row) : ∀ page ∈ all,
    1 ≤ (page.keys key).length ∧
      (page.keys key).length ≤ if page.level = 0 then kind.leafCapacity else 20 := by
  induction built with
  | leaves _ sizes pages =>
      intro page member
      obtain ⟨group, there, atLevel, content⟩ := forall₂_mem pages member
      rw [BTreePage.keys, content, atLevel]
      simpa using sizes group there
  | level _ _ sizes pages ih =>
      intro page member
      rcases List.mem_append.mp member with below | here
      · exact ih page below
      · obtain ⟨group, there, atLevel, content⟩ := forall₂_mem pages here
        rw [BTreePage.keys, content, atLevel]
        simpa using sizes group there

/-- The leaves hold the entries, in order. -/
theorem PageTree.leaves_hold (built : PageTree kind key entries level all row) :
    all.flatMap BTreePage.entries = entries := by
  induction built with
  | @leaves groups row whole _ pages =>
      have same : row.map BTreePage.entries = groups.map id :=
        forall₂_map_eq pages fun group page is => by rw [BTreePage.entries, is.2, id_eq]
      rw [List.flatMap_def, same, List.map_id, whole]
  | @level _ _ _ next groups _ _ _ pages ih =>
      have none : next.map BTreePage.entries = groups.map fun _ => [] :=
        forall₂_map_eq pages fun group page is => by rw [BTreePage.entries, is.2]
      rw [List.flatMap_append, ih, List.flatMap_def, none]
      simp

/-- Every page but those of the last level has one entry in the level above. -/
theorem PageTree.links (built : PageTree kind key entries level all row) :
    all.flatMap BTreePage.children ++ row.map (·.entry key) = all.map (·.entry key) := by
  induction built with
  | @leaves groups row _ _ pages =>
      have none : row.map BTreePage.children = groups.map fun _ => [] :=
        forall₂_map_eq pages fun group page is => by rw [BTreePage.children, is.2]
      rw [List.flatMap_def, none]
      simp
  | @level _ _ _ next groups _ whole _ pages ih =>
      have same : next.map BTreePage.children = groups.map id :=
        forall₂_map_eq pages fun group page is => by rw [BTreePage.children, is.2, id_eq]
      rw [List.flatMap_append, @List.flatMap_def _ _ next, same, List.map_id, whole,
        List.map_append, ih]

/-- The levels of the pages. -/
theorem PageTree.levels (built : PageTree kind key entries level all row) :
    (∀ page ∈ row, page ∈ all ∧ page.level = level) ∧
      ∀ page ∈ all, page.level ≤ level ∧ (page.level = level → page ∈ row) := by
  induction built with
  | @leaves groups row _ _ pages =>
      have bottom : ∀ page ∈ row, page.level = 0 := fun page member =>
        (forall₂_mem pages member).choose_spec.2.1
      exact ⟨fun page member => ⟨member, bottom page member⟩,
        fun page member => ⟨Nat.le_of_eq (bottom page member), fun _ => member⟩⟩
  | @level level all row next groups _ _ _ pages ih =>
      have here : ∀ page ∈ next, page.level = level + 1 := fun page member =>
        (forall₂_mem pages member).choose_spec.2.1
      refine ⟨fun page member => ⟨List.mem_append_right _ member, here page member⟩,
        fun page member => ?_⟩
      rcases List.mem_append.mp member with below | there
      · have low := (ih.2 page below).1
        exact ⟨by omega, by omega⟩
      · exact ⟨Nat.le_of_eq (here page there), fun _ => there⟩

/-- Every entry of an intermediate page is that of a page of the level below. -/
theorem PageTree.children_below (built : PageTree kind key entries level all row) :
    ∀ page ∈ all, ∀ entry ∈ page.children, ∃ child ∈ all, child.entry key = entry ∧
      child.level + 1 = page.level := by
  induction built with
  | leaves _ _ pages =>
      intro page member entry inside
      obtain ⟨group, -, -, content⟩ := forall₂_mem pages member
      rw [BTreePage.children, content] at inside
      cases inside
  | @level level all row next groups below whole _ pages ih =>
      intro page member entry inside
      rcases List.mem_append.mp member with low | here
      · obtain ⟨child, there, same, above⟩ := ih page low entry inside
        exact ⟨child, List.mem_append_left _ there, same, above⟩
      · obtain ⟨group, there, atLevel, content⟩ := forall₂_mem pages here
        rw [BTreePage.children, content] at inside
        have listed : entry ∈ row.map (·.entry key) :=
          whole ▸ List.mem_flatten_of_mem there inside
        obtain ⟨child, isRow, rfl⟩ := List.mem_map.mp listed
        obtain ⟨known, low⟩ := below.levels.1 child isRow
        exact ⟨child, List.mem_append_left _ known, rfl, by rw [low, atLevel]⟩

/-- The pages of the lowest level are the leaves. -/
theorem PageTree.bottom (built : PageTree kind key entries level all row) :
    ∀ page ∈ all, page.level = 0 ↔ page.children = [] := by
  induction built with
  | leaves _ _ pages =>
      intro page member
      obtain ⟨group, -, atLevel, content⟩ := forall₂_mem pages member
      rw [BTreePage.children, content]
      exact ⟨fun _ => rfl, fun _ => atLevel⟩
  | level _ _ sizes pages ih =>
      intro page member
      rcases List.mem_append.mp member with low | here
      · exact ih page low
      · obtain ⟨group, there, atLevel, content⟩ := forall₂_mem pages here
        have some := List.ne_nil_of_length_pos (sizes group there).1
        rw [BTreePage.children, content, atLevel]
        exact ⟨nofun, fun none => absurd none some⟩

/-- Every level has a page. -/
theorem PageTree.deep (built : PageTree kind key entries level all row) (some : row ≠ []) :
    level < all.length := by
  induction built with
  | leaves => exact List.length_pos_of_ne_nil some
  | @level level all row next groups _ whole sizes pages ih =>
      have rowSome : row ≠ [] := by
        rintro rfl
        cases groups with
        | nil =>
            cases pages
            exact some rfl
        | cons group rest =>
            have none := List.flatten_eq_nil_iff.mp whole group List.mem_cons_self
            have large := (sizes group List.mem_cons_self).1
            rw [none] at large
            exact absurd large (by decide)
      have length := List.length_pos_of_ne_nil some
      have lower := ih rowSome
      rw [List.length_append]
      omega

/-- The least keys of adjoining increasing groups increase. -/
theorem heads_increase {groups : List (List Nat)} (increase : groups.flatten.Pairwise (· < ·))
    (some : ∀ group ∈ groups, 1 ≤ group.length) :
    (groups.map fun group => group.head?.getD 0).Pairwise (· < ·) := by
  rw [List.pairwise_map]
  refine (List.pairwise_flatten.mp increase).2.imp_of_mem fun {first second} here there apart => ?_
  cases first with
  | nil => exact absurd (some _ here) (by decide)
  | cons least rest =>
      cases second with
      | nil => exact absurd (some _ there) (by decide)
      | cons next more => exact apart least List.mem_cons_self next List.mem_cons_self

/-- Pages over increasing keys. -/
theorem row_increase {keys : List Nat} (whole : (row.map (·.keys key)).flatten = keys)
    (increase : keys.Pairwise (· < ·)) (some : ∀ page ∈ row, 1 ≤ (page.keys key).length) :
    (∀ page ∈ row, (page.keys key).Pairwise (· < ·)) ∧
      (row.map fun page => (page.entry key).key).Pairwise (· < ·) := by
  rw [← whole] at increase
  have groups : ∀ group ∈ row.map (·.keys key), 1 ≤ group.length := by
    intro group member
    obtain ⟨page, there, rfl⟩ := List.mem_map.mp member
    exact some page there
  have heads := heads_increase increase groups
  rw [List.map_map] at heads
  refine ⟨fun page member => ?_, heads⟩
  exact (List.pairwise_flatten.mp increase).1 _ (List.mem_map_of_mem member)

/-- The keys within every page increase, and so do those of the pages of the last level. -/
theorem PageTree.increase (built : PageTree kind key entries level all row)
    (increase : (entries.map key).Pairwise (· < ·)) :
    (∀ page ∈ all, (page.keys key).Pairwise (· < ·)) ∧
      (row.map fun page => (page.entry key).key).Pairwise (· < ·) := by
  have filled := built.filled
  induction built with
  | @leaves groups row whole _ pages =>
      have same : row.map (·.keys key) = groups.map (List.map key) :=
        forall₂_map_eq pages fun group page is => by rw [BTreePage.keys, is.2]
      refine row_increase ?_ increase fun page member => (filled page member).1
      rw [same, ← List.map_flatten, whole]
  | @level level all row next groups below whole _ pages ih =>
      have lower := ih fun page member => filled page (List.mem_append_left _ member)
      have same : next.map (·.keys key) = groups.map (List.map BTreePageEntry.key) :=
        forall₂_map_eq pages fun group page is => by rw [BTreePage.keys, is.2]
      have keys : (next.map (·.keys key)).flatten = row.map fun page => (page.entry key).key := by
        rw [same, ← List.map_flatten, whole, List.map_map]
        rfl
      have here := row_increase keys lower.2 fun page member =>
        (filled page (List.mem_append_right _ member)).1
      refine ⟨fun page member => ?_, here.2⟩
      rcases List.mem_append.mp member with low | top
      · exact lower.1 page low
      · exact here.1 page top

/-- The last level holds the entries. -/
theorem PageTree.holds (built : PageTree kind key entries level all row)
    {pages : Nat → Option (TreePage Nat α)}
    (known : ∀ page ∈ all, pages page.offset = some (page.treePage key)) :
    RowHolds pages level (row.map fun page => ((page.entry key).key, page.offset))
      (entries.map fun entry => (key entry, entry)) := by
  induction built with
  | @leaves groups row whole sizes pages =>
      rw [← whole, List.map_flatten]
      refine RowHolds.leaves (List.forall₂_map_left_iff.mpr (List.forall₂_map_right_iff.mpr ?_))
      refine (forall₂_and pages sizes known).flip.imp fun page group is => ?_
      obtain ⟨⟨-, content⟩, ⟨some, -⟩, there⟩ := is
      cases group with
      | nil => exact absurd some (Nat.not_succ_le_zero 0)
      | cons first rest =>
          rw [there, BTreePage.treePage, BTreePage.entry, BTreePage.keys, content]
          exact ⟨rfl, rfl⟩
  | @level level all row next groups below whole sizes pages ih =>
      have lower := ih fun page member => known page (List.mem_append_left _ member)
      have wholeRow : (groups.map (List.map fun entry : BTreePageEntry =>
        (entry.key, entry.offset))).flatten =
          row.map fun page => ((page.entry key).key, page.offset) := by
        rw [← List.map_flatten, whole, List.map_map]
        rfl
      refine lower.parents wholeRow (List.forall₂_map_left_iff.mpr
        (List.forall₂_map_right_iff.mpr ?_))
      refine (forall₂_and pages sizes fun page member =>
        known page (List.mem_append_right _ member)).imp fun group page is => ?_
      obtain ⟨⟨-, content⟩, ⟨some, -⟩, there⟩ := is
      cases group with
      | nil => exact absurd some (Nat.not_succ_le_zero 0)
      | cons first rest =>
          rw [there, BTreePage.treePage, BTreePage.entry, BTreePage.keys, content]
          exact ⟨rfl, rfl⟩

end Tree

section Runs

variable {kind : BTreeKind} {key : α → Nat} {entries : List α}

theorem slices_sizes {source : List β} {capacity : Nat} {ranges : List (Nat × Nat)}
    (bounds : ∀ range ∈ ranges, 1 ≤ range.2 ∧ range.2 ≤ capacity ∧
      range.1 + range.2 ≤ source.length) :
    ∀ group ∈ ranges.map (slice source), 1 ≤ group.length ∧ group.length ≤ capacity := by
  intro group member
  obtain ⟨range, there, rfl⟩ := List.mem_map.mp member
  obtain ⟨large, small, inside⟩ := bounds range there
  rw [slice, List.length_take, List.length_drop]
  omega

/-- The levels over one that is built, up to a level of one page. -/
theorem upperPages_built {fuel level start : Nat} {all row upper : List (BTreePage α)}
    {roots : List BTreePageEntry} {cursor last : PageCursor}
    (built : PageTree kind key entries level all row) (some : row ≠ []) (enough : row.length ≤ fuel)
    (ordered : InOrder start all cursor.offset)
    (written : upperPages kind fuel (level + 1) (row.map (·.entry key)) cursor =
      .ok (upper, roots, last)) :
    ∃ top root, PageTree kind key entries top (all ++ upper) [root] ∧ roots = [root.entry key] ∧
      InOrder start (all ++ upper) last.offset ∧ last.page = cursor.page + upper.length ∧
      (upper ≠ [] → last.page < wordCount 64) ∧ ∀ count, count + upper.length < wordCount 64 →
        upperPageCount 20 fuel row.length count = .ok (count + upper.length) := by
  induction fuel generalizing level all row upper cursor with
  | zero => exact absurd (List.length_eq_zero_iff.mp (Nat.le_zero.mp enough)) some
  | succ fuel ih =>
      have length := List.length_pos_of_ne_nil some
      rw [upperPages, List.length_map] at written
      split at written
      case isFalse single =>
        cases written
        have one : row.length = 1 := by omega
        obtain ⟨root, rfl⟩ := List.length_eq_one_iff.mp one
        refine ⟨level, root, ?_, rfl, ?_, rfl, fun some => absurd rfl some, fun count _ => ?_⟩
        · rw [List.append_nil]
          exact built
        · rw [List.append_nil]
          exact ordered
        · rw [upperPageCount, if_neg single]
          rfl
      case isTrue more =>
        obtain ⟨ranges, planned, written⟩ := bind_eq_ok.mp written
        obtain ⟨⟨pages, parents, middle⟩, here, written⟩ := bind_eq_ok.mp written
        obtain ⟨_, counted, written⟩ := bind_eq_ok.mp written
        obtain ⟨⟨above, final, behind⟩, later, same⟩ := bind_eq_ok.mp written
        cases same
        obtain ⟨rfl, -⟩ := checkedAdd_eq_some.mp (okOr_eq_ok.mp counted)
        have entriesSome : row.map (·.entry key) ≠ [] := by
          rwa [ne_eq, List.map_eq_nil_iff]
        rw [← List.length_map (·.entry key)] at planned
        obtain ⟨whole, count, bounds⟩ := planLeafPages_spec entriesSome planned
        have keysOf : ∀ page : BTreePage α, ∀ group, page.content = .intermediate group →
            page.keys key = group.map BTreePageEntry.key :=
          fun page group is => by rw [BTreePage.keys, is]
        obtain ⟨contents, rfl, follows, counter, fits⟩ := levelPages_spec keysOf
          (fun range member => ⟨(bounds range member).1, (bounds range member).2.2⟩) here
        have pagesLength : pages.length = divCeil row.length 20 := by
          rw [← contents.length_eq, List.length_map, count, List.length_map]
        have fewer : 1 ≤ pages.length ∧ pages.length < row.length := by
          rw [pagesLength, divCeil]
          omega
        have pagesSome : pages ≠ [] := List.ne_nil_of_length_pos fewer.1
        have next := built.level whole (slices_sizes bounds) contents
        obtain ⟨top, root, tree, is, order, total, word, counts⟩ :=
          ih next pagesSome (by omega) (ordered.append follows) later
        rw [List.append_assoc] at tree order
        refine ⟨top, root, tree, is, order, ?_, fun _ => ?_, fun base small => ?_⟩
        · rw [total, counter, List.length_append, Nat.add_assoc]
        · by_cases none : above = []
          · rw [total, none]
            exact fits pagesSome
          · exact word none
        · rw [List.length_append, ← Nat.add_assoc] at small ⊢
          rw [upperPageCount, if_pos more]
          refine bind_eq_ok.mpr ⟨base + pages.length, ?_, ?_⟩
          · rw [← pagesLength, okOr_eq_ok, checkedAdd_eq_some]
            exact ⟨rfl, by omega⟩
          · rw [← pagesLength]
            exact counts _ small

variable (kind key entries) in
/-- Pages that form a search tree over entries, under a root. -/
structure IsSearchTree (pages : List (BTreePage α)) (root : BTreePageEntry) : Prop where
  /-- No page is empty, and none is too full. -/
  filled : ∀ page ∈ pages, 1 ≤ (page.keys key).length ∧
    (page.keys key).length ≤ if page.level = 0 then kind.leafCapacity else 20
  leaves : pages.flatMap BTreePage.entries = entries
  bottom : ∀ page ∈ pages, page.level = 0 ↔ page.children = []
  /-- The keys within every page increase. -/
  increase : ∀ page ∈ pages, (page.keys key).Pairwise (· < ·)
  /-- An entry stands for a page of the level below, under the least key of that page. -/
  children : ∀ page ∈ pages, ∀ entry ∈ page.children, ∃ child ∈ pages,
    child.id = entry.page ∧ child.offset = entry.offset ∧ child.level + 1 = page.level ∧
      entry.key ∈ child.keys key ∧ ∀ other ∈ child.keys key, entry.key ≤ other
  /-- Every page but the root has exactly one entry that stands for it. -/
  links : pages.flatMap BTreePage.children ++ [root] = pages.map (·.entry key)
  top : ∃ page ∈ pages, page.entry key = root ∧
    ∀ other ∈ pages, other.level ≤ page.level ∧ (other.level = page.level → other = page)
  apart : pages.Pairwise fun first second => first.offset < second.offset
  count : btreePageCount entries.length kind.leafCapacity 20 = .ok pages.length
  found : ∀ target, findEntry key pages root target = entries.find? fun entry => key entry = target

/-- A page is found at its offset. -/
theorem find?_offset {pages : List (BTreePage α)} {page : BTreePage α}
    (apart : pages.Pairwise fun first second => first.offset < second.offset)
    (member : page ∈ pages) : pages.find? (·.offset = page.offset) = some page := by
  induction pages with
  | nil => cases member
  | cons head rest ih =>
      obtain ⟨first, others⟩ := List.pairwise_cons.mp apart
      rcases List.mem_cons.mp member with rfl | later
      · exact List.find?_cons_of_pos (decide_eq_true rfl)
      · have different : head.offset ≠ page.offset := Nat.ne_of_lt (first page later)
        rw [List.find?_cons_of_neg (by rwa [decide_eq_true_eq]), ih others later]

/-- The pages of a B-tree over entries of increasing keys are a search tree. -/
theorem btreePages_searchTree {cursor last : PageCursor} {pages : List (BTreePage α)}
    {root : BTreePageEntry} (increase : (entries.map key).Pairwise (· < ·))
    (written : btreePages kind key entries cursor = .ok (pages, root, last)) :
    IsSearchTree kind key entries pages root := by
  obtain ⟨ranges, planned, written⟩ := bind_eq_ok.mp written
  obtain ⟨_, nonempty, written⟩ := bind_eq_ok.mp written
  obtain ⟨⟨leaves, parents, middle⟩, here, written⟩ := bind_eq_ok.mp written
  obtain ⟨⟨upper, roots, behind⟩, above, written⟩ := bind_eq_ok.mp written
  obtain ⟨first, single, same⟩ := bind_eq_ok.mp written
  cases same
  have entriesSome : entries ≠ [] := by
    rintro rfl
    rw [planLeafPages_nil planned] at nonempty
    exact absurd rfl (refuse_eq_ok.mp nonempty)
  obtain ⟨whole, pageCount, bounds⟩ := planLeafPages_spec entriesSome planned
  have keysOf : ∀ page : BTreePage α, ∀ group, page.content = .leaf group →
      page.keys key = group.map key := fun page group is => by rw [BTreePage.keys, is]
  obtain ⟨contents, rfl, follows, counter, fits⟩ := levelPages_spec keysOf
    (fun range member => ⟨(bounds range member).1, (bounds range member).2.2⟩) here
  have leafCount : leaves.length = divCeil entries.length kind.leafCapacity := by
    rw [← contents.length_eq, List.length_map, pageCount]
  have leavesSome : leaves ≠ [] := by
    rintro rfl
    have none := contents.length_eq
    rw [List.length_map, List.length_nil] at none
    exact refuse_eq_ok.mp nonempty (by rw [List.length_eq_zero_iff.mp none, List.isEmpty_nil])
  have bottom : PageTree kind key entries 0 leaves leaves :=
    .leaves whole (slices_sizes bounds) contents
  obtain ⟨level, top, built, rfl, ordered, total, word, counts⟩ :=
    upperPages_built bottom leavesSome (by rw [List.length_map]) follows above
  obtain rfl := Option.some.inj (okOr_eq_ok.mp single)
  obtain ⟨sorted, -⟩ := built.increase increase
  obtain ⟨atTop, below⟩ := built.levels
  obtain ⟨isTop, topLevel⟩ := atTop top List.mem_cons_self
  refine ⟨built.filled, built.leaves_hold, built.bottom, sorted, ?_, built.links, ?_,
    ordered.apart, ?_, ?_⟩
  · intro page member entry inside
    obtain ⟨child, there, rfl, above⟩ := built.children_below page member entry inside
    have increasing := sorted child there
    have large := (built.filled child there).1
    refine ⟨child, there, rfl, rfl, above, ?_⟩
    rw [BTreePage.entry]
    generalize child.keys key = keys at *
    cases keys with
    | nil => exact absurd large (by decide)
    | cons least rest =>
        refine ⟨List.mem_cons_self, fun other member => ?_⟩
        rcases List.mem_cons.mp member with rfl | later
        · exact Nat.le_refl _
        · exact Nat.le_of_lt ((List.pairwise_cons.mp increasing).1 other later)
  · refine ⟨top, isTop, rfl, fun other member => ?_⟩
    rw [topLevel]
    obtain ⟨low, only⟩ := below other member
    exact ⟨low, fun same => List.mem_singleton.mp (only same)⟩
  · have small : leaves.length + upper.length < wordCount 64 := by
      by_cases none : upper = []
      · have word := fits leavesSome
        rw [none, List.length_nil]
        omega
      · have fit := word none
        omega
    obtain ⟨_, positive, -⟩ := bind_eq_ok.mp planned
    have positive := refuse_eq_ok.mp positive
    have length := List.length_pos_of_ne_nil entriesSome
    refine bind_eq_ok.mpr ⟨(), refuse_eq_ok.mpr (by omega), ?_⟩
    have counted := counts leaves.length small
    rw [List.length_map] at counted
    rw [← leafCount, List.length_append]
    exact counted
  · intro target
    have known : ∀ page ∈ leaves ++ upper,
        pageAt key (leaves ++ upper) page.offset = some (page.treePage key) := by
      intro page member
      rw [pageAt, find?_offset ordered.apart member, Option.map_some]
    have holds := (built.holds known).single
    have keysIncrease : KeysIncrease (entries.map fun entry => (key entry, entry)) := by
      rw [List.pairwise_map] at increase
      exact List.pairwise_map.mpr increase
    have deep := built.deep (List.cons_ne_nil top [])
    rw [findEntry, BTreePage.entry, searchTree_holds (Nat.le_of_lt deep) holds keysIncrease,
      List.find?_map, Option.map_map]
    exact Option.map_id'

end Runs

section Files

variable (around : Surroundings τ) {kind : BTreeKind} {key : α → Nat} {entries : List α}

/-- The pages that a level was written with. -/
theorem writeLevel_pages {level capacity : Nat} {isLeaf : Bool} {key' : β → Nat}
    {content : List β → PageContent α} {entries : List β} {ranges : List (Nat × Nat)}
    {cursor last : PageCursor} {session next : Session τ} {parents : List BTreePageEntry}
    (written : writeLevel around kind level capacity isLeaf
      (entries.map key') ranges cursor session =
      .ok (parents, last) next) :
    ∃ pages, levelPages kind level capacity isLeaf key' content entries ranges cursor =
      .ok (pages, parents, last) := by
  induction ranges generalizing cursor session parents next with
  | nil =>
      obtain ⟨same, -⟩ := pure_run_ok.mp written
      cases same
      exact ⟨[], rfl⟩
  | cons range rest ih =>
      obtain ⟨⟨offset, behind⟩, allocated, written⟩ := attempt_bind_run_ok.mp written
      obtain ⟨_, checked, written⟩ := attempt_bind_run_ok.mp written
      obtain ⟨_, _, -, written⟩ := bind_run_ok.mp written
      obtain ⟨_, _, -, written⟩ := bind_run_ok.mp written
      obtain ⟨page, counted, written⟩ := attempt_bind_run_ok.mp written
      obtain ⟨⟨others, final⟩, _, later, same⟩ := bind_run_ok.mp written
      obtain ⟨same, -⟩ := pure_run_ok.mp same
      cases same
      obtain ⟨pages, listed⟩ := ih later
      refine ⟨⟨level, cursor.page, offset, content (slice entries range)⟩ :: pages,
        bind_eq_ok.mpr ⟨_, allocated, ?_⟩⟩
      refine bind_eq_ok.mpr ⟨_, checked, bind_eq_ok.mpr ⟨_, counted, ?_⟩⟩
      exact bind_eq_ok.mpr ⟨_, listed, rfl⟩

theorem writeUpperLevels_pages {fuel level : Nat} {roots final : List BTreePageEntry}
    {cursor last : PageCursor} {session next : Session τ}
    (written : writeUpperLevels around kind fuel level roots cursor session =
      .ok (final, last) next) :
    ∃ pages : List (BTreePage α), upperPages kind fuel level roots cursor =
      .ok (pages, final, last) := by
  induction fuel generalizing level roots cursor session with
  | zero =>
      obtain ⟨same, -⟩ := pure_run_ok.mp written
      cases same
      exact ⟨[], rfl⟩
  | succ fuel ih =>
      rw [writeUpperLevels] at written
      split at written
      case isFalse single =>
        obtain ⟨same, -⟩ := pure_run_ok.mp written
        cases same
        exact ⟨[], by rw [upperPages, if_neg single]; rfl⟩
      case isTrue more =>
        obtain ⟨ranges, planned, written⟩ := attempt_bind_run_ok.mp written
        obtain ⟨⟨parents, middle⟩, _, here, written⟩ := bind_run_ok.mp written
        obtain ⟨deeper, counted, later⟩ := attempt_bind_run_ok.mp written
        obtain ⟨pages, listed⟩ := writeLevel_pages around here
        obtain ⟨upper, above⟩ := ih later
        refine ⟨pages ++ upper, ?_⟩
        rw [upperPages, if_pos more]
        refine bind_eq_ok.mpr ⟨_, planned, bind_eq_ok.mpr ⟨_, listed, ?_⟩⟩
        exact bind_eq_ok.mpr ⟨_, counted, bind_eq_ok.mpr ⟨_, above, rfl⟩⟩

/-- The pages that a B-tree was written with. -/
theorem writeBTree_pages {cursor last : PageCursor} {session next : Session τ}
    {root : BTreePageEntry}
    (written : writeBTree around kind (entries.map key) cursor session = .ok (root, last) next) :
    ∃ pages, btreePages kind key entries cursor = .ok (pages, root, last) := by
  obtain ⟨ranges, planned, written⟩ := attempt_bind_run_ok.mp written
  obtain ⟨_, nonempty, written⟩ := attempt_bind_run_ok.mp written
  obtain ⟨⟨parents, middle⟩, _, here, written⟩ := bind_run_ok.mp written
  obtain ⟨⟨roots, behind⟩, _, above, written⟩ := bind_run_ok.mp written
  obtain ⟨first, single, same⟩ := attempt_bind_run_ok.mp written
  obtain ⟨same, -⟩ := pure_run_ok.mp same
  cases same
  obtain ⟨leaves, bottom⟩ := writeLevel_pages around here
  obtain ⟨upper, levels⟩ := writeUpperLevels_pages around above
  rw [List.length_map] at planned
  refine ⟨leaves ++ upper, bind_eq_ok.mpr ⟨_, planned, bind_eq_ok.mpr ⟨_, nonempty, ?_⟩⟩⟩
  refine bind_eq_ok.mpr ⟨_, bottom, bind_eq_ok.mpr ⟨_, levels, ?_⟩⟩
  exact bind_eq_ok.mpr ⟨_, single, rfl⟩

/-- A leaf block behind the header. -/
def sampleBlock (index : Nat) : WrittenBlock := ⟨⟨leafBlock index, .data [65], 1⟩, firstData, 1⟩

def sampleNode (value : Nat) : NodeBTreeEntry := ⟨⟨value⟩, leafBlock 1, none, none⟩

end Files

end PstForge.Writer
