import Mathlib.Data.Nat.Digits.Lemmas
import PstForge.Ltp.HeapTree
import PstForge.Ltp.TableContext

/-! # Heap pages filled up

Every page of a heap but the last is filled up to a whole block. A push keeps three bytes of a
page free, which is what one more allocation and its offset take, so filling a page up cannot
fail, and the padding ends where the map of the page begins. The fill levels that are then
written are those of the pages as they stand.
-/

namespace PstForge.Ltp

open PstForge.Foundation PstForge.Ndb

section Reading

/-- One of the fill levels that are packed into a word. -/
def unpackFillLevel (word position : Nat) : Nat := (word >>> (position * 4)) &&& 0x0F

/-- The fill level of a page, from the header or the bitmap page that governs it. -/
def readFillLevel (pages : List Bytes) (index : Nat) : Option Nat :=
  if index < 8 then
    pages[0]?.map fun page => unpackFillLevel (leValue ((page.drop 8).take 4)) index
  else
    let position := (index - 8) % 128
    pages[index - position]?.map fun page =>
      unpackFillLevel (leValue ((page.drop (2 + position / 8 * 4)).take 4)) (position % 8)

end Reading

section Levels

variable {levels : List Nat} {pages pages' : List Bytes} {contents : List (List Bytes)}

theorem packFillLevels_fold : ∀ (source : List Nat) (start word : Nat),
    (∀ level ∈ source, level < 16) → word < 2 ^ (start * 4) →
    (source.zipIdx start).foldl (fun word (level, position) =>
      word ||| (level <<< (position * 4))) word =
      word + 2 ^ (start * 4) * Nat.ofDigits 16 source := by
  intro source
  induction source with
  | nil =>
      intro start word _ _
      rw [List.zipIdx_nil, List.foldl_nil, Nat.ofDigits_nil, Nat.mul_zero, Nat.add_zero]
  | cons level source ih =>
      intro start word small below
      obtain ⟨first, others⟩ := List.forall_mem_cons.mp small
      have next : 2 ^ ((start + 1) * 4) = 2 ^ (start * 4) * 16 := by
        rw [Nat.succ_mul, Nat.pow_add]
      have put : word ||| (level <<< (start * 4)) = word + 2 ^ (start * 4) * level := by
        rw [Nat.shiftLeft_eq, Nat.mul_comm level, Nat.or_comm,
          ← Nat.two_pow_add_eq_or_of_lt below,
          Nat.add_comm]
      have room : word + 2 ^ (start * 4) * level < 2 ^ ((start + 1) * 4) := by
        have most : 2 ^ (start * 4) * level ≤ 2 ^ (start * 4) * 15 :=
          Nat.mul_le_mul_left _ (Nat.le_of_lt_succ first)
        rw [next]
        omega
      rw [List.zipIdx_cons, List.foldl_cons]
      dsimp only
      rw [put, ih (start + 1) _ others room, next, Nat.ofDigits_cons]
      ring

/-- Packed fill levels are the digits of a number to the base sixteen. -/
theorem packFillLevels_eq (small : ∀ level ∈ levels, level < 16) :
    packFillLevels levels = Nat.ofDigits 16 (levels.take 8) := by
  have short : ∀ level ∈ levels.take 8, level < 16 :=
    fun level member => small level (List.mem_of_mem_take member)
  have whole := packFillLevels_fold (levels.take 8) 0 0 short (by norm_num)
  rw [Nat.zero_mul, Nat.pow_zero, Nat.one_mul, Nat.zero_add] at whole
  exact whole

/-- Fill levels are unpacked as they were packed. -/
theorem unpack_pack (small : ∀ level ∈ levels, level < 16) {position level : Nat}
    (inside : position < 8) (here : levels[position]? = some level) :
    unpackFillLevel (packFillLevels levels) position = level := by
  have short : ∀ level ∈ levels.take 8, level < 16 :=
    fun level member => small level (List.mem_of_mem_take member)
  have cut : (levels.take 8)[position]? = some level := by
    rw [List.getElem?_take, if_pos inside, here]
  obtain ⟨bound, value⟩ := List.getElem?_eq_some_iff.mp cut
  have digit : level < 16 := small level (List.mem_of_getElem? here)
  have shift : 2 ^ (position * 4) = 16 ^ position := by
    rw [Nat.mul_comm, Nat.pow_mul]
  have mask (word : Nat) : word &&& 0x0F = word % 16 := Nat.and_two_pow_sub_one_eq_mod word 4
  rw [unpackFillLevel, mask, Nat.shiftRight_eq_div_pow, shift, packFillLevels_eq small,
    Nat.ofDigits_div_pow_eq_ofDigits_drop position (by norm_num) _ short,
    List.drop_eq_getElem_cons bound, value, Nat.ofDigits_cons, Nat.add_mul_mod_self_left,
    Nat.mod_eq_of_lt digit]

theorem packFillLevels_lt (small : ∀ level ∈ levels, level < 16) :
    packFillLevels levels < 256 ^ 4 := by
  have short : ∀ level ∈ levels.take 8, level < 16 :=
    fun level member => small level (List.mem_of_mem_take member)
  have few : (levels.take 8).length ≤ 8 := List.length_take_le 8 levels
  have bound := Nat.ofDigits_lt_base_pow_length (b := 16) (by norm_num) short
  have power : 16 ^ (levels.take 8).length ≤ 16 ^ 8 := Nat.pow_le_pow_right (by norm_num) few
  rw [packFillLevels_eq small]
  omega

theorem heapFillLevel_lt {size level : Nat} (hlevel : heapFillLevel size = .ok level) :
    level < 16 := by
  simp only [heapFillLevel, bind_eq_ok, okOr_eq_ok, checkedSub_eq_some] at hlevel
  obtain ⟨free, -, hpure⟩ := hlevel
  cases hpure
  have either {condition : Prop} [Decidable condition] {a b : Nat} (left : a < 16)
    (right : b < 16) :
      (if condition then a else b) < 16 := by
    split
    · exact left
    · exact right
  repeat' apply either
  all_goals norm_num

/-- A page that is no larger than a block has a fill level. -/
theorem heapFillLevel_succeeds {size : Nat} (fits : size ≤ maxDataBlockPayload) :
    ∃ level, heapFillLevel size = .ok level := by
  simp only [heapFillLevel, bind_eq_ok, okOr_eq_ok, checkedSub_eq_some]
  exact ⟨_, _, ⟨rfl, fits⟩, rfl⟩

theorem patchBytes_drop {target value : Bytes} {offset : Nat} (within : offset ≤ target.length) :
    ((patchBytes target offset value).drop offset).take value.length = value := by
  have front : (target.take offset).length = offset := by
    rw [List.length_take, Nat.min_eq_left within]
  rw [patchBytes, List.append_assoc, List.drop_left' front, List.take_left' rfl]

/-- The fill levels in the header of a bitmap page are unpacked as they were packed. -/
theorem unpack_bitmap (small : ∀ level ∈ levels, level < 16) {offset position level : Nat}
    (inside : position < 128) (here : levels[position]? = some level) (back : Bytes) :
    unpackFillLevel (leValue (((heapNodeBitmapHeader offset levels ++ back).drop
      (2 + position / 8 * 4)).take 4)) (position % 8) = level := by
  have short (group : Nat) : ∀ level ∈ levels.drop (group * 8), level < 16 :=
    fun level member => small level (List.mem_of_mem_drop member)
  have written : heapNodeBitmapHeader offset levels ++ back = leBytes 2 offset ++
      (((List.range 16).map fun group => packFillLevels (levels.drop (group * 8))).flatMap
        (leBytes 4) ++ back) := by
    rw [heapNodeBitmapHeader, List.flatMap_map, List.append_assoc]
  have fits : ∀ word ∈ (List.range 16).map fun group => packFillLevels (levels.drop (group * 8)),
      word < 256 ^ 4 := by
    intro word member
    obtain ⟨group, -, rfl⟩ := List.mem_map.mp member
    exact packFillLevels_lt (short group)
  have group : position / 8 < 16 := by omega
  have read := words_append fits back
  rw [List.length_map, List.length_range] at read
  have word := congrArg (·[position / 8]?) read
  rw [getElem?_words group, List.getElem?_map, List.getElem?_range group, Option.map_some,
    Option.some.injEq] at word
  have there : (levels.drop (position / 8 * 8))[position % 8]? = some level := by
    rw [List.getElem?_drop, Nat.div_add_mod', here]
  rw [written, ← List.drop_drop, List.drop_left' (length_leBytes 2 _), word]
  exact unpack_pack (short _) (Nat.mod_lt _ (by norm_num)) there

/-- A page with the fill levels that belong on it. -/
def markedPage (levels : List Nat) (index : Nat) (page : Bytes) : Bytes :=
  if index = 0 then patchBytes page 8 (leBytes 4 (packFillLevels levels))
  else if 8 ≤ index ∧ (index - 8) % 128 = 0 then
    patchBytes page 0 (heapNodeBitmapHeader (leValue (page.take 2)) (levels.drop index))
  else page

/-- Writing the fill levels marks each page by its number. -/
theorem updateHeapFillLevels_getElem? (hupdate : updateHeapFillLevels pages = .ok pages') :
    ∃ levels, (pages.mapM fun page => heapFillLevel page.length) = .ok levels ∧
      ∀ index, pages'[index]? = pages[index]?.map (markedPage levels index) := by
  unfold updateHeapFillLevels at hupdate
  obtain ⟨levels, hlevels, hupdate⟩ := bind_eq_ok.mp hupdate
  refine ⟨levels, hlevels, fun index => ?_⟩
  cases pages with
  | nil => cases hupdate
  | cons root rest =>
      cases hupdate
      cases index with
      | zero => rfl
      | succ index =>
          rw [List.getElem?_cons_succ, List.getElem?_cons_succ, List.getElem?_map,
            List.getElem?_zipIdx, Option.map_map]
          congr 1
          funext page
          rw [Function.comp_apply, Nat.zero_add, markedPage, if_neg (Nat.succ_ne_zero index)]

/-- The header of a page that stands at a place of the heap is whole. -/
theorem PageAt.long {index : Nat} {allocations : List Bytes} {page : Bytes}
    (holds : PageAt index allocations page) :
    (index = 0 → 12 ≤ page.length) ∧ (index % 128 = 8 → 66 ≤ page.length) := by
  obtain ⟨rest, padding, fits, holds⟩ := holds
  have length := @length_pageBytes padding allocations rest
  rw [← holds.bytes] at length
  rw [HeaderRest] at fits
  constructor
  · intro first
    rw [if_pos first] at fits
    obtain ⟨kind, levels, four, rfl⟩ := fits
    simp only [List.length_append, four, length_leBytes, List.length_cons,
      List.length_nil] at length
    omega
  · intro bitmap
    have later : index ≠ 0 := by
      rintro rfl
      exact absurd bitmap (by decide)
    rw [if_neg later, if_pos bitmap] at fits
    omega

theorem HeapFrom.pageAt {first : Nat} (holds : HeapFrom first pages contents) {index : Nat}
    {page : Bytes} (here : pages[index]? = some page) :
    ∃ allocations, contents[index]? = some allocations ∧
      PageAt (first + index) allocations page := by
  induction pages generalizing first contents index with
  | nil => simp at here
  | cons page' pages ih =>
      cases contents with
      | nil => exact holds.elim
      | cons allocations contents =>
          cases index with
          | zero =>
              rw [List.getElem?_cons_zero, Option.some.injEq] at here
              exact ⟨allocations, rfl, here ▸ holds.1⟩
          | succ index =>
              rw [List.getElem?_cons_succ] at here
              obtain ⟨allocations', there, page⟩ := ih holds.2 here
              have next : first + (index + 1) = first + 1 + index := by omega
              exact ⟨allocations', there, next ▸ page⟩

/-- A page keeps its size when the fill levels are written on it. -/
theorem PageAt.length_marked {index : Nat} {allocations : List Bytes} {page : Bytes}
    (holds : PageAt index allocations page) (levels : List Nat) :
    (markedPage levels index page).length = page.length := by
  obtain ⟨first, bitmap⟩ := holds.long
  unfold markedPage
  split
  · rename_i zero
    apply length_patchBytes
    rw [length_leBytes]
    exact first zero
  · split
    · rename_i opens
      apply length_patchBytes
      rw [length_heapNodeBitmapHeader]
      have long := bitmap (by omega)
      omega
    · rfl

/-- Every page's fill level is read back as the one of its size. -/
theorem updateHeapFillLevels_reads (holds : HeapFrom 0 pages contents)
    (hupdate : updateHeapFillLevels pages = .ok pages') {index : Nat} {page : Bytes}
    (here : pages'[index]? = some page) :
    ∃ level, heapFillLevel page.length = .ok level ∧ readFillLevel pages' index = some level := by
  obtain ⟨levels, hlevels, marked⟩ := updateHeapFillLevels_getElem? hupdate
  have small : ∀ level ∈ levels, level < 16 := by
    intro level member
    obtain ⟨page, -, hlevel⟩ := exists_of_mem_mapM_ok hlevels member
    exact heapFillLevel_lt hlevel
  rw [marked, Option.map_eq_some_iff] at here
  obtain ⟨old, there, rfl⟩ := here
  obtain ⟨allocations, -, pageAt⟩ := holds.pageAt there
  rw [Nat.zero_add] at pageAt
  rw [pageAt.length_marked]
  have bound : index < pages.length := (List.getElem?_eq_some_iff.mp there).1
  obtain ⟨level, position, hlevel⟩ := getElem?_of_mapM_ok hlevels there
  refine ⟨level, hlevel, ?_⟩
  unfold readFillLevel
  split
  · rename_i leading
    have first : 0 < pages.length := Nat.zero_lt_of_lt bound
    have root : pages[0]? = some pages[0] := List.getElem?_eq_getElem _
    obtain ⟨_, -, rootAt⟩ := holds.pageAt root
    have long := rootAt.long.1 rfl
    have read := @patchBytes_drop pages[0] (leBytes 4 (packFillLevels levels)) 8
      (by omega)
    rw [length_leBytes] at read
    rw [marked, root, Option.map_some, Option.map_some, markedPage, if_pos rfl, read,
      leValue_leBytes (packFillLevels_lt small), unpack_pack small leading position]
  · rename_i later
    have inside : (index - 8) % 128 < 128 := Nat.mod_lt _ (by norm_num)
    have opens : 8 ≤ index - (index - 8) % 128 ∧ (index - (index - 8) % 128 - 8) % 128 = 0 := by
      omega
    obtain ⟨bitmap, found⟩ : ∃ bitmap, pages[index - (index - 8) % 128]? = some bitmap :=
      ⟨_, List.getElem?_eq_getElem (by omega)⟩
    obtain ⟨_, -, bitmapAt⟩ := holds.pageAt found
    have long := bitmapAt.long.2 (by omega)
    have governed : (levels.drop (index - (index - 8) % 128))[(index - 8) % 128]? = some level := by
      rw [List.getElem?_drop, Nat.sub_add_cancel (by omega), position]
    have patched : markedPage levels (index - (index - 8) % 128) bitmap =
        heapNodeBitmapHeader (leValue (bitmap.take 2)) (levels.drop (index - (index - 8) % 128)) ++
          bitmap.drop 66 := by
      rw [markedPage, if_neg (by omega), if_pos opens, patchBytes, List.take_zero, List.nil_append,
        Nat.zero_add, length_heapNodeBitmapHeader]
    dsimp only
    rw [marked, found, Option.map_some, Option.map_some, patched,
      unpack_bitmap (fun level member => small level (List.mem_of_mem_drop member)) inside governed]

end Levels

section Room

variable {rest page page' : Bytes} {allocations : List Bytes} {padding pageIndex : Nat}

/-- Three free bytes are room for the padding: one allocation has its offset and a byte in them,
and another one is only taken when the one before it left more than that. -/
theorem paddingPlan_succeeds {mapSize allocationEnd : Nat} : ∀ {fuel first : Nat},
    allocationEnd + mapSize + first * 3 ≤ maxDataBlockPayload →
    (first - 1) * maxHeapAllocation < maxDataBlockPayload →
    maxDataBlockPayload ≤ (first - 1 + fuel) * maxHeapAllocation → 0 < first →
      ∃ plan, paddingPlan mapSize allocationEnd fuel first = .ok plan := by
  simp only [maxDataBlockPayload, maxHeapAllocation]
  intro fuel
  induction fuel with
  | zero =>
      intro first _ before after _
      rw [Nat.add_zero] at after
      exact absurd after (Nat.not_le.mpr before)
  | succ fuel ih =>
      intro first room _ after positive
      have within : mapSize + first * 2 ≤ 8176 := by omega
      have behind : allocationEnd ≤ 8176 - (mapSize + first * 2) := by omega
      have enough : ¬ 8176 - (mapSize + first * 2) - allocationEnd < first := by omega
      by_cases last : 8176 - (mapSize + first * 2) - allocationEnd ≤ first * 3580
      · refine ⟨(first, 8176 - (mapSize + first * 2),
          8176 - (mapSize + first * 2) - allocationEnd), ?_⟩
        simp only [paddingPlan, bind_eq_ok, okOr_eq_ok, checkedSub_eq_some, refuse_eq_ok]
        exact ⟨_, ⟨rfl, within⟩, _, ⟨rfl, behind⟩, (), enough, if_pos last⟩
      · have next : first + 1 - 1 + fuel = first - 1 + (fuel + 1) := by omega
        rw [← next] at after
        have more : allocationEnd + mapSize + (first + 1) * 3 ≤ 8176 := by omega
        have before : first * 3580 < 8176 :=
          Nat.lt_of_lt_of_le (Nat.lt_of_not_le last) ((Nat.sub_le _ _).trans (Nat.sub_le _ _))
        obtain ⟨plan, hplan⟩ := ih more before after (Nat.succ_pos first)
        refine ⟨plan, ?_⟩
        simp only [paddingPlan, bind_eq_ok, okOr_eq_ok, checkedSub_eq_some, refuse_eq_ok]
        exact ⟨_, ⟨rfl, within⟩, _, ⟨rfl, behind⟩, (), enough, (if_neg last).trans hplan⟩

/-- The padding allocations use up what they have to share when they can hold it. -/
theorem paddingOffsets_succeeds {count : Nat} : ∀ {start remaining : Nat}, count ≤ remaining →
    remaining ≤ count * maxHeapAllocation → start + remaining < 2 ^ 16 →
      ∃ offsets, paddingOffsets count start remaining = .ok (offsets, start + remaining, 0) := by
  induction count with
  | zero =>
      intro start remaining _ capacity _
      obtain rfl : remaining = 0 := by omega
      exact ⟨[], rfl⟩
  | succ count ih =>
      intro start remaining enough capacity small
      generalize size : min (remaining - count) maxHeapAllocation = width
      have least : width ≤ remaining - count := size ▸ Nat.min_le_left _ _
      have either : width = remaining - count ∨ width = maxHeapAllocation := by omega
      have share : remaining - width ≤ count * maxHeapAllocation := by
        rw [Nat.succ_mul] at capacity
        rcases either with all | limit
        · have self : count ≤ count * maxHeapAllocation := Nat.le_mul_of_pos_right _ (by decide)
          omega
        · omega
      obtain ⟨offsets, hoffsets⟩ := @ih (start + width) (remaining - width) (by omega) share
        (by omega)
      have whole : start + width + (remaining - width) = start + remaining := by omega
      rw [whole] at hoffsets
      refine ⟨(start + width) :: offsets, ?_⟩
      simp only [paddingOffsets, bind_eq_ok, okOr_eq_ok, tryFrom_eq_some, size]
      exact ⟨_, ⟨rfl, by rw [wordCount]; omega⟩, _, hoffsets, rfl⟩

/-- A page with three bytes free is filled up. -/
theorem HoldsPage.fills (holds : HoldsPage rest allocations padding page)
    (room : page.length + 3 ≤ maxDataBlockPayload) : ∃ page', fillHeapPage page = .ok page' := by
  have length := @length_pageBytes padding allocations rest
  rw [← holds.bytes] at length
  rw [maxDataBlockPayload] at room
  obtain ⟨-, map⟩ := holds.parts
  have offset := holds.offset
  have mapLength := length_pageMap allocations.length (allocations.filter List.isEmpty).length
    (allocationOffsets (2 + rest.length) allocations)
  rw [length_allocationOffsets, ← map] at mapLength
  have count : leValue ((page.drop (leValue (page.take 2))).take 2) = allocations.length := by
    rw [map, pageMap, List.append_assoc, List.take_left' (length_leBytes 2 _),
      leValue_leBytes (by omega)]
  have ending : leValue ((page.drop (leValue (page.take 2))).drop
      ((page.drop (leValue (page.take 2))).length - 2)) =
        2 + rest.length + allocations.flatten.length := by
    rw [map]
    exact pageMap_ending getLast?_allocationOffsets (by omega)
  obtain ⟨⟨added, target, size⟩, hplan⟩ := @paddingPlan_succeeds
    (page.drop (leValue (page.take 2))).length (2 + rest.length + allocations.flatten.length)
    maxDataBlockPayload 1 (by rw [mapLength, maxDataBlockPayload]; omega) (by decide) (by decide)
    Nat.one_pos
  obtain ⟨-, whole, behind, enough, capacity⟩ := paddingPlan_ok hplan Nat.one_pos
  rw [maxDataBlockPayload] at whole
  obtain ⟨offsets, hoffsets⟩ := (@paddingOffsets_succeeds _
    (2 + rest.length + allocations.flatten.length)) enough capacity (by omega)
  have short : ¬ maxDataBlockPayload ≤ page.length := by
    rw [maxDataBlockPayload]
    omega
  have closed : ¬ ((0 : Nat) ≠ 0 ∨ 2 + rest.length + allocations.flatten.length +
      size ≠ target) := by
    omega
  have narrow : target < 2 ^ 16 := by omega
  unfold fillHeapPage
  rw [if_neg short]
  simp only [bind_eq_ok, okOr_eq_ok, checkedAdd_eq_some, tryFrom_eq_some, refuse_eq_ok, wordCount,
    count, ending]
  exact ⟨_, (), by omega, (), by omega, (), by omega, (), by omega, _, hplan, _, ⟨rfl, by omega⟩, _,
    hoffsets, (), closed, _, ⟨rfl, narrow⟩, rfl⟩

end Room

section Pushing

/-- Allocations pushed one after another, with the identifiers they get. -/
def pushAllocations (pages : List (List Bytes)) :
    List Bytes → Except WriterError (List (List Bytes) × List HeapId)
  | [] => return (pages, [])
  | allocation :: rest => do
      let (pages, id) ← pushHeapAllocation pages allocation
      let (pages, ids) ← pushAllocations pages rest
      return (pages, id :: ids)

/-- Every page under construction can be laid out, with three bytes to spare. -/
structure Roomy (pages : List (List Bytes)) : Prop where
  few : pages.length < 2 ^ 16
  room : ∀ (index : Nat) (allocations : List Bytes), pages[index]? = some allocations →
    ∃ page, heapContinuationPageAllocations (index + 1) allocations = .ok page ∧
      page.length + 3 ≤ maxDataBlockPayload

variable {pages pages' : List (List Bytes)} {allocation : Bytes} {id : HeapId}

theorem getElem?_concat_cases {α : Type} {init : List α} {last element : α} {index : Nat}
    (here : (init ++ [last])[index]? = some element) :
    init[index]? = some element ∨ index = init.length ∧ element = last := by
  by_cases own : index < init.length
  · rw [List.getElem?_append_left own] at here
    exact .inl here
  · rw [List.getElem?_append_right (Nat.not_lt.mp own), List.getElem?_singleton] at here
    split at here
    · cases here
      exact .inr ⟨by omega, rfl⟩
    · cases here

/-- A page of a single allocation is far from full. -/
theorem single_room {pageIndex : Nat} {page : Bytes} (later : pageIndex ≠ 0)
    (within : allocation ≠ [] ∧ allocation.length ≤ maxHeapAllocation)
    (hpage : heapContinuationPageAllocations pageIndex [allocation] = .ok page) :
    page.length + 3 ≤ maxDataBlockPayload := by
  obtain ⟨rest, padding, fits, holds⟩ := heapContinuationPage_pageAt later
    (fun other member => by
      obtain rfl := List.mem_singleton.mp member
      exact within.1) hpage
  have short := within.2
  have padded := holds.padded
  have header : rest.length ≤ 64 := by
    rw [HeaderRest, if_neg later] at fits
    rw [fits]
    split <;> omega
  rw [maxHeapAllocation] at short
  rw [holds.bytes, length_pageBytes, maxDataBlockPayload, List.flatten_singleton,
    List.length_singleton]
  omega

/-- A push leaves room on every page. -/
theorem Roomy.push (roomy : Roomy pages)
    (hpush : pushHeapAllocation pages allocation = .ok (pages', id)) : Roomy pages' := by
  obtain ⟨within, small, new | last⟩ := pushHeapAllocation_cases hpush
  · obtain ⟨page, rfl, few, hpage, -⟩ := new
    refine ⟨few, fun index allocations here => ?_⟩
    rcases getElem?_concat_cases here with old | ⟨rfl, rfl⟩
    · exact roomy.room index allocations old
    · rw [List.length_append, List.length_singleton] at hpage
      exact ⟨page, hpage, single_room (Nat.succ_ne_zero _) within hpage⟩
  · obtain ⟨init, current, page, rfl, rfl, hpage, room, -⟩ := last
    rw [List.length_append, List.length_singleton] at hpage small
    refine ⟨?_, fun index allocations here => ?_⟩
    · rw [List.length_append, List.length_singleton]
      exact small
    · rcases getElem?_concat_cases here with old | ⟨rfl, rfl⟩
      · apply roomy.room index allocations
        rw [List.getElem?_append_left (List.getElem?_eq_some_iff.mp old).1, old]
      · exact ⟨page, hpage, room⟩

/-- After a run of pushes there is room on every page, and every allocation is found under the
identifier it got. -/
theorem pushAllocations_ok {allocations : List Bytes} : ∀ {pages pages' : List (List Bytes)}
    {ids : List HeapId}, pushAllocations pages allocations = .ok (pages', ids) → Roomy pages →
      Roomy pages' ∧ Grew pages pages' ∧
        List.Forall₂ (Stored pages') ids allocations := by
  induction allocations with
  | nil =>
      intro pages pages' ids hpush roomy
      cases hpush
      exact ⟨roomy, .refl _, .nil⟩
  | cons allocation rest ih =>
      intro pages pages' ids hpush roomy
      simp only [pushAllocations, bind_eq_ok] at hpush
      obtain ⟨⟨middle, id⟩, hfirst, ⟨last, others⟩, hothers, hpure⟩ := hpush
      cases hpure
      obtain ⟨grew, stored⟩ := pushHeapAllocation_ok hfirst
      obtain ⟨roomy', grew', found⟩ := ih hothers (roomy.push hfirst)
      exact ⟨roomy', grew.trans grew', .cons (stored.mono grew') found⟩

end Pushing

section Finishing

/-- The pages of a heap as they are laid out, before they are filled up. -/
def layOutPages (first : Bytes) (pageAllocations : List (List Bytes)) :
    Except WriterError (List Bytes) := do
  let rest ← pageAllocations.zipIdx.mapM fun (allocations, index) => do
    let pageIndex ← okOr (WriterError.valueTooLarge "heap page index") (tryFrom 16 (index + 1))
    heapContinuationPageAllocations pageIndex allocations
  return first :: rest

variable {pages : List (List Bytes)} {first : Bytes}

/-- Finishing the pages of a heap lays them out, fills up all but the last, and records the fill
levels. -/
theorem finishHeapPages_eq : finishHeapPages first pages = (do
    let laidOut ← layOutPages first pages
    let filled ← laidOut.dropLast.mapM fillHeapPage
    updateHeapFillLevels (filled ++ laidOut.getLast?.toList)) := by
  simp only [finishHeapPages, layOutPages, bind_assoc, pure_bind]

/-- The allocations of the first page of an external heap: the header of the tree of a property
context, or the columns of a table and the header of its row index. -/
inductive RootAllocations : HeapNodeType → List Bytes → Prop
  | properties (levels : Nat) (root : HeapId) :
      RootAllocations .properties [heapTreeHeader 2 6 levels root]
  | table {layout : RowLayout} {rowIndex : HeapId} {rows : Nat}
      {columns : List TableColumnDescriptor} {info : Bytes} (levels : Nat) (root : HeapId)
      (hinfo : tableContextInfo layout rowIndex rows columns = .ok info) :
      RootAllocations .table [info, heapTreeHeader 4 4 levels root]

theorem length_heapTreeHeader {keySize entrySize levels : Nat} {root : HeapId} :
    (heapTreeHeader keySize entrySize levels root).length = 8 := by
  simp [heapTreeHeader]

theorem tableContextInfo_length {layout : RowLayout} {rowIndex : HeapId} {rows : Nat}
    {columns : List TableColumnDescriptor} {info : Bytes}
    (hinfo : tableContextInfo layout rowIndex rows columns = .ok info) : info.length ≤ 2062 := by
  simp only [tableContextInfo, bind_eq_ok, refuse_eq_ok] at hinfo
  obtain ⟨_, few, _, -, _, -, _, -, _, -, _, -, hpure⟩ := hinfo
  cases hpure
  have each : (columns.flatMap fun column => leBytes 2 column.propType.code ++
      leBytes 2 column.propId ++ leBytes 2 column.offset ++
        [UInt8.ofNat column.size, UInt8.ofNat column.existenceBitmapIndex]).length =
          columns.length * 8 := by
    simp [List.length_flatMap]
  rw [List.length_append, each]
  simp only [List.length_append, length_leBytes, List.length_cons, List.length_nil]
  omega

/-- The first page of an external heap is far from full. -/
theorem RootAllocations.room {kind : HeapNodeType} {rootAllocations : List Bytes}
    (root : RootAllocations kind rootAllocations)
    (hfirst : heapPage kind rootAllocations = .ok first) :
    first.length + 3 ≤ maxDataBlockPayload := by
  obtain ⟨rest, padding, ⟨kind', levels, four, rfl⟩, holds⟩ := heapPage_pageAt hfirst
  have padded := holds.padded
  have small : rootAllocations.flatten.length ≤ 2070 ∧ rootAllocations.length ≤ 2 := by
    cases root with
    | properties levels root =>
        rw [List.flatten_singleton, length_heapTreeHeader]
        exact ⟨by norm_num, by simp⟩
    | table levels root hinfo =>
        have info := tableContextInfo_length hinfo
        rw [List.flatten_cons, List.flatten_singleton, List.length_append, length_heapTreeHeader]
        exact ⟨by omega, le_rfl⟩
  rw [holds.bytes, length_pageBytes, maxDataBlockPayload, List.length_append, List.length_append,
    four, length_leBytes, List.length_cons, List.length_singleton]
  omega

/-- Pages with room are laid out, and keep their room. -/
theorem Roomy.layOut (roomy : Roomy pages) (limited : Limited pages)
    (free : first.length + 3 ≤ maxDataBlockPayload) {rootAllocations : List Bytes}
    (headed : PageAt 0 rootAllocations first) :
    ∃ laidOut, layOutPages first pages = .ok laidOut ∧
      HeapFrom 0 laidOut (rootAllocations :: pages) ∧
      ∀ page ∈ laidOut, page.length + 3 ≤ maxDataBlockPayload := by
  have few := roomy.few
  obtain ⟨rest, hrest⟩ := @exists_mapM_ok _ _ _
    (fun ((allocations, index) : List Bytes × Nat) => (do
      let pageIndex ← okOr (WriterError.valueTooLarge "heap page index") (tryFrom 16 (index + 1))
      heapContinuationPageAllocations pageIndex allocations)) pages.zipIdx (by
    rintro ⟨allocations, index⟩ member
    have here := List.mem_zipIdx_iff_getElem?.mp member
    obtain ⟨page, hpage, -⟩ := roomy.room index allocations here
    have bound := (List.getElem?_eq_some_iff.mp here).1
    refine ⟨page, ?_⟩
    simp only [bind_eq_ok, okOr_eq_ok, tryFrom_eq_some, wordCount]
    exact ⟨_, ⟨rfl, by omega⟩, hpage⟩)
  have later : HeapFrom 1 rest pages := continuationPages_heapFrom
    (fun allocations member allocation there => (limited allocations member allocation
      there).1) hrest
  refine ⟨first :: rest, ?_, ⟨headed, later⟩, ?_⟩
  · rw [layOutPages, hrest]
    rfl
  · intro page member
    rcases List.mem_cons.mp member with rfl | member
    · exact free
    · obtain ⟨⟨allocations, index⟩, there, hpage⟩ := exists_of_mem_mapM_ok hrest member
      obtain ⟨page', hpage', room⟩ := roomy.room index allocations
        (List.mem_zipIdx_iff_getElem?.mp there)
      simp only [bind_eq_ok, okOr_eq_ok, tryFrom_eq_some] at hpage
      obtain ⟨_, ⟨rfl, -⟩, hpage⟩ := hpage
      cases hpage.symm.trans hpage'
      exact room

/-- What filling a page up makes of it: a whole block that holds the same allocations in the same
places, and behind them padding that ends where the map of the page begins. -/
structure FilledUp (pageIndex : Nat) (page page' : Bytes) : Prop where
  whole : page'.length = maxDataBlockPayload
  kept : ∃ allocations pads, readPage pageIndex page = some allocations ∧
    readPage pageIndex page' = some (allocations ++ pads) ∧ pads ≠ [] ∧
      ∀ pad ∈ pads, pad ≠ [] ∧ pad.length ≤ maxHeapAllocation
  ends : ∃ offset ranges, readMapOffset pageIndex page' = some offset ∧
    readPageMap (page'.drop offset) = some ranges ∧ ranges.getLast?.map (·.2) = some offset

theorem getLast?_allocationRanges {start : Nat} {allocations : List Bytes}
    (nonempty : allocations ≠ []) : (allocationRanges start allocations).getLast?.map (·.2) =
      some (start + allocations.flatten.length) := by
  induction allocations generalizing start with
  | nil => exact absurd rfl nonempty
  | cons allocation rest ih =>
      rw [allocationRanges_cons, List.flatten_cons, List.length_append, ← Nat.add_assoc]
      cases rest with
      | nil => rfl
      | cons next others =>
          have later := @ih (start + allocation.length) (List.cons_ne_nil next others)
          rw [allocationRanges_cons, List.getLast?_cons_cons, ← allocationRanges_cons]
          exact later

/-- A page that is filled up from less than a whole block is as it should be. -/
theorem PageAt.filledUp {pageIndex : Nat} {allocations : List Bytes} {page page' : Bytes}
    (holds : PageAt pageIndex allocations page) (room : page.length + 3 ≤ maxDataBlockPayload)
    (hfill : fillHeapPage page = .ok page') : FilledUp pageIndex page page' := by
  have before := holds.reads
  obtain ⟨rest, padding, fits, holds⟩ := holds
  obtain ⟨pads, padding', holds', whole, none', each⟩ := holds.filled hfill
  obtain rfl := none' (by omega)
  have after : PageAt pageIndex (allocations ++ pads) page' := ⟨rest, 0, fits, holds'⟩
  have length := @length_pageBytes padding allocations rest
  have length' := @length_pageBytes 0 (allocations ++ pads) rest
  rw [← holds.bytes] at length
  rw [← holds'.bytes, whole, maxDataBlockPayload] at length'
  rw [maxDataBlockPayload] at room
  have added : pads ≠ [] := by
    rintro rfl
    have padded := holds.padded
    rw [List.append_nil] at length'
    omega
  have offset := holds'.offset
  have ranges := (@readPageMap_pageMap (2 + rest.length) (allocations ++ pads))
    (by omega) (by omega)
  rw [← holds'.parts.2] at ranges
  have last := (@getLast?_allocationRanges (2 + rest.length) (allocations ++ pads))
    (List.append_ne_nil_of_right_ne_nil _ added)
  rw [Nat.add_zero] at offset
  rw [← offset] at last
  exact ⟨whole, ⟨allocations, pads, before, after.reads, added, each⟩, _, _, holds'.located fits,
    ranges, last⟩

/-- Pages with room are filled up. -/
theorem HeapFrom.fills {laidOut : List Bytes} {contents : List (List Bytes)} {last : Bytes}
    (holds : HeapFrom 0 (laidOut ++ [last]) contents)
    (room : ∀ page ∈ laidOut ++ [last], page.length + 3 ≤ maxDataBlockPayload) :
    ∃ filled, laidOut.mapM fillHeapPage = .ok filled ∧
      ∀ (index : Nat) (page page' : Bytes), laidOut[index]? = some page →
        filled[index]? = some page' → FilledUp index page page' := by
  have at' {index : Nat} {page : Bytes} (here : laidOut[index]? = some page) :
      ∃ allocations, PageAt index allocations page := by
    have inside : (laidOut ++ [last])[index]? = some page := by
      rw [List.getElem?_append_left (List.getElem?_eq_some_iff.mp here).1, here]
    obtain ⟨allocations, -, pageAt⟩ := holds.pageAt inside
    exact ⟨allocations, Nat.zero_add index ▸ pageAt⟩
  obtain ⟨filled, hfilled⟩ := @exists_mapM_ok _ _ _ fillHeapPage laidOut (by
    intro page member
    obtain ⟨index, here⟩ := List.getElem?_of_mem member
    obtain ⟨allocations, rest, padding, fits, own⟩ := at' here
    exact own.fills (room page (List.mem_append_left _ member)))
  refine ⟨filled, hfilled, fun index page page' here there => ?_⟩
  obtain ⟨allocations, pageAt⟩ := at' here
  obtain ⟨result, position, hfill⟩ := getElem?_of_mapM_ok hfilled here
  obtain rfl := Option.some.inj (there.symm.trans position)
  exact pageAt.filledUp (room page (List.mem_append_left _ (List.mem_of_getElem? here))) hfill

/-- Writing the fill levels leaves the size of every page alone. -/
theorem HeapFrom.sizes {contents : List (List Bytes)} {pages pages' : List Bytes}
    (holds : HeapFrom 0 pages contents) (hupdate : updateHeapFillLevels pages = .ok pages') :
    pages'.map List.length = pages.map List.length := by
  obtain ⟨levels, -, marked⟩ := updateHeapFillLevels_getElem? hupdate
  apply List.ext_getElem?
  intro index
  rw [List.getElem?_map, List.getElem?_map, marked]
  cases here : pages[index]? with
  | none => rfl
  | some page =>
      obtain ⟨allocations, -, pageAt⟩ := holds.pageAt here
      rw [Nat.zero_add] at pageAt
      rw [Option.map_some, Option.map_some, Option.map_some, pageAt.length_marked]

/-- Fill levels are written on pages that are no larger than a block. -/
theorem updateHeapFillLevels_succeeds {pages : List Bytes} (nonempty : pages ≠ [])
    (sized : ∀ page ∈ pages, page.length ≤ maxDataBlockPayload) :
    ∃ finished, updateHeapFillLevels pages = .ok finished := by
  obtain ⟨levels, hlevels⟩ := @exists_mapM_ok _ _ _ (fun page : Bytes => heapFillLevel page.length)
    pages (fun page member => heapFillLevel_succeeds (sized page member))
  obtain ⟨root, rest, rfl⟩ := List.exists_cons_of_ne_nil nonempty
  simp only [updateHeapFillLevels, hlevels]
  exact ⟨_, rfl⟩

end Finishing

section Builders

variable {pages pages' : List (List Bytes)}

/-- A heap that was reached from another one by pushes. -/
def PushedFrom (pages pages' : List (List Bytes)) : Prop :=
  ∃ allocations ids, pushAllocations pages allocations = .ok (pages', ids)

namespace PushedFrom

variable {pages'' : List (List Bytes)}

theorem refl (pages : List (List Bytes)) : PushedFrom pages pages := ⟨[], [], rfl⟩

theorem cons {allocation : Bytes} {id : HeapId}
    (hpush : pushHeapAllocation pages allocation = .ok (pages', id))
    (rest : PushedFrom pages' pages'') : PushedFrom pages pages'' := by
  obtain ⟨allocations, ids, hrest⟩ := rest
  refine ⟨allocation :: allocations, id :: ids, ?_⟩
  simp only [pushAllocations, bind_eq_ok]
  exact ⟨_, hpush, _, hrest, rfl⟩

theorem trans (first : PushedFrom pages pages') (rest : PushedFrom pages' pages'') :
    PushedFrom pages pages'' := by
  obtain ⟨allocations, ids, hfirst⟩ := first
  induction allocations generalizing pages ids with
  | nil =>
      cases hfirst
      exact rest
  | cons allocation allocations ih =>
      simp only [pushAllocations, bind_eq_ok] at hfirst
      obtain ⟨⟨middle, id⟩, hpush, ⟨last, others⟩, hothers, hpure⟩ := hfirst
      cases hpure
      exact cons hpush (ih others hothers)

end PushedFrom

theorem externalRecords_pushed {properties : Properties} : ∀ {pages pages' : List (List Bytes)}
    {records : Bytes}, externalRecords pages properties = .ok (records, pages') →
      PushedFrom pages pages' := by
  induction properties with
  | nil =>
      intro pages pages' records hrecords
      cases hrecords
      exact .refl _
  | cons property rest ih =>
      obtain ⟨propertyId, value⟩ := property
      intro pages pages' records hrecords
      simp only [externalRecords] at hrecords
      split at hrecords
      · obtain ⟨⟨others, last⟩, hrest, hpure⟩ := bind_eq_ok.mp hrecords
        cases hpure
        exact ih hrest
      · obtain ⟨encoded, -, hrecords⟩ := bind_eq_ok.mp hrecords
        obtain ⟨bytes, -, hrecords⟩ := bind_eq_ok.mp hrecords
        split at hrecords
        · obtain ⟨⟨others, last⟩, hrest, hpure⟩ := bind_eq_ok.mp hrecords
          cases hpure
          exact ih hrest
        · obtain ⟨⟨middle, id⟩, hpush, hrecords⟩ := bind_eq_ok.mp hrecords
          obtain ⟨⟨others, last⟩, hrest, hpure⟩ := bind_eq_ok.mp hrecords
          cases hpure
          exact .cons hpush (ih hrest)

theorem pushTreeLevel_pushed {keySize : Nat} {pieces : List Bytes} :
    ∀ {pages pages' : List (List Bytes)} {roots : List (Nat × HeapId)},
      pushTreeLevel keySize pages pieces = .ok (pages', roots) → PushedFrom pages pages' := by
  induction pieces with
  | nil =>
      intro pages pages' roots hpush
      cases hpush
      exact .refl _
  | cons piece pieces ih =>
      intro pages pages' roots hpush
      simp only [pushTreeLevel, bind_eq_ok] at hpush
      obtain ⟨⟨middle, id⟩, hpiece, ⟨last, others⟩, hothers, hpure⟩ := hpush
      cases hpure
      exact .cons hpiece (ih hothers)

theorem pushTreeLevels_pushed {keySize : Nat} {what : String} {fuel : Nat} :
    ∀ {levels levels' : Nat} {pages pages' : List (List Bytes)} {roots : List (Nat × HeapId)}
      {root : HeapId}, pushTreeLevels keySize what fuel levels pages roots =
        .ok (pages', levels', root) → PushedFrom pages pages' := by
  induction fuel with
  | zero =>
      intro levels levels' pages pages' roots root hpush
      match roots with
      | [] => cases hpush
      | [(key, single)] =>
          cases hpush
          exact .refl _
      | _ :: _ :: _ => cases hpush
  | succ fuel ih =>
      intro levels levels' pages pages' roots root hpush
      by_cases one : ∃ single, roots = [single]
      · obtain ⟨⟨key, single⟩, rfl⟩ := one
        cases hpush
        exact .refl _
      · rw [pushTreeLevels.eq_3 _ _ _ _ _ _ (fun key single same => one ⟨(key, single), same⟩)]
          at hpush
        simp only [bind_eq_ok] at hpush
        obtain ⟨_, -, ⟨middle, parents⟩, hlevel, hrest⟩ := hpush
        exact (pushTreeLevel_pushed hlevel).trans (ih hrest)

/-- The pages of an external property context are finished from pages that allocations were
pushed on, behind the header of its tree. -/
theorem propertyContextExternal_pushed {properties : Properties} {heap : List Bytes}
    (hcontext : propertyContextExternal properties = .ok heap) :
    ∃ rootAllocations first pages, RootAllocations .properties rootAllocations ∧
      heapPage .properties rootAllocations = .ok first ∧ PushedFrom [] pages ∧
      finishHeapPages first pages = .ok heap := by
  simp only [propertyContextExternal, bind_eq_ok] at hcontext
  obtain ⟨_, -, ⟨records, pages⟩, hrecords, ⟨pages', roots⟩, hleaves, ⟨pages'', levels, root⟩,
    hlevels, first, hfirst, hfinish⟩ := hcontext
  exact ⟨_, first, pages'', .properties levels root, hfirst,
    ((externalRecords_pushed hrecords).trans (pushTreeLevel_pushed hleaves)).trans
      (pushTreeLevels_pushed hlevels), hfinish⟩

end Builders

end PstForge.Ltp
