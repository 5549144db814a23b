import PstForge.Ndb.AllocationSafety

/-! # What the allocation maps say

When everything is placed, the writer derives from the end of the allocated space the
bitmap of every region, the free bytes and the classes of the leading regions in the
header, and the classes of all other regions in free map pages. This module reads these
back as a user of the file would, and shows that they tell the same.
-/

namespace PstForge.Ndb

open PstForge.Foundation

section Writing

/-- A density list page: whether the list is complete, the current page, and for the pages of
the list their free slots. -/
structure DensityListPage where
  backfillComplete : Bool
  currentPage : Nat
  entries : List (Nat × Nat)
  deriving DecidableEq, Repr

/-- The density list that is written behind the map pages. The number of free slots of a region
is within what an entry holds. -/
def densityListPage (freeSlots : List Nat) (count : Nat) : Except WriterError DensityListPage := do
  if count = 1 then
    let free ← okOr (.invalidStructure "allocation free map is incomplete") freeSlots[0]?
    refuse (0xFFF < free) (.invalidStructure "Invalid DLISTPAGEENT dwFreeSlots")
    return ⟨true, 1, [(0, free)]⟩
  else
    let currentPage ← okOr (.valueTooLarge "density list current page") (tryFrom 32 (count - 1))
    return ⟨false, currentPage, []⟩

/-- The map pages, the density list, and what is left for the header. -/
def writeAllocationPages (allocatedEnd : Nat) :
    Except WriterError (List MapPage × DensityListPage × ConstructedAllocation) := do
  let (pages, allocation) ← allocationPages allocatedEnd
  let count ← amapCount allocatedEnd
  let freeSlots ← (List.range count).mapM (regionFreeSlots allocatedEnd)
  let density ← densityListPage freeSlots count
  return (pages, density, allocation)

/-- What the header says of the allocation. -/
structure AllocationHeader where
  fileEof : Nat
  lastAMap : Nat
  freeBytes : Nat
  firstFreeMap : List Nat
  deriving DecidableEq, Repr

def writeHeader (allocatedEnd : Nat) (allocation : ConstructedAllocation) :
    Except WriterError AllocationHeader := do
  let fileEof ← allocationFileEof allocatedEnd
  return ⟨fileEof, fileEof - amapDataSize, allocation.freeBytes, allocation.firstFreeMap⟩

end Writing

section Reading

/-- Whether a bitmap has the bit of a slot clear; the slots of a byte stand from its highest
bit down. -/
def slotClear (bits : List Nat) (slot : Nat) : Bool :=
  bits[slot / 8]?.any fun byte => !byte.testBit (7 - slot % 8)

def clearSlots (bits : List Nat) : Nat := (List.range slotsPerAMap).countP (slotClear bits)

/-- The allocation maps that are written for a region. -/
def allocationMaps (pages : List MapPage) (index : Nat) : List MapPage :=
  pages.filter fun page => page.kind = .allocationMap ∧ page.offset = regionStart index

/-- The clear bits of all allocation maps. -/
def totalClear (pages : List MapPage) : Nat :=
  ((pages.filter fun page => page.kind = .allocationMap).map fun page => clearSlots page.bits).sum

/-- The region that a place in the file belongs to. -/
def regionOf (offset : Nat) : Nat := (offset - firstAMap) / amapDataSize

/-- Bytes with the regions that they are about, which follow one another. -/
def numbered (first : Nat) (classes : List Nat) : List (Nat × Nat) :=
  (classes.zipIdx first).map Prod.swap

/-- The classes of the regions: those in the header, and those in the free map pages, each of
which is about its own region and those behind. -/
def freeClasses (header : AllocationHeader) (pages : List MapPage) : List (Nat × Nat) :=
  numbered 0 header.firstFreeMap ++
    (pages.filter fun page => page.kind = .freeMap).flatMap fun page =>
      numbered (regionOf page.offset) page.bits

/-- Whether a slot of a region meets a part of the file. -/
def SlotMeets (index slot start size : Nat) : Prop :=
  start < regionStart index + (slot + 1) * slotSize ∧
    regionStart index + slot * slotSize < start + size

/-- The maps, the header and the file agree. -/
structure AllocationAgrees (allocatedEnd : Nat) (extents : List (ExtentRequest × Nat))
    (pages : List MapPage) (header : AllocationHeader) : Prop where
  /-- A bit is clear exactly for the slots at or behind the end of the allocated space. -/
  exact : ∀ index, regionStart index < header.fileEof → ∃ page,
    allocationMaps pages index = [page] ∧ ∀ slot < slotsPerAMap,
      (slotClear page.bits slot = true ↔ allocatedEnd ≤ regionStart index + slot * slotSize)
  /-- No slot that is used by an extent or by a map page is clear. -/
  used : ∀ index, regionStart index < header.fileEof → ∀ page ∈ allocationMaps pages index,
    ∀ slot < slotsPerAMap, ((∃ extent ∈ extents, SlotMeets index slot extent.2 extent.1.size) ∨
      ∃ mapPage ∈ pages, SlotMeets index slot mapPage.offset pageSize) →
    slotClear page.bits slot = false
  freeBytes : header.freeBytes = slotSize * totalClear pages
  /-- There is one class of every region, in the header for the leading ones. -/
  classes : header.firstFreeMap.length = 128 ∧
    ∀ index, regionStart index < header.fileEof → ∀ page ∈ allocationMaps pages index,
      (freeClasses header pages).filter (fun entry => entry.1 = index) =
        [(index, min (clearSlots page.bits) 255)]
  /-- The file ends with the last region. -/
  whole : allocatedEnd ≤ header.fileEof ∧ header.lastAMap + amapDataSize = header.fileEof

end Reading

theorem regionStart_next (index : Nat) :
    regionStart (index + 1) = regionStart index + amapDataSize := by
  unfold regionStart
  rw [Nat.add_mul, Nat.one_mul, Nat.add_assoc]

section Bits

/-- The bit of a slot in a byte that is put together from the bits of its slots. -/
theorem testBit_assembled (p : Nat → Prop) [DecidablePred p] {n slot : Nat} (small : n ≤ 8)
    (inside : slot < 8) :
    ((List.range n).foldl (fun bits bit => if p bit then bits ||| (0x80 >>> bit) else bits)
      0).testBit
      (7 - slot) = decide (slot < n ∧ p slot) := by
  induction n with
  | zero => simp
  | succ n ih =>
      have here : (0x80 >>> n).testBit (7 - slot) = decide (slot = n) := by
        rw [Nat.testBit_shiftRight, show (0x80 : Nat) = 2 ^ 7 from rfl, Nat.testBit_two_pow,
          decide_eq_decide]
        omega
      rw [List.range_succ, List.foldl_concat]
      split
      case isTrue set =>
        rw [Nat.testBit_or, ih (by omega), here, ← Bool.decide_or, decide_eq_decide]
        constructor
        · rintro (⟨less, holds⟩ | rfl)
          · exact ⟨by omega, holds⟩
          · exact ⟨by omega, set⟩
        · rintro ⟨less, holds⟩
          by_cases same : slot = n
          · exact .inr same
          · exact .inl ⟨by omega, holds⟩
      case isFalse unset =>
        rw [ih (by omega), decide_eq_decide]
        constructor
        · rintro ⟨less, holds⟩
          exact ⟨by omega, holds⟩
        · rintro ⟨less, holds⟩
          have other : slot ≠ n := fun same => unset (same ▸ holds)
          exact ⟨by omega, holds⟩

/-- The bitmap has the leading slots set, and the others clear. -/
theorem slotClear_amapBits {allocated slot : Nat} (inside : slot < slotsPerAMap) :
    slotClear (amapBits allocated) slot = decide (allocated ≤ slot) := by
  have byteInside : slot / 8 < 496 := by
    unfold slotsPerAMap at inside
    omega
  unfold slotClear amapBits
  rw [List.getElem?_map, List.getElem?_range byteInside, Option.map_some, Option.any_some,
    testBit_assembled _ (le_refl 8) (Nat.mod_lt _ (by omega)), ← decide_not, decide_eq_decide]
  omega

theorem countP_range_le (n first : Nat) :
    (List.range n).countP (fun slot => decide (first ≤ slot)) = n - first := by
  induction n with
  | zero => simp
  | succ n ih =>
      rw [List.range_succ, List.countP_append, ih, List.countP_singleton]
      split <;> rename_i reached <;> rw [decide_eq_true_iff] at reached <;> omega

theorem clearSlots_amapBits (allocated : Nat) :
    clearSlots (amapBits allocated) = slotsPerAMap - allocated := by
  rw [← countP_range_le]
  unfold clearSlots
  refine List.countP_congr fun slot member => ?_
  rw [slotClear_amapBits (List.mem_range.mp member)]

end Bits

section Regions

theorem ok_bind {ε α β : Type} (value : α) (next : α → Except ε β) :
    (Except.ok value >>= next) = next value := rfl

/-- The slots of a region that are allocated, where everything up to an end is. -/
def allocatedSlots (allocatedEnd index : Nat) : Nat :=
  divCeil (max (min allocatedEnd (regionStart (index + 1))) (regionStart index) - regionStart index)
    slotSize

/-- How many regions a file has. -/
def regionCount (allocatedEnd : Nat) : Nat :=
  max (divCeil (max (allocatedEnd - firstAMap) 1) amapDataSize) 1

/-- What is free in the regions of a file. -/
def freeOf (allocatedEnd : Nat) : List Nat :=
  (List.range (regionCount allocatedEnd)).map fun index =>
    slotsPerAMap - allocatedSlots allocatedEnd index

/-- The map pages of a region. -/
def mapPagesOf (allocatedEnd index : Nat) : List MapPage :=
  let amap : MapPage :=
    ⟨.allocationMap, regionStart index, amapBits (allocatedSlots allocatedEnd index)⟩
  if index % 8 = 0 then
    let fmap : List MapPage :=
      if fmapFirstAMap ≤ index ∧ (index - fmapFirstAMap) % fmapAMapCount = 0 then
        [⟨.freeMap, regionStart index + 2 * pageSize, fmapBits (freeOf allocatedEnd) index⟩]
      else []
    let fpmap : List MapPage :=
      if fpmapFirstAMap ≤ index ∧ (index - fpmapFirstAMap) % fpmapAMapCount = 0 then
        [⟨.freePageMap, regionStart index + (2 + fmap.length) * pageSize, List.replicate 496 0xFF⟩]
      else []
    amap :: ⟨.allocationPageMap, regionStart index + pageSize, List.replicate 496 0xFF⟩ ::
      (fmap ++ fpmap)
  else [amap]

theorem divCeil_le_iff {a b bound : Nat} (positive : 0 < b) : divCeil a b ≤ bound ↔
    a ≤ bound * b := by
  have lower := le_divCeil_mul a positive
  have upper := divCeil_mul_lt a positive
  constructor
  · intro small
    exact lower.trans (Nat.mul_le_mul_right b small)
  · intro small
    by_contra large
    have next := Nat.mul_le_mul_right b (Nat.lt_of_not_le large)
    rw [Nat.succ_mul] at next
    omega

theorem allocatedSlots_le_iff {allocatedEnd index slot : Nat} (inside : slot < slotsPerAMap) :
    allocatedSlots allocatedEnd index ≤ slot ↔ allocatedEnd ≤ regionStart index +
      slot * slotSize := by
  unfold allocatedSlots
  rw [divCeil_le_iff (by decide), regionStart_next]
  simp only [amapDataSize, slotsPerAMap, slotSize] at *
  omega

theorem allocatedSlots_le (allocatedEnd index : Nat) :
    allocatedSlots allocatedEnd index ≤ slotsPerAMap := by
  unfold allocatedSlots
  rw [divCeil_le_iff (by decide), regionStart_next]
  simp only [amapDataSize, slotsPerAMap, slotSize] at *
  omega

theorem regionFreeSlots_ok {allocatedEnd index : Nat}
    (fits : regionStart (index + 1) < wordCount 64) :
    regionFreeSlots allocatedEnd index = .ok (slotsPerAMap - allocatedSlots allocatedEnd
      index) := by
  have slots := allocatedSlots_le allocatedEnd index
  rw [regionStart_next] at fits
  have word : index * amapDataSize ≤ wordCount 64 - 1 := by
    unfold regionStart at fits
    omega
  have exact : saturatingMul 64 index amapDataSize = index * amapDataSize := min_eq_left word
  have start : checkedAdd 64 firstAMap (saturatingMul 64 index amapDataSize) =
      some (regionStart index) := by
    rw [exact]
    exact if_pos (by unfold regionStart at fits; omega)
  have next : checkedAdd 64 (regionStart index) amapDataSize = some (regionStart (index + 1)) := by
    rw [regionStart_next]
    exact if_pos fits
  have narrow : tryFrom 16 (slotsPerAMap - allocatedSlots allocatedEnd index) =
      some (slotsPerAMap - allocatedSlots allocatedEnd index) :=
    if_pos (by simp only [slotsPerAMap, wordCount]; omega)
  unfold regionFreeSlots
  rw [start, okOr_some, ok_bind, next, okOr_some, ok_bind]
  have free : checkedSub slotsPerAMap
      (divCeil (max (min allocatedEnd (regionStart (index + 1))) (regionStart index) -
        regionStart index) slotSize) =
      some (slotsPerAMap - allocatedSlots allocatedEnd index) := if_pos slots
  dsimp only
  rw [free, okOr_some, ok_bind, narrow, okOr_some]

theorem getElem?_freeOf {allocatedEnd index : Nat} (inside : index < regionCount allocatedEnd) :
    (freeOf allocatedEnd)[index]? = some (slotsPerAMap - allocatedSlots allocatedEnd index) := by
  unfold freeOf
  rw [List.getElem?_map, List.getElem?_range inside, Option.map_some]

theorem regionMapPages_ok {allocatedEnd index : Nat} (inside : index < regionCount allocatedEnd)
    (fits : regionStart (index + 1) < wordCount 64) :
    regionMapPages (freeOf allocatedEnd) index = .ok (mapPagesOf allocatedEnd index) := by
  have slots := allocatedSlots_le allocatedEnd index
  rw [regionStart_next] at fits
  have word : index * amapDataSize ≤ wordCount 64 - 1 := by
    unfold regionStart at fits
    omega
  have exact : saturatingMul 64 index amapDataSize = index * amapDataSize := min_eq_left word
  have start : checkedAdd 64 firstAMap (saturatingMul 64 index amapDataSize) =
      some (regionStart index) := by
    rw [exact]
    exact if_pos (by unfold regionStart at fits; omega)
  have used : slotsPerAMap - (slotsPerAMap - allocatedSlots allocatedEnd index) =
      allocatedSlots allocatedEnd index := by omega
  unfold regionMapPages
  rw [start, getElem?_freeOf inside]
  simp only [okOr_some, bind, Except.bind, used]
  unfold mapPagesOf
  split
  · by_cases hasFMap : fmapFirstAMap ≤ index ∧ (index - fmapFirstAMap) % fmapAMapCount = 0
    · simp only [hasFMap, and_self, decide_true, if_true, List.length_singleton, pure, Except.pure]
      have second : regionStart index + pageSize + pageSize = regionStart index + 2 * pageSize := by
        omega
      have third : regionStart index + 2 * pageSize + pageSize =
          regionStart index + (2 + 1) * pageSize := by omega
      rw [second, third]
    · simp only [hasFMap, decide_false, Bool.false_eq_true, if_false, List.length_nil, pure,
        Except.pure]
      have second : regionStart index + pageSize + pageSize =
          regionStart index + (2 + 0) * pageSize := by omega
      rw [second]
  · simp only [pure, Except.pure]

/-- The free bytes are added up without a limit while they fit. -/
theorem freeBytes_ok (free : List Nat) {total : Nat}
    (fits : total + slotSize * free.sum < wordCount 64) :
    free.foldlM (fun total free => okOr (.valueTooLarge "allocation free byte count")
      (checkedAdd 64 total (saturatingMul 64 free slotSize))) total =
      (.ok (total + slotSize * free.sum) : Except WriterError Nat) := by
  induction free generalizing total with
  | nil => rfl
  | cons first rest ih =>
      rw [List.sum_cons, Nat.mul_add] at fits ⊢
      have exact : saturatingMul 64 first slotSize = slotSize * first := by
        rw [Nat.mul_comm slotSize]
        exact min_eq_left (by rw [Nat.mul_comm]; omega)
      have added : checkedAdd 64 total (saturatingMul 64 first slotSize) =
          some (total + slotSize * first) := by
        rw [exact]
        exact if_pos (by omega)
      rw [List.foldlM_cons, added]
      have later := @ih (total + slotSize * first) (by omega)
      rw [Nat.add_assoc] at later
      exact later

theorem sum_freeOf_le (allocatedEnd : Nat) :
    slotSize * (freeOf allocatedEnd).sum ≤ regionCount allocatedEnd * amapDataSize := by
  have each : ∀ free ∈ freeOf allocatedEnd, free ≤ slotsPerAMap := by
    intro free member
    obtain ⟨index, -, rfl⟩ := List.mem_map.mp member
    exact Nat.sub_le _ _
  have total := List.sum_le_card_nsmul _ _ each
  rw [freeOf, List.length_map, List.length_range, ← freeOf, smul_eq_mul] at total
  calc slotSize * (freeOf allocatedEnd).sum
      ≤ slotSize * (regionCount allocatedEnd * slotsPerAMap) := Nat.mul_le_mul_left _ total
    _ = regionCount allocatedEnd * amapDataSize := by unfold amapDataSize; ring

/-- The classes in the header. -/
def headerClasses (allocatedEnd : Nat) : List Nat :=
  let classes := ((freeOf allocatedEnd).take 128).map freeSlotClass
  classes ++ List.replicate (128 - classes.length) 0

theorem amapCount_ok {allocatedEnd : Nat} (above : firstAMap ≤ allocatedEnd) :
    amapCount allocatedEnd = .ok (regionCount allocatedEnd) := by
  have used : checkedSub allocatedEnd firstAMap = some (allocatedEnd - firstAMap) := if_pos above
  simp only [amapCount, used, okOr_some, bind, Except.bind]
  rfl

theorem freeOf_ok {allocatedEnd : Nat}
    (fits : regionStart (regionCount allocatedEnd) < wordCount 64) :
    (List.range (regionCount allocatedEnd)).mapM (regionFreeSlots allocatedEnd) =
      .ok (freeOf allocatedEnd) := by
  refine mapM_ok fun index member => regionFreeSlots_ok (lt_of_le_of_lt ?_ fits)
  unfold regionStart
  exact Nat.add_le_add_left (Nat.mul_le_mul_right _ (List.mem_range.mp member)) _

/-- The map pages and what they say, where the file is no longer than an address reaches. -/
theorem allocationPages_ok {allocatedEnd : Nat} (above : firstAMap ≤ allocatedEnd)
    (fits : regionStart (regionCount allocatedEnd) < wordCount 64) :
    allocationPages allocatedEnd =
      .ok ((List.range (regionCount allocatedEnd)).flatMap (mapPagesOf allocatedEnd),
        ⟨slotSize * (freeOf allocatedEnd).sum, headerClasses allocatedEnd⟩) := by
  have pages : (List.range (regionCount allocatedEnd)).mapM (regionMapPages (freeOf allocatedEnd)) =
      .ok ((List.range (regionCount allocatedEnd)).map (mapPagesOf allocatedEnd)) := by
    refine mapM_ok fun index member => ?_
    have inside := List.mem_range.mp member
    refine regionMapPages_ok inside (lt_of_le_of_lt ?_ fits)
    unfold regionStart
    exact Nat.add_le_add_left (Nat.mul_le_mul_right _ inside) _
  have small := sum_freeOf_le allocatedEnd
  have bytes := @freeBytes_ok (freeOf allocatedEnd) 0 (by unfold regionStart at fits; omega)
  rw [Nat.zero_add] at bytes
  unfold allocationPages
  rw [amapCount_ok above, ok_bind, freeOf_ok fits, ok_bind, pages, ok_bind, bytes, ok_bind]
  rfl

end Regions

section Lookup

/-- Among the parts of a list that belong to numbers, one is told apart by its number. -/
theorem flatMap_range_single {α : Type} (part : List α) (n only : Nat) :
    (List.range n).flatMap (fun index => if index = only then part else []) =
      if only < n then part else [] := by
  induction n with
  | zero => rfl
  | succ n ih =>
      rw [List.range_succ, List.flatMap_append, ih, List.flatMap_singleton]
      by_cases here : n = only
      · subst here
        simp
      · rw [if_neg here, List.append_nil]
        by_cases below : only < n
        · rw [if_pos below, if_pos (by omega)]
        · rw [if_neg below, if_neg (by omega)]

theorem filter_numbered (first index : Nat) (classes : List Nat) :
    (numbered first classes).filter (fun entry => entry.1 = index) =
      if first ≤ index then (classes[index - first]?.toList.map fun value =>
        (index, value)) else [] := by
  induction classes generalizing first with
  | nil => simp [numbered]
  | cons value classes ih =>
      have step : numbered first (value :: classes) =
          (first, value) :: numbered (first + 1) classes := by
        unfold numbered
        rw [List.zipIdx_cons]
        rfl
      rw [step, List.filter_cons, ih]
      by_cases here : first = index
      · subst here
        simp
      · have other : ¬ (decide (first = index) = true) := by simpa using here
        rw [if_neg other]
        by_cases behind : first ≤ index
        · have later : index - first = (index - (first + 1)) + 1 := by omega
          rw [if_pos (by omega), if_pos behind, later, List.getElem?_cons_succ]
        · rw [if_neg (by omega), if_neg behind]

theorem regionStart_inj {index other : Nat} : regionStart index = regionStart other ↔
    index = other := by
  simp only [regionStart, amapDataSize, slotsPerAMap, slotSize]
  omega

variable (allocatedEnd : Nat)

/-- The allocation map of a region. -/
def amapOf (index : Nat) : MapPage :=
  ⟨.allocationMap, regionStart index, amapBits (allocatedSlots allocatedEnd index)⟩

theorem amapOf_bits (index : Nat) :
    (amapOf allocatedEnd index).bits = amapBits (allocatedSlots allocatedEnd index) := rfl

theorem mapPagesOf_allocationMap (index : Nat) :
    (mapPagesOf allocatedEnd index).filter (fun page => page.kind = .allocationMap) =
      [amapOf allocatedEnd index] := by
  unfold mapPagesOf
  split
  · split <;> split <;> rfl
  · rfl

theorem mapPagesOf_freeMap (index : Nat) :
    (mapPagesOf allocatedEnd index).filter (fun page => page.kind = .freeMap) =
      if fmapFirstAMap ≤ index ∧ (index - fmapFirstAMap) % fmapAMapCount = 0 then
        [⟨.freeMap, regionStart index + 2 * pageSize, fmapBits (freeOf allocatedEnd) index⟩]
      else [] := by
  unfold mapPagesOf
  split
  case isTrue => split <;> split <;> rfl
  case isFalse ninth =>
    rw [if_neg]
    · rfl
    · simp only [fmapFirstAMap, fmapAMapCount]
      omega

/-- All map pages of a file. -/
def allPages : List MapPage :=
  (List.range (regionCount allocatedEnd)).flatMap (mapPagesOf allocatedEnd)

theorem allocationMaps_allPages {index : Nat} (inside : index < regionCount allocatedEnd) :
    allocationMaps (allPages allocatedEnd) index = [amapOf allocatedEnd index] := by
  have each : ∀ other, (mapPagesOf allocatedEnd other).filter
      (fun page => page.kind = .allocationMap ∧ page.offset = regionStart index) =
      if other = index then [amapOf allocatedEnd index] else [] := by
    intro other
    have apart : (fun page : MapPage =>
        decide (page.kind = .allocationMap ∧ page.offset = regionStart index)) =
        fun page => decide (page.offset = regionStart index) && decide
          (page.kind = .allocationMap) := by
      funext page
      rw [Bool.and_comm, Bool.decide_and]
    rw [apart, ← List.filter_filter, mapPagesOf_allocationMap, List.filter_singleton]
    simp only [amapOf, regionStart_inj, Bool.cond_decide]
    split
    case isTrue same => rw [same]
    case isFalse => rfl
  unfold allocationMaps allPages
  rw [List.filter_flatMap]
  simp only [each]
  rw [flatMap_range_single, if_pos inside]

theorem totalClear_allPages : totalClear (allPages allocatedEnd) = (freeOf allocatedEnd).sum := by
  have maps : (allPages allocatedEnd).filter (fun page => page.kind = .allocationMap) =
      (List.range (regionCount allocatedEnd)).map (amapOf allocatedEnd) := by
    unfold allPages
    rw [List.filter_flatMap]
    simp only [mapPagesOf_allocationMap]
    exact List.map_eq_flatMap.symm
  unfold totalClear freeOf
  rw [maps, List.map_map]
  refine congrArg List.sum (List.map_congr_left fun index _ => ?_)
  rw [Function.comp_apply, amapOf_bits, clearSlots_amapBits]

theorem getElem?_padded {xs : List Nat} {n index : Nat} (inside : index < xs.length) :
    (xs ++ List.replicate n 0)[index]? = xs[index]? :=
  List.getElem?_append_left inside

/-- The class of a region. -/
def classOf (index : Nat) : Nat := min (clearSlots (amapOf allocatedEnd index).bits) 255

theorem getElem?_classes {index : Nat} (inside : index < regionCount allocatedEnd) :
    ((freeOf allocatedEnd)[index]?).map freeSlotClass = some (classOf allocatedEnd index) := by
  rw [getElem?_freeOf inside, Option.map_some, classOf, amapOf_bits, clearSlots_amapBits]
  rfl

theorem length_headerClasses : (headerClasses allocatedEnd).length = 128 := by
  simp only [headerClasses, List.length_append, List.length_map, List.length_take,
    List.length_replicate]
  omega

theorem length_freeOf : (freeOf allocatedEnd).length = regionCount allocatedEnd := by
  rw [freeOf, List.length_map, List.length_range]

theorem getElem?_headerClasses {index : Nat} (inside : index < regionCount allocatedEnd)
    (leading : index < 128) :
    (headerClasses allocatedEnd)[index]? = some (classOf allocatedEnd index) := by
  unfold headerClasses
  have reach : index < (((freeOf allocatedEnd).take 128).map freeSlotClass).length := by
    rw [List.length_map, List.length_take, length_freeOf]
    omega
  rw [getElem?_padded reach, List.getElem?_map, List.getElem?_take_of_lt leading,
    getElem?_classes _ inside]

theorem getElem?_fmapBits {home index : Nat} (inside : index < regionCount allocatedEnd)
    (above : home ≤ index) (below : index < home + 496) :
    (fmapBits (freeOf allocatedEnd) home)[index - home]? = some (classOf allocatedEnd index) := by
  unfold fmapBits
  have reach : index - home <
      ((((freeOf allocatedEnd).drop home).take 496).map freeSlotClass).length := by
    rw [List.length_map, List.length_take, List.length_drop, length_freeOf]
    omega
  have position : home + (index - home) = index := by omega
  rw [getElem?_padded reach, List.getElem?_map, List.getElem?_take_of_lt (by omega),
    List.getElem?_drop, position, getElem?_classes _ inside]

theorem length_fmapBits (home : Nat) : (fmapBits (freeOf allocatedEnd) home).length = 496 := by
  simp only [fmapBits, List.length_append, List.length_map, List.length_take,
    List.length_replicate, List.length_drop]
  omega

theorem regionOf_inside {index shift : Nat} (small : shift < amapDataSize) :
    regionOf (regionStart index + shift) = index := by
  unfold regionOf regionStart
  have base : firstAMap + index * amapDataSize + shift - firstAMap =
      amapDataSize * index + shift := by
    rw [Nat.mul_comm]
    omega
  rw [base, Nat.mul_add_div (by decide), Nat.div_eq_of_lt small, Nat.add_zero]

/-- The free map pages have the class of a region that is not a leading one at one place. -/
theorem freeMaps_classes {index : Nat} (inside : index < regionCount allocatedEnd) :
    (((allPages allocatedEnd).filter fun page => page.kind = .freeMap).flatMap fun page =>
        numbered (regionOf page.offset) page.bits).filter (fun entry => entry.1 = index) =
      if index < 128 then [] else [(index, classOf allocatedEnd index)] := by
  have home : ∀ other, ((mapPagesOf allocatedEnd other).filter fun page =>
        page.kind = .freeMap).flatMap (fun page =>
          (numbered (regionOf page.offset) page.bits).filter (fun entry => entry.1 = index)) =
      if other = 128 + (index - 128) / 496 * 496 then
        (if index < 128 then [] else [(index, classOf allocatedEnd index)]) else [] := by
    intro other
    rw [mapPagesOf_freeMap]
    by_cases mapped : fmapFirstAMap ≤ other ∧ (other - fmapFirstAMap) % fmapAMapCount = 0
    · rw [if_pos mapped, List.flatMap_singleton, regionOf_inside (by decide), filter_numbered]
      simp only [fmapFirstAMap, fmapAMapCount] at mapped
      by_cases here : other ≤ index ∧ index < other + 496
      · rw [if_pos here.1, getElem?_fmapBits _ inside here.1 here.2, if_pos (by omega),
          if_neg (by omega)]
        rfl
      · have outside : (if other ≤ index then
            ((fmapBits (freeOf allocatedEnd) other)[index - other]?.toList.map
              fun value => (index, value)) else []) = [] := by
          split
          case isTrue above =>
            rw [List.getElem?_eq_none (by rw [length_fmapBits]; omega)]
            rfl
          case isFalse => rfl
        rw [outside]
        split
        case isTrue same => rw [if_pos (by omega)]
        case isFalse => rfl
    · rw [if_neg mapped, List.flatMap_nil, if_neg]
      simp only [fmapFirstAMap, fmapAMapCount] at mapped
      omega
  unfold allPages
  rw [List.filter_flatMap, List.filter_flatMap, List.flatMap_assoc]
  simp only [home]
  rw [flatMap_range_single]
  split
  case isTrue => rfl
  case isFalse far =>
    rw [if_pos]
    omega

end Lookup

section Agreement

variable {allocatedEnd : Nat}

/-- An end within a region, behind its map pages. -/
def WithinRegion (allocatedEnd index : Nat) : Prop :=
  reservedEnd index ≤ allocatedEnd ∧ allocatedEnd ≤ regionStart (index + 1)

theorem WithinRegion.behind {index : Nat} (within : WithinRegion allocatedEnd index) :
    regionStart index < allocatedEnd := by
  have pages := reservedMapPageCount_pos index
  have reached := within.1
  unfold reservedEnd pageSize at reached
  omega

theorem WithinRegion.above {index : Nat} (within : WithinRegion allocatedEnd index) :
    firstAMap ≤ allocatedEnd := by
  have behind := within.behind
  unfold regionStart at behind
  omega

theorem divCeil_region {used index : Nat} (behind : index * amapDataSize < used)
    (below : used ≤ (index + 1) * amapDataSize) : divCeil used amapDataSize = index + 1 := by
  apply le_antisymm
  · exact (divCeil_le_iff (by decide)).mpr below
  · by_contra small
    have few : divCeil used amapDataSize ≤ index := by omega
    have := (divCeil_le_iff (by decide)).mp few
    omega

theorem WithinRegion.count {index : Nat} (within : WithinRegion allocatedEnd index) :
    regionCount allocatedEnd = index + 1 := by
  have behind := within.behind
  have below := within.2
  unfold regionStart at behind below
  have used : max (allocatedEnd - firstAMap) 1 = allocatedEnd - firstAMap := by omega
  unfold regionCount
  rw [used, @divCeil_region (allocatedEnd - firstAMap) index (by omega) (by omega)]
  omega

theorem allocationFileEof_ok {index : Nat} (within : WithinRegion allocatedEnd index)
    (fits : regionStart (index + 1) < wordCount 64) :
    allocationFileEof allocatedEnd = .ok (regionStart (index + 1)) := by
  have behind := within.behind
  have below := within.2
  unfold regionStart at behind below fits
  have used : checkedSub allocatedEnd firstAMap = some (allocatedEnd - firstAMap) :=
    if_pos within.above
  have regions := @divCeil_region (allocatedEnd - firstAMap) index (by omega) (by omega)
  have exact : saturatingMul 64 (max (divCeil (allocatedEnd - firstAMap) amapDataSize) 1)
      amapDataSize = (index + 1) * amapDataSize := by
    rw [regions, max_eq_left (by omega)]
    exact min_eq_left (by omega)
  have added : checkedAdd 64 firstAMap ((index + 1) * amapDataSize) =
      some (regionStart (index + 1)) :=
    if_pos fits
  unfold allocationFileEof
  rw [used, okOr_some, ok_bind, exact, added, okOr_some]

/-- The map pages of a region end with the space that is reserved for them. -/
theorem mapPagesOf_reserved {index : Nat} (inside : index < regionCount allocatedEnd)
    (fits : regionStart (index + 1) < wordCount 64) :
    ∀ page ∈ mapPagesOf allocatedEnd index, page.offset + pageSize ≤ reservedEnd index := by
  intro page member
  have offsets := regionMapPages_offsets (regionMapPages_ok inside fits)
  have offsetMember := List.mem_map_of_mem (f := MapPage.offset) member
  rw [offsets, List.mem_map] at offsetMember
  obtain ⟨position, below, same⟩ := offsetMember
  have pagesFit := Nat.mul_le_mul_right pageSize (List.mem_range.mp below)
  rw [Nat.succ_mul] at pagesFit
  rw [← same, reservedEnd]
  omega

theorem allPages_below {index : Nat} (within : WithinRegion allocatedEnd index)
    (fits : regionStart (index + 1) < wordCount 64) :
    ∀ page ∈ allPages allocatedEnd, page.offset + pageSize ≤ allocatedEnd := by
  intro page member
  obtain ⟨home, inside, member⟩ := List.mem_flatMap.mp member
  have below := List.mem_range.mp inside
  rw [within.count] at below
  have homeFits : regionStart (home + 1) < wordCount 64 := by
    refine lt_of_le_of_lt ?_ fits
    unfold regionStart
    exact Nat.add_le_add_left (Nat.mul_le_mul_right _ below) _
  have reserved := mapPagesOf_reserved (by rw [within.count]; exact below) homeFits page member
  rcases Nat.lt_or_eq_of_le (Nat.le_of_lt_succ below) with earlier | rfl
  · have room := reservedEnd_add_le home (Nat.zero_le 8192)
    have next : regionStart (home + 1) ≤ regionStart index := by
      unfold regionStart
      exact Nat.add_le_add_left (Nat.mul_le_mul_right _ earlier) _
    have behind := within.behind
    omega
  · exact reserved.trans within.1

/-- What is derived from one end of the allocated space agrees. -/
theorem agrees_of_within {index : Nat} (within : WithinRegion allocatedEnd index)
    (fits : regionStart (index + 1) < wordCount 64) {extents : List (ExtentRequest × Nat)}
    (placed : ∀ extent ∈ extents, extent.2 + extent.1.size ≤ allocatedEnd) :
    AllocationAgrees allocatedEnd extents (allPages allocatedEnd)
      ⟨regionStart (index + 1), regionStart (index + 1) - amapDataSize,
        slotSize * (freeOf allocatedEnd).sum, headerClasses allocatedEnd⟩ := by
  have inside : ∀ {other}, regionStart other < regionStart (index + 1) →
      other < regionCount allocatedEnd := by
    intro other below
    rw [within.count]
    by_contra far
    have := Nat.mul_le_mul_right amapDataSize (Nat.le_of_not_lt far)
    unfold regionStart at below
    omega
  have exact : ∀ other slot, slot < slotsPerAMap →
      (slotClear (amapOf allocatedEnd other).bits slot = true ↔
        allocatedEnd ≤ regionStart other + slot * slotSize) := by
    intro other slot slotInside
    rw [amapOf_bits, slotClear_amapBits slotInside, decide_eq_true_iff,
      allocatedSlots_le_iff slotInside]
  refine ⟨fun other below => ?_,
    fun other below page member slot slotInside meets => ?_, ?_, ?_, ?_⟩
  · exact ⟨_, allocationMaps_allPages _ (inside below), exact other⟩
  · rw [allocationMaps_allPages _ (inside below), List.mem_singleton] at member
    subst member
    rw [← Bool.not_eq_true, exact other slot slotInside]
    rcases meets with ⟨extent, known, meets⟩ | ⟨mapPage, known, meets⟩
    · have bound := placed extent known
      have reached := meets.2
      omega
    · have bound := allPages_below within fits mapPage known
      have reached := meets.2
      omega
  · rw [totalClear_allPages]
  · refine ⟨length_headerClasses _, fun other below page member => ?_⟩
    rw [allocationMaps_allPages _ (inside below), List.mem_singleton] at member
    subst member
    unfold freeClasses
    rw [List.filter_append, freeMaps_classes _ (inside below), filter_numbered,
      if_pos (Nat.zero_le _), Nat.sub_zero]
    by_cases leading : other < 128
    · rw [getElem?_headerClasses _ (inside below) leading, if_pos leading]
      rfl
    · rw [List.getElem?_eq_none (by rw [length_headerClasses]; omega), if_neg leading]
      rfl
  · refine ⟨within.2, Nat.sub_add_cancel ?_⟩
    rw [regionStart_next]
    exact Nat.le_add_left _ _

theorem allocateSequence_nil {cursor : Nat} {requests : List ExtentRequest}
    (none : (allocateSequence cursor requests).1 = []) :
    (allocateSequence cursor requests).2 = cursor := by
  induction requests with
  | nil => rfl
  | cons request rest ih =>
      unfold allocateSequence at none ⊢
      cases hallocate : allocateExtent cursor request.size request.alignment with
      | error error =>
          rw [hallocate] at none
          exact ih none
      | ok result =>
          rw [hallocate] at none
          cases none

/-- The cursor behind a sequence of requests is behind all its extents, and within a region
where there are any. -/
theorem allocateSequence_final (requests : List ExtentRequest) :
    ∀ {cursor : Nat}, cursor < wordCount 64 →
      cursor ≤ (allocateSequence cursor requests).2 ∧
      (∀ extent ∈ (allocateSequence cursor requests).1,
        extent.2 + extent.1.size ≤ (allocateSequence cursor requests).2) ∧
      ((allocateSequence cursor requests).1 ≠ [] →
        ∃ index, WithinRegion (allocateSequence cursor requests).2 index) := by
  induction requests with
  | nil => exact fun _ => ⟨le_refl _, List.forall_mem_nil _, fun some => absurd rfl some⟩
  | cons request rest ih =>
      intro cursor word
      unfold allocateSequence
      cases hallocate : allocateExtent cursor request.size request.alignment with
      | error error => exact ih word
      | ok result =>
          obtain ⟨offset, next⟩ := result
          obtain ⟨placement, rfl⟩ := allocateExtent_placement request word hallocate
          obtain ⟨later, below, within⟩ := ih placement.fits
          have reached := placement.after
          refine ⟨by simp only; omega, fun extent member => ?_, fun _ => ?_⟩
          · rcases List.mem_cons.mp member with rfl | member
            · exact later
            · exact below extent member
          · by_cases more : (allocateSequence (offset + request.size) rest).1 = []
            · obtain ⟨index, behind, inside⟩ := placement.inRegion
              have same : (allocateSequence (offset + request.size) rest).2 =
                  offset + request.size :=
                allocateSequence_nil more
              refine ⟨index, ?_⟩
              simp only [WithinRegion, same]
              exact ⟨by omega, inside⟩
            · exact within more

theorem densityListPage_ok {index : Nat} (within : WithinRegion allocatedEnd index)
    (few : regionCount allocatedEnd ≤ wordCount 32) :
    ∃ density, densityListPage (freeOf allocatedEnd) (regionCount allocatedEnd) = .ok density := by
  have positive : 0 < regionCount allocatedEnd := by rw [within.count]; omega
  unfold densityListPage
  split
  · have small : ¬ 0xFFF < slotsPerAMap - allocatedSlots allocatedEnd 0 := by
      unfold slotsPerAMap
      omega
    rw [getElem?_freeOf positive, okOr_some, ok_bind]
    unfold refuse
    rw [if_neg small]
    exact ⟨_, rfl⟩
  · have narrow : tryFrom 32 (regionCount allocatedEnd - 1) = some (regionCount allocatedEnd - 1) :=
      if_pos (by omega)
    rw [narrow]
    exact ⟨_, rfl⟩

/-- The maps are written for a file that has no more regions than the density list can number. -/
theorem writeAllocationPages_ok {index : Nat} (within : WithinRegion allocatedEnd index)
    (fits : regionStart (index + 1) < wordCount 64)
      (few : regionCount allocatedEnd ≤ wordCount 32) :
    ∃ density, writeAllocationPages allocatedEnd = .ok (allPages allocatedEnd, density,
      ⟨slotSize * (freeOf allocatedEnd).sum, headerClasses allocatedEnd⟩) := by
  obtain ⟨density, listed⟩ := densityListPage_ok within few
  rw [← within.count] at fits
  refine ⟨density, ?_⟩
  unfold writeAllocationPages
  rw [allocationPages_ok within.above fits, ok_bind]
  simp only
  rw [amapCount_ok within.above, ok_bind, freeOf_ok fits, ok_bind, listed, ok_bind]
  rfl

/-- For other files they are not. -/
theorem regionCount_of_written {index : Nat} (within : WithinRegion allocatedEnd index)
    {result : List MapPage × DensityListPage × ConstructedAllocation}
    (written : writeAllocationPages allocatedEnd = .ok result) :
    regionCount allocatedEnd ≤ wordCount 32 := by
  simp only [writeAllocationPages, bind_eq_ok] at written
  obtain ⟨⟨_, _⟩, -, count, counted, freeSlots, -, density, listed, -⟩ := written
  rw [amapCount_ok within.above] at counted
  cases counted
  unfold densityListPage at listed
  split at listed
  case isTrue one => rw [one]; decide
  case isFalse =>
    simp only [bind_eq_ok, okOr_eq_ok, tryFrom_eq_some] at listed
    obtain ⟨current, ⟨-, small⟩, -⟩ := listed
    omega

/-- **The allocation maps agree.** Behind any sequence of requests of which one was placed, the
maps and the header are written exactly if the density list can number the regions, and
then they agree with each other and with what was placed. -/
theorem allocateSequence_agrees (requests : List ExtentRequest) {cursor : Nat}
    (word : cursor < wordCount 64) (placed : (allocateSequence cursor requests).1 ≠ []) :
    (regionCount (allocateSequence cursor requests).2 ≤ wordCount 32 →
      ∃ pages density allocation header,
        writeAllocationPages (allocateSequence cursor requests).2 =
          .ok (pages, density, allocation) ∧
        writeHeader (allocateSequence cursor requests).2 allocation = .ok header ∧
        AllocationAgrees (allocateSequence cursor requests).2 (allocateSequence cursor requests).1
          pages header) ∧
    ∀ result, writeAllocationPages (allocateSequence cursor requests).2 = .ok result →
      regionCount (allocateSequence cursor requests).2 ≤ wordCount 32 := by
  obtain ⟨-, below, some⟩ := allocateSequence_final requests word
  obtain ⟨index, within⟩ := some placed
  refine ⟨fun few => ?_, fun result written => regionCount_of_written within written⟩
  have fits : regionStart (index + 1) < wordCount 64 := by
    rw [within.count] at few
    have bytes := Nat.mul_le_mul_right amapDataSize few
    unfold regionStart
    refine lt_of_le_of_lt (Nat.add_le_add_left bytes _) ?_
    decide
  obtain ⟨density, written⟩ := writeAllocationPages_ok within fits few
  refine ⟨_, density, _, _, written, ?_, agrees_of_within within fits below⟩
  unfold writeHeader
  rw [allocationFileEof_ok within fits, ok_bind]
  rfl

def pageRequest : ExtentRequest := ⟨512, 512, by decide, Or.inr rfl⟩

/-- A page at the end of the first region of a fresh file begins a second one. -/
theorem allocateSequence_agrees_second :
    ∃ pages density allocation header,
      writeAllocationPages (allocateSequence (regionStart 1) [pageRequest]).2 =
        .ok (pages, density, allocation) ∧
      writeHeader (allocateSequence (regionStart 1) [pageRequest]).2 allocation = .ok header ∧
      AllocationAgrees (allocateSequence (regionStart 1) [pageRequest]).2
        (allocateSequence (regionStart 1) [pageRequest]).1 pages header :=
  (allocateSequence_agrees [pageRequest] (by decide) (by decide +kernel)).1 (by decide +kernel)

end Agreement

end PstForge.Ndb
