import PstForge.Foundation.Chunks
import PstForge.Foundation.Words
import PstForge.Ltp.PropertyContext

/-! # Heaps read back

How a heap identifier is resolved: its page is found by its number, the page map gives the
offsets of the allocations, and the identifier counts them from one. A tree on the heap is
walked level by level down to its records. The pages that the writer lays out, fills up and
marks with fill levels are read back as the allocations they were made from.
-/

namespace PstForge.Ltp

open PstForge.Foundation PstForge.Ndb

namespace HeapId

/-- The number of the page that an identifier points into. -/
def blockIndex (id : HeapId) : Nat := id.value / 2 ^ 16

/-- The position of the allocation within its page; the identifier counts from one. -/
def index (id : HeapId) : Option Nat := checkedSub (id.value / 2 ^ 5 % 2 ^ 11) 1

end HeapId

section Reading

/-- The signatures that a heap may carry. -/
def heapSignatures : List Nat := [0x6C, 0x7C, 0x8C, 0x9C, 0xA5, 0xAC, 0xB5, 0xBC, 0xCC]

/-- The root that the header of the first page names. -/
def readHeapHeader (page : Bytes) : Option HeapId :=
  let root := leValue ((page.drop 4).take 4)
  if 12 ≤ page.length ∧ page[2]? = some 0xEC ∧ (page[3]?.map (·.toNat)).any (· ∈ heapSignatures) ∧
      root % 32 = 0 then some ⟨root⟩
  else none

/-- Where the map of a page starts, behind a header that fits the page's number. -/
def readMapOffset (pageIndex : Nat) (page : Bytes) : Option Nat := do
  if pageIndex = 0 then
    let _ ← readHeapHeader page
  else if page.length < (if pageIndex % 128 = 8 then 66 else 2) then
    none
  return leValue (page.take 2)

/-- The ranges that a page map describes. Its counts must agree with its offsets. -/
def readPageMap (map : Bytes) : Option (List (Nat × Nat)) :=
  let count := leValue (map.take 2)
  let free := leValue ((map.drop 2).take 2)
  let offsets := words 2 (count + 1) (map.drop 4)
  let ranges := offsets.zip offsets.tail
  if map.length < 4 + (count + 1) * 2 ∨ ranges.any (fun range => range.2 < range.1) ∨
      (ranges.filter fun range => range.1 = range.2).length ≠ free then none
  else some ranges

/-- The bytes of a range of a page. -/
def readRange (page : Bytes) (range : Nat × Nat) : Option Bytes :=
  if range.2 ≤ page.length then some ((page.take range.2).drop range.1) else none

/-- The allocations of a page. -/
def readPage (pageIndex : Nat) (page : Bytes) : Option (List Bytes) := do
  let offset ← readMapOffset pageIndex page
  let ranges ← readPageMap (page.drop offset)
  ranges.mapM (readRange page)

/-- The allocation that an identifier designates. -/
def findEntry (pages : List Bytes) (id : HeapId) : Option Bytes := do
  let allocations ← pages[id.blockIndex]?.bind (readPage id.blockIndex)
  allocations[← id.index]?

/-- The root that the first page of a heap names. -/
def userRoot (pages : List Bytes) : Option HeapId := pages[0]?.bind readHeapHeader

variable (find : HeapId → Option Bytes)

/-- The identifiers in a block of index records, up to one that is none. -/
def nextLevel (keySize : Nat) (content : Bytes) : List HeapId :=
  (((chunks (keySize + 4) content).filter (·.length = keySize + 4)).map fun record =>
    (⟨leValue (record.drop keySize)⟩ : HeapId)).takeWhile (·.value % 32 = 0)

/-- The blocks of records that stand a number of levels below some blocks. -/
def descendTree (keySize : Nat) : (levels : Nat) → List HeapId → Option (List HeapId)
  | 0, ids => some ids
  | levels + 1, ids => do
      let contents ← ids.mapM find
      descendTree keySize levels (contents.flatMap (nextLevel keySize))

/-- The records of the tree whose header stands at an identifier. -/
def readTree (keySize entrySize : Nat) (header : HeapId) : Option (List Bytes) := do
  let bytes ← find header
  let root := leValue ((bytes.drop 4).take 4)
  if bytes.length < 8 ∨ bytes.take 3 ≠
      [UInt8.ofNat HeapNodeType.tree.code, UInt8.ofNat keySize, UInt8.ofNat entrySize] ∨
      root % 32 ≠ 0 then none
  else if root = 0 then some []
  else
    let leaves ← descendTree find keySize ((bytes.drop 3).take 1 |> leValue) [⟨root⟩]
    let contents ← leaves.mapM find
    return contents.flatMap fun content =>
      (chunks (keySize + entrySize) content).filter (·.length = keySize + entrySize)

end Reading

section Layout

/-- The ranges of consecutive allocations. -/
def allocationRanges (start : Nat) (allocations : List Bytes) : List (Nat × Nat) :=
  (allocationOffsets start allocations).zip (allocationOffsets start allocations).tail

variable {start padding : Nat} {header page front back : Bytes} {allocations : List Bytes}

theorem allocationRanges_cons (allocation : Bytes) (rest : List Bytes) :
    allocationRanges start (allocation :: rest) =
      (start, start + allocation.length) :: allocationRanges (start + allocation.length) rest := by
  cases rest <;> rfl

theorem length_allocationOffsets :
    (allocationOffsets start allocations).length = allocations.length + 1 := by
  induction allocations generalizing start with
  | nil => rfl
  | cons allocation rest ih => rw [allocationOffsets, List.length_cons, ih, List.length_cons]

theorem allocationOffsets_le :
    ∀ offset ∈ allocationOffsets start allocations,
      offset ≤ start + allocations.flatten.length := by
  induction allocations generalizing start with
  | nil => simp [allocationOffsets]
  | cons allocation rest ih =>
      intro offset member
      rw [List.flatten_cons, List.length_append]
      rcases List.mem_cons.mp member with rfl | later
      · omega
      · have bound := ih offset later
        omega

/-- The last offset is the end of the allocations. -/
theorem getLast?_allocationOffsets :
    (allocationOffsets start allocations).getLast? = some (start + allocations.flatten.length) := by
  induction allocations generalizing start with
  | nil => rfl
  | cons allocation rest ih =>
      have nonempty : allocationOffsets (start + allocation.length) rest ≠ [] := by
        rw [← List.length_pos_iff, length_allocationOffsets]
        omega
      obtain ⟨first, others, same⟩ := List.exists_cons_of_ne_nil nonempty
      rw [allocationOffsets, same, List.getLast?_cons_cons, ← same, ih, List.flatten_cons,
        List.length_append, Nat.add_assoc]

theorem allocationRanges_ordered :
    (allocationRanges start allocations).any (fun range => range.2 < range.1) = false := by
  induction allocations generalizing start with
  | nil => rfl
  | cons allocation rest ih =>
      rw [allocationRanges_cons, List.any_cons, ih, Bool.or_false, decide_eq_false_iff_not]
      omega

theorem allocationRanges_empty :
    ((allocationRanges start allocations).filter fun range => range.1 = range.2).length =
      (allocations.filter List.isEmpty).length := by
  induction allocations generalizing start with
  | nil => rfl
  | cons allocation rest ih =>
      rw [allocationRanges_cons, List.filter_cons, List.filter_cons]
      cases allocation with
      | nil => simp only [List.length_nil, Nat.add_zero, decide_true, if_true, List.isEmpty_nil,
          List.length_cons, ih]
      | cons byte bytes =>
          have apart : ¬ start = start + (byte :: bytes).length := by
            rw [List.length_cons]
            omega
          simp only [decide_eq_true_eq, if_neg apart, List.isEmpty_cons, Bool.false_eq_true,
            if_false,
            ih]

/-- Each range of a page holds its allocation. -/
theorem allocationRanges_read :
    (allocationRanges front.length allocations).mapM
      (readRange (front ++ allocations.flatten ++ back)) = some allocations := by
  induction allocations generalizing front with
  | nil => rfl
  | cons allocation rest ih =>
      have moved : front ++ (allocation :: rest).flatten ++ back =
          (front ++ allocation) ++ rest.flatten ++ back := by
        rw [List.flatten_cons, List.append_assoc front allocation]
      have length : (front ++ allocation).length = front.length + allocation.length :=
        List.length_append
      have inside : (front ++ allocation).length ≤
          ((front ++ allocation) ++ rest.flatten ++ back).length := by
        rw [List.append_assoc]
        exact (List.prefix_append _ _).length_le
      have here : readRange ((front ++ allocation) ++ rest.flatten ++ back)
          (front.length, (front ++ allocation).length) = some allocation := by
        rw [readRange, if_pos inside, List.append_assoc _ rest.flatten, List.take_left' rfl,
          List.drop_left' rfl]
      rw [allocationRanges_cons, List.mapM_cons, moved, ← length, here, ih]
      rfl

theorem length_pageMap (count free : Nat) (offsets : List Nat) :
    (pageMap count free offsets).length = 4 + offsets.length * 2 := by
  rw [pageMap, List.length_append, List.length_append, length_leBytes, length_leBytes,
    List.length_flatMap, List.map_congr_left fun _ _ => length_leBytes 2 _, List.map_const',
    List.sum_replicate, smul_eq_mul]

/-- The map of some allocations is read as their ranges. -/
theorem readPageMap_pageMap (small : start + allocations.flatten.length < 2 ^ 16)
    (few : allocations.length < 2 ^ 16) :
    readPageMap (pageMap allocations.length (allocations.filter List.isEmpty).length
      (allocationOffsets start allocations)) = some (allocationRanges start allocations) := by
  have fewer : (allocations.filter List.isEmpty).length < 256 ^ 2 :=
    Nat.lt_of_le_of_lt (List.length_filter_le _ _) few
  have count : leValue ((pageMap allocations.length (allocations.filter List.isEmpty).length
      (allocationOffsets start allocations)).take 2) = allocations.length := by
    rw [pageMap, List.append_assoc, List.take_left' (length_leBytes 2 _), leValue_leBytes few]
  have free : leValue (((pageMap allocations.length (allocations.filter List.isEmpty).length
      (allocationOffsets start allocations)).drop 2).take 2) =
        (allocations.filter List.isEmpty).length := by
    rw [pageMap, List.append_assoc, List.drop_left' (length_leBytes 2 _),
      List.take_left' (length_leBytes 2 _), leValue_leBytes fewer]
  have offsets : words 2 (allocations.length + 1) ((pageMap allocations.length
      (allocations.filter List.isEmpty).length (allocationOffsets start allocations)).drop 4) =
        allocationOffsets start allocations := by
    have long : (leBytes 2 allocations.length ++
        leBytes 2 (allocations.filter List.isEmpty).length).length = 4 := by
      rw [List.length_append, length_leBytes, length_leBytes]
    have read := @words_append 2 (allocationOffsets start allocations)
      (fun offset member => Nat.lt_of_le_of_lt (allocationOffsets_le offset member) small) []
    rw [List.append_nil, length_allocationOffsets] at read
    rw [pageMap, List.drop_left' long, read]
  have whole := length_pageMap allocations.length (allocations.filter List.isEmpty).length
    (allocationOffsets start allocations)
  rw [length_allocationOffsets] at whole
  have ordered := @allocationRanges_ordered start allocations
  have empty := @allocationRanges_empty start allocations
  rw [allocationRanges] at ordered empty
  simp only [readPageMap, count, free, offsets, whole, ordered, empty]
  simp [allocationRanges]

/-- A page: the offset of its map, the rest of its header, the allocations, some padding, and
the map. -/
def pageBytes (rest : Bytes) (allocations : List Bytes) (padding : Nat) : Bytes :=
  leBytes 2 (2 + rest.length + allocations.flatten.length + padding) ++ rest ++
    allocations.flatten ++ List.replicate padding 0 ++
      pageMap allocations.length (allocations.filter List.isEmpty).length
        (allocationOffsets (2 + rest.length) allocations)

/-- A page of the heap holds allocations behind a header. -/
structure HoldsPage (rest : Bytes) (allocations : List Bytes) (padding : Nat) (page : Bytes) :
    Prop where
  bytes : page = pageBytes rest allocations padding
  padded : padding ≤ 1
  fits : page.length ≤ maxDataBlockPayload

variable {rest : Bytes}

theorem length_pageBytes : (pageBytes rest allocations padding).length =
    2 + rest.length + allocations.flatten.length + padding +
      (4 + (allocations.length + 1) * 2) := by
  rw [pageBytes, List.length_append, List.length_append, List.length_append, List.length_append,
    length_pageMap, length_allocationOffsets, List.length_replicate, length_leBytes]

theorem HoldsPage.offset (holds : HoldsPage rest allocations padding page) :
    leValue (page.take 2) = 2 + rest.length + allocations.flatten.length + padding := by
  have fits := holds.fits
  rw [holds.bytes, length_pageBytes, maxDataBlockPayload] at fits
  rw [holds.bytes, pageBytes, List.append_assoc, List.append_assoc, List.append_assoc,
    List.take_left' (length_leBytes 2 _), leValue_leBytes (by omega)]

/-- A page in front of its map, and the map. -/
theorem HoldsPage.parts (holds : HoldsPage rest allocations padding page) :
    page.take (leValue (page.take 2)) = leBytes 2 (leValue (page.take 2)) ++ rest ++
        allocations.flatten ++ List.replicate padding 0 ∧
      page.drop (leValue (page.take 2)) = pageMap allocations.length
        (allocations.filter List.isEmpty).length (allocationOffsets
          (2 + rest.length) allocations) := by
  have length : (leBytes 2 (2 + rest.length + allocations.flatten.length + padding) ++ rest ++
      allocations.flatten ++ List.replicate padding 0).length =
        2 + rest.length + allocations.flatten.length + padding := by
    rw [List.length_append, List.length_append, List.length_append, List.length_replicate,
      length_leBytes]
  rw [holds.offset, holds.bytes, pageBytes]
  exact ⟨List.take_left' length, List.drop_left' length⟩

/-- A page is read as what it holds, when its header fits its number. -/
theorem HoldsPage.reads (holds : HoldsPage rest allocations padding page) {pageIndex : Nat}
    (kind : readMapOffset pageIndex page = some (leValue (page.take 2))) :
    readPage pageIndex page = some allocations := by
  have fits := holds.fits
  rw [holds.bytes, length_pageBytes, maxDataBlockPayload] at fits
  have ranges := (@readPageMap_pageMap (2 + rest.length) allocations)
    (by omega) (by omega)
  have header : (leBytes 2 (2 + rest.length + allocations.flatten.length + padding) ++
    rest).length =
      2 + rest.length := by
    rw [List.length_append, length_leBytes]
  have read := @allocationRanges_read
    (leBytes 2 (2 + rest.length + allocations.flatten.length + padding) ++ rest)
    (List.replicate padding 0 ++ pageMap allocations.length
      (allocations.filter List.isEmpty).length (allocationOffsets (2 + rest.length) allocations))
        allocations
  rw [header, ← List.append_assoc, ← pageBytes, ← holds.bytes] at read
  simp only [readPage, kind, holds.parts.2, ranges, read, Option.bind_eq_bind, Option.bind_some]

end Layout

section Pages

/-- The rest of a header that fits a page of the given number. -/
def HeaderRest (pageIndex : Nat) (rest : Bytes) : Prop :=
  if pageIndex = 0 then
    ∃ (kind : HeapNodeType) (levels : Bytes), levels.length = 4 ∧
      rest = [0xEC, UInt8.ofNat kind.code] ++ leBytes 4 32 ++ levels
  else rest.length = if pageIndex % 128 = 8 then 64 else 0

/-- A page that stands at a place of the heap. -/
def PageAt (pageIndex : Nat) (allocations : List Bytes) (page : Bytes) : Prop :=
  ∃ rest padding, HeaderRest pageIndex rest ∧ HoldsPage rest allocations padding page

variable {pageIndex : Nat} {allocations : List Bytes} {page : Bytes}

theorem readHeapHeader_first {kind : HeapNodeType} {levels tail : Bytes} (four : levels.length = 4)
    (offset : Nat) :
    readHeapHeader (leBytes 2 offset ++ ([0xEC, UInt8.ofNat kind.code] ++ leBytes 4 32 ++ levels) ++
      tail) = some ⟨32⟩ := by
  obtain ⟨a, b, c, d, rfl⟩ : ∃ a b c d, levels = [a, b, c, d] := by
    match levels, four with
    | [a, b, c, d], _ => exact ⟨a, b, c, d, rfl⟩
  cases kind <;> simp [readHeapHeader, leBytes, leValue, HeapNodeType.code, heapSignatures]

/-- The map of a page is found behind a header that fits the page's number. -/
theorem HoldsPage.located {rest : Bytes} {padding : Nat}
    (holds : HoldsPage rest allocations padding page) (fits : HeaderRest pageIndex rest) :
    readMapOffset pageIndex page = some (leValue (page.take 2)) := by
  have length := @length_pageBytes padding allocations rest
  rw [← holds.bytes] at length
  unfold HeaderRest at fits
  unfold readMapOffset
  by_cases first : pageIndex = 0
  · rw [if_pos first] at fits
    obtain ⟨kind, levels, four, rfl⟩ := fits
    have root : readHeapHeader page = some ⟨32⟩ := by
      rw [holds.bytes, pageBytes, List.append_assoc, List.append_assoc]
      exact readHeapHeader_first four _
    simp only [if_pos first, root]
    rfl
  · rw [if_neg first] at fits
    have long : ¬ page.length < (if pageIndex % 128 = 8 then 66 else 2) := by
      rw [length, fits]
      split <;> omega
    simp only [if_neg first, if_neg long]
    rfl

/-- A page at its place is read as the allocations it holds. -/
theorem PageAt.reads (holds : PageAt pageIndex allocations page) :
    readPage pageIndex page = some allocations := by
  obtain ⟨rest, padding, fits, holds⟩ := holds
  exact holds.reads (holds.located fits)

theorem PageAt.root (holds : PageAt 0 allocations page) : readHeapHeader page = some ⟨32⟩ := by
  obtain ⟨rest, padding, fits, holds⟩ := holds
  obtain ⟨kind, levels, four, rfl⟩ := fits
  rw [holds.bytes, pageBytes, List.append_assoc, List.append_assoc]
  exact readHeapHeader_first four _

theorem alignUp_two {value : Nat} (small : value < 2 ^ 16) :
    value ≤ alignUp value 2 ∧ alignUp value 2 ≤ value + 1 := by
  have fits : divCeil value 2 * 2 < wordCount 64 := by
    rw [divCeil, wordCount]
    omega
  rw [alignUp, Nat.mod_eq_of_lt fits, divCeil]
  omega

theorem length_heapNodeHeader (offset : Nat) (kind : HeapNodeType) (root : HeapId)
    (levels : List Nat) : (heapNodeHeader offset kind root levels).length = 12 := by
  simp [heapNodeHeader]

theorem length_heapNodeBitmapHeader (offset : Nat) (levels : List Nat) :
    (heapNodeBitmapHeader offset levels).length = 66 := by
  simp [heapNodeBitmapHeader]

/-- A header, allocations and padding up to an even offset are a page. -/
theorem holdsPage_aligned {rest header : Bytes} {size : Nat} (sized : 2 + rest.length = size)
    (headed : header = leBytes 2 (alignUp (size + allocations.flatten.length) 2) ++ rest)
    (small : (header ++ allocations.flatten).length < 2 ^ 16)
    (fits : alignUp (size + allocations.flatten.length) 2 + (4 + (allocations.length + 1) * 2) ≤
      maxDataBlockPayload) :
    HoldsPage rest allocations (alignUp (size + allocations.flatten.length) 2 -
        (header ++ allocations.flatten).length)
      (header ++ allocations.flatten ++ List.replicate
        (alignUp (size + allocations.flatten.length) 2 -
          (header ++ allocations.flatten).length) 0 ++
        pageMap allocations.length (allocations.filter List.isEmpty).length
          (allocationOffsets header.length allocations)) := by
  have long : header.length = size := by
    rw [headed, List.length_append, length_leBytes, sized]
  have whole : (header ++ allocations.flatten).length = size + allocations.flatten.length := by
    rw [List.length_append, long]
  rw [whole] at small
  obtain ⟨above, below⟩ := alignUp_two small
  have same : header ++ allocations.flatten ++ List.replicate
        (alignUp (size + allocations.flatten.length) 2 -
          (header ++ allocations.flatten).length) 0 ++
        pageMap allocations.length (allocations.filter List.isEmpty).length
          (allocationOffsets header.length allocations) =
      pageBytes rest allocations (alignUp (size + allocations.flatten.length) 2 -
        (header ++ allocations.flatten).length) := by
    rw [pageBytes, long, whole, sized, Nat.add_sub_cancel' above, ← headed]
  refine ⟨same, ?_, ?_⟩
  · rw [whole]
    omega
  · rw [same, length_pageBytes, whole, sized]
    omega

/-- The first page of a heap. -/
theorem heapPage_pageAt {kind : HeapNodeType} (hpage : heapPage kind allocations = .ok page) :
    PageAt 0 allocations page := by
  simp only [heapPage, bind_eq_ok, refuse_eq_ok, okOr_eq_ok, checkedAdd_eq_some,
    tryFrom_eq_some, ← List.length_flatten] at hpage
  obtain ⟨_, ⟨rfl, -⟩, _, fits, root, hroot, _, ⟨-, small⟩, hpage⟩ := hpage
  obtain rfl : root = ⟨32⟩ := by
    cases hroot
    rfl
  cases hpage
  have headed : heapNodeHeader (alignUp (12 + allocations.flatten.length) 2) kind ⟨32⟩ [] =
      leBytes 2 (alignUp (12 + allocations.flatten.length) 2) ++
        ([0xEC, UInt8.ofNat kind.code] ++ leBytes 4 32 ++ leBytes 4 (packFillLevels [])) := by
    simp [heapNodeHeader]
  exact ⟨_, _, ⟨kind, _, length_leBytes 4 _, rfl⟩,
    holdsPage_aligned (by simp) headed small (Nat.not_lt.mp fits)⟩

/-- A later page of a heap, all of whose allocations are taken. -/
theorem heapContinuationPage_pageAt (later : pageIndex ≠ 0)
    (taken : ∀ allocation ∈ allocations, allocation ≠ [])
    (hpage : heapContinuationPageAllocations pageIndex allocations = .ok page) :
    PageAt pageIndex allocations page := by
  have none : (allocations.filter List.isEmpty).length = 0 := by
    rw [List.length_eq_zero_iff, List.filter_eq_nil_iff]
    exact fun allocation member empty => taken allocation member (List.isEmpty_iff.mp empty)
  simp only [heapContinuationPageAllocations, bind_eq_ok, refuse_eq_ok, okOr_eq_ok,
    checkedAdd_eq_some, tryFrom_eq_some, decide_eq_true_eq, ← List.length_flatten] at hpage
  obtain ⟨_, ⟨rfl, -⟩, _, fits, _, ⟨-, small⟩, hpage⟩ := hpage
  rw [← none] at hpage
  by_cases bitmap : pageIndex % 128 = 8
  · simp only [if_pos bitmap] at fits small hpage
    cases hpage
    have rest : ((heapNodeBitmapHeader (alignUp (66 + allocations.flatten.length) 2) []).drop
        2).length = 64 := by
      rw [List.length_drop, length_heapNodeBitmapHeader]
    have headed : heapNodeBitmapHeader (alignUp (66 + allocations.flatten.length) 2) [] =
        leBytes 2 (alignUp (66 + allocations.flatten.length) 2) ++
          (heapNodeBitmapHeader (alignUp (66 + allocations.flatten.length) 2) []).drop 2 := by
      rw [heapNodeBitmapHeader, List.drop_left' (length_leBytes 2 _)]
    refine ⟨_, _, ?_, holdsPage_aligned (by rw [rest]) headed small ?_⟩
    · rw [HeaderRest, if_neg later, if_pos bitmap, rest]
    · rw [Nat.add_comm 4]
      exact Nat.not_lt.mp fits
  · simp only [if_neg bitmap] at fits small hpage
    cases hpage
    refine ⟨[], _, ?_, holdsPage_aligned rfl (List.append_nil _).symm small ?_⟩
    · rw [HeaderRest, if_neg later, if_neg bitmap, List.length_nil]
    · rw [Nat.add_comm 4]
      exact Nat.not_lt.mp fits

end Pages

section Filling

variable {rest page page' : Bytes} {allocations pads : List Bytes} {padding start : Nat}

/-- How far the padding of a page reaches. -/
theorem paddingPlan_ok {mapSize allocationEnd : Nat} : ∀ {fuel first count offset size : Nat},
    paddingPlan mapSize allocationEnd fuel first = .ok (count, offset, size) → 0 < first →
      0 < count ∧ offset + (mapSize + count * 2) = maxDataBlockPayload ∧
        offset = allocationEnd + size ∧ count ≤ size ∧ size ≤ count * maxHeapAllocation := by
  intro fuel
  induction fuel with
  | zero =>
      intro first count offset size hplan
      cases hplan
  | succ fuel ih =>
      intro first count offset size hplan positive
      simp only [paddingPlan, bind_eq_ok, okOr_eq_ok, checkedSub_eq_some, refuse_eq_ok] at hplan
      obtain ⟨_, ⟨rfl, within⟩, _, ⟨rfl, behind⟩, _, room, hplan⟩ := hplan
      split at hplan
      · cases hplan
        omega
      · exact ih hplan (Nat.succ_pos first)

/-- Padding as allocations of zeros: each is within the limit, and none is empty while there is
a byte for each. -/
theorem paddingOffsets_ok {count : Nat} : ∀ {start remaining final left : Nat} {offsets : List Nat},
    paddingOffsets count start remaining = .ok (offsets, final, left) → count ≤ remaining →
      ∃ pads : List Bytes, allocationOffsets start pads = start :: offsets ∧ pads.length = count ∧
        final = start + pads.flatten.length ∧
        pads.flatten = List.replicate pads.flatten.length 0 ∧
        ∀ pad ∈ pads, pad ≠ [] ∧ pad.length ≤ maxHeapAllocation := by
  induction count with
  | zero =>
      intro start remaining final left offsets hoffsets _
      cases hoffsets
      exact ⟨[], rfl, rfl, rfl, rfl, fun _ member => absurd member List.not_mem_nil⟩
  | succ count ih =>
      intro start remaining final left offsets hoffsets enough
      simp only [paddingOffsets, bind_eq_ok, okOr_eq_ok, tryFrom_eq_some] at hoffsets
      obtain ⟨_, ⟨rfl, -⟩, ⟨others, last, unused⟩, hrest, hpure⟩ := hoffsets
      cases hpure
      generalize size : min (remaining - count) maxHeapAllocation = width at hrest
      have positive : 0 < width := by
        rw [← size, maxHeapAllocation]
        omega
      have limit : width ≤ maxHeapAllocation := size ▸ Nat.min_le_right _ _
      have atMost : width ≤ remaining - count := size ▸ Nat.min_le_left _ _
      obtain ⟨pads, same, length, ended, zeros, each⟩ := ih hrest (by omega)
      have own : (List.replicate width (0 : UInt8)).length = width := List.length_replicate
      refine ⟨List.replicate width 0 :: pads, ?_, ?_, ?_, ?_, ?_⟩
      · rw [allocationOffsets, own, same]
      · rw [List.length_cons, length]
      · rw [List.flatten_cons, List.length_append, own, ended, Nat.add_assoc]
      · rw [List.flatten_cons, List.length_append, own, ← List.replicate_append_replicate, ← zeros]
      · intro pad member
        rcases List.mem_cons.mp member with rfl | later
        · refine ⟨?_, own.le.trans limit⟩
          rw [← List.length_pos_iff, own]
          exact positive
        · exact each pad later

theorem allocationOffsets_append :
    allocationOffsets start (allocations ++ pads) = allocationOffsets start allocations ++
      (allocationOffsets (start + allocations.flatten.length) pads).tail := by
  induction allocations generalizing start with
  | nil =>
      cases pads <;> simp [allocationOffsets]
  | cons allocation others ih =>
      rw [List.cons_append, allocationOffsets, allocationOffsets, ih, List.flatten_cons,
        List.length_append, Nat.add_assoc, List.cons_append]

/-- The last offset of a page map is read at its end. -/
theorem pageMap_ending {count free last : Nat} {offsets : List Nat}
    (ended : offsets.getLast? = some last) (small : last < 2 ^ 16) :
    leValue ((pageMap count free offsets).drop ((pageMap count free offsets).length - 2)) =
      last := by
  obtain ⟨others, rfl⟩ := List.getLast?_eq_some_iff.mp ended
  have split : pageMap count free (others ++ [last]) =
      (leBytes 2 count ++ leBytes 2 free ++ others.flatMap (leBytes 2)) ++ leBytes 2 last := by
    rw [pageMap, List.flatMap_append, List.flatMap_singleton,
      List.append_assoc _ _ (leBytes 2 last)]
  have length : (leBytes 2 count ++ leBytes 2 free ++ others.flatMap (leBytes 2)).length =
      (pageMap count free (others ++ [last])).length - 2 := by
    rw [split, @List.length_append _ _ (leBytes 2 last), length_leBytes, Nat.add_sub_cancel]
  rw [← length, split, List.drop_left' rfl, leValue_leBytes small]

/-- The first bytes overwritten by as many others. -/
theorem length_patchBytes {target value : Bytes} {offset : Nat}
    (inside : offset + value.length ≤ target.length) :
    (patchBytes target offset value).length = target.length := by
  rw [patchBytes, List.length_append, List.length_append, List.length_take, List.length_drop]
  omega

theorem patchBytes_front {front front' back : Bytes} (same : front.length = front'.length) :
    patchBytes (front ++ back) 0 front' = front' ++ back := by
  rw [patchBytes, List.take_zero, List.nil_append, Nat.zero_add, ← same, List.drop_left' rfl]

/-- Filling a page up adds allocations within the limit behind those it holds, and none when the
page is full already. -/
theorem HoldsPage.filled (holds : HoldsPage rest allocations padding page)
    (hfill : fillHeapPage page = .ok page') :
    ∃ pads padding', HoldsPage rest (allocations ++ pads) padding' page' ∧
      page'.length = maxDataBlockPayload ∧
      (page.length < maxDataBlockPayload → padding' = 0) ∧
      ∀ pad ∈ pads, pad ≠ [] ∧ pad.length ≤ maxHeapAllocation := by
  unfold fillHeapPage at hfill
  split at hfill
  · rename_i large
    split at hfill
    · rename_i full
      cases hfill
      refine ⟨[], padding, ?_, full, fun less => absurd large (Nat.not_le.mpr less),
        fun _ member => absurd member List.not_mem_nil⟩
      rw [List.append_nil]
      exact holds
    · cases hfill
  · have fits := holds.fits
    rw [holds.bytes, length_pageBytes, maxDataBlockPayload] at fits
    obtain ⟨body, map⟩ := holds.parts
    have offset := holds.offset
    have count : leValue ((page.drop (leValue (page.take 2))).take 2) = allocations.length := by
      rw [map, pageMap, List.append_assoc, List.take_left' (length_leBytes 2 _),
        leValue_leBytes (by omega)]
    have mapLength := length_pageMap allocations.length (allocations.filter List.isEmpty).length
      (allocationOffsets (2 + rest.length) allocations)
    rw [length_allocationOffsets] at mapLength
    have ending : leValue ((page.drop (leValue (page.take 2))).drop
        ((page.drop (leValue (page.take 2))).length - 2)) =
          2 + rest.length + allocations.flatten.length := by
      rw [map]
      exact pageMap_ending getLast?_allocationOffsets (by omega)
    simp only [bind_eq_ok, refuse_eq_ok, okOr_eq_ok, checkedAdd_eq_some, tryFrom_eq_some, count,
      ending] at hfill
    obtain ⟨_, -, _, -, _, -, _, -, ⟨added, _, size⟩, hplan, _, ⟨rfl, -⟩,
      ⟨offsets, final, left⟩, hoffsets, _, closed, target, ⟨rfl, -⟩, hpure⟩ := hfill
    obtain ⟨positive, whole, behind, enough, -⟩ := paddingPlan_ok hplan Nat.one_pos
    obtain ⟨pads, same, length, ended, zeros, each⟩ := paddingOffsets_ok hoffsets enough
    have reached : final = target := by
      by_contra other
      exact closed (.inr other)
    have padded := holds.padded
    rw [map, mapLength, maxDataBlockPayload] at whole
    have taken : pads.filter List.isEmpty = [] := by
      rw [List.filter_eq_nil_iff]
      exact fun pad member empty => (each pad member).1 (List.isEmpty_iff.mp empty)
    have bodyLength : (page.take (leValue (page.take 2))).length =
        2 + rest.length + allocations.flatten.length + padding := by
      rw [body, List.length_append, List.length_append, List.length_append, List.length_replicate,
        length_leBytes]
    have zeroed : List.replicate padding (0 : UInt8) ++
        List.replicate (target - (2 + rest.length + allocations.flatten.length + padding)) 0 =
          pads.flatten := by
      rw [List.replicate_append_replicate, zeros]
      congr 1
      omega
    have moved : allocationOffsets (2 + rest.length) (allocations ++ pads) =
        allocationOffsets (2 + rest.length) allocations ++ offsets := by
      rw [allocationOffsets_append, same, List.tail_cons]
    have mapped : patchBytes (page.drop (leValue (page.take 2))) 0
        (leBytes 2 (allocations.length + added)) ++ offsets.flatMap (leBytes 2) =
          pageMap (allocations ++ pads).length ((allocations ++ pads).filter List.isEmpty).length
            (allocationOffsets (2 + rest.length) (allocations ++ pads)) := by
      rw [map, pageMap, List.append_assoc, patchBytes_front (by rw [length_leBytes,
        length_leBytes]),
        List.filter_append, taken, List.append_nil, List.length_append, length, moved, pageMap,
        List.flatMap_append]
      simp only [List.append_assoc]
    have total : 2 + rest.length + (allocations ++ pads).flatten.length + 0 = target := by
      rw [List.flatten_append, List.length_append]
      omega
    have bytes : page' = pageBytes rest (allocations ++ pads) 0 := by
      cases hpure
      rw [mapped, bodyLength, List.take_of_length_le (by rw [bodyLength]; omega), body, pageBytes,
        total, List.flatten_append, ← zeroed]
      simp only [List.append_assoc, List.replicate_zero, List.nil_append]
      exact patchBytes_front ((length_leBytes 2 _).trans (length_leBytes 2 _).symm)
    have exact' : page'.length = maxDataBlockPayload := by
      rw [bytes, length_pageBytes, total, List.length_append, length, maxDataBlockPayload]
      omega
    exact ⟨pads, 0, ⟨bytes, Nat.zero_le 1, exact'.le⟩, exact', fun _ => rfl, each⟩

end Filling

section Levels

variable {rest page : Bytes} {allocations : List Bytes} {padding pageIndex : Nat}

/-- The rest of the header of a page replaced by as many bytes. -/
theorem HoldsPage.reheaded (holds : HoldsPage rest allocations padding page) {rest' : Bytes}
    (same : rest'.length = rest.length) :
    HoldsPage rest' allocations padding
      (leBytes 2 (leValue (page.take 2)) ++ rest' ++ page.drop (2 + rest.length)) := by
  have front : (leBytes 2 (2 + rest.length + allocations.flatten.length + padding) ++ rest).length =
      2 + rest.length := by
    rw [List.length_append, length_leBytes]
  have bytes : leBytes 2 (leValue (page.take 2)) ++ rest' ++ page.drop (2 + rest.length) =
      pageBytes rest' allocations padding := by
    rw [holds.offset, holds.bytes, pageBytes, pageBytes, same,
      List.append_assoc _ allocations.flatten,
      List.append_assoc _ (allocations.flatten ++ _), List.drop_left' front]
    simp only [List.append_assoc]
  have fits := holds.fits
  rw [holds.bytes, length_pageBytes] at fits
  refine ⟨bytes, holds.padded, ?_⟩
  rw [bytes, length_pageBytes, same]
  exact fits

/-- A page cut behind its header. -/
theorem HoldsPage.split (holds : HoldsPage rest allocations padding page) :
    page = leBytes 2 (leValue (page.take 2)) ++ rest ++ page.drop (2 + rest.length) :=
  holds.bytes.trans (holds.reheaded rfl).bytes.symm

theorem patchBytes_middle {front old new back : Bytes} (same : old.length = new.length) :
    patchBytes (front ++ old ++ back) front.length new = front ++ new ++ back := by
  have before : (front ++ old ++ back).take front.length = front := by
    rw [List.append_assoc, List.take_left' rfl]
  rw [patchBytes, before, ← same, ← List.length_append, List.drop_left' rfl]

/-- The fill levels in the header of the first page leave its allocations alone. -/
theorem PageAt.marked (holds : PageAt 0 allocations page) {levels : Bytes}
    (four : levels.length = 4) : PageAt 0 allocations (patchBytes page 8 levels) := by
  obtain ⟨rest, padding, ⟨kind, old, oldFour, rfl⟩, holds⟩ := holds
  have moved := (@HoldsPage.reheaded _ _ _ _ holds
    ([0xEC, UInt8.ofNat kind.code] ++ leBytes 4 32 ++ levels)) (by simp only [List.length_append,
      four, oldFour])
  have patched : patchBytes page 8 levels = leBytes 2 (leValue (page.take 2)) ++
      ([0xEC, UInt8.ofNat kind.code] ++ leBytes 4 32 ++ levels) ++
        page.drop (2 + ([0xEC, UInt8.ofNat kind.code] ++ leBytes 4 32 ++ old).length) := by
    have whole := holds.split
    generalize page.drop (2 + ([0xEC, UInt8.ofNat kind.code] ++ leBytes 4 32 ++ old).length) = back
      at *
    generalize leValue (page.take 2) = offset at *
    have front : (leBytes 2 offset ++ ([0xEC, UInt8.ofNat kind.code] ++ leBytes 4 32)).length =
        8 := by
      simp
    rw [← List.append_assoc] at whole
    rw [whole, ← front, patchBytes_middle (oldFour.trans four.symm), List.append_assoc _ _ levels]
  refine ⟨_, padding, ⟨kind, levels, four, rfl⟩, ?_⟩
  rw [patched]
  exact moved

/-- The bitmap of fill levels in a later page leaves its allocations alone. -/
theorem PageAt.bitmap (holds : PageAt pageIndex allocations page) (later : pageIndex ≠ 0)
    (bitmap : pageIndex % 128 = 8) (levels : List Nat) : PageAt pageIndex allocations
      (patchBytes page 0 (heapNodeBitmapHeader (leValue (page.take 2)) levels)) := by
  obtain ⟨rest, padding, fits, holds⟩ := holds
  rw [HeaderRest, if_neg later, if_pos bitmap] at fits
  have length := length_heapNodeBitmapHeader (leValue (page.take 2)) levels
  have headed : heapNodeBitmapHeader (leValue (page.take 2)) levels =
      leBytes 2 (leValue (page.take 2)) ++
        (heapNodeBitmapHeader (leValue (page.take 2)) levels).drop 2 := by
    rw [heapNodeBitmapHeader, List.drop_left' (length_leBytes 2 _)]
  have rest' : ((heapNodeBitmapHeader (leValue (page.take 2)) levels).drop 2).length = 64 := by
    rw [List.length_drop, length]
  have moved := holds.reheaded (rest'.trans fits.symm)
  rw [← headed] at moved
  have patched : patchBytes page 0 (heapNodeBitmapHeader (leValue (page.take 2)) levels) =
      heapNodeBitmapHeader (leValue (page.take 2)) levels ++ page.drop (2 + rest.length) := by
    have whole := holds.split
    generalize heapNodeBitmapHeader (leValue (page.take 2)) levels = header at *
    generalize page.drop (2 + rest.length) = back at *
    rw [whole, patchBytes_front (by rw [List.length_append, length_leBytes, fits, length])]
  refine ⟨_, padding, ?_, patched ▸ moved⟩
  rw [HeaderRest, if_neg later, if_pos bitmap, rest']

end Levels

section Heaps

/-- Pages that stand one after another from a number on, with what they hold. -/
def HeapFrom : (first : Nat) → List Bytes → List (List Bytes) → Prop
  | _, [], [] => True
  | first, page :: pages, allocations :: contents =>
      PageAt first allocations page ∧ HeapFrom (first + 1) pages contents
  | _, _, _ => False

/-- Allocations followed by padding within the limit. -/
def Padded (allocations padded : List Bytes) : Prop :=
  ∃ pads, padded = allocations ++ pads ∧ ∀ pad ∈ pads, pad.length ≤ maxHeapAllocation

variable {first : Nat} {pages pages' : List Bytes} {contents : List (List Bytes)}

theorem HeapFrom.reads (holds : HeapFrom first pages contents) (index : Nat) :
    pages[index]?.bind (readPage (first + index)) = contents[index]? := by
  induction pages generalizing first contents index with
  | nil =>
      cases contents with
      | nil => rfl
      | cons => exact holds.elim
  | cons page pages ih =>
      cases contents with
      | nil => exact holds.elim
      | cons allocations contents =>
          cases index with
          | zero => exact holds.1.reads
          | succ index =>
              have next : first + (index + 1) = first + 1 + index := by omega
              rw [List.getElem?_cons_succ, List.getElem?_cons_succ, next]
              exact ih holds.2 index

theorem continuationPages_heapFrom {pageAllocations : List (List Bytes)} {start : Nat}
    (taken : ∀ allocations ∈ pageAllocations, ∀ allocation ∈ allocations, allocation ≠ [])
    (hpages : ((pageAllocations.zipIdx start).mapM fun (allocations, index) => do
      let pageIndex ← okOr (WriterError.valueTooLarge "heap page index") (tryFrom 16 (index + 1))
      heapContinuationPageAllocations pageIndex allocations) = .ok pages) :
    HeapFrom (start + 1) pages pageAllocations := by
  induction pageAllocations generalizing start pages with
  | nil =>
      cases hpages
      trivial
  | cons allocations others ih =>
      rw [List.zipIdx_cons, List.mapM_cons] at hpages
      simp only [bind_eq_ok, okOr_eq_ok, tryFrom_eq_some] at hpages
      obtain ⟨page, ⟨_, ⟨rfl, -⟩, hpage⟩, rest, hrest, hpure⟩ := hpages
      cases hpure
      have here := heapContinuationPage_pageAt (Nat.succ_ne_zero start)
        (taken allocations List.mem_cons_self) hpage
      refine ⟨here, ih (fun other member => taken other (List.mem_cons_of_mem _ member)) ?_⟩
      simpa only [bind_eq_ok] using hrest

/-- All pages but the last one filled up. -/
theorem HeapFrom.filled {last : Bytes} {filled : List Bytes}
    (holds : HeapFrom first (pages ++ [last]) contents)
    (hfilled : pages.mapM fillHeapPage = .ok filled) :
    ∃ contents', HeapFrom first (filled ++ [last]) contents' ∧
      List.Forall₂ Padded contents contents' := by
  have same (allocations : List Bytes) : Padded allocations allocations :=
    ⟨[], (List.append_nil _).symm, fun _ member => absurd member List.not_mem_nil⟩
  induction pages generalizing first contents filled with
  | nil =>
      cases hfilled
      exact ⟨contents, holds, List.forall₂_same.mpr fun allocations _ => same allocations⟩
  | cons page pages ih =>
      cases contents with
      | nil => exact holds.elim
      | cons allocations contents =>
          rw [List.mapM_cons] at hfilled
          simp only [bind_eq_ok] at hfilled
          obtain ⟨page', hfill, others, hothers, hpure⟩ := hfilled
          cases hpure
          obtain ⟨⟨rest, padding, fits, here⟩, later⟩ := holds
          obtain ⟨pads, padding', here', -, -, each⟩ := here.filled hfill
          obtain ⟨contents', later', padded⟩ := ih later hothers
          refine ⟨(allocations ++ pads) :: contents', ⟨⟨rest, padding', fits, here'⟩, later'⟩, ?_⟩
          exact .cons ⟨pads, rfl, fun pad member => (each pad member).2⟩ padded

/-- The fill levels leave what a heap holds alone. -/
theorem HeapFrom.bitmaps {levels : List Nat} {start : Nat} {rest : List Bytes} :
    ∀ {contents : List (List Bytes)}, HeapFrom (start + 1) rest contents →
      HeapFrom (start + 1) ((rest.zipIdx start).map fun (page, position) =>
        let index := position + 1
        if 8 ≤ index ∧ (index - 8) % 128 = 0 then
          patchBytes page 0 (heapNodeBitmapHeader (leValue (page.take 2)) (levels.drop index))
        else page) contents := by
  induction rest generalizing start with
  | nil => exact fun holds => holds
  | cons page rest ih =>
      intro contents holds
      cases contents with
      | nil => exact holds.elim
      | cons allocations contents =>
          rw [List.zipIdx_cons, List.map_cons]
          refine ⟨?_, ih holds.2⟩
          dsimp only
          split
          · exact holds.1.bitmap (Nat.succ_ne_zero start) (by omega) _
          · exact holds.1

theorem HeapFrom.updated (holds : HeapFrom 0 pages contents)
    (hupdate : updateHeapFillLevels pages = .ok pages') : HeapFrom 0 pages' contents := by
  unfold updateHeapFillLevels at hupdate
  obtain ⟨levels, -, hupdate⟩ := bind_eq_ok.mp hupdate
  cases pages with
  | nil => cases hupdate
  | cons root rest =>
      cases hupdate
      cases contents with
      | nil => exact holds.elim
      | cons allocations contents =>
          exact ⟨holds.1.marked (length_leBytes 4 _), holds.2.bitmaps⟩

/-- The pages of a finished heap hold what was put on them, followed by padding. -/
theorem finishHeapPages_heapFrom {root : Bytes} {rootAllocations : List Bytes}
    {pageAllocations : List (List Bytes)} (headed : PageAt 0 rootAllocations root)
    (taken : ∀ allocations ∈ pageAllocations, ∀ allocation ∈ allocations, allocation ≠ [])
    (hfinish : finishHeapPages root pageAllocations = .ok pages) :
    ∃ contents, HeapFrom 0 pages contents ∧
      List.Forall₂ Padded (rootAllocations :: pageAllocations) contents := by
  simp only [finishHeapPages, bind_eq_ok] at hfinish
  obtain ⟨rest, hrest, filled, hfilled, hupdate⟩ := hfinish
  have later : HeapFrom 1 rest pageAllocations :=
    continuationPages_heapFrom taken (by simpa only [bind_eq_ok] using hrest)
  have whole : HeapFrom 0 (root :: rest) (rootAllocations :: pageAllocations) := ⟨headed, later⟩
  have nonempty : root :: rest ≠ [] := List.cons_ne_nil _ _
  have cut := List.dropLast_append_getLast nonempty
  rw [List.getLast?_eq_some_getLast nonempty, Option.toList_some] at hupdate
  rw [← cut] at whole
  obtain ⟨contents, holds, padded⟩ := whole.filled hfilled
  exact ⟨contents, holds.updated hupdate, padded⟩

end Heaps

end PstForge.Ltp
