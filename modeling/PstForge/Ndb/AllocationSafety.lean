import PstForge.Ndb.Allocation

/-! # Allocated extents never meet a map page

The allocator and the map writer find the map pages of a region by two different
computations. `Placement` states what one allocation guarantees: the extent is
aligned, starts at or behind the cursor and lies inside one region, behind the
map pages that `reservedMapPageCount` reserves there. The map writer is
described by `regionMapPages_offset`: its pages fill exactly that reserved head
of their region. Disjointness of every extent from every map page follows, for
one request and then along every sequence of requests.
-/

namespace PstForge.Ndb

open PstForge.Foundation

/-- The offset at which a region starts. -/
def regionStart (index : Nat) : Nat := firstAMap + index * amapDataSize

/-- The offset behind the map pages of a region. -/
def reservedEnd (index : Nat) : Nat := regionStart index + reservedMapPageCount index * pageSize

/-- What placing an extent at an offset guarantees. -/
structure Placement (cursor size alignment offset : Nat) : Prop where
  aligned : offset % alignment = 0
  after : cursor ≤ offset
  inRegion : ∃ index, reservedEnd index ≤ offset ∧ offset + size ≤ regionStart (index + 1)
  fits : offset + size < wordCount 64

/-- A request the writer makes: at most one block, aligned to a slot or a page. -/
structure ExtentRequest where
  size : Nat
  alignment : Nat
  size_le : size ≤ 8192
  alignment_eq : alignment = 64 ∨ alignment = 512
  deriving DecidableEq

theorem ExtentRequest.alignment_pos (request : ExtentRequest) : 0 < request.alignment := by
  rcases request.alignment_eq with slot | page <;> omega

theorem ExtentRequest.alignment_dvd (request : ExtentRequest) : request.alignment ∣ 512 := by
  rcases request.alignment_eq with slot | page
  · rw [slot]; decide
  · rw [page]

theorem reservedMapPageCount_pos (index : Nat) : 0 < reservedMapPageCount index := by
  unfold reservedMapPageCount
  split <;> omega

theorem reservedMapPageCount_le (index : Nat) : reservedMapPageCount index ≤ 4 := by
  unfold reservedMapPageCount
  split
  · split <;> split <;> omega
  · omega

private theorem regionStart_succ (index : Nat) :
    regionStart (index + 1) = regionStart index + amapDataSize := by
  unfold regionStart
  ring

/-- The region that holds the start of a region is that region. -/
theorem regionStart_index (index : Nat) :
    (regionStart index - firstAMap) / amapDataSize = index := by
  have positive : 0 < amapDataSize := by simp only [amapDataSize, slotsPerAMap, slotSize]; omega
  rw [regionStart, Nat.add_sub_cancel_left, Nat.mul_div_cancel _ positive]

/-- The head that the map pages reserve leaves room for any extent the writer requests. -/
theorem reservedEnd_add_le (index : Nat) {size : Nat} (small : size ≤ 8192) :
    reservedEnd index + size ≤ regionStart (index + 1) := by
  have pages := reservedMapPageCount_le index
  rw [regionStart_succ]
  simp only [reservedEnd, pageSize, amapDataSize, slotsPerAMap, slotSize]
  omega

private theorem regionStart_mod (index alignment : Nat) (divides : alignment ∣ 512) :
    regionStart index % alignment = 0 := by
  apply Nat.mod_eq_zero_of_dvd
  refine dvd_trans divides ?_
  simp only [regionStart, firstAMap, amapDataSize, slotsPerAMap, slotSize]
  omega

private theorem reservedEnd_mod (index alignment : Nat) (divides : alignment ∣ 512) :
    reservedEnd index % alignment = 0 := by
  apply Nat.mod_eq_zero_of_dvd
  refine dvd_trans divides ?_
  simp only [reservedEnd, regionStart, firstAMap, amapDataSize, slotsPerAMap, slotSize, pageSize]
  omega

/-- Rounding up an aligned offset that fits a word leaves it alone. -/
theorem alignUp_of_mod {value alignment : Nat} (positive : 0 < alignment)
    (aligned : value % alignment = 0) (fits : value < wordCount 64) :
    alignUp value alignment = value := by
  have lower := le_divCeil_mul value positive
  have upper := divCeil_mul_lt value positive
  obtain ⟨quotient, rfl⟩ := Nat.dvd_of_mod_eq_zero aligned
  have same : divCeil (alignment * quotient) alignment = quotient := by
    unfold divCeil
    rw [Nat.add_sub_assoc positive, Nat.mul_add_div positive,
      Nat.div_eq_of_lt (by omega), Nat.add_zero]
  rw [alignUp, same, Nat.mul_comm, Nat.mod_eq_of_lt fits]

/-- Rounding up to a power of two below a word gives an aligned offset. -/
theorem alignUp_mod (value : Nat) {alignment : Nat} (divides : alignment ∣ wordCount 64) :
    alignUp value alignment % alignment = 0 := by
  rw [alignUp, Nat.mod_mod_of_dvd _ divides, Nat.mul_mod_left]

/-- Rounding up either reaches the value or wraps to the start of the file. -/
theorem alignUp_ge_or_zero {value alignment : Nat} (positive : 0 < alignment)
    (divides : alignment ∣ wordCount 64) (fits : value < wordCount 64) :
    value ≤ alignUp value alignment ∨ alignUp value alignment = 0 := by
  have lower := le_divCeil_mul value positive
  have upper := divCeil_mul_lt value positive
  by_cases small : divCeil value alignment * alignment < wordCount 64
  · left
    rwa [alignUp, Nat.mod_eq_of_lt small]
  · right
    -- a multiple of the alignment that reaches the word count, and is less than
    -- one alignment beyond a word, is the word count itself
    obtain ⟨quotient, total⟩ := divides
    have reach : quotient ≤ divCeil value alignment := by
      by_contra less
      have := Nat.mul_lt_mul_of_pos_left (Nat.lt_of_not_le less) positive
      rw [← total, Nat.mul_comm] at this
      omega
    have stop : divCeil value alignment ≤ quotient := by
      by_contra more
      have next : quotient + 1 ≤ divCeil value alignment := Nat.lt_of_not_le more
      have := Nat.mul_le_mul_left alignment next
      rw [Nat.mul_comm alignment (divCeil _ _), Nat.mul_add, ← total] at this
      omega
    have : divCeil value alignment = quotient := le_antisymm stop reach
    rw [alignUp, this, Nat.mul_comm, ← total, Nat.mod_self]

private theorem saturatingMul_of_fits {a b base : Nat}
    (fits : base + saturatingMul 64 a b < wordCount 64) (positive : 0 < base) :
    saturatingMul 64 a b = a * b := by
  unfold saturatingMul at fits ⊢
  omega

/-- One turn of the loop: an extent is placed behind the map
pages of its region, or the next turn starts at the following region. -/
theorem allocateTurn_cases {size alignment offset : Nat} {turn : AllocationTurn}
    (positive : 0 < alignment) (divides : alignment ∣ 512)
    (hturn : allocateTurn size alignment offset = .ok turn) :
    firstAMap ≤ offset ∧ ∃ index, index = (offset - firstAMap) / amapDataSize ∧
      regionStart (index + 1) < wordCount 64 ∧
      ((∃ placed, turn = .placed placed ∧ placed = max offset (reservedEnd index) ∧
          placed + size ≤ regionStart (index + 1)) ∨
        (turn = .retry (regionStart (index + 1)) ∧
          regionStart (index + 1) < max offset (reservedEnd index) + size)) := by
  simp only [allocateTurn, bind_eq_ok, okOr_eq_ok, checkedSub_eq_some, checkedAdd_eq_some,
    pure, Except.pure, Except.ok.injEq] at hturn
  obtain ⟨base, ⟨baseEq, above⟩, start, ⟨startEq, startFits⟩, reserved, ⟨reservedEq, reservedFits⟩,
    extentEnd, ⟨endEq, endFits⟩, regionEnd, ⟨regionEq, regionFits⟩, turnEq⟩ := hturn
  subst startEq reservedEq endEq regionEq turnEq
  refine ⟨above, base / amapDataSize, by rw [baseEq], ?_⟩
  generalize base / amapDataSize = index at *
  have startExact := saturatingMul_of_fits startFits (by simp only [firstAMap]; omega)
  rw [startExact] at reservedFits endFits regionFits ⊢
  have reservedExact := saturatingMul_of_fits reservedFits (by simp only [firstAMap]; omega)
  rw [reservedExact] at reservedFits endFits ⊢
  rw [← regionStart, ← regionStart_succ] at regionFits
  rw [← regionStart, ← reservedEnd] at reservedFits ⊢
  have placedEq : (if offset < reservedEnd index then alignUp (reservedEnd index) alignment
      else offset) = max offset (reservedEnd index) := by
    rw [alignUp_of_mod positive (reservedEnd_mod _ _ divides) reservedFits]
    split <;> omega
  refine ⟨regionFits, ?_⟩
  rw [placedEq, regionStart_succ]
  split
  · exact Or.inl ⟨_, rfl, rfl, by assumption⟩
  · exact Or.inr ⟨rfl, by omega⟩

private theorem allocateLoop_of_error {size alignment offset : Nat} {error : WriterError}
    (hturn : allocateTurn size alignment offset = .error error) (turns : Nat) :
    allocateLoop size alignment (turns + 1) offset = some (.error error) := by
  rw [allocateLoop, hturn]

private theorem allocateLoop_of_placed {size alignment offset placed : Nat}
    (hturn : allocateTurn size alignment offset = .ok (.placed placed)) (turns : Nat) :
    allocateLoop size alignment (turns + 1) offset = some (.ok placed) := by
  rw [allocateLoop, hturn]

private theorem allocateLoop_of_retry {size alignment offset next : Nat}
    (hturn : allocateTurn size alignment offset = .ok (.retry next)) (turns : Nat) :
    allocateLoop size alignment (turns + 1) offset = allocateLoop size alignment turns next := by
  rw [allocateLoop, hturn]

/-- Whatever the loop places, within any number of turns, is a placement. -/
theorem allocateLoop_placement {size alignment : Nat} (positive : 0 < alignment)
    (divides : alignment ∣ 512) :
    ∀ {turns offset placed : Nat}, offset % alignment = 0 →
      allocateLoop size alignment turns offset = some (.ok placed) →
      Placement offset size alignment placed := by
  intro turns
  induction turns with
  | zero => intro offset placed _ hloop; simp [allocateLoop] at hloop
  | succ turns ih =>
      intro offset placed aligned hloop
      unfold allocateLoop at hloop
      cases hturn : allocateTurn size alignment offset with
      | error error => simp [hturn] at hloop
      | ok turn =>
          obtain ⟨above, index, indexEq, word, ⟨place, rfl, placeEq, fits⟩ | ⟨rfl, overflow⟩⟩ :=
            allocateTurn_cases positive divides hturn
          · simp only [hturn, Option.some.injEq, Except.ok.injEq] at hloop
            subst hloop
            refine ⟨?_, by omega, ⟨index, by omega, fits⟩, by omega⟩
            rcases max_choice offset (reservedEnd index) with largest | largest
            · rw [placeEq, largest, aligned]
            · rw [placeEq, largest, reservedEnd_mod _ _ divides]
          · simp only [hturn] at hloop
            have later := ih (regionStart_mod _ _ divides) hloop
            have passed : offset < regionStart (index + 1) := by
              have rest := Nat.mod_lt (offset - firstAMap)
                (show 0 < amapDataSize by decide)
              have division := Nat.div_add_mod (offset - firstAMap) amapDataSize
              rw [regionStart_succ, regionStart, indexEq, Nat.mul_comm _ amapDataSize]
              omega
            exact ⟨later.aligned, by have := later.after; omega, later.inRegion, later.fits⟩

/-- Two turns decide every request: the
second turn starts at a region boundary, where any extent fits behind the maps. -/
theorem allocateLoop_two_turns (request : ExtentRequest) (offset : Nat) :
    ∃ outcome, ∀ turns,
      allocateLoop request.size request.alignment (turns + 2) offset = some outcome := by
  have positive := request.alignment_pos
  have divides := request.alignment_dvd
  cases first : allocateTurn request.size request.alignment offset with
  | error error => exact ⟨.error error, fun turns => allocateLoop_of_error first (turns + 1)⟩
  | ok turn =>
      obtain ⟨above, index, indexEq, word, ⟨place, rfl, placeEq, fits⟩ | ⟨rfl, overflow⟩⟩ :=
        allocateTurn_cases positive divides first
      · exact ⟨.ok place, fun turns => allocateLoop_of_placed first (turns + 1)⟩
      · have moved := fun turns => allocateLoop_of_retry first (turns + 1)
        cases second : allocateTurn request.size request.alignment (regionStart (index + 1)) with
        | error error =>
            exact ⟨.error error, fun turns => (moved turns).trans
              (allocateLoop_of_error second turns)⟩
        | ok turn =>
            obtain ⟨_, next, nextEq, _, ⟨place, rfl, placeEq, fits⟩ | ⟨rfl, overflow⟩⟩ :=
              allocateTurn_cases positive divides second
            · exact ⟨.ok place, fun turns => (moved turns).trans
                (allocateLoop_of_placed second turns)⟩
            · rw [regionStart_index] at nextEq
              have room := reservedEnd_add_le next request.size_le
              have start : regionStart next ≤ reservedEnd next := Nat.le_add_right _ _
              rw [← nextEq, max_eq_right start] at overflow
              omega

/-- Place a sequence of requests, each from the cursor its predecessors left; a
failing request leaves the cursor where it was. -/
def allocateSequence : Nat → List ExtentRequest → List (ExtentRequest × Nat) × Nat
  | cursor, [] => ([], cursor)
  | cursor, request :: rest =>
      match allocateExtent cursor request.size request.alignment with
      | .ok (offset, next) =>
          let (extents, final) := allocateSequence next rest
          ((request, offset) :: extents, final)
      | .error _ => allocateSequence cursor rest

/-- A successful allocation places the extent and leaves the cursor behind it. -/
theorem allocateExtent_placement (request : ExtentRequest) {cursor offset next : Nat}
    (word : cursor < wordCount 64)
    (hallocate : allocateExtent cursor request.size request.alignment = .ok (offset, next)) :
    Placement cursor request.size request.alignment offset ∧ next = offset + request.size := by
  have wordDivides : request.alignment ∣ wordCount 64 :=
    request.alignment_dvd.trans (by simp only [wordCount]; omega)
  unfold allocateExtent at hallocate
  split at hallocate
  · rename_i place hloop
    simp only [Except.ok.injEq, Prod.mk.injEq] at hallocate
    obtain ⟨rfl, rfl⟩ := hallocate
    have placement := allocateLoop_placement request.alignment_pos request.alignment_dvd
      (alignUp_mod cursor wordDivides) hloop
    refine ⟨⟨placement.aligned, ?_, placement.inRegion, placement.fits⟩, rfl⟩
    rcases alignUp_ge_or_zero request.alignment_pos wordDivides word with reached | wrapped
    · exact reached.trans placement.after
    · -- a cursor that wraps to the start of the file is refused by the first turn
      rw [wrapped] at hloop
      simp [allocateLoop, allocateTurn, allocationTurnLimit, checkedSub, firstAMap, bind,
        Except.bind] at hloop
  · cases hallocate
  · cases hallocate

/-- Below half of the words no turn of the loop overflows. -/
private theorem allocateTurn_runs {size alignment offset : Nat} (small : size ≤ 8192)
    (positive : 0 < alignment) (divides : alignment ∣ 512) (above : firstAMap ≤ offset)
    (low : offset ≤ 2 ^ 63) : ∃ turn, allocateTurn size alignment offset = .ok turn := by
  obtain ⟨index, indexEq⟩ : ∃ index, (offset - firstAMap) / amapDataSize = index := ⟨_, rfl⟩
  have region : index * amapDataSize ≤ offset - firstAMap := by
    rw [← indexEq]
    exact Nat.div_mul_le_self _ _
  have pages := reservedMapPageCount_le index
  have start : saturatingMul 64 index amapDataSize = index * amapDataSize := by
    simp only [saturatingMul, wordCount, firstAMap, amapDataSize, slotsPerAMap, slotSize] at *
    omega
  have reserved : saturatingMul 64 (reservedMapPageCount index) pageSize =
      reservedMapPageCount index * pageSize := by
    simp only [saturatingMul, wordCount, pageSize]
    omega
  have aligned := alignUp_of_mod positive (reservedEnd_mod index alignment divides)
  have bounds : regionStart index + reservedMapPageCount index * pageSize + 8192 +
      amapDataSize < wordCount 64 := by
    simp only [wordCount, regionStart, firstAMap, pageSize, amapDataSize, slotsPerAMap,
      slotSize] at *
    omega
  rw [reservedEnd] at aligned
  have added : ∀ {a b : Nat} (error : WriterError), a + b < wordCount 64 →
      okOr error (checkedAdd 64 a b) = .ok (a + b) := fun error fits =>
    okOr_eq_ok.mpr (checkedAdd_eq_some.mpr ⟨rfl, fits⟩)
  have base : okOr (WriterError.invalidStructure "allocation before first AMap")
      (checkedSub offset firstAMap) = .ok (offset - firstAMap) :=
    okOr_eq_ok.mpr (checkedSub_eq_some.mpr ⟨rfl, above⟩)
  obtain ⟨place, placeEq⟩ : ∃ place, (if offset < regionStart index +
      reservedMapPageCount index * pageSize then regionStart index +
        reservedMapPageCount index * pageSize else offset) = place := ⟨_, rfl⟩
  have placed : place + size < wordCount 64 := by
    rw [← placeEq]
    simp only [wordCount] at *
    split <;> omega
  have named : firstAMap + index * amapDataSize = regionStart index := rfl
  refine ⟨if place + size ≤ regionStart index + amapDataSize then .placed place
    else .retry (regionStart index + amapDataSize), ?_⟩
  rw [allocateTurn]
  refine bind_eq_ok.mpr ⟨_, base, ?_⟩
  dsimp only
  rw [indexEq, start, reserved]
  refine bind_eq_ok.mpr ⟨_, added _ (by rw [named]; omega), ?_⟩
  rw [named]
  refine bind_eq_ok.mpr ⟨_, added _ (by omega), ?_⟩
  rw [aligned (by omega), placeEq]
  refine bind_eq_ok.mpr ⟨_, added _ placed, ?_⟩
  exact bind_eq_ok.mpr ⟨_, added _ (by omega), rfl⟩

/-- Below half of the words the loop ends within two turns, not far behind the offset. -/
private theorem allocateLoop_runs (request : ExtentRequest) {start : Nat}
    (above : firstAMap ≤ start) (low : start ≤ 2 ^ 62 + 512) (turns : Nat) :
    ∃ place, allocateLoop request.size request.alignment (turns + 2) start = some (.ok place) ∧
      start ≤ place ∧ place ≤ start + 10240 := by
  have positive := request.alignment_pos
  have divides := request.alignment_dvd
  have small := request.size_le
  have maps : ∀ index, reservedEnd index ≤ regionStart index + 2048 := by
    intro index
    have pages := reservedMapPageCount_le index
    simp only [reservedEnd, pageSize]
    omega
  obtain ⟨turn, first⟩ := allocateTurn_runs small positive divides above (by omega)
  obtain ⟨after, index, indexEq, word, ⟨place, rfl, placeEq, fits⟩ | ⟨rfl, overflow⟩⟩ :=
    allocateTurn_cases positive divides first
  · have inRegion : regionStart index ≤ start := by
      have division := Nat.div_mul_le_self (start - firstAMap) amapDataSize
      rw [regionStart, indexEq]
      omega
    have near := maps index
    exact ⟨place, allocateLoop_of_placed first (turns + 1), by omega, by omega⟩
  · have room := reservedEnd_add_le index small
    have nearby : regionStart (index + 1) ≤ start + 8192 := by omega
    have further : start ≤ regionStart (index + 1) := by
      have rest := Nat.mod_lt (start - firstAMap) (show 0 < amapDataSize by decide)
      have division := Nat.div_add_mod (start - firstAMap) amapDataSize
      rw [regionStart_succ, regionStart, indexEq, Nat.mul_comm _ amapDataSize]
      omega
    have moved := allocateLoop_of_retry first (turns + 1)
    obtain ⟨turn, second⟩ := allocateTurn_runs small positive divides (above.trans further)
      (by omega)
    obtain ⟨_, next, nextEq, _, ⟨place, rfl, placeEq, fits⟩ | ⟨rfl, again⟩⟩ :=
      allocateTurn_cases positive divides second
    · rw [regionStart_index] at nextEq
      have near := maps next
      have same : regionStart next = regionStart (index + 1) := by rw [nextEq]
      generalize regionStart (index + 1) = boundary at *
      exact ⟨place, moved.trans (allocateLoop_of_placed second turns), by omega, by omega⟩
    · rw [regionStart_index] at nextEq
      have later := reservedEnd_add_le next small
      have behind : regionStart next ≤ reservedEnd next := Nat.le_add_right _ _
      subst nextEq
      rw [max_eq_right behind] at again
      omega

/-- Below half of the words an extent is placed, not far behind the cursor. -/
theorem allocateExtent_runs (request : ExtentRequest) {cursor : Nat} (above : firstAMap ≤ cursor)
    (low : cursor ≤ 2 ^ 62) :
    ∃ offset next, allocateExtent cursor request.size request.alignment = .ok (offset, next) ∧
      cursor ≤ next ∧ next ≤ cursor + 20480 := by
  have positive := request.alignment_pos
  have small := request.size_le
  have bound : request.alignment ≤ 512 := Nat.le_of_dvd (by decide) request.alignment_dvd
  have lower := le_divCeil_mul cursor positive
  have upper := divCeil_mul_lt cursor positive
  have exactly : alignUp cursor request.alignment =
      divCeil cursor request.alignment * request.alignment := by
    rw [alignUp]
    exact Nat.mod_eq_of_lt (by simp only [wordCount]; omega)
  rw [← exactly] at lower upper
  have turns : allocationTurnLimit - 2 + 2 = allocationTurnLimit := by
    have enough : 1 ≤ wordCount 64 / amapDataSize := by decide +kernel
    rw [allocationTurnLimit]
    omega
  obtain ⟨place, placed, behind, near⟩ := allocateLoop_runs request (above.trans lower)
    (by omega) (allocationTurnLimit - 2)
  rw [turns] at placed
  refine ⟨place, place + request.size, ?_, by omega, by omega⟩
  rw [allocateExtent, placed]

private theorem map_range_offsets (start page : Nat) :
    (List.range 2).map (start + · * page) = [start, start + page] ∧
    (List.range 3).map (start + · * page) = [start, start + page, start + page + page] ∧
    (List.range 4).map (start + · * page) =
      [start, start + page, start + page + page, start + page + page + page] := by
  have second : start + page + page = start + 2 * page := by omega
  have third : start + page + page + page = start + 3 * page := by omega
  rw [third, second]
  simp [List.range_succ]

/-- The map pages of a region fill, page by page, the head that the allocator
reserves there. -/
theorem regionMapPages_offsets {freeSlots : List Nat} {index : Nat} {pages : List MapPage}
    (hpages : regionMapPages freeSlots index = .ok pages) :
    pages.map MapPage.offset =
      (List.range (reservedMapPageCount index)).map (regionStart index + · * pageSize) := by
  simp only [regionMapPages, bind_eq_ok, okOr_eq_ok, checkedAdd_eq_some] at hpages
  obtain ⟨start, ⟨startEq, startFits⟩, free, -, hpages⟩ := hpages
  have startExact := saturatingMul_of_fits startFits (by simp only [firstAMap]; omega)
  rw [startExact, ← regionStart] at startEq
  subst startEq
  obtain ⟨two, three, four⟩ := map_range_offsets (regionStart index) pageSize
  unfold reservedMapPageCount
  by_cases everyEighth : index % 8 = 0
  · rw [if_pos everyEighth] at hpages ⊢
    -- the two optional pages are placed in the order the reservation counts them
    by_cases hasFMap : fmapFirstAMap ≤ index ∧ (index - fmapFirstAMap) % fmapAMapCount = 0 <;>
      by_cases hasFPMap : fpmapFirstAMap ≤ index ∧
          (index - fpmapFirstAMap) % fpmapAMapCount = 0 <;>
      simp only [hasFMap, hasFPMap, decide_true, decide_false, if_true, if_false, and_self,
        Bool.false_eq_true, pure, Except.pure, Except.ok.injEq] at hpages ⊢ <;>
      subst hpages
    · exact four.symm
    · exact three.symm
    · exact three.symm
    · exact two.symm
  · rw [if_neg everyEighth] at hpages ⊢
    simp only [pure, Except.pure, Except.ok.injEq] at hpages
    subst hpages
    simp

/-- Every page written for a file lies in the reserved head of some region. -/
theorem allocationPages_reserved {allocatedEnd : Nat} {pages : List MapPage}
    {allocation : ConstructedAllocation}
    (hpages : allocationPages allocatedEnd = .ok (pages, allocation)) :
    ∀ page ∈ pages, ∃ index, regionStart index ≤ page.offset ∧
      page.offset + pageSize ≤ reservedEnd index := by
  simp only [allocationPages, bind_eq_ok] at hpages
  obtain ⟨count, -, freeSlots, -, regions, hregions, freeBytes, -, hpages⟩ := hpages
  simp only [pure, Except.pure, Except.ok.injEq, Prod.mk.injEq] at hpages
  obtain ⟨rfl, -⟩ := hpages
  intro page member
  obtain ⟨regionPages, regionMember, member⟩ := List.mem_flatten.mp member
  obtain ⟨index, -, hregion⟩ := exists_of_mem_mapM_ok hregions regionMember
  have offsetMember := List.mem_map_of_mem (f := MapPage.offset) member
  rw [regionMapPages_offsets hregion, List.mem_map] at offsetMember
  obtain ⟨position, inside, offsetEq⟩ := offsetMember
  have below : position + 1 ≤ reservedMapPageCount index := List.mem_range.mp inside
  have pagesFit := Nat.mul_le_mul_right pageSize below
  refine ⟨index, by omega, ?_⟩
  rw [reservedEnd, ← offsetEq]
  rw [Nat.add_mul, Nat.one_mul] at pagesFit
  omega

/-- An extent behind the map pages of its region and a page in the head of any
region do not meet. -/
theorem Placement.disjoint_reserved {cursor size alignment offset pageOffset index : Nat}
    (placement : Placement cursor size alignment offset)
    (above : regionStart index ≤ pageOffset) (below : pageOffset + pageSize ≤ reservedEnd index) :
    offset + size ≤ pageOffset ∨ pageOffset + pageSize ≤ offset := by
  obtain ⟨home, behind, inside⟩ := placement.inRegion
  rcases Nat.lt_trichotomy home index with before | rfl | after
  · left
    have next : regionStart (home + 1) ≤ regionStart index := by
      simp only [regionStart, Nat.add_le_add_iff_left]
      exact Nat.mul_le_mul_right _ before
    omega
  · right
    omega
  · right
    have next : regionStart (index + 1) ≤ regionStart home := by
      simp only [regionStart, Nat.add_le_add_iff_left]
      exact Nat.mul_le_mul_right _ after
    have room := reservedEnd_add_le index (Nat.zero_le 8192)
    have start : regionStart home ≤ reservedEnd home := by rw [reservedEnd]; omega
    omega

/-- Every extent of a sequence is a placement, behind the starting cursor. -/
theorem allocateSequence_placement (requests : List ExtentRequest) :
    ∀ {cursor : Nat}, cursor < wordCount 64 →
      ∀ extent ∈ (allocateSequence cursor requests).1,
        Placement cursor extent.1.size extent.1.alignment extent.2 := by
  induction requests with
  | nil => intro cursor _ extent member; simp [allocateSequence] at member
  | cons request rest ih =>
      intro cursor word extent member
      unfold allocateSequence at member
      cases hallocate : allocateExtent cursor request.size request.alignment with
      | error error =>
          simp only [hallocate] at member
          exact ih word extent member
      | ok result =>
          obtain ⟨offset, next⟩ := result
          obtain ⟨placement, rfl⟩ := allocateExtent_placement request word hallocate
          simp only [hallocate, List.mem_cons] at member
          rcases member with rfl | member
          · exact placement
          · have later := ih placement.fits extent member
            have reached := placement.after
            have passed := later.after
            exact ⟨later.aligned, by omega, later.inRegion, later.fits⟩

/-- The extents of a sequence follow one another in the file. -/
theorem allocateSequence_ordered (requests : List ExtentRequest) :
    ∀ {cursor : Nat}, cursor < wordCount 64 →
      (allocateSequence cursor requests).1.Pairwise
        (fun earlier later => earlier.2 + earlier.1.size ≤ later.2) := by
  induction requests with
  | nil => intro cursor _; simp [allocateSequence]
  | cons request rest ih =>
      intro cursor word
      unfold allocateSequence
      cases hallocate : allocateExtent cursor request.size request.alignment with
      | error error =>
          simp only
          exact ih word
      | ok result =>
          obtain ⟨offset, next⟩ := result
          obtain ⟨placement, rfl⟩ := allocateExtent_placement request word hallocate
          refine List.pairwise_cons.mpr ⟨fun extent member => ?_, ih placement.fits⟩
          exact (allocateSequence_placement rest placement.fits extent member).after

/-- **Allocation safety.** Along every sequence of requests from the first data
offset, the allocation loop ends within two turns whatever the cursor; each
extent returned is aligned, starts at or behind the end of the previous one, lies
inside one region, and meets none of the map pages written for a file of any
allocated end. -/
theorem allocateSequence_safe (requests : List ExtentRequest) :
    (∀ request ∈ requests, ∀ cursor, ∃ outcome, ∀ turns,
      allocateLoop request.size request.alignment (turns + 2)
        (alignUp cursor request.alignment) = some outcome) ∧
    (allocateSequence firstData requests).1.Pairwise
      (fun earlier later => earlier.2 + earlier.1.size ≤ later.2) ∧
    ∀ extent ∈ (allocateSequence firstData requests).1,
      extent.2 % extent.1.alignment = 0 ∧ firstData ≤ extent.2 ∧
      (∃ index, regionStart index ≤ extent.2 ∧
        extent.2 + extent.1.size ≤ regionStart index + amapDataSize) ∧
      ∀ allocatedEnd pages allocation, allocationPages allocatedEnd = .ok (pages, allocation) →
        ∀ page ∈ pages, extent.2 + extent.1.size ≤ page.offset ∨
          page.offset + pageSize ≤ extent.2 := by
  have word : firstData < wordCount 64 := by simp only [firstData, wordCount]; omega
  refine ⟨fun request _ cursor => allocateLoop_two_turns request _,
    allocateSequence_ordered requests word, fun extent member => ?_⟩
  have placement := allocateSequence_placement requests word extent member
  obtain ⟨index, behind, inside⟩ := placement.inRegion
  refine ⟨placement.aligned, placement.after, ⟨index, ?_, ?_⟩, ?_⟩
  · rw [reservedEnd] at behind
    omega
  · rwa [← regionStart_succ]
  · intro allocatedEnd pages allocation hpages page pageMember
    obtain ⟨home, above, below⟩ := allocationPages_reserved hpages page pageMember
    exact placement.disjoint_reserved above below

private def wholeBlock : ExtentRequest := ⟨8192, 64, le_refl _, Or.inl rfl⟩

/-- A whole block placed at the first data offset of a fresh file avoids the map
pages of the one region that is written for it. -/
theorem allocateSequence_safe_wholeBlock :
    ∃ pages allocation, allocationPages (firstData + 8192) = .ok (pages, allocation) ∧
      ∀ page ∈ pages, firstData + 8192 ≤ page.offset ∨ page.offset + pageSize ≤ firstData := by
  have placed : (wholeBlock, firstData) ∈ (allocateSequence firstData [wholeBlock]).1 := by
    decide +kernel
  cases hpages : allocationPages (firstData + 8192) with
  | error error =>
      have succeeds : (allocationPages (firstData + 8192)).isOk = true := by decide +kernel
      simp [hpages, Except.isOk, Except.toBool] at succeeds
  | ok result =>
      exact ⟨result.1, result.2, rfl,
        ((allocateSequence_safe [wholeBlock]).2.2 _ placed).2.2.2 _ _ _ hpages⟩

end PstForge.Ndb
