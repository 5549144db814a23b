import PstForge.Ndb.AllocationSafety
import PstForge.Ltp.TableHeap

/-! # Where the cells of a row stand

The columns of a schema are laid out in three passes: the cells of eight and four bytes, those of
two, and those of one, behind the identifier and the version of the row. The ends of the groups are
computed once more from the columns when the rows are written. The cells of a row do not overlap,
and writing one of them leaves the others alone.
-/

namespace PstForge.Ltp

open PstForge.Foundation PstForge.Ndb

section Consecutive

/-- Columns whose cells stand one behind the other, from one offset to another. -/
def Consecutive : Nat → List TableColumnDescriptor → Nat → Prop
  | start, [], stop => start = stop
  | start, column :: rest, stop =>
      column.offset = start ∧ Consecutive (start + column.size) rest stop

variable {start stop : Nat} {columns : List TableColumnDescriptor}

theorem Consecutive.le (consecutive : Consecutive start columns stop) : start ≤ stop := by
  induction columns generalizing start with
  | nil => exact Nat.le_of_eq consecutive
  | cons column rest ih => exact Nat.le_of_add_right_le (ih consecutive.2)

theorem Consecutive.inside (consecutive : Consecutive start columns stop) :
    ∀ column ∈ columns, start ≤ column.offset ∧ column.offset + column.size ≤ stop := by
  induction columns generalizing start with
  | nil => exact List.forall_mem_nil _
  | cons column rest ih =>
      obtain ⟨here, behind⟩ := consecutive
      have later := ih behind
      have fits := Consecutive.le behind
      refine List.forall_mem_cons.mpr ⟨⟨here.ge, by omega⟩, fun other member => ?_⟩
      have inside := later other member
      omega

theorem Consecutive.ordered (consecutive : Consecutive start columns stop) :
    columns.Pairwise fun first second => first.offset + first.size ≤ second.offset := by
  induction columns generalizing start with
  | nil => exact .nil
  | cons column rest ih =>
      obtain ⟨here, behind⟩ := consecutive
      refine List.pairwise_cons.mpr ⟨fun other member => ?_, ih behind⟩
      have inside := Consecutive.inside behind other member
      omega

theorem Consecutive.aligned (alignment : Nat) (consecutive : Consecutive start columns stop)
    (whole : ∀ column ∈ columns, column.size % alignment = 0) (aligned : start % alignment = 0) :
    stop % alignment = 0 ∧ ∀ column ∈ columns, column.offset % alignment = 0 := by
  induction columns generalizing start with
  | nil =>
      cases consecutive
      exact ⟨aligned, List.forall_mem_nil _⟩
  | cons column rest ih =>
      obtain ⟨here, behind⟩ := consecutive
      obtain ⟨first, others⟩ := List.forall_mem_cons.mp whole
      have next : (start + column.size) % alignment = 0 := by
        rw [Nat.add_mod, aligned, first, Nat.zero_mod]
      obtain ⟨last, later⟩ := ih behind others next
      exact ⟨last, List.forall_mem_cons.mpr ⟨here ▸ aligned, later⟩⟩

/-- The end is the end of a column, or there is none. -/
theorem Consecutive.last (consecutive : Consecutive start columns stop) :
    (columns = [] ∧ stop = start) ∨ ∃ column ∈ columns, column.offset + column.size = stop := by
  induction columns generalizing start with
  | nil => exact Or.inl ⟨rfl, consecutive.symm⟩
  | cons column rest ih =>
      obtain ⟨here, behind⟩ := consecutive
      right
      rcases ih behind with ⟨-, stops⟩ | ⟨last, member, stops⟩
      · exact ⟨column, List.mem_cons_self, by omega⟩
      · exact ⟨last, List.mem_cons_of_mem _ member, stops⟩

theorem Consecutive.short (consecutive : Consecutive start columns stop)
    (narrow : ∀ column ∈ columns, column.size ≤ 8) : stop ≤ start + 8 * columns.length := by
  induction columns generalizing start with
  | nil => exact Nat.le_of_eq consecutive.symm
  | cons column rest ih =>
      obtain ⟨first, others⟩ := List.forall_mem_cons.mp narrow
      have later := ih consecutive.2 others
      rw [List.length_cons]
      omega

/-- The largest end is the one that none exceeds, or what there is in place of it. -/
theorem maxEnd_eq {fallback largest : Nat} {ends : List Nat} (bound : ∀ last ∈ ends, last ≤ largest)
    (reached : largest ∈ ends ∨ (ends = [] ∧ fallback = largest)) :
    maxEnd fallback ends = largest := by
  have folded : ∀ (others : List Nat) (first : Nat), (∀ last ∈ first :: others, last ≤ largest) →
      largest ∈ first :: others → others.foldl max first = largest := by
    intro others
    induction others with
    | nil =>
        intro first _ reached
        exact (List.mem_singleton.mp reached).symm
    | cons next others ih =>
        intro first bound reached
        obtain ⟨firstLe, bound⟩ := List.forall_mem_cons.mp bound
        obtain ⟨nextLe, bound⟩ := List.forall_mem_cons.mp bound
        apply ih (max first next)
        · exact List.forall_mem_cons.mpr ⟨max_le firstLe nextLe, bound⟩
        · rcases List.mem_cons.mp reached with same | reached
          · rw [same] at nextLe
            rw [same, max_eq_left nextLe]
            exact List.mem_cons_self
          rcases List.mem_cons.mp reached with same | reached
          · rw [same] at firstLe
            rw [same, max_eq_right firstLe]
            exact List.mem_cons_self
          · exact List.mem_cons_of_mem _ reached
  cases ends with
  | nil =>
      rcases reached with impossible | ⟨-, same⟩
      · exact absurd impossible List.not_mem_nil
      · exact same
  | cons first others =>
      rcases reached with reached | ⟨impossible, -⟩
      · exact folded others first bound reached
      · cases impossible

/-- The largest end of columns one behind the other is where they stop. -/
theorem Consecutive.largest {size : Nat} (consecutive : Consecutive start columns stop)
    (small : stop < 2 ^ 16) (sizes : ∀ column ∈ columns, column.size = size) :
    maxEnd start (columns.map fun column => saturatingAdd 16 column.offset size) = stop := by
  have ends : ∀ column ∈ columns, saturatingAdd 16 column.offset size
      = column.offset + column.size := by
    intro column member
    have inside := (consecutive.inside column member).2
    rw [sizes column member] at inside ⊢
    rw [saturatingAdd, wordCount, Nat.min_eq_left (by omega)]
  rw [List.map_congr_left ends]
  apply maxEnd_eq
  · intro last member
    obtain ⟨column, here, rfl⟩ := List.mem_map.mp member
    exact (consecutive.inside column here).2
  · rcases consecutive.last with ⟨rfl, stops⟩ | ⟨column, member, stops⟩
    · exact Or.inr ⟨rfl, stops.symm⟩
    · exact Or.inl (List.mem_map.mpr ⟨column, member, stops⟩)

end Consecutive

section Placement

variable {selected : PropertyType × Nat → Bool} {next final : Nat} {spec : PropertyType × Nat}
  {rest specs : List (PropertyType × Nat)} {offsets : List (Option Nat)}

/-- The first column of a list takes the next offset when it is selected. -/
theorem placeColumns_cons
    (placed : placeColumns selected next (spec :: rest) = .ok (offsets, final)) :
    ∃ others, offsets = (if selected spec then some next else none) :: others
      ∧ ∀ width, columnWidth spec.1 = .ok width →
        placeColumns selected (if selected spec then next + width else next) rest
          = .ok (others, final) := by
  rw [placeColumns] at placed
  split at placed
  · rename_i chosen
    obtain ⟨width, isWidth, placed⟩ := bind_eq_ok.mp placed
    obtain ⟨following, isNext, placed⟩ := bind_eq_ok.mp placed
    obtain ⟨⟨others, stop⟩, later, same⟩ := bind_eq_ok.mp placed
    rw [(checkedAdd_eq_some.mp (okOr_eq_ok.mp isNext)).1] at later
    cases same
    refine ⟨others, by rw [if_pos chosen], fun other size => ?_⟩
    rw [isWidth] at size
    cases size
    rwa [if_pos chosen]
  · rename_i passed
    obtain ⟨⟨others, stop⟩, later, same⟩ := bind_eq_ok.mp placed
    cases same
    exact ⟨others, by rw [if_neg passed], fun other size => by rwa [if_neg passed]⟩

/-- Whether a column has a cell of eight or four bytes, of two, or of one. -/
def isWideCell (kind : PropertyType) (id : Nat) : Bool :=
  !isStructuralColumn id && !decide (kind = .integer16 ∨ kind = .boolean)

def isWordCell (kind : PropertyType) (id : Nat) : Bool :=
  !isStructuralColumn id && decide (kind = .integer16)

def isFlagCell (kind : PropertyType) (id : Nat) : Bool :=
  !isStructuralColumn id && decide (kind = .boolean)

/-- The cells of columns that were laid out: three groups behind one another, each from one offset
to another, and the bits from one on. -/
structure Cells (wideFrom wordFrom flagFrom bitFrom : Nat) (specs : List (PropertyType × Nat))
    (columns : List TableColumnDescriptor) (wideTo wordTo flagTo : Nat) : Prop where
  kinds : columns.map (fun column => (column.propType, column.propId)) = specs
  widths : ∀ column ∈ columns, columnWidth column.propType = .ok column.size
  wide : Consecutive wideFrom
    (columns.filter fun column => isWideCell column.propType column.propId) wideTo
  words : Consecutive wordFrom
    (columns.filter fun column => isWordCell column.propType column.propId) wordTo
  flags : Consecutive flagFrom
    (columns.filter fun column => isFlagCell column.propType column.propId) flagTo
  structural : ∀ column ∈ columns, isStructuralColumn column.propId = true →
    column.offset = (if column.propId = ltpRowVersionPropId then 4 else 0)
      ∧ column.existenceBitmapIndex = if column.propId = ltpRowVersionPropId then 1 else 0
  bits : (columns.filter fun column => !isStructuralColumn column.propId).map
      (·.existenceBitmapIndex)
    = List.range' bitFrom (columns.filter fun column => !isStructuralColumn column.propId).length
  few : (columns.filter fun column => !isStructuralColumn column.propId) ≠ [] →
    bitFrom + (columns.filter fun column => !isStructuralColumn column.propId).length < 256

variable {wideFrom wordFrom flagFrom bitFrom wideTo wordTo flagTo : Nat}
  {columns : List TableColumnDescriptor}

theorem cells_nil : Cells wideFrom wordFrom flagFrom bitFrom [] [] wideFrom wordFrom flagFrom where
  kinds := rfl
  widths := List.forall_mem_nil _
  wide := rfl
  words := rfl
  flags := rfl
  structural := List.forall_mem_nil _
  bits := rfl
  few empty := absurd rfl empty

/-- One more column in front of the others: its cell is the first of its group. -/
theorem Cells.cons (column : TableColumnDescriptor)
    (cells : Cells
      (if isWideCell column.propType column.propId then wideFrom + column.size else wideFrom)
      (if isWordCell column.propType column.propId then wordFrom + column.size else wordFrom)
      (if isFlagCell column.propType column.propId then flagFrom + column.size else flagFrom)
      (if isStructuralColumn column.propId then bitFrom else bitFrom + 1) rest columns
      wideTo wordTo flagTo)
    (size : columnWidth column.propType = .ok column.size)
    (wide : isWideCell column.propType column.propId = true → column.offset = wideFrom)
    (word : isWordCell column.propType column.propId = true → column.offset = wordFrom)
    (flag : isFlagCell column.propType column.propId = true → column.offset = flagFrom)
    (structural : isStructuralColumn column.propId = true →
      column.offset = (if column.propId = ltpRowVersionPropId then 4 else 0)
        ∧ column.existenceBitmapIndex = if column.propId = ltpRowVersionPropId then 1 else 0)
    (bit : isStructuralColumn column.propId = false →
      column.existenceBitmapIndex = bitFrom ∧ bitFrom + 1 < 256) :
    Cells wideFrom wordFrom flagFrom bitFrom ((column.propType, column.propId) :: rest)
      (column :: columns) wideTo wordTo flagTo where
  kinds := by rw [List.map_cons, cells.kinds]
  widths := List.forall_mem_cons.mpr ⟨size, cells.widths⟩
  wide := by
    have later := cells.wide
    rw [List.filter_cons]
    split at later
    · rename_i chosen
      rw [if_pos chosen]
      exact ⟨wide chosen, later⟩
    · rename_i passed
      rwa [if_neg passed]
  words := by
    have later := cells.words
    rw [List.filter_cons]
    split at later
    · rename_i chosen
      rw [if_pos chosen]
      exact ⟨word chosen, later⟩
    · rename_i passed
      rwa [if_neg passed]
  flags := by
    have later := cells.flags
    rw [List.filter_cons]
    split at later
    · rename_i chosen
      rw [if_pos chosen]
      exact ⟨flag chosen, later⟩
    · rename_i passed
      rwa [if_neg passed]
  structural := List.forall_mem_cons.mpr ⟨structural, cells.structural⟩
  bits := by
    have later := cells.bits
    rw [List.filter_cons]
    cases own : isStructuralColumn column.propId with
    | true =>
        rw [own, if_pos rfl] at later
        rwa [if_neg (by simp)]
    | false =>
        rw [own, if_neg Bool.false_ne_true] at later
        rw [if_pos (by simp), List.map_cons, later, (bit own).1, List.length_cons,
          List.range'_succ]
  few := by
    have later := cells.few
    rw [List.filter_cons]
    cases own : isStructuralColumn column.propId with
    | true =>
        rw [own, if_pos rfl] at later
        rwa [if_neg (by simp)]
    | false =>
        rw [own, if_neg Bool.false_ne_true] at later
        rw [if_pos (by simp), List.length_cons]
        intro _
        have here := (bit own).2
        cases behind : columns.filter fun column => !isStructuralColumn column.propId with
        | nil => exact here
        | cons first others =>
            rw [behind] at later
            have bound := later (List.cons_ne_nil _ _)
            omega

/-- A column that the table writes itself is in no group. -/
theorem structural_groups {kind : PropertyType} {id : Nat} (own : isStructuralColumn id = true) :
    isWideCell kind id = false ∧ isWordCell kind id = false ∧ isFlagCell kind id = false := by
  simp [isWideCell, isWordCell, isFlagCell, own]

theorem columnBits_cons {kind : PropertyType} {id : Nat} {bits : List Nat}
    (numbered : columnBits bitFrom ((kind, id) :: rest) = .ok bits) :
    ∃ bit others, bits = bit :: others
      ∧ columnBits (if isStructuralColumn id then bitFrom else bitFrom + 1) rest = .ok others
      ∧ (isStructuralColumn id = true → bit = if id = ltpRowVersionPropId then 1 else 0)
      ∧ (isStructuralColumn id = false → bit = bitFrom ∧ bitFrom + 1 < 256) := by
  unfold columnBits at numbered
  by_cases rowId : id = ltpRowIdPropId
  · rw [if_pos rowId] at numbered
    obtain ⟨others, later, same⟩ := bind_eq_ok.mp numbered
    cases same
    subst rowId
    exact ⟨0, others, rfl, later, fun _ => rfl, fun other => nomatch other⟩
  rw [if_neg rowId] at numbered
  by_cases version : id = ltpRowVersionPropId
  · rw [if_pos version] at numbered
    obtain ⟨others, later, same⟩ := bind_eq_ok.mp numbered
    cases same
    subst version
    exact ⟨1, others, rfl, later, fun _ => rfl, fun other => nomatch other⟩
  rw [if_neg version] at numbered
  obtain ⟨following, isNext, numbered⟩ := bind_eq_ok.mp numbered
  obtain ⟨others, later, same⟩ := bind_eq_ok.mp numbered
  cases same
  obtain ⟨rfl, small⟩ := checkedAdd_eq_some.mp (okOr_eq_ok.mp isNext)
  have own : isStructuralColumn id = false := by simp [isStructuralColumn, rowId, version]
  refine ⟨bitFrom, others, rfl, ?_, fun structural => ?_, fun _ => ⟨rfl, small⟩⟩
  · rwa [own, if_neg Bool.false_ne_true]
  · rw [own] at structural
    cases structural

/-- What the three passes and the numbering put together. -/
theorem cells_of_specs {wide words flags : List (Option Nat)} {bits : List Nat}
    (wideOk : placeColumns (fun spec => isWideCell spec.1 spec.2) wideFrom specs
      = .ok (wide, wideTo))
    (wordsOk : placeColumns (fun spec => isWordCell spec.1 spec.2) wordFrom specs
      = .ok (words, wordTo))
    (flagsOk : placeColumns (fun spec => isFlagCell spec.1 spec.2) flagFrom specs
      = .ok (flags, flagTo))
    (bitsOk : columnBits bitFrom specs = .ok bits)
    (made : (specs.zip (wide.zip (words.zip (flags.zip bits)))).mapM
      (fun ((kind, id), wideAt, wordAt, flagAt, bit) => do
        let offset := (wideAt.or (wordAt.or flagAt)).getD
          (if id = ltpRowVersionPropId then 4 else 0)
        return TableColumnDescriptor.mk kind id offset (← columnWidth kind) bit) = .ok columns) :
    Cells wideFrom wordFrom flagFrom bitFrom specs columns wideTo wordTo flagTo := by
  induction specs generalizing wideFrom wordFrom flagFrom bitFrom wide words flags bits columns with
  | nil =>
      cases wideOk
      cases wordsOk
      cases flagsOk
      cases bitsOk
      cases made
      exact cells_nil
  | cons spec rest ih =>
      obtain ⟨kind, id⟩ := spec
      obtain ⟨bit, bits, rfl, bitsOk, ownBit, otherBit⟩ := columnBits_cons bitsOk
      obtain ⟨wide, rfl, wideRest⟩ := placeColumns_cons wideOk
      obtain ⟨words, rfl, wordsRest⟩ := placeColumns_cons wordsOk
      obtain ⟨flags, rfl, flagsRest⟩ := placeColumns_cons flagsOk
      simp only [List.zip_cons_cons, List.mapM_cons] at made
      obtain ⟨column, isColumn, made⟩ := bind_eq_ok.mp made
      obtain ⟨others, rest, same⟩ := bind_eq_ok.mp made
      cases same
      obtain ⟨width, size, same⟩ := bind_eq_ok.mp isColumn
      cases same
      have cells := ih (wideRest width size) (wordsRest width size)
        (flagsRest width size) bitsOk rest
      refine Cells.cons ⟨kind, id, _, width, bit⟩ cells size ?_ ?_ ?_ ?_ ?_
      · intro chosen
        simp only [chosen, if_true]
        rfl
      · intro chosen
        have notWide : isWideCell kind id = false := by
          simp_all [isWordCell, isWideCell]
        simp only [notWide, chosen, if_true]
        rfl
      · intro chosen
        have notWide : isWideCell kind id = false := by
          simp_all [isFlagCell, isWideCell]
        have notWord : isWordCell kind id = false := by
          simp_all [isFlagCell, isWordCell]
        simp only [notWide, notWord, chosen, if_true]
        rfl
      · intro own
        obtain ⟨notWide, notWord, notFlag⟩ := @structural_groups kind id own
        simp only [notWide, notWord, notFlag]
        exact ⟨rfl, ownBit own⟩
      · exact otherBit

end Placement

section Schema

/-- Where a list of columns has the identifier and the version of a row, each in four bytes. -/
structure Structural (specs : List (PropertyType × Nat)) : Prop where
  distinct : (specs.map (·.2)).Nodup
  rowId : ∃ kind, (kind, ltpRowIdPropId) ∈ specs ∧ columnWidth kind = .ok 4
  version : ∃ kind, (kind, ltpRowVersionPropId) ∈ specs ∧ columnWidth kind = .ok 4

variable {specs : List (PropertyType × Nat)} {columns : List TableColumnDescriptor}
  {wideTo wordTo flagTo wordFrom flagFrom : Nat}

theorem width_wide {kind : PropertyType} {size : Nat} (width : columnWidth kind = .ok size)
    (notWord : kind ≠ .integer16) (notFlag : kind ≠ .boolean) : size = 4 ∨ size = 8 := by
  cases kind <;> simp_all [columnWidth]

theorem width_cases {kind : PropertyType} {size : Nat} (width : columnWidth kind = .ok size) :
    size = 1 ∨ size = 2 ∨ size = 4 ∨ size = 8 := by
  cases kind <;> simp_all [columnWidth]

/-- A column stands in one of the three groups, or is written by the table itself. -/
theorem group_cases (kind : PropertyType) (id : Nat) :
    isStructuralColumn id = true ∨ isWideCell kind id = true ∨ isWordCell kind id = true
      ∨ isFlagCell kind id = true := by
  unfold isWideCell isWordCell isFlagCell
  cases isStructuralColumn id with
  | true => exact Or.inl rfl
  | false =>
      by_cases word : kind = .integer16
      · simp [word]
      · by_cases flag : kind = .boolean <;> simp [word, flag]

/-- The groups of the columns of a schema, the later ones behind the earlier ones. -/
theorem schemaColumns_cells (made : schemaColumns specs = .ok columns) :
    ∃ wideTo wordTo flagTo, Cells 8 (alignUp wideTo 4) (alignUp wordTo 2) 2
      (sortByKey (·.2) specs) columns wideTo wordTo flagTo := by
  simp only [schemaColumns, bind_eq_ok] at made
  obtain ⟨_, -, ⟨wide, wideTo⟩, wideOk, next, isNext, ⟨words, wordTo⟩, wordsOk, next', isNext',
    ⟨flags, flagTo⟩, flagsOk, bits, bitsOk, made⟩ := made
  obtain ⟨rfl, -⟩ := tryFrom_eq_some.mp (okOr_eq_ok.mp isNext)
  obtain ⟨rfl, -⟩ := tryFrom_eq_some.mp (okOr_eq_ok.mp isNext')
  exact ⟨wideTo, wordTo, flagTo, cells_of_specs wideOk wordsOk flagsOk bitsOk made⟩

section Ends

variable (cells : Cells 8 (alignUp wideTo 4) (alignUp wordTo 2) 2 specs columns wideTo wordTo
  flagTo)

include cells

theorem Cells.widthOf {column : TableColumnDescriptor} (member : column ∈ columns) :
    (isWideCell column.propType column.propId = true → column.size = 4 ∨ column.size = 8)
      ∧ (isWordCell column.propType column.propId = true → column.size = 2)
      ∧ (isFlagCell column.propType column.propId = true → column.size = 1) := by
  have width := cells.widths column member
  refine ⟨fun wide => ?_, fun word => ?_, fun flag => ?_⟩
  · simp only [isWideCell, Bool.and_eq_true, Bool.not_eq_true', decide_eq_false_iff_not,
      not_or] at wide
    exact width_wide width wide.2.1 wide.2.2
  · simp only [isWordCell, Bool.and_eq_true, decide_eq_true_eq] at word
    rw [word.2, columnWidth] at width
    exact (Except.ok.inj width).symm
  · simp only [isFlagCell, Bool.and_eq_true, decide_eq_true_eq] at flag
    rw [flag.2, columnWidth] at width
    exact (Except.ok.inj width).symm

/-- The number of bits bounds the number of columns, and so the ends of the groups. -/
theorem Cells.ends : alignUp wideTo 4 = wideTo ∧ alignUp wordTo 2 = wordTo
    ∧ wideTo % 4 = 0 ∧ wordTo % 2 = 0 ∧ flagTo < 2 ^ 15
    ∧ (columns.filter fun column => !isStructuralColumn column.propId).length < 254 := by
  have members : ∀ {selected : PropertyType → Nat → Bool} {column : TableColumnDescriptor},
      column ∈ columns.filter (fun column => selected column.propType column.propId) →
        column ∈ columns ∧ selected column.propType column.propId = true :=
    fun member => List.mem_filter.mp member
  have few : (columns.filter fun column => !isStructuralColumn column.propId).length < 254 := by
    cases behind : columns.filter fun column => !isStructuralColumn column.propId with
    | nil => exact Nat.succ_pos _
    | cons first others =>
        have bound := cells.few
        rw [behind] at bound
        have small := bound (List.cons_ne_nil _ _)
        omega
  have short : ∀ {selected : PropertyType → Nat → Bool},
      (∀ kind id, selected kind id = true → isStructuralColumn id = false) →
        (columns.filter fun column => selected column.propType column.propId).length < 254 := by
    intro selected own
    refine Nat.lt_of_le_of_lt ?_ few
    apply List.Sublist.length_le
    apply List.monotone_filter_right
    intro column chosen
    rw [own _ _ chosen]
    rfl
  have sizes : ∀ column ∈ columns, column.size ≤ 8 := by
    intro column member
    rcases width_cases (cells.widths column member) with size | size | size | size <;> omega
  have wideShort := cells.wide.short fun column member => sizes column (members member).1
  have wideFew := @short isWideCell (by simp +contextual [isWideCell])
  have wideAligned := (cells.wide.aligned 4 (by
    intro column member
    obtain ⟨here, chosen⟩ := members member
    rcases (cells.widthOf here).1 chosen with size | size <;> rw [size]) rfl).1
  have wideUp : alignUp wideTo 4 = wideTo :=
    alignUp_of_mod (by omega) wideAligned (by unfold wordCount; omega)
  have wordShort := cells.words.short fun column member => sizes column (members member).1
  have wordFew := @short isWordCell (by simp +contextual [isWordCell])
  have wordAligned := (cells.words.aligned 2 (by
    intro column member
    obtain ⟨here, chosen⟩ := members member
    rw [(cells.widthOf here).2.1 chosen]) (by omega)).1
  have wordUp : alignUp wordTo 2 = wordTo :=
    alignUp_of_mod (by omega) wordAligned (by unfold wordCount; omega)
  have flagShort := cells.flags.short fun column member => sizes column (members member).1
  have flagFew := @short isFlagCell (by simp +contextual [isFlagCell])
  exact ⟨wideUp, wordUp, wideAligned, wordAligned, by omega, few⟩

/-- Two columns whose cells do not share a byte. -/
def Apart (first second : TableColumnDescriptor) : Prop :=
  first.offset + first.size ≤ second.offset ∨ second.offset + second.size ≤ first.offset

/-- A cell lies in the part of a row that its group has. -/
theorem Cells.group {column : TableColumnDescriptor} (member : column ∈ columns) :
    (isStructuralColumn column.propId = true ∧
        column.offset = if column.propId = ltpRowVersionPropId then 4 else 0)
      ∨ (isWideCell column.propType column.propId = true
        ∧ 8 ≤ column.offset ∧ column.offset + column.size ≤ wideTo)
      ∨ (isWordCell column.propType column.propId = true
        ∧ wideTo ≤ column.offset ∧ column.offset + column.size ≤ wordTo)
      ∨ (isFlagCell column.propType column.propId = true
        ∧ wordTo ≤ column.offset ∧ column.offset + column.size ≤ flagTo) := by
  obtain ⟨wideUp, wordUp, -⟩ := cells.ends
  have wide := cells.wide
  have words := cells.words
  have flags := cells.flags
  rw [wideUp] at words
  rw [wordUp] at flags
  rcases group_cases column.propType column.propId with own | chosen | chosen | chosen
  · exact Or.inl ⟨own, (cells.structural column member own).1⟩
  · exact Or.inr (Or.inl ⟨chosen, wide.inside column (List.mem_filter.mpr ⟨member, chosen⟩)⟩)
  · exact Or.inr (Or.inr (Or.inl ⟨chosen,
      words.inside column (List.mem_filter.mpr ⟨member, chosen⟩)⟩))
  · exact Or.inr (Or.inr (Or.inr ⟨chosen,
      flags.inside column (List.mem_filter.mpr ⟨member, chosen⟩)⟩))

/-- The ends of the groups follow each other. -/
theorem Cells.le : 8 ≤ wideTo ∧ wideTo ≤ wordTo ∧ wordTo ≤ flagTo := by
  obtain ⟨wideUp, wordUp, -⟩ := cells.ends
  have wide := cells.wide.le
  have words := cells.words.le
  have flags := cells.flags.le
  rw [wideUp] at words
  rw [wordUp] at flags
  exact ⟨wide, words, flags⟩

/-- No two columns have the same property. -/
theorem Cells.ids (distinct : (specs.map (·.2)).Nodup) :
    columns.Pairwise fun first second => first.propId ≠ second.propId := by
  have same : columns.map (·.propId) = specs.map (·.2) := by
    rw [← cells.kinds, List.map_map]
    rfl
  rw [← same, List.Nodup, List.pairwise_map] at distinct
  exact distinct

/-- The identifier and the version have four bytes each. -/
theorem Cells.structuralSize (structural : Structural specs) {column : TableColumnDescriptor}
    (member : column ∈ columns) (own : isStructuralColumn column.propId = true) :
    column.size = 4 := by
  have listed : (column.propType, column.propId) ∈ specs := by
    rw [← cells.kinds]
    exact List.mem_map.mpr ⟨column, member, rfl⟩
  have width := cells.widths column member
  have kind : ∀ kind id, (kind, id) ∈ specs → column.propId = id → columnWidth kind = .ok 4 →
      column.size = 4 := by
    intro kind id present same four
    rw [same] at listed
    have equal := List.inj_on_of_nodup_map structural.distinct listed present rfl
    rw [(Prod.mk.inj equal).1, four] at width
    exact (Except.ok.inj width).symm
  obtain ⟨first, rowId, firstFour⟩ := structural.rowId
  obtain ⟨second, version, secondFour⟩ := structural.version
  rcases of_decide_eq_true own with isId | isVersion
  · exact kind first _ rowId isId firstFour
  · exact kind second _ version isVersion secondFour

/-- The cells do not overlap. -/
theorem Cells.apart (structural : Structural specs) : columns.Pairwise Apart := by
  obtain ⟨wideUp, wordUp, -⟩ := cells.ends
  obtain ⟨low, middle, -⟩ := cells.le
  have ids := cells.ids structural.distinct
  have wide := List.pairwise_filter.mp cells.wide.ordered
  have words := List.pairwise_filter.mp cells.words.ordered
  have flags := List.pairwise_filter.mp cells.flags.ordered
  have each := ((ids.and wide).and words).and flags
  refine (List.Pairwise.and_mem.mp each).imp ?_
  rintro first second ⟨firstMem, secondMem, ⟨⟨different, wide⟩, words⟩, flags⟩
  have firstSize := cells.structuralSize structural firstMem
  have secondSize := cells.structuralSize structural secondMem
  unfold Apart
  rcases cells.group firstMem with ⟨own, at_⟩ | ⟨chosen, inside⟩ | ⟨chosen, inside⟩ |
      ⟨chosen, inside⟩ <;>
    rcases cells.group secondMem with ⟨own', at'⟩ | ⟨chosen', inside'⟩ | ⟨chosen', inside'⟩ |
      ⟨chosen', inside'⟩
  · have firstFour := firstSize own
    have secondFour := secondSize own'
    rcases of_decide_eq_true own with isId | isVersion <;>
      rcases of_decide_eq_true own' with isId' | isVersion'
    · exact absurd (isId.trans isId'.symm) different
    · rw [isId, if_neg (by decide)] at at_
      rw [isVersion', if_pos rfl] at at'
      omega
    · rw [isVersion, if_pos rfl] at at_
      rw [isId', if_neg (by decide)] at at'
      omega
    · exact absurd (isVersion.trans isVersion'.symm) different
  · have firstFour := firstSize own
    split at at_ <;> omega
  · have firstFour := firstSize own
    split at at_ <;> omega
  · have firstFour := firstSize own
    split at at_ <;> omega
  · have secondFour := secondSize own'
    split at at' <;> omega
  · exact Or.inl (wide chosen chosen')
  · omega
  · omega
  · have secondFour := secondSize own'
    split at at' <;> omega
  · omega
  · exact Or.inl (words chosen chosen')
  · omega
  · have secondFour := secondSize own'
    split at at' <;> omega
  · omega
  · omega
  · exact Or.inl (flags chosen chosen')

/-- The columns that the table writes itself are in the schema, with their cells. -/
theorem Cells.own (structural : Structural specs) {id : Nat} (own : isStructuralColumn id = true) :
    ∃ column ∈ columns, column.propId = id ∧ column.size = 4
      ∧ column.propType ≠ .integer16 ∧ column.propType ≠ .boolean := by
  have present : ∀ kind id, (kind, id) ∈ specs → columnWidth kind = .ok 4 →
      ∃ column ∈ columns, column.propId = id ∧ column.size = 4
        ∧ column.propType ≠ .integer16 ∧ column.propType ≠ .boolean := by
    intro kind id listed four
    rw [← cells.kinds] at listed
    obtain ⟨column, member, same⟩ := List.mem_map.mp listed
    obtain ⟨rfl, rfl⟩ := Prod.mk.inj same
    have width := cells.widths column member
    rw [four] at width
    refine ⟨column, member, rfl, (Except.ok.inj width).symm, ?_, ?_⟩
    · intro word
      rw [word] at four
      cases four
    · intro flag
      rw [flag] at four
      cases four
  obtain ⟨first, rowId, firstFour⟩ := structural.rowId
  obtain ⟨second, version, secondFour⟩ := structural.version
  rcases of_decide_eq_true own with rfl | rfl
  · exact present first _ rowId firstFour
  · exact present second _ version secondFour

/-- The columns that callers may write, and the two that they may not. -/
theorem Cells.length (structural : Structural specs) :
    columns.length
      = (columns.filter fun column => !isStructuralColumn column.propId).length + 2 := by
  obtain ⟨rowId, rowIdMem, isRowId, -⟩ :=
    cells.own structural (by decide : isStructuralColumn ltpRowIdPropId = true)
  obtain ⟨version, versionMem, isVersion, -⟩ :=
    cells.own structural (by decide : isStructuralColumn ltpRowVersionPropId = true)
  have pair : [rowId, version].Nodup := by
    have different : rowId ≠ version := by
      rintro rfl
      rw [isRowId] at isVersion
      exact absurd isVersion (by decide)
    simp [different]
  have listed : [rowId, version] ⊆ columns.filter fun column =>
      isStructuralColumn column.propId := by
    intro column member
    rcases List.mem_pair.mp member with rfl | rfl
    · exact List.mem_filter.mpr ⟨rowIdMem, by rw [isRowId]; decide⟩
    · exact List.mem_filter.mpr ⟨versionMem, by rw [isVersion]; decide⟩
  have least := (List.subperm_of_subset pair listed).length_le
  have ids : ((columns.filter fun column => isStructuralColumn column.propId).map
      (·.propId)).Nodup := by
    rw [List.Nodup, List.pairwise_map]
    exact (cells.ids structural.distinct).filter _
  have among : (columns.filter fun column => isStructuralColumn column.propId).map (·.propId)
      ⊆ [ltpRowIdPropId, ltpRowVersionPropId] := by
    intro id member
    obtain ⟨column, here, rfl⟩ := List.mem_map.mp member
    exact List.mem_pair.mpr (of_decide_eq_true (List.mem_filter.mp here).2)
  have most := (List.subperm_of_subset ids among).length_le
  have total := List.length_eq_length_filter_add
    (l := columns) fun column => isStructuralColumn column.propId
  rw [List.length_cons, List.length_singleton] at least
  rw [List.length_map, List.length_cons, List.length_singleton] at most
  omega

/-- No two columns have the same bit, and every bit is among those of the columns. -/
theorem Cells.distinctBits (structural : Structural specs) :
    columns.Pairwise (fun first second =>
        first.existenceBitmapIndex ≠ second.existenceBitmapIndex)
      ∧ ∀ column ∈ columns, column.existenceBitmapIndex < columns.length := by
  have total := cells.length structural
  have numbered : ∀ column ∈ columns, isStructuralColumn column.propId = false →
      2 ≤ column.existenceBitmapIndex ∧ column.existenceBitmapIndex < columns.length := by
    intro column member own
    have listed : column.existenceBitmapIndex ∈ (columns.filter fun column =>
        !isStructuralColumn column.propId).map (·.existenceBitmapIndex) :=
      List.mem_map_of_mem (List.mem_filter.mpr ⟨member, by rw [own]; rfl⟩)
    rw [cells.bits, List.mem_range'_1] at listed
    omega
  constructor
  · have ordered : (columns.filter fun column => !isStructuralColumn column.propId).Pairwise
        fun first second => first.existenceBitmapIndex ≠ second.existenceBitmapIndex := by
      have distinct : (List.range' 2 (columns.filter fun column =>
          !isStructuralColumn column.propId).length).Nodup := List.nodup_range'
      rw [← cells.bits, List.Nodup, List.pairwise_map] at distinct
      exact distinct
    have each := (cells.ids structural.distinct).and (List.pairwise_filter.mp ordered)
    refine (List.Pairwise.and_mem.mp each).imp ?_
    rintro first second ⟨firstMem, secondMem, different, ordered⟩
    cases own : isStructuralColumn first.propId <;> cases own' : isStructuralColumn second.propId
    · exact ordered (by rw [own]; rfl) (by rw [own']; rfl)
    · have firstBit := (numbered first firstMem own).1
      have secondBit := (cells.structural second secondMem own').2
      split at secondBit <;> omega
    · have firstBit := (cells.structural first firstMem own).2
      have secondBit := (numbered second secondMem own').1
      split at firstBit <;> omega
    · have firstBit := (cells.structural first firstMem own).2
      have secondBit := (cells.structural second secondMem own').2
      rw [firstBit, secondBit]
      rcases of_decide_eq_true own with isId | isVersion <;>
        rcases of_decide_eq_true own' with isId' | isVersion'
      · exact absurd (isId.trans isId'.symm) different
      · rw [isId, isVersion']
        decide
      · rw [isVersion, isId']
        decide
      · exact absurd (isVersion.trans isVersion'.symm) different
  · intro column member
    cases own : isStructuralColumn column.propId with
    | false => exact (numbered column member own).2
    | true =>
        have bit := (cells.structural column member own).2
        split at bit <;> omega

/-- The ends that the rows are written with are those of the groups. -/
theorem Cells.layout (structural : Structural specs) :
    rowLayout columns = .ok ⟨wideTo, wordTo, flagTo, flagTo + divCeil columns.length 8⟩
      ∧ flagTo + divCeil columns.length 8 < 2 ^ 16 := by
  obtain ⟨wideUp, wordUp, -, -, small, few⟩ := cells.ends
  obtain ⟨low, middle, high⟩ := cells.le
  have total := cells.length structural
  have words := cells.words
  have flags := cells.flags
  rw [wideUp] at words
  rw [wordUp] at flags
  have sums : ∀ {offset size : Nat}, offset + size ≤ flagTo →
      saturatingAdd 16 offset size = offset + size := by
    intro offset size inside
    rw [saturatingAdd, wordCount, Nat.min_eq_left (by omega)]
  -- a column's type decides its group, for those the table writes itself are four bytes wide
  have kinds : ∀ column ∈ columns,
      (column.propType = .integer16 → isWordCell column.propType column.propId = true)
        ∧ (column.propType = .boolean → isFlagCell column.propType column.propId = true) := by
    intro column member
    have size := cells.structuralSize structural member
    have width := cells.widths column member
    cases own : isStructuralColumn column.propId with
    | true =>
        rw [size own] at width
        constructor <;> intro kind <;> rw [kind] at width <;> cases width
    | false => simp [isWordCell, isFlagCell, own]
  have end4 : maxEnd 0 ((columns.filter fun column =>
      decide (column.propType ≠ .integer16) && decide (column.propType ≠ .boolean)).map
        fun column => saturatingAdd 16 column.offset column.size) = wideTo := by
    apply maxEnd_eq
    · intro last member
      obtain ⟨column, here, rfl⟩ := List.mem_map.mp member
      obtain ⟨inside, wide⟩ := List.mem_filter.mp here
      simp only [Bool.and_eq_true, decide_eq_true_eq] at wide
      have size := cells.structuralSize structural inside
      rcases cells.group inside with ⟨own, at_⟩ | ⟨-, placed⟩ | ⟨chosen, -⟩ | ⟨chosen, -⟩
      · have four := size own
        rw [sums (by split at at_ <;> omega)]
        split at at_ <;> omega
      · rw [sums (by omega)]
        exact placed.2
      · simp only [isWordCell, Bool.and_eq_true, decide_eq_true_eq] at chosen
        exact absurd chosen.2 wide.1
      · simp only [isFlagCell, Bool.and_eq_true, decide_eq_true_eq] at chosen
        exact absurd chosen.2 wide.2
    · left
      rcases cells.wide.last with ⟨-, stops⟩ | ⟨column, member, stops⟩
      · obtain ⟨version, member, isVersion, four, notWord, notFlag⟩ :=
          cells.own structural (by decide : isStructuralColumn ltpRowVersionPropId = true)
        have own : isStructuralColumn version.propId = true := by rw [isVersion]; decide
        have at_ := (cells.structural version member own).1
        rw [if_pos isVersion] at at_
        refine List.mem_map.mpr ⟨version, List.mem_filter.mpr ⟨member, ?_⟩, ?_⟩
        · simp [notWord, notFlag]
        · rw [sums (by omega)]
          omega
      · obtain ⟨inside, chosen⟩ := List.mem_filter.mp member
        refine List.mem_map.mpr ⟨column, List.mem_filter.mpr ⟨inside, ?_⟩, ?_⟩
        · simp only [isWideCell, Bool.and_eq_true, Bool.not_eq_true', decide_eq_false_iff_not,
            not_or] at chosen
          simp [chosen.2]
        · rw [sums (by omega), stops]
  have wordCells : (columns.filter (·.propType = .integer16))
      = columns.filter fun column => isWordCell column.propType column.propId := by
    apply List.filter_congr
    intro column member
    by_cases word : column.propType = .integer16
    · rw [(kinds column member).1 word, decide_eq_true word]
    · simp [isWordCell, word]
  have flagCells : (columns.filter (·.propType = .boolean))
      = columns.filter fun column => isFlagCell column.propType column.propId := by
    apply List.filter_congr
    intro column member
    by_cases flag : column.propType = .boolean
    · rw [(kinds column member).2 flag, decide_eq_true flag]
    · simp [isFlagCell, flag]
  have end2 : maxEnd wideTo ((columns.filter (·.propType = .integer16)).map fun column =>
      saturatingAdd 16 column.offset 2) = wordTo := by
    rw [wordCells]
    refine words.largest (by omega) fun column member => ?_
    obtain ⟨inside, chosen⟩ := List.mem_filter.mp member
    exact (cells.widthOf inside).2.1 chosen
  have end1 : maxEnd wordTo ((columns.filter (·.propType = .boolean)).map fun column =>
      saturatingAdd 16 column.offset 1) = flagTo := by
    rw [flagCells]
    refine flags.largest (by omega) fun column member => ?_
    obtain ⟨inside, chosen⟩ := List.mem_filter.mp member
    exact (cells.widthOf inside).2.2 chosen
  have bitmap : divCeil columns.length 8 ≤ 32 := by
    unfold divCeil
    omega
  have wideFits : tryFrom 16 wideTo = some wideTo :=
    tryFrom_eq_some.mpr ⟨rfl, by unfold wordCount; omega⟩
  have bitmapFits : tryFrom 16 (divCeil columns.length 8) = some (divCeil columns.length 8) :=
    tryFrom_eq_some.mpr ⟨rfl, by unfold wordCount; omega⟩
  have rowFits : checkedAdd 16 flagTo (divCeil columns.length 8)
      = some (flagTo + divCeil columns.length 8) :=
    checkedAdd_eq_some.mpr ⟨rfl, by unfold wordCount; omega⟩
  refine ⟨?_, by omega⟩
  simp only [rowLayout, end4, wideUp, wideFits, okOr_some]
  change (okOr _ (tryFrom 16 _) >>= _ : Except _ _) = _
  rw [bitmapFits]
  change (okOr _ (checkedAdd 16 _ _) >>= _ : Except _ _) = _
  rw [end2, max_eq_left middle, end1, max_eq_left high, rowFits]
  rfl

end Ends

section Writing

/-- Whether a bit of the bitmap is set that begins at an offset of a row. -/
def existenceBit (row : Bytes) (bitmap bit : Nat) : Bool :=
  (row[bitmap + bit / 8]?).any fun byte => byte &&& (0x80 >>> UInt8.ofNat (bit % 8)) ≠ 0

/-- Outside what is written, nothing changes. -/
theorem patchBytes_outside {row value : Bytes} {offset position : Nat}
    (inside : offset + value.length ≤ row.length)
    (outside : position < offset ∨ offset + value.length ≤ position) :
    (patchBytes row offset value)[position]? = row[position]? := by
  have front : (row.take offset ++ value).length = offset + value.length := by
    rw [List.length_append, List.length_take]
    omega
  rcases outside with before | behind
  · rw [patchBytes, List.append_assoc, List.getElem?_append_left (by rw [List.length_take]; omega),
      List.getElem?_take_of_lt before]
  · rw [patchBytes, List.getElem?_append_right (by rw [front]; exact behind), front,
      List.getElem?_drop]
    congr 1
    omega

theorem patchBytes_single {row : Bytes} {position : Nat} (inside : position < row.length)
    (byte : UInt8) : (patchBytes row position [byte])[position]? = some byte := by
  have front : (row.take position).length = position := by
    rw [List.length_take]
    omega
  rw [patchBytes, List.append_assoc, List.getElem?_append_right (by rw [front]), front,
    Nat.sub_self]
  rfl

/-- Two bits of one byte are different ones. -/
private theorem flags_apart : ∀ first second : Fin 8, first ≠ second →
    (0x80 >>> UInt8.ofNat first.val : UInt8) &&& (0x80 >>> UInt8.ofNat second.val) = 0 := by
  decide

private theorem flag_ne_zero : ∀ bit : Fin 8, (0x80 >>> UInt8.ofNat bit.val : UInt8) ≠ 0 := by
  decide

/-- Setting a bit of a byte leaves the other ones. -/
theorem flag_or (byte : UInt8) {set bit : Nat} (setSmall : set < 8) (bitSmall : bit < 8) :
    ((byte ||| (0x80 >>> UInt8.ofNat set)) &&& (0x80 >>> UInt8.ofNat bit) ≠ 0)
      ↔ (byte &&& (0x80 >>> UInt8.ofNat bit) ≠ 0 ∨ bit = set) := by
  have spread : (byte ||| (0x80 >>> UInt8.ofNat set)) &&& (0x80 >>> UInt8.ofNat bit)
      = byte &&& (0x80 >>> UInt8.ofNat bit)
        ||| (0x80 >>> UInt8.ofNat set) &&& (0x80 >>> UInt8.ofNat bit) :=
    UInt8.toBitVec_inj.1 BitVec.and_or_distrib_right
  rw [spread, Ne, UInt8.or_eq_zero_iff, not_and_or]
  by_cases same : bit = set
  · subst same
    have present := flag_ne_zero ⟨bit, bitSmall⟩
    rw [UInt8.and_self]
    exact ⟨fun _ => Or.inr rfl, fun _ => Or.inr present⟩
  · have apart := flags_apart ⟨set, setSmall⟩ ⟨bit, bitSmall⟩ fun equal =>
      same (Fin.mk.inj equal).symm
    rw [apart]
    simp [same]

/-- A cell that is carried in its row is as wide as its type, and so is a reference. -/
theorem inlineCell_width {value : PropertyValue} {cell : Bytes} {size : Nat}
    (inline : inlineCell value = some cell)
    (width : columnWidth value.propertyType = .ok size) : cell.length = size := by
  cases value <;> simp_all [inlineCell, columnWidth, PropertyValue.propertyType] <;>
    subst_vars <;> simp

theorem reference_width {value : PropertyValue} {data : Bytes} {size : Nat}
    (kept : inlineCell value = none) (bytes : cellVariableBytes value = .ok data)
    (width : columnWidth value.propertyType = .ok size) : size = 4 := by
  cases value <;>
    simp_all [inlineCell, cellVariableBytes, columnWidth, PropertyValue.propertyType]

/-- Writing a value writes a cell of the width of its type, and marks its column. -/
theorem writeTableValue_patches {row row' : Bytes} {propertyId : Nat} {value : PropertyValue}
    {cells cells' : List Bytes}
    (write : writeTableValue row columns propertyId value cells = .ok (row', cells')) :
    ∃ column cell patched, findColumn columns propertyId = .ok column
      ∧ (∀ size, columnWidth value.propertyType = .ok size → cell.length = size)
      ∧ writeRowBytes row column.offset cell = .ok patched
      ∧ markColumn patched columns propertyId = .ok row' := by
  obtain ⟨column, found, write⟩ := bind_eq_ok.mp write
  obtain ⟨_, -, found⟩ := bind_eq_ok.mp found
  cases inline : inlineCell value with
  | some cell =>
      rw [inline] at write
      obtain ⟨patched, wrote, write⟩ := bind_eq_ok.mp write
      obtain ⟨marked, mark, same⟩ := bind_eq_ok.mp write
      cases same
      exact ⟨column, cell, patched, found, fun size => inlineCell_width inline, wrote, mark⟩
  | none =>
      rw [inline] at write
      obtain ⟨data, bytes, write⟩ := bind_eq_ok.mp write
      have four : ∀ word size, columnWidth value.propertyType = .ok size →
          (leBytes 4 word).length = size := by
        intro word size width
        rw [length_leBytes, reference_width inline bytes width]
      split at write
      · obtain ⟨patched, wrote, write⟩ := bind_eq_ok.mp write
        obtain ⟨marked, mark, same⟩ := bind_eq_ok.mp write
        cases same
        exact ⟨column, _, patched, found, four 0, wrote, mark⟩
      · obtain ⟨allocation, -, write⟩ := bind_eq_ok.mp write
        obtain ⟨heapId, -, write⟩ := bind_eq_ok.mp write
        obtain ⟨patched, wrote, write⟩ := bind_eq_ok.mp write
        obtain ⟨marked, mark, same⟩ := bind_eq_ok.mp write
        cases same
        exact ⟨column, _, patched, found, four heapId.value, wrote, mark⟩

/-- Marking a column sets its bit. -/
theorem markColumn_bits {row row' : Bytes} {column : TableColumnDescriptor} {propertyId : Nat}
    (found : findColumn columns propertyId = .ok column)
    (mark : markColumn row columns propertyId = .ok row') :
    (∀ position < row.length - divCeil columns.length 8, row'[position]? = row[position]?)
      ∧ ∀ bit, existenceBit row' (row.length - divCeil columns.length 8) bit
        = (existenceBit row (row.length - divCeil columns.length 8) bit
          || decide (bit = column.existenceBitmapIndex)) := by
  obtain ⟨same, isColumn, mark⟩ := bind_eq_ok.mp mark
  rw [found] at isColumn
  cases isColumn
  obtain ⟨bitmap, isBitmap, mark⟩ := bind_eq_ok.mp mark
  obtain ⟨byte, isByte, same⟩ := bind_eq_ok.mp mark
  cases same
  obtain ⟨rfl, -⟩ := checkedSub_eq_some.mp (okOr_eq_ok.mp isBitmap)
  have isByte := okOr_eq_ok.mp isByte
  have inside := (List.getElem?_eq_some_iff.mp isByte).1
  have fits : row.length - divCeil columns.length 8 + column.existenceBitmapIndex / 8
      + [byte ||| 0x80 >>> UInt8.ofNat (column.existenceBitmapIndex % 8)].length ≤ row.length :=
    inside
  constructor
  · intro position before
    exact patchBytes_outside fits (Or.inl (by omega))
  · intro bit
    by_cases same : bit / 8 = column.existenceBitmapIndex / 8
    · have set := Nat.mod_lt column.existenceBitmapIndex (by decide : 0 < 8)
      have asked := Nat.mod_lt bit (by decide : 0 < 8)
      have flags := flag_or byte set asked
      have equal : bit = column.existenceBitmapIndex
          ↔ bit % 8 = column.existenceBitmapIndex % 8 := by omega
      rw [existenceBit, existenceBit, same, patchBytes_single inside, isByte, Option.any_some,
        Option.any_some, Bool.eq_iff_iff, Bool.or_eq_true, decide_eq_true_eq, decide_eq_true_eq,
        decide_eq_true_eq, equal]
      exact flags
    · have other : row.length - divCeil columns.length 8 + bit / 8
          < row.length - divCeil columns.length 8 + column.existenceBitmapIndex / 8
        ∨ row.length - divCeil columns.length 8 + column.existenceBitmapIndex / 8
            + [byte ||| 0x80 >>> UInt8.ofNat (column.existenceBitmapIndex % 8)].length
          ≤ row.length - divCeil columns.length 8 + bit / 8 := by
        rw [List.length_singleton]
        omega
      have different : bit ≠ column.existenceBitmapIndex := by
        rintro rfl
        exact same rfl
      rw [existenceBit, patchBytes_outside fits other, decide_eq_false different, Bool.or_false,
        existenceBit]

end Writing

/-- The order of a schema does not matter for what it has. -/
theorem Structural.sorted (structural : Structural specs) :
    Structural (sortByKey (·.2) specs) := by
  have perm := sortByKey_perm (·.2) specs
  obtain ⟨first, rowId, firstFour⟩ := structural.rowId
  obtain ⟨second, version, secondFour⟩ := structural.version
  exact {
    distinct := (perm.map (·.2)).nodup_iff.mpr structural.distinct
    rowId := ⟨first, perm.mem_iff.mpr rowId, firstFour⟩
    version := ⟨second, perm.mem_iff.mpr version, secondFour⟩ }

/-- The columns of a schema whose identifier and version have four bytes each do not overlap and
lie in their groups, each has a bit of its own in the bitmap, and writing a cell changes its bytes
and its bit alone. -/
theorem schemaColumns_layout (structural : Structural specs)
    (made : schemaColumns specs = .ok columns) :
    columns.Pairwise Apart
      ∧ columns.Pairwise (fun first second =>
          first.existenceBitmapIndex ≠ second.existenceBitmapIndex)
      ∧ (∀ column ∈ columns, column.existenceBitmapIndex < columns.length)
      ∧ columns.length ≤ 8 * divCeil columns.length 8
      ∧ ∃ layout, rowLayout columns = .ok layout
        ∧ layout.endBitmap = layout.end1Byte + divCeil columns.length 8
        ∧ (∀ column ∈ columns, columnWidth column.propType = .ok column.size
          ∧ if column.propType = .boolean then
              layout.end2Byte ≤ column.offset ∧ column.offset + column.size ≤ layout.end1Byte
            else if column.propType = .integer16 then
              layout.end4Byte ≤ column.offset ∧ column.offset + column.size ≤ layout.end2Byte
            else column.offset + column.size ≤ layout.end4Byte)
        ∧ ∀ column ∈ columns, ∀ value : PropertyValue, value.propertyType = column.propType →
          ∀ (row row' : Bytes) (cells cells' : List Bytes), row.length = layout.endBitmap →
            writeTableValue row columns column.propId value cells = .ok (row', cells') →
              row'.length = row.length
                ∧ (∀ position < layout.end1Byte,
                    position < column.offset ∨ column.offset + column.size ≤ position →
                      row'[position]? = row[position]?)
                ∧ ∀ bit, existenceBit row' layout.end1Byte bit
                  = (existenceBit row layout.end1Byte bit
                    || decide (bit = column.existenceBitmapIndex)) := by
  obtain ⟨wideTo, wordTo, flagTo, cells⟩ := schemaColumns_cells made
  have sorted := structural.sorted
  obtain ⟨layout, small⟩ := cells.layout sorted
  obtain ⟨low, middle, high⟩ := cells.le
  obtain ⟨distinct, few⟩ := cells.distinctBits sorted
  have bitmap : columns.length ≤ 8 * divCeil columns.length 8 := by
    rw [Nat.mul_comm]
    exact le_divCeil_mul columns.length (by decide)
  have groups : ∀ column ∈ columns, (column.propType = .boolean →
        wordTo ≤ column.offset ∧ column.offset + column.size ≤ flagTo)
      ∧ (column.propType = .integer16 →
        wideTo ≤ column.offset ∧ column.offset + column.size ≤ wordTo)
      ∧ (column.propType ≠ .boolean → column.propType ≠ .integer16 →
        column.offset + column.size ≤ wideTo) := by
    intro column member
    have width := cells.widths column member
    have size := cells.structuralSize sorted member
    rcases cells.group member with ⟨own, at_⟩ | ⟨chosen, inside⟩ | ⟨chosen, inside⟩ |
      ⟨chosen, inside⟩
    · rw [size own] at width
      refine ⟨fun flag => ?_, fun word => ?_, fun _ _ => ?_⟩
      · rw [flag] at width
        cases width
      · rw [word] at width
        cases width
      · rw [size own]
        split at at_ <;> omega
    · simp only [isWideCell, Bool.and_eq_true, Bool.not_eq_true', decide_eq_false_iff_not,
        not_or] at chosen
      exact ⟨fun flag => absurd flag chosen.2.2, fun word => absurd word chosen.2.1,
        fun _ _ => inside.2⟩
    · simp only [isWordCell, Bool.and_eq_true, decide_eq_true_eq] at chosen
      refine ⟨fun flag => ?_, fun _ => inside, fun _ notWord => absurd chosen.2 notWord⟩
      rw [flag] at chosen
      cases chosen.2
    · simp only [isFlagCell, Bool.and_eq_true, decide_eq_true_eq] at chosen
      refine ⟨fun _ => inside, fun word => ?_, fun notFlag => absurd chosen.2 notFlag⟩
      rw [word] at chosen
      cases chosen.2
  refine ⟨cells.apart sorted, distinct, few, bitmap, _, layout, rfl, ?_, ?_⟩
  · intro column member
    obtain ⟨flags, words, wide⟩ := groups column member
    refine ⟨cells.widths column member, ?_⟩
    split
    · exact flags ‹_›
    split
    · exact words ‹_›
    · exact wide ‹_› ‹_›
  · intro column member value sameType row row' stored stored' long write
    obtain ⟨found, cell, patched, isFound, sized, wrote, mark⟩ := writeTableValue_patches write
    have equal : found = column := by
      have listed := okOr_eq_ok.mp isFound
      have foundMem := List.mem_of_find?_eq_some listed
      have sameId : found.propId = column.propId := by simpa using List.find?_some listed
      have ids : (columns.map (·.propId)).Nodup :=
        List.pairwise_map.mpr (cells.ids sorted.distinct)
      exact List.inj_on_of_nodup_map ids foundMem member sameId
    subst equal
    have cellSize : cell.length = found.size := sized _ (by
      rw [sameType]
      exact cells.widths found member)
    obtain ⟨inside, rfl⟩ := writeRowBytes_ok.mp wrote
    have patchedLength := length_patchBytes inside
    have start : (patchBytes row found.offset cell).length - divCeil columns.length 8 = flagTo := by
      rw [patchedLength, long, Nat.add_sub_cancel]
    have ends : found.offset + found.size ≤ flagTo := by
      obtain ⟨flags, words, wide⟩ := groups found member
      by_cases flag : found.propType = .boolean
      · exact (flags flag).2
      by_cases word : found.propType = .integer16
      · exact (words word).2.trans high
      · exact (wide flag word).trans (middle.trans high)
    obtain ⟨kept, bits⟩ := markColumn_bits isFound mark
    rw [start] at kept bits
    refine ⟨(length_markColumn mark).trans patchedLength, ?_, ?_⟩
    · intro position before outside
      rw [kept position before]
      rw [← cellSize] at outside
      exact patchBytes_outside inside outside
    · intro bit
      rw [bits bit]
      congr 1
      rw [existenceBit, existenceBit, patchBytes_outside inside (Or.inr (by omega))]

/-- A schema with a cell in every group. -/
def fourGroups : List (PropertyType × Nat) :=
  [(.boolean, 0x0E1B), (.integer32, ltpRowIdPropId), (.unicode, 0x3001), (.integer16, 0x0E20),
    (.time, 0x3008), (.integer32, ltpRowVersionPropId)]

theorem schemaColumns_layout_fourGroups : ∃ columns : List TableColumnDescriptor,
    columns.Pairwise Apart := by
  have structural : Structural fourGroups := {
    distinct := by decide
    rowId := ⟨.integer32, by decide, rfl⟩
    version := ⟨.integer32, by decide, rfl⟩ }
  have succeeds : (schemaColumns fourGroups).toBool = true := by decide +kernel
  obtain ⟨columns, made⟩ := exists_ok succeeds
  exact ⟨columns, (schemaColumns_layout structural made).1⟩

/-- An identifier of eight bytes would lie under the version of its row. -/
theorem wideRowId_overlaps : ¬ ∀ (specs : List (PropertyType × Nat))
    (columns : List TableColumnDescriptor), (specs.map (·.2)).Nodup →
      (∃ kind, (kind, ltpRowIdPropId) ∈ specs) → (∃ kind, (kind, ltpRowVersionPropId) ∈ specs) →
        schemaColumns specs = .ok columns → columns.Pairwise Apart := by
  intro claim
  have made : schemaColumns [(.integer64, ltpRowIdPropId), (.integer32, ltpRowVersionPropId)]
      = .ok [⟨.integer64, ltpRowIdPropId, 0, 8, 0⟩, ⟨.integer32, ltpRowVersionPropId, 4, 4,
        1⟩] := by
    decide +kernel
  have apart := claim _ _ (by decide) ⟨.integer64, by decide⟩ ⟨.integer32, by decide⟩ made
  have overlap := List.rel_of_pairwise_cons apart List.mem_cons_self
  unfold Apart at overlap
  exact absurd overlap (by decide)

end Schema

end PstForge.Ltp
