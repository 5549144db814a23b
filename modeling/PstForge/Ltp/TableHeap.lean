import PstForge.Ltp.Accounts
import PstForge.Ltp.PropertyHeap
import PstForge.Ndb.SubnodeTree

/-! # Table contexts read back

The first page of a table names its header, which names the index of the rows and their matrix.
Each reference in a cell leads to the bytes of its value. This holds of both forms. As with
property contexts, only the external form keeps every allocation within the limit of the format.
-/

namespace PstForge.Ltp

open PstForge.Foundation PstForge.Ndb

section Cells

variable {find find' : HeapId → Option Bytes}

/-- The bytes of a cell, which carry the value or refer to its bytes. A word that is no heap
identifier refers to a subnode, which is only made for what no allocation may hold. -/
def CellStored (find : HeapId → Option Bytes) (value : PropertyValue) (cell : Bytes) : Prop :=
  match inlineCell value with
  | some inline => cell = inline
  | none => ∃ data, cellVariableBytes value = .ok data ∧
      if data = [] then cell = leBytes 4 0
      else find ⟨leValue cell⟩ = some data ∨
        (maxHeapAllocation < data.length ∧ leValue cell % 32 ≠ 0)

/-- A row in which the cells of some values were written, one after another. -/
def CellsStored (find : HeapId → Option Bytes) (columns : List TableColumnDescriptor) :
    (row : Bytes) → Properties → (final : Bytes) → Prop
  | row, [], final => final = row
  | row, (propertyId, value) :: rest, final => ∃ column cell marked,
      findColumn columns propertyId = .ok column ∧ CellStored find value cell ∧
        column.offset + cell.length ≤ row.length ∧
        markColumn (patchBytes row column.offset cell) columns propertyId = .ok marked ∧
          CellsStored find columns marked rest final

/-- A row of the matrix, with its identifier, its version and its cells. -/
def RowStored (find : HeapId → Option Bytes) (layout : RowLayout)
    (columns : List TableColumnDescriptor) (row : TableRowSpec) (final : Bytes) : Prop :=
  ∃ start, startRow layout columns row.id = .ok start ∧
    CellsStored find columns start row.values final

/-- The references of a table header: the index of the rows, and their matrix. -/
def readTableInfo (table : Bytes) : HeapId × Nat :=
  (⟨leValue ((table.drop 10).take 4)⟩, leValue ((table.drop 14).take 4))

/-- The pages of a heap hold a table, whose row matrix is read under its reference. -/
def TableStored (pages : List Bytes) (matrixOf : (word width : Nat) → Option Bytes)
    (columns : List TableColumnDescriptor) (rows : List TableRowSpec) : Prop :=
  ∃ root table layout records finals, userRoot pages = some root ∧
    findEntry pages root = some table ∧ rowLayout columns = .ok layout ∧
    readTree (findEntry pages) 4 4 (readTableInfo table).1 = some records ∧
    rowIndexRecords (sortByKey (·.id.value) rows) = .ok records.flatten ∧
    List.Forall₂ (RowStored (findEntry pages) layout columns) (sortByKey (·.id.value) rows) finals ∧
    (rows ≠ [] → matrixOf (readTableInfo table).2 layout.endBitmap = some finals.flatten)

/-- The bytes that some cell of a list of values keeps outside its row. -/
def CellValue (values : Properties) (bytes : Bytes) : Prop :=
  ∃ property ∈ values, inlineCell property.2 = none ∧
    cellVariableBytes property.2 = .ok bytes ∧ bytes ≠ []

theorem CellStored.mono {value : PropertyValue} {cell : Bytes} (stored : CellStored find value cell)
    (extends' : Extends find find') : CellStored find' value cell := by
  unfold CellStored at stored ⊢
  split
  · rename_i inline hinline
    rwa [hinline] at stored
  · rename_i hinline
    rw [hinline] at stored
    obtain ⟨data, hdata, word⟩ := stored
    refine ⟨data, hdata, ?_⟩
    split
    · rename_i empty
      rwa [if_pos empty] at word
    · rename_i nonempty
      rw [if_neg nonempty] at word
      exact word.imp_left fun found => extends' _ _ found

theorem CellsStored.mono {columns : List TableColumnDescriptor} {values : Properties} :
    ∀ {row final : Bytes}, CellsStored find columns row values final → Extends find find' →
      CellsStored find' columns row values final := by
  induction values with
  | nil => exact fun stored _ => stored
  | cons property rest ih =>
      intro row final stored extends'
      obtain ⟨column, cell, marked, hcolumn, here, inside, hmark, later⟩ := stored
      exact ⟨column, cell, marked, hcolumn, here.mono extends', inside, hmark, ih later extends'⟩

theorem RowStored.mono {layout : RowLayout} {columns : List TableColumnDescriptor}
    {row : TableRowSpec} {final : Bytes} (stored : RowStored find layout columns row final)
    (extends' : Extends find find') : RowStored find' layout columns row final := by
  obtain ⟨start, hstart, cells⟩ := stored
  exact ⟨start, hstart, cells.mono extends'⟩

theorem cellStored_inline {value : PropertyValue} {inline : Bytes}
    (hinline : inlineCell value = some inline) : CellStored find value inline := by
  rw [CellStored, hinline]

theorem cellStored_empty {value : PropertyValue} (hinline : inlineCell value = none)
    (hdata : cellVariableBytes value = .ok []) : CellStored find value (leBytes 4 0) := by
  rw [CellStored, hinline]
  exact ⟨[], hdata, by rw [if_pos rfl]⟩

theorem cellStored_reference {value : PropertyValue} {data : Bytes} {id : HeapId}
    (hinline : inlineCell value = none) (hdata : cellVariableBytes value = .ok data)
    (nonempty : data ≠ []) (valid : id.Valid) (found : find id = some data) :
    CellStored find value (leBytes 4 id.value) := by
  rw [CellStored, hinline]
  refine ⟨data, hdata, ?_⟩
  rw [if_neg nonempty, leValue_leBytes valid.small]
  exact .inl found

theorem cellStored_subnode {value : PropertyValue} {data : Bytes} {index : Nat} {id : NodeId}
    (hinline : inlineCell value = none) (hdata : cellVariableBytes value = .ok data)
    (large : maxHeapAllocation < data.length) (hid : node .listsTablesProperties index = .ok id) :
    CellStored find value (leBytes 4 id.value) := by
  have nonempty : data ≠ [] := by
    rintro rfl
    exact absurd large (Nat.not_lt_zero _)
  have kind : leValue (leBytes 4 id.value) % 32 = 31 := by
    obtain ⟨small, rfl⟩ := node_eq_ok.mp hid
    have word : index * 32 + NodeIdType.listsTablesProperties.code < 256 ^ 4 := by
      rw [NodeIdType.code]
      omega
    rw [leValue_leBytes word, NodeIdType.code]
    omega
  rw [CellStored, hinline]
  refine ⟨data, hdata, ?_⟩
  rw [if_neg nonempty, kind]
  exact .inr ⟨large, by decide⟩

theorem writeRowBytes_ok {row value written : Bytes} {offset : Nat} :
    writeRowBytes row offset value = .ok written ↔
      offset + value.length ≤ row.length ∧ written = patchBytes row offset value := by
  simp only [writeRowBytes, bind_eq_ok, refuse_eq_ok, Nat.not_lt]
  constructor
  · rintro ⟨_, inside, hpure⟩
    cases hpure
    exact ⟨inside, rfl⟩
  · rintro ⟨inside, rfl⟩
    exact ⟨(), inside, rfl⟩

theorem length_markColumn {row marked : Bytes} {columns : List TableColumnDescriptor}
    {propertyId : Nat} (hmark : markColumn row columns propertyId = .ok marked) :
    marked.length = row.length := by
  simp only [markColumn, bind_eq_ok, okOr_eq_ok] at hmark
  obtain ⟨column, -, start, -, byte, hbyte, hpure⟩ := hmark
  cases hpure
  have inside := (List.getElem?_eq_some_iff.mp hbyte).1
  exact length_patchBytes inside

theorem length_startRow {layout : RowLayout} {columns : List TableColumnDescriptor} {id : NodeId}
    {start : Bytes} (hstart : startRow layout columns id = .ok start) :
    start.length = layout.endBitmap := by
  simp only [startRow, bind_eq_ok, refuse_eq_ok, Nat.not_lt] at hstart
  obtain ⟨_, long, first, hfirst, hlast⟩ := hstart
  rw [length_markColumn hlast, length_markColumn hfirst, List.length_append, List.length_append,
    length_leBytes, length_leBytes, List.length_replicate]
  omega

theorem CellsStored.length {columns : List TableColumnDescriptor} {values : Properties} :
    ∀ {row final : Bytes}, CellsStored find columns row values final →
      final.length = row.length := by
  induction values with
  | nil =>
      rintro row final rfl
      rfl
  | cons property rest ih =>
      intro row final stored
      obtain ⟨column, cell, marked, -, -, inside, hmark, later⟩ := stored
      rw [ih later, length_markColumn hmark, length_patchBytes inside]

theorem RowStored.length {layout : RowLayout} {columns : List TableColumnDescriptor}
    {row : TableRowSpec} {final : Bytes} (stored : RowStored find layout columns row final) :
    final.length = layout.endBitmap := by
  obtain ⟨start, hstart, cells⟩ := stored
  rw [cells.length, length_startRow hstart]

theorem RowStored.wide {layout : RowLayout} {columns : List TableColumnDescriptor}
    {row : TableRowSpec} {final : Bytes} (stored : RowStored find layout columns row final) :
    8 ≤ layout.endBitmap := by
  obtain ⟨start, hstart, -⟩ := stored
  simp only [startRow, bind_eq_ok, refuse_eq_ok, Nat.not_lt] at hstart
  exact hstart.choose_spec.1

theorem cellValue_cons {property : Nat × PropertyValue} {values : Properties} {bytes : Bytes} :
    CellValue (property :: values) bytes ↔
      (inlineCell property.2 = none ∧ cellVariableBytes property.2 = .ok bytes ∧ bytes ≠ []) ∨
        CellValue values bytes := by
  simp only [CellValue, List.exists_mem_cons_iff]

end Cells

section Compact

variable {columns : List TableColumnDescriptor} {row row' : Bytes} {cells cells' : List Bytes}

/-- The entries of a compact table with some variable cells. -/
def compactEntries (front : List Bytes) (cells : List Bytes) : HeapId → Option Bytes :=
  entryOf [front ++ cells]

theorem compactEntries_extends (front cells more : List Bytes) :
    Extends (compactEntries front cells) (compactEntries front (cells ++ more)) := by
  refine extends_entryOf fun index allocations page => ?_
  cases index with
  | zero =>
      rw [List.getElem?_cons_zero, Option.some.injEq] at page
      exact ⟨more, by rw [List.getElem?_cons_zero, ← page, List.append_assoc]⟩
  | succ index => simp at page

/-- A cell of a compact table refers to the allocation behind the four of the table itself. -/
theorem writeTableValue_ok {front : List Bytes} (four : front.length = 4) {propertyId : Nat}
    {value : PropertyValue}
    (hwrite : writeTableValue row columns propertyId value cells = .ok (row', cells')) :
    ∃ more column cell, cells' = cells ++ more ∧ findColumn columns propertyId = .ok column ∧
      CellStored (compactEntries front cells') value cell ∧
      column.offset + cell.length ≤ row.length ∧
      markColumn (patchBytes row column.offset cell) columns propertyId = .ok row' ∧
      ∀ bytes, bytes ∈ more ↔
        inlineCell value = none ∧ cellVariableBytes value = .ok bytes ∧ bytes ≠ [] := by
  simp only [writeTableValue, cellColumn, bind_eq_ok] at hwrite
  obtain ⟨column, ⟨_, -, hcolumn⟩, hwrite⟩ := hwrite
  cases hinline : inlineCell value with
  | some inline =>
      simp only [hinline, bind_eq_ok, writeRowBytes_ok] at hwrite
      obtain ⟨_, ⟨inside, rfl⟩, marked, hmark, hpure⟩ := hwrite
      cases hpure
      refine ⟨[], column, inline, (List.append_nil _).symm, hcolumn, cellStored_inline hinline,
        inside, hmark, ?_⟩
      simp
  | none =>
      simp only [hinline, bind_eq_ok] at hwrite
      obtain ⟨data, hdata, hwrite⟩ := hwrite
      split at hwrite
      · rename_i empty
        obtain rfl := List.isEmpty_iff.mp empty
        simp only [bind_eq_ok, writeRowBytes_ok] at hwrite
        obtain ⟨_, ⟨inside, rfl⟩, marked, hmark, hpure⟩ := hwrite
        cases hpure
        refine ⟨[], column, _, (List.append_nil _).symm, hcolumn, cellStored_empty hinline hdata,
          inside, hmark, fun bytes => ?_⟩
        rw [hdata]
        constructor
        · exact fun member => absurd member List.not_mem_nil
        · rintro ⟨-, same, nonempty⟩
          cases same
          exact absurd rfl nonempty
      · rename_i nonempty
        rw [List.isEmpty_iff] at nonempty
        simp only [bind_eq_ok, okOr_eq_ok, tryFrom_eq_some, writeRowBytes_ok] at hwrite
        obtain ⟨_, ⟨rfl, -⟩, id, hid, _, ⟨inside, rfl⟩, marked, hmark, hpure⟩ := hwrite
        cases hpure
        obtain ⟨valid, block, index⟩ := ofIndex_ok hid (by omega) (by decide)
        have found : compactEntries front (cells ++ [data]) id = some data := by
          have position : 4 + (cells ++ [data]).length - 1 = front.length + cells.length := by
            rw [four, List.length_append, List.length_singleton]
            omega
          have there : (front ++ (cells ++ [data]))[front.length + cells.length]? = some data := by
            rw [List.getElem?_append_right (Nat.le_add_right _ _), Nat.add_sub_cancel_left,
              List.getElem?_append_right (Nat.le_refl _), Nat.sub_self]
            rfl
          rw [compactEntries, entryOf, block, index, position]
          exact there
        refine ⟨[data], column, _, rfl, hcolumn,
          cellStored_reference hinline hdata nonempty valid found, inside, hmark, fun bytes => ?_⟩
        rw [hdata, List.mem_singleton]
        constructor
        · rintro rfl
          exact ⟨rfl, rfl, nonempty⟩
        · rintro ⟨-, same, -⟩
          cases same
          rfl

theorem writeTableRow_ok {front : List Bytes} (four : front.length = 4) {values : Properties} :
    ∀ {row row' : Bytes} {cells cells' : List Bytes},
      writeTableRow columns row cells values = .ok (row', cells') →
        ∃ more, cells' = cells ++ more ∧ CellsStored (compactEntries front cells') columns row
          values row' ∧
          ∀ bytes, bytes ∈ more ↔ CellValue values bytes := by
  induction values with
  | nil =>
      intro row row' cells cells' hwrite
      cases hwrite
      exact ⟨[], (List.append_nil _).symm, rfl, by simp [CellValue]⟩
  | cons property rest ih =>
      intro row row' cells cells' hwrite
      obtain ⟨propertyId, value⟩ := property
      simp only [writeTableRow, bind_eq_ok] at hwrite
      obtain ⟨⟨marked, middle⟩, hvalue, hrest⟩ := hwrite
      obtain ⟨more, column, cell, rfl, hcolumn, here, inside, hmark, same⟩ :=
        writeTableValue_ok four hvalue
      obtain ⟨more', rfl, later, same'⟩ := ih hrest
      have kept := here.mono (compactEntries_extends front (cells ++ more) more')
      refine ⟨more ++ more', List.append_assoc _ _ _,
        ⟨column, cell, marked, hcolumn, kept, inside, hmark, later⟩, fun bytes => ?_⟩
      rw [List.mem_append, same, same', cellValue_cons]

/-- The rows of a compact table, and the allocations that their cells refer to. -/
theorem writeTableRows_ok {front : List Bytes} (four : front.length = 4) {layout : RowLayout}
    {rows : List TableRowSpec} : ∀ {matrix : Bytes} {cells cells' : List Bytes},
      writeTableRows layout columns cells rows = .ok (matrix, cells') →
        ∃ more finals, cells' = cells ++ more ∧ matrix = finals.flatten ∧
          List.Forall₂ (RowStored (compactEntries front cells') layout columns) rows finals ∧
          ∀ bytes, bytes ∈ more ↔ ∃ row ∈ rows, CellValue row.values bytes := by
  induction rows with
  | nil =>
      intro matrix cells cells' hwrite
      cases hwrite
      exact ⟨[], [], (List.append_nil _).symm, rfl, .nil, by simp⟩
  | cons row rest ih =>
      intro matrix cells cells' hwrite
      simp only [writeTableRows, bind_eq_ok] at hwrite
      obtain ⟨start, hstart, ⟨final, middle⟩, hrow, ⟨others, last⟩, hrest, hpure⟩ := hwrite
      cases hpure
      obtain ⟨more, rfl, here, same⟩ := writeTableRow_ok four hrow
      obtain ⟨more', finals, rfl, rfl, later, same'⟩ := ih hrest
      have kept := here.mono (compactEntries_extends front (cells ++ more) more')
      refine ⟨more ++ more', final :: finals, List.append_assoc _ _ _, rfl,
        .cons ⟨start, hstart, kept⟩ later, fun bytes => ?_⟩
      rw [List.mem_append, same, same', List.exists_mem_cons_iff]

/-- The references of a table header are read as they were written. -/
theorem tableContextInfo_ok {layout : RowLayout} {rowIndex : HeapId} {rows : Nat} {table : Bytes}
    (valid : rowIndex.Valid) (small : rows < 256 ^ 4)
    (hinfo : tableContextInfo layout rowIndex rows columns = .ok table) :
    readTableInfo table = (rowIndex, rows) ∧ table.length ≤ maxHeapAllocation := by
  simp only [tableContextInfo, bind_eq_ok, refuse_eq_ok, Nat.not_lt] at hinfo
  obtain ⟨_, few, _, -, _, -, _, -, _, -, _, -, hpure⟩ := hinfo
  cases hpure
  have front : ([UInt8.ofNat HeapNodeType.table.code, UInt8.ofNat columns.length] ++
      leBytes 2 layout.end4Byte ++ leBytes 2 layout.end2Byte ++ leBytes 2 layout.end1Byte ++
      leBytes 2 layout.endBitmap).length = 10 := by
    simp
  generalize [UInt8.ofNat HeapNodeType.table.code, UInt8.ofNat columns.length] ++
      leBytes 2 layout.end4Byte ++ leBytes 2 layout.end2Byte ++ leBytes 2 layout.end1Byte ++
      leBytes 2 layout.endBitmap = header at *
  have index (back : Bytes) :
    leValue (((header ++ leBytes 4 rowIndex.value ++ back).drop 10).take 4) =
      rowIndex.value := by
    rw [List.append_assoc, List.drop_left' front, List.take_left' (length_leBytes 4 _),
      leValue_leBytes valid.small]
  have matrix (back : Bytes) : leValue (((header ++ leBytes 4 rowIndex.value ++ leBytes 4 rows ++
      back).drop 14).take 4) = rows := by
    have both : (header ++ leBytes 4 rowIndex.value).length = 14 := by
      rw [List.length_append, front, length_leBytes]
    rw [List.append_assoc, List.drop_left' both, List.take_left' (length_leBytes 4 _),
      leValue_leBytes small]
  constructor
  · have indexRead := index (leBytes 4 rows ++ (leBytes 4 0 ++ columns.flatMap fun column =>
      leBytes 2 column.propType.code ++ leBytes 2 column.propId ++ leBytes 2 column.offset ++
        [UInt8.ofNat column.size, UInt8.ofNat column.existenceBitmapIndex]))
    have matrixRead := matrix (leBytes 4 0 ++ columns.flatMap fun column =>
      leBytes 2 column.propType.code ++ leBytes 2 column.propId ++ leBytes 2 column.offset ++
        [UInt8.ofNat column.size, UInt8.ofNat column.existenceBitmapIndex])
    rw [← List.append_assoc, ← List.append_assoc] at indexRead
    rw [← List.append_assoc] at matrixRead
    rw [readTableInfo, indexRead, matrixRead]
  · have each : ∀ column ∈ columns, (leBytes 2 column.propType.code ++ leBytes 2 column.propId ++
        leBytes 2 column.offset ++
          [UInt8.ofNat column.size, UInt8.ofNat column.existenceBitmapIndex]).length = 8 := by
      simp
    have described : (columns.flatMap fun column =>
        leBytes 2 column.propType.code ++ leBytes 2 column.propId ++ leBytes 2 column.offset ++
          [UInt8.ofNat column.size, UInt8.ofNat column.existenceBitmapIndex]).length =
            columns.length * 8 := by
      rw [List.length_flatMap, List.map_congr_left each, List.map_const', List.sum_replicate,
        smul_eq_mul]
    simp only [List.length_append] at described ⊢
    rw [described, front, length_leBytes, length_leBytes, length_leBytes, maxHeapAllocation]
    omega

/-- The index of the rows is made of records of eight bytes, one for each row. -/
theorem rowIndexRecords_ok {rows : List TableRowSpec} {leaf : Bytes}
    (hleaf : rowIndexRecords rows = .ok leaf) : ∃ records : List Bytes, leaf = records.flatten ∧
      records.length = rows.length ∧ ∀ record ∈ records, record.length = 8 := by
  simp only [rowIndexRecords, bind_eq_ok] at hleaf
  obtain ⟨records, hrecords, hpure⟩ := hleaf
  cases hpure
  have length := (forall₂_of_mapM_ok hrecords).length_eq
  rw [List.length_zipIdx] at length
  refine ⟨records, rfl, length.symm, fun record member => ?_⟩
  obtain ⟨⟨row, index⟩, -, hrecord⟩ := exists_of_mem_mapM_ok hrecords member
  obtain ⟨encoded, -, hpure⟩ := bind_eq_ok.mp hrecord
  cases hpure
  rw [List.length_append, length_leBytes, length_leBytes]

theorem length_flatten_full {size : Nat} {pieces : List Bytes}
    (full : ∀ piece ∈ pieces, piece.length = size) :
      pieces.flatten.length = pieces.length * size := by
  rw [List.length_flatten, List.map_congr_left full, List.map_const', List.sum_replicate,
    smul_eq_mul]

/-- What has to be small for the compact form of a table to keep within the limit. -/
def CompactTable (columns : List TableColumnDescriptor) (rows : List TableRowSpec) : Prop :=
  rows.length * 8 ≤ maxHeapAllocation ∧
    (∀ layout, rowLayout columns = .ok layout → rows.length * layout.endBitmap ≤
      maxHeapAllocation) ∧
    ∀ row ∈ rows, ∀ bytes, CellValue row.values bytes → bytes.length ≤ maxHeapAllocation

/-- The compact form of a table without rows. -/
theorem emptyTable_stored {layout : RowLayout} {rowIndex : HeapId} {table page : Bytes}
    (hlayout : rowLayout columns = .ok layout) (hrowIndex : HeapId.ofIndex 2 0 = .ok rowIndex)
    (hinfo : tableContextInfo layout rowIndex 0 columns = .ok table)
    (hpage : heapPage .table [table, heapTreeHeader 4 4 0 HeapId.none] = .ok page) :
    TableStored [page] (fun word _ => findEntry [page] ⟨word⟩) columns [] ∧ WithinLimit [page] := by
  obtain ⟨valid, block, index⟩ := ofIndex_ok hrowIndex (by decide) (by decide)
  obtain ⟨references, small⟩ := tableContextInfo_ok valid (by decide) hinfo
  have holds : HeapFrom 0 [page] [[table, heapTreeHeader 4 4 0 HeapId.none]] :=
    ⟨heapPage_pageAt hpage, trivial⟩
  have find : findEntry [page] = entryOf [[table, heapTreeHeader 4 4 0 HeapId.none]] :=
    funext holds.findEntry
  have headed : findEntry [page] rowIndex = some (heapTreeHeader 4 4 0 HeapId.none) := by
    rw [find, entryOf, block, index]
    rfl
  have read : readTree (findEntry [page]) 4 4 rowIndex = some [] := by
    rw [readTree, headed]
    rfl
  constructor
  · refine ⟨⟨32⟩, table, layout, [], [], holds.userRoot (List.cons_ne_nil _ _), ?_,
      hlayout, ?_, rfl,
      .nil, fun nonempty => absurd rfl nonempty⟩
    · rw [find]
      rfl
    · rw [references]
      exact read
  · rw [holds.withinLimit, List.forall_mem_singleton, List.forall_mem_cons,
      List.forall_mem_singleton]
    exact ⟨small, by simp [heapTreeHeader, maxHeapAllocation]⟩

/-- The compact form holds its rows, and keeps within the limit exactly when the index of the
rows, their matrix, and every cell do. -/
theorem tableContext_stored {rows : List TableRowSpec} {page : Bytes}
    (htable : tableContext columns rows = .ok page) :
    TableStored [page] (fun word _ => findEntry [page] ⟨word⟩) columns rows ∧
      (WithinLimit [page] ↔ CompactTable columns rows) := by
  simp only [tableContext, bind_eq_ok] at htable
  obtain ⟨layout, hlayout, rowIndex, hrowIndex, htable⟩ := htable
  have perm := sortByKey_perm (fun row : TableRowSpec => row.id.value) rows
  split at htable
  · rename_i empty
    simp only [bind_eq_ok] at htable
    obtain ⟨table, hinfo, hpage⟩ := htable
    have none : rows = [] := by
      rw [List.isEmpty_iff] at empty
      exact List.Perm.nil_eq (empty ▸ perm) |>.symm
    subst none
    obtain ⟨stored, within⟩ := emptyTable_stored hlayout hrowIndex hinfo hpage
    exact ⟨stored, iff_of_true within (by simp [CompactTable])⟩
  · simp only [bind_eq_ok] at htable
    obtain ⟨treeRoot, htreeRoot, matrixId, hmatrixId, table, hinfo, leaf, hleaf, ⟨matrix, cells⟩,
      hrows, hpage⟩ := htable
    obtain ⟨valid, block, index⟩ := ofIndex_ok hrowIndex (by decide) (by decide)
    obtain ⟨treeValid, treeBlock, treeIndex⟩ := ofIndex_ok htreeRoot (by decide) (by decide)
    obtain ⟨matrixValid, matrixBlock, matrixIndex⟩ := ofIndex_ok hmatrixId (by decide) (by decide)
    obtain ⟨references, small⟩ := tableContextInfo_ok valid matrixValid.small hinfo
    obtain ⟨records, rfl, recordCount, full⟩ := rowIndexRecords_ok hleaf
    have four : [table, heapTreeHeader 4 4 0 treeRoot, records.flatten, matrix].length = 4 := rfl
    obtain ⟨_, finals, rfl, rfl, stored, same⟩ := writeTableRows_ok four hrows
    have holds : HeapFrom 0 [page] [table :: heapTreeHeader 4 4 0 treeRoot :: records.flatten ::
        finals.flatten :: cells] := ⟨heapPage_pageAt hpage, trivial⟩
    have find : findEntry [page] = entryOf [table :: heapTreeHeader 4 4 0 treeRoot ::
        records.flatten :: finals.flatten :: cells] := funext holds.findEntry
    have rowSizes : ∀ final ∈ finals, final.length = layout.endBitmap := by
      intro final member
      obtain ⟨row, -, here⟩ := forall₂_mem stored member
      exact here.length
    constructor
    · have headed : findEntry [page] rowIndex = some (heapTreeHeader 4 4 0 treeRoot) := by
        rw [find, entryOf, block, index]
        rfl
      have below : descendTree (findEntry [page]) 4 0 [treeRoot] = some [treeRoot] := rfl
      have found : [treeRoot].mapM (findEntry [page]) = some [records.flatten] := by
        rw [find]
        simp [entryOf, treeBlock, treeIndex]
      have read := readTree_ok headed treeValid (by decide) below found
      rw [List.flatMap_singleton, wholeRecords (by decide) full] at read
      refine ⟨⟨32⟩, table, layout, records, finals, holds.userRoot (List.cons_ne_nil _ _), ?_,
        hlayout,
        ?_, hleaf, ?_, fun _ => ?_⟩
      · rw [find]
        rfl
      · rw [references]
        exact read
      · rw [find]
        exact stored
      · rw [references, find]
        simp [entryOf, matrixBlock, matrixIndex]
    · rw [holds.withinLimit, List.forall_mem_singleton]
      simp only [List.forall_mem_cons]
      have header : (heapTreeHeader 4 4 0 treeRoot).length ≤ maxHeapAllocation := by
        simp [heapTreeHeader, maxHeapAllocation]
      have count : finals.length = rows.length := by
        rw [← stored.length_eq, perm.length_eq]
      rw [length_flatten_full full, length_flatten_full rowSizes, count, recordCount,
        perm.length_eq]
      simp only [small, header, true_and, CompactTable, hlayout, Except.ok.injEq, forall_eq']
      refine and_congr_right fun _ => and_congr_right fun _ => ?_
      simp only [same, mem_sortByKey]
      constructor
      · exact fun limit row member bytes value => limit bytes ⟨row, member, value⟩
      · rintro limit bytes ⟨row, member, value⟩
        exact limit row member bytes value

end Compact

section External

variable {columns : List TableColumnDescriptor}

/-- The nodes of the large cells are numbered one after another. -/
structure CellsNumbered (cells : ExternalCells) : Prop where
  next : cells.nextValueNode = 0x50001 + cells.subnodes.length
  nodes : cells.subnodes.map (·.node.index) = List.range' 0x50001 cells.subnodes.length

/-- A cell of an external table refers to the heap, or to a subnode when it is too large. -/
theorem writeExternalTableValue_ok {row row' : Bytes} {propertyId : Nat} {value : PropertyValue}
    {cells cells' : ExternalCells} {counters final : Counters}
    (hrun : writeExternalTableValue row columns propertyId value cells counters =
      .ok (row', cells') final) :
    Grew cells.heapAllocations cells'.heapAllocations ∧
      (CellsNumbered cells → CellsNumbered cells') ∧
      ∃ column cell, findColumn columns propertyId = .ok column ∧
        CellStored (entryOf ([] :: cells'.heapAllocations)) value cell ∧
        column.offset + cell.length ≤ row.length ∧
        markColumn (patchBytes row column.offset cell) columns propertyId = .ok row' := by
  simp only [writeExternalTableValue, cellColumn, bind_run_ok, attempt_run_ok, bind_eq_ok] at hrun
  obtain ⟨column, _, ⟨⟨_, -, hcolumn⟩, rfl⟩, hrun⟩ := hrun
  cases hinline : inlineCell value with
  | some inline =>
      simp only [hinline, bind_run_ok, attempt_run_ok, pure_run_ok, Prod.mk.injEq,
        writeRowBytes_ok] at hrun
      obtain ⟨_, _, ⟨⟨inside, rfl⟩, rfl⟩, marked, _, ⟨hmark, rfl⟩, ⟨rfl, rfl⟩, rfl⟩ := hrun
      exact ⟨.refl _, fun numbered => numbered, column, inline, hcolumn, cellStored_inline hinline,
        inside, hmark⟩
  | none =>
      simp only [hinline, bind_run_ok, attempt_run_ok] at hrun
      obtain ⟨data, _, ⟨hdata, rfl⟩, hrun⟩ := hrun
      split at hrun
      · rename_i empty
        obtain rfl := List.isEmpty_iff.mp empty
        simp only [bind_run_ok, attempt_run_ok, pure_run_ok, Prod.mk.injEq,
          writeRowBytes_ok] at hrun
        obtain ⟨_, _, ⟨⟨inside, rfl⟩, rfl⟩, marked, _, ⟨hmark, rfl⟩, ⟨rfl, rfl⟩, rfl⟩ := hrun
        exact ⟨.refl _, fun numbered => numbered, column, _, hcolumn,
          cellStored_empty hinline hdata,
          inside, hmark⟩
      · rename_i nonempty
        rw [List.isEmpty_iff] at nonempty
        split at hrun
        · simp only [bind_run_ok, attempt_run_ok, pure_run_ok, Prod.mk.injEq,
            writeRowBytes_ok] at hrun
          obtain ⟨⟨pages, id⟩, _, ⟨hpush, rfl⟩, _, _, ⟨⟨inside, rfl⟩, rfl⟩, marked, _, ⟨hmark, rfl⟩,
            ⟨rfl, rfl⟩, rfl⟩ := hrun
          obtain ⟨grew, pushed⟩ := pushHeapAllocation_ok hpush
          exact ⟨grew, fun numbered => ⟨numbered.next, numbered.nodes⟩, column, _, hcolumn,
            cellStored_reference hinline hdata nonempty pushed.valid pushed.found, inside, hmark⟩
        · rename_i large
          simp only [bind_run_ok, attempt_run_ok, pure_run_ok, Prod.mk.injEq, writeRowBytes_ok,
            okOr_eq_ok, checkedAdd_eq_some] at hrun
          obtain ⟨valueNode, _, ⟨hnode, rfl⟩, _, _, ⟨⟨rfl, -⟩, rfl⟩, ⟨root, blocks⟩,
            middle, -, _, _,
            ⟨⟨inside, rfl⟩, rfl⟩, marked, _, ⟨hmark, rfl⟩, ⟨rfl, rfl⟩, rfl⟩ := hrun
          refine ⟨.refl _, fun numbered => ⟨?_, ?_⟩, column, _, hcolumn,
            cellStored_subnode hinline hdata (Nat.not_le.mp large) hnode, inside, hmark⟩
          · rw [List.length_append, List.length_singleton, numbered.next, Nat.add_assoc]
          · obtain ⟨index, -⟩ := node_index hnode
            rw [List.map_append, numbered.nodes, List.map_singleton, index, numbered.next,
              List.length_append, List.length_singleton, List.range'_concat, Nat.one_mul]

theorem writeExternalTableRow_ok {values : Properties} : ∀ {row row' : Bytes}
    {cells cells' : ExternalCells} {counters final : Counters},
    writeExternalTableRow columns row cells values counters = .ok (row', cells') final →
      Grew cells.heapAllocations cells'.heapAllocations ∧
        (CellsNumbered cells → CellsNumbered cells') ∧
        CellsStored (entryOf ([] :: cells'.heapAllocations)) columns row values row' := by
  induction values with
  | nil =>
      intro row row' cells cells' counters final hrun
      simp only [writeExternalTableRow, pure_run_ok, Prod.mk.injEq] at hrun
      obtain ⟨⟨rfl, rfl⟩, rfl⟩ := hrun
      exact ⟨.refl _, fun numbered => numbered, rfl⟩
  | cons property rest ih =>
      intro row row' cells cells' counters final hrun
      obtain ⟨propertyId, value⟩ := property
      simp only [writeExternalTableRow, bind_run_ok] at hrun
      obtain ⟨⟨marked, middle⟩, between, hvalue, hrest⟩ := hrun
      obtain ⟨grew, counted, column, cell, hcolumn, here, inside, hmark⟩ :=
        writeExternalTableValue_ok hvalue
      obtain ⟨grew', counted', later⟩ := ih hrest
      exact ⟨grew.trans grew', fun numbered => counted' (counted numbered), column, cell, marked,
        hcolumn, here.mono grew'.keeps, inside, hmark, later⟩

/-- The rows of an external table refer to the allocations of the later pages. -/
theorem writeExternalTableRows_ok {layout : RowLayout} {rows : List TableRowSpec} :
    ∀ {matrix : Bytes} {cells cells' : ExternalCells} {counters final : Counters},
    writeExternalTableRows layout columns cells rows counters = .ok (matrix, cells') final →
      Grew cells.heapAllocations cells'.heapAllocations ∧
        (CellsNumbered cells → CellsNumbered cells') ∧ ∃ finals, matrix = finals.flatten ∧
          List.Forall₂ (RowStored (entryOf ([] :: cells'.heapAllocations)) layout columns) rows
            finals := by
  induction rows with
  | nil =>
      intro matrix cells cells' counters final hrun
      simp only [writeExternalTableRows, pure_run_ok, Prod.mk.injEq] at hrun
      obtain ⟨⟨rfl, rfl⟩, rfl⟩ := hrun
      exact ⟨.refl _, fun numbered => numbered, [], rfl, .nil⟩
  | cons row rest ih =>
      intro matrix cells cells' counters final hrun
      simp only [writeExternalTableRows, bind_run_ok, attempt_run_ok, pure_run_ok,
        Prod.mk.injEq] at hrun
      obtain ⟨start, _, ⟨hstart, rfl⟩, ⟨bytes, middle⟩, between, hrow, ⟨others, last⟩, _, hrest,
        ⟨rfl, rfl⟩, rfl⟩ := hrun
      obtain ⟨grew, counted, here⟩ := writeExternalTableRow_ok hrow
      obtain ⟨grew', counted', finals, rfl, later⟩ := ih hrest
      exact ⟨grew.trans grew', fun numbered => counted' (counted numbered), bytes :: finals, rfl,
        .cons ⟨start, hstart, here.mono grew'.keeps⟩ later⟩

/-- The row matrix that a subnode of a table holds, without what follows the rows of a block. -/
def subnodeMatrix (find : BlockId → Option BlockPayload) (subnodes : BlockId) (word width : Nat) :
    Option Bytes :=
  match findLeafEntry find ⟨word⟩ subnodes with
  | .ok entry => (readDataTree find entry.block).map fun tree =>
      tree.leaves.flatMap fun leaf => leaf.take (leaf.length / width * width)
  | .error _ => none

/-- The pages of a table, read from its blocks. -/
def tablePages (build : TableBuild) : Option (List Bytes) :=
  (readDataTree (payloadOf build.blocks) build.dataBlock).map DataTree.leaves

/-- The nodes of the large cells and of the row matrix are distinct. -/
theorem CellsNumbered.nodup {cells : ExternalCells} (numbered : CellsNumbered cells)
    {matrixNode : NodeId} {matrixRoot : BlockId}
    (hnode : node .listsTablesProperties 0x50000 = .ok matrixNode) :
    ((cells.subnodes ++ [(⟨matrixNode, matrixRoot, none⟩ : LeafSubnodeEntry)]).map
      (·.node)).Nodup := by
  obtain ⟨index, -⟩ := node_index hnode
  refine List.Nodup.of_map NodeId.index ?_
  have nodes := numbered.nodes
  rw [List.map_append, List.map_append, List.map_map, List.map_singleton, List.map_singleton, index]
  have same : cells.subnodes.map (NodeId.index ∘ fun entry => entry.node) =
      List.range' 0x50001 cells.subnodes.length := nodes
  rw [same, List.nodup_append]
  refine ⟨List.nodup_range', List.nodup_singleton _, fun value member other there => ?_⟩
  obtain rfl := List.mem_singleton.mp there
  have bounds := List.mem_range'_1.mp member
  omega

/-- The external form holds its rows and keeps within the limit. -/
theorem tableContextExternal_stored {rows : List TableRowSpec} {counters final : Counters}
    {build : TableBuild} (hrun : tableContextExternal columns rows counters = .ok build final) :
    ∃ pages subnodes, tablePages build = some pages ∧ build.subnodeBlock = some subnodes ∧
      WithinLimit pages ∧
      TableStored pages (subnodeMatrix (payloadOf build.blocks) subnodes) columns rows := by
  have distinct := (tableContextExternal_built hrun).distinct
  simp only [tableContextExternal, bind_run_ok, attempt_run_ok, pure_run_ok, refuse_eq_ok] at hrun
  obtain ⟨_, _, ⟨hsome, rfl⟩, layout, _, ⟨hlayout, rfl⟩, rowIndex, _, ⟨hrowIndex, rfl⟩,
    matrixNode, _,
    ⟨hmatrixNode, rfl⟩, leaf, counters, ⟨hleaf, rfl⟩, ⟨matrix, cells⟩, afterRows, hrows,
    ⟨matrixRoot, matrixBlocks⟩, afterMatrix, hmatrix, ⟨subnodeBlock, subnodeBlocks⟩, afterTree,
      htree,
    ⟨middle, roots⟩, _, ⟨hlevel, rfl⟩, ⟨late, levels, treeRoot⟩, _, ⟨hlevels, rfl⟩, table, _,
    ⟨hinfo, rfl⟩, first, _, ⟨hfirst, rfl⟩, pages, _, ⟨hpages, rfl⟩, ⟨dataBlock, dataBlocks⟩, _,
      hdata,
    rfl, rfl⟩ := hrun
  have perm := sortByKey_perm (fun row : TableRowSpec => row.id.value) rows
  obtain ⟨valid, -, rowIndexAt⟩ := ofIndex_ok hrowIndex (by decide) (by decide)
  have word : matrixNode.value < 256 ^ 4 := by
    obtain ⟨-, rfl⟩ := node_eq_ok.mp hmatrixNode
    decide
  obtain ⟨references, tableSmall⟩ := tableContextInfo_ok valid word hinfo
  obtain ⟨records, rfl, -, full⟩ := rowIndexRecords_ok hleaf
  obtain ⟨grewRows, counted, finals, rfl, stored⟩ := writeExternalTableRows_ok hrows
  obtain ⟨grewLeaves, leaves⟩ := pushTreeLevel_ok hlevel
  obtain ⟨grewLevels, rootValid, few, depth, rfl, below⟩ :=
    pushTreeLevels_ok (by decide) hlevels (stored_valid leaves) (by decide)
  have later : Grew cells.heapAllocations late := grewLeaves.trans grewLevels
  have limited : Limited late :=
    (grewRows.trans later).limited fun _ member => absurd member List.not_mem_nil
  have rootLimit : ∀ allocation ∈ [table, heapTreeHeader 4 4 (0 + depth) treeRoot],
      allocation.length ≤ maxHeapAllocation := by
    rw [List.forall_mem_cons, List.forall_mem_singleton]
    exact ⟨tableSmall, by simp [heapTreeHeader, maxHeapAllocation]⟩
  obtain ⟨within, rooted, atRoot, onPages⟩ :=
    finishHeapPages_finds (heapPage_pageAt hfirst) rootLimit limited hpages
  have kept := stored.imp fun _ _ row => row.mono (later.keeps.trans onPages)
  -- the index of the rows
  have found := (grewLevels.keeps.trans onPages).mapM (stored_mapM leaves)
  have headed : findEntry pages rowIndex = some (heapTreeHeader 4 4 (0 + depth) treeRoot) := by
    refine atRoot rowIndex _ ?_
    cases hrowIndex
    rfl
  have read := readTree_ok headed rootValid few
    ((Nat.zero_add depth).symm ▸ onPages.descendTree below) found
  rw [groupedRecords (by decide) (by decide) full] at read
  -- the pages, among all blocks
  have pagesRead : tablePages ⟨dataBlock, some subnodeBlock,
      cells.blocks ++ matrixBlocks ++ subnodeBlocks ++ dataBlocks⟩ = some pages := by
    have holds := (appendDataTreePages_makes hdata).holds.mono (List.subset_append_right
      (cells.blocks ++ matrixBlocks ++ subnodeBlocks) dataBlocks)
    rw [tablePages, holds.reads distinct, Option.map_some, above_leaves]
  refine ⟨pages, subnodeBlock, pagesRead, rfl, within, ⟨32⟩, table, layout, records, finals, rooted,
    atRoot _ _ rfl, hlayout, ?_, hleaf, kept, fun nonempty => ?_⟩
  · rw [references]
    exact read
  · -- the row matrix, found under its node
    have rowSizes : ∀ final ∈ finals, final.length = layout.endBitmap := by
      intro final member
      obtain ⟨row, -, here⟩ := forall₂_mem stored member
      exact here.length
    have nonemptyMatrix : finals.flatten ≠ [] := by
      rw [← List.length_pos_iff, length_flatten_full rowSizes, ← stored.length_eq, perm.length_eq]
      have some := List.length_pos_of_ne_nil nonempty
      rw [← perm.length_eq, stored.length_eq] at some
      obtain ⟨row, -, here⟩ := forall₂_mem stored (List.getElem_mem some)
      exact Nat.mul_pos (List.length_pos_of_ne_nil nonempty)
        (Nat.lt_of_lt_of_le (by decide) here.wide)
    obtain ⟨matrixLeaves, makes, matrixRows⟩ := appendRowMatrixDataTree_makes nonemptyMatrix
      (length_flatten_full rowSizes) hmatrix
    have tree := appendSubnodeTree_isSubnodeTree ((counted ⟨rfl, rfl⟩).nodup hmatrixNode) htree
    have entry := tree.found ⟨matrixNode, matrixRoot, none⟩
      (List.mem_append_right _ (List.mem_singleton_self _))
    have inTree : subnodeBlocks ⊆ cells.blocks ++ matrixBlocks ++ subnodeBlocks ++ dataBlocks :=
      fun block member => List.mem_append_left _ (List.mem_append_right _ member)
    have entryRead := findLeafEntry_mono
      (fun id payload => payloadOf_mono inTree distinct) entry
    have inMatrix : matrixBlocks ⊆ cells.blocks ++ matrixBlocks ++ subnodeBlocks ++ dataBlocks :=
      fun block member => List.mem_append_left _ (List.mem_append_left _
        (List.mem_append_right _ member))
    have matrixRead := (makes.holds.mono inMatrix).reads distinct
    rw [references, subnodeMatrix, entryRead]
    simp only [matrixRead, Option.map_some, above_leaves, matrixRows]

end External

section Contexts

/-- Every heap identifier of a context designates the allocation it was stored for, in both forms;
the external forms keep within the limit, and the compact ones exactly when each of the lists that
they put into one allocation does, and each value. -/
theorem contexts_hold (properties : Properties) (columns : List TableColumnDescriptor)
    (rows : List TableRowSpec) :
    (∀ page, propertyContext properties = .ok page →
      (WithinLimit [page] ∧ PropertiesStored [page] properties ↔
        properties.length * 8 ≤ maxHeapAllocation ∧
          ∀ bytes, HeapValue properties bytes → bytes.length ≤ maxHeapAllocation)) ∧
    (∀ pages, propertyContextExternal properties = .ok pages →
      WithinLimit pages ∧ PropertiesStored pages properties) ∧
    (∀ page, tableContext columns rows = .ok page →
      (WithinLimit [page] ∧
          TableStored [page] (fun word _ => findEntry [page] ⟨word⟩) columns rows ↔
        CompactTable columns rows)) ∧
    ∀ counters final build,
      tableContextExternal columns rows counters = .ok build final →
        ∃ pages subnodes, tablePages build = some pages ∧ build.subnodeBlock = some subnodes ∧
          WithinLimit pages ∧
          TableStored pages (subnodeMatrix (payloadOf build.blocks) subnodes) columns rows := by
  refine ⟨fun page hcontext => ?_, fun _ => propertyContextExternal_stored,
    fun page htable => ?_, fun _ _ _ => tableContextExternal_stored⟩
  · obtain ⟨stored, within⟩ := propertyContext_stored hcontext
    rw [and_iff_left stored, within]
  · obtain ⟨stored, within⟩ := tableContext_stored htable
    rw [and_iff_left stored, within]

/-- A display name as a property list, and as a table of one row, in both forms. -/
theorem contexts_hold_name :
    (∃ page, propertyContext [(0x3001, .unicode ['a'])] = .ok page ∧
      (WithinLimit [page] ∧ PropertiesStored [page] [(0x3001, .unicode ['a'])] ↔
        [(0x3001, PropertyValue.unicode ['a'])].length * 8 ≤ maxHeapAllocation ∧
          ∀ bytes, HeapValue [(0x3001, .unicode ['a'])] bytes → bytes.length ≤ maxHeapAllocation)) ∧
    (∃ pages, propertyContextExternal [(0x3001, .unicode ['a'])] = .ok pages ∧
      WithinLimit pages ∧ PropertiesStored pages [(0x3001, .unicode ['a'])]) ∧
    (∃ page, tableContext [⟨.unicode, 0x3001, 8, 4, 2⟩, ⟨.integer32, 0x67F2, 0, 4, 0⟩,
        ⟨.integer32, 0x67F3, 4, 4, 1⟩] [⟨⟨0x8022⟩, [(0x3001, .unicode ['a'])]⟩] = .ok page ∧
      (WithinLimit [page] ∧ TableStored [page] (fun word _ => findEntry [page] ⟨word⟩)
          [⟨.unicode, 0x3001, 8, 4, 2⟩, ⟨.integer32, 0x67F2, 0, 4, 0⟩,
            ⟨.integer32, 0x67F3, 4, 4, 1⟩] [⟨⟨0x8022⟩, [(0x3001, .unicode ['a'])]⟩] ↔
        CompactTable [⟨.unicode, 0x3001, 8, 4, 2⟩, ⟨.integer32, 0x67F2, 0, 4, 0⟩,
          ⟨.integer32, 0x67F3, 4, 4, 1⟩] [⟨⟨0x8022⟩, [(0x3001, .unicode ['a'])]⟩])) ∧
    ∃ build final, tableContextExternal [⟨.unicode, 0x3001, 8, 4, 2⟩, ⟨.integer32, 0x67F2, 0, 4, 0⟩,
        ⟨.integer32, 0x67F3, 4, 4, 1⟩] [⟨⟨0x8022⟩, [(0x3001, .unicode ['a'])]⟩] ⟨1, 0⟩ =
          .ok build final ∧
      ∃ pages subnodes, tablePages build = some pages ∧ build.subnodeBlock = some subnodes ∧
        WithinLimit pages ∧ TableStored pages (subnodeMatrix (payloadOf build.blocks) subnodes)
          [⟨.unicode, 0x3001, 8, 4, 2⟩, ⟨.integer32, 0x67F2, 0, 4, 0⟩,
            ⟨.integer32, 0x67F3, 4, 4, 1⟩] [⟨⟨0x8022⟩, [(0x3001, .unicode ['a'])]⟩] := by
  obtain ⟨compact, external, table, externalTable⟩ := contexts_hold [(0x3001, .unicode ['a'])]
    [⟨.unicode, 0x3001, 8, 4, 2⟩, ⟨.integer32, 0x67F2, 0, 4, 0⟩, ⟨.integer32, 0x67F3, 4, 4, 1⟩]
    [⟨⟨0x8022⟩, [(0x3001, .unicode ['a'])]⟩]
  refine ⟨?_, ?_, ?_, ?_⟩
  · obtain ⟨page, hpage⟩ := exists_ok (by decide +kernel :
      (propertyContext [(0x3001, .unicode ['a'])]).toBool = true)
    exact ⟨page, hpage, compact _ hpage⟩
  · obtain ⟨pages, hpages⟩ := exists_ok (by decide +kernel :
      (propertyContextExternal [(0x3001, .unicode ['a'])]).toBool = true)
    exact ⟨pages, hpages, external _ hpages⟩
  · obtain ⟨page, hpage⟩ := exists_ok (by decide +kernel :
      (tableContext [⟨.unicode, 0x3001, 8, 4, 2⟩, ⟨.integer32, 0x67F2, 0, 4, 0⟩,
        ⟨.integer32, 0x67F3, 4, 4, 1⟩] [⟨⟨0x8022⟩, [(0x3001, .unicode ['a'])]⟩]).toBool = true)
    exact ⟨page, hpage, table _ hpage⟩
  · obtain ⟨build, final, hrun⟩ := exists_run_ok (by decide +kernel :
      succeeds (tableContextExternal [⟨.unicode, 0x3001, 8, 4, 2⟩, ⟨.integer32, 0x67F2, 0, 4, 0⟩,
        ⟨.integer32, 0x67F3, 4, 4, 1⟩] [⟨⟨0x8022⟩, [(0x3001, .unicode ['a'])]⟩]) ⟨1, 0⟩ = true)
    exact ⟨build, final, hrun, externalTable _ _ _ hrun⟩

/-- The records of `448` flags fit a page, but not an allocation. -/
theorem compactContext_exceeds : ¬ ∀ properties page, propertyContext properties = .ok page →
    WithinLimit [page] ∧ PropertiesStored [page] properties := by
  intro always
  obtain ⟨page, hpage⟩ := exists_ok (by decide +kernel :
    (propertyContext ((List.range 448).map fun id => (0x6000 + id, .boolean true))).toBool = true)
  obtain ⟨few, -⟩ := (propertyContext_stored hpage).2.mp (always _ _ hpage).1
  rw [List.length_map, List.length_range] at few
  exact absurd few (by decide)

end Contexts

end PstForge.Ltp
