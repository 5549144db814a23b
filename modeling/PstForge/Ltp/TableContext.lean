import PstForge.Ltp.PropertyContext

/-! # Table contexts

A table is a heap with a column schema, an index of its rows by row identifier,
and a matrix of fixed-width row cells; variable cells refer to heap allocations or
subnodes. The compact form is one heap page. The external form keeps the row
matrix and the large cells in subnodes and spreads the heap over several pages.
-/

namespace PstForge.Ltp

open PstForge.Foundation PstForge.Ndb

def ltpRowIdPropId : Nat := 0x67F2
def ltpRowVersionPropId : Nat := 0x67F3

/-- A column: where its cell stands in a row, and its bit in the existence bitmap. -/
structure TableColumnDescriptor where
  propType : PropertyType
  propId : Nat
  offset : Nat
  size : Nat
  existenceBitmapIndex : Nat
  deriving DecidableEq, Repr

/-- A row: its identifier and its cell values. -/
structure TableRowSpec where
  id : NodeId
  values : Properties
  deriving DecidableEq, Repr

/-- The width of a cell. -/
def columnWidth (kind : PropertyType) : Except WriterError Nat :=
  match kind with
  | .boolean => .ok 1
  | .integer16 => .ok 2
  | .floating64 | .currency | .floatingTime | .integer64 | .time => .ok 8
  | .null => .error (.invalidStructure "unsupported table column type")
  | _ => .ok 4

/-- Assign offsets, from a given one on, to the columns that a group selects. -/
def placeColumns (selected : PropertyType × Nat → Bool) (next : Nat) :
    List (PropertyType × Nat) → Except WriterError (List (Option Nat) × Nat)
  | [] => return ([], next)
  | spec :: rest => do
      if selected spec then
        let width ← columnWidth spec.1
        let following ← okOr (.valueTooLarge "table row") (checkedAdd 16 next width)
        let (offsets, final) ← placeColumns selected following rest
        return (some next :: offsets, final)
      else
        let (offsets, final) ← placeColumns selected next rest
        return (none :: offsets, final)

/-- Number the columns other than the row identifier and version in the existence
bitmap. -/
def columnBits (nextBit : Nat) : List (PropertyType × Nat) → Except WriterError (List Nat)
  | [] => return []
  | (_, id) :: rest => do
      if id = ltpRowIdPropId then
        return 0 :: (← columnBits nextBit rest)
      else if id = ltpRowVersionPropId then
        return 1 :: (← columnBits nextBit rest)
      else
        let following ← okOr (.valueTooLarge "table column bitmap") (checkedAdd 8 nextBit 1)
        return nextBit :: (← columnBits following rest)

/-- Whether a column is written by the table itself. -/
def isStructuralColumn (id : Nat) : Bool := id = ltpRowIdPropId ∨ id = ltpRowVersionPropId

/-- Lay out a schema: the wide cells first, then the two-byte cells, then the
one-byte cells. -/
def schemaColumns (specs : List (PropertyType × Nat)) :
    Except WriterError (List TableColumnDescriptor) := do
  let specs := sortByKey (·.2) specs
  refuse ((specs.zip specs.tail).any (fun (a, b) => a.2 = b.2) = true)
    (.invalidStructure "table schema contains duplicate properties")
  let isNarrow : PropertyType → Bool := fun kind => kind = .integer16 ∨ kind = .boolean
  let (wide, next) ← placeColumns (fun (kind, id) => !isStructuralColumn id && !isNarrow kind)
    8 specs
  let next ← okOr (.valueTooLarge "table row") (tryFrom 16 (alignUp next 4))
  let (words, next) ← placeColumns
    (fun (kind, id) => !isStructuralColumn id && decide (kind = .integer16)) next specs
  let next ← okOr (.valueTooLarge "table row") (tryFrom 16 (alignUp next 2))
  let (flags, _) ← placeColumns
    (fun (kind, id) => !isStructuralColumn id && decide (kind = .boolean)) next specs
  let bits ← columnBits 2 specs
  (specs.zip (wide.zip (words.zip (flags.zip bits)))).mapM
    fun ((kind, id), wideAt, wordAt, flagAt, bit) => do
      let offset := (wideAt.or (wordAt.or flagAt)).getD (if id = ltpRowVersionPropId then 4 else 0)
      return ⟨kind, id, offset, ← columnWidth kind, bit⟩

/-- The ends of the four groups of a row: wide cells, two-byte cells, one-byte
cells, and the existence bitmap. -/
structure RowLayout where
  end4Byte : Nat
  end2Byte : Nat
  end1Byte : Nat
  endBitmap : Nat
  deriving DecidableEq, Repr

def maxEnd (fallback : Nat) (ends : List Nat) : Nat :=
  match ends with
  | [] => fallback
  | first :: rest => rest.foldl max first

/-- The row layout that a schema gives. -/
def rowLayout (columns : List TableColumnDescriptor) : Except WriterError RowLayout := do
  let wide := columns.filter fun column =>
    decide (column.propType ≠ .integer16) && decide (column.propType ≠ .boolean)
  let end4Byte ← okOr (.valueTooLarge "table row")
    (tryFrom 16 (alignUp (maxEnd 0 (wide.map fun column =>
      saturatingAdd 16 column.offset column.size)) 4))
  let words := columns.filter (·.propType = .integer16)
  let end2Byte := max (maxEnd end4Byte (words.map fun column =>
    saturatingAdd 16 column.offset 2)) end4Byte
  let flags := columns.filter (·.propType = .boolean)
  let end1Byte := max (maxEnd end2Byte (flags.map fun column =>
    saturatingAdd 16 column.offset 1)) end2Byte
  let bitmap ← okOr (.valueTooLarge "table bitmap") (tryFrom 16 (divCeil columns.length 8))
  let endBitmap ← okOr (.valueTooLarge "table row") (checkedAdd 16 end1Byte bitmap)
  return ⟨end4Byte, end2Byte, end1Byte, endBitmap⟩

/-- The checks a column passes before a table header is formed. -/
def checkColumn (layout : RowLayout) (count : Nat) (column : TableColumnDescriptor) :
    Except WriterError Unit := do
  refuse (column.propType = .integer32 ∧ column.propId = ltpRowIdPropId ∧
      ¬ (column.offset = 0 ∧ column.existenceBitmapIndex = 0))
    (.invalidStructure ("Invalid TCINFO rgTCOLDESC[0]: PropId: 0x" ++ hex 4 column.propId
      ++ ", PropType: Integer32"))
  refuse (column.propType = .integer32 ∧ column.propId = ltpRowVersionPropId ∧
      ¬ (column.offset = 4 ∧ column.existenceBitmapIndex = 1))
    (.invalidStructure ("Invalid TCINFO rgTCOLDESC[0]: PropId: 0x" ++ hex 4 column.propId
      ++ ", PropType: Integer32"))
  refuse (column.propType = .null) (.invalidStructure "Invalid TCOLDESC property type: Null")
  let width ← columnWidth column.propType
  let placed : Bool :=
    if column.propType = .boolean then
      layout.end2Byte ≤ column.offset ∧ column.offset < layout.end1Byte
    else if column.propType = .integer16 then
      column.offset % 2 = 0 ∧ layout.end4Byte ≤ column.offset
        ∧ column.offset + 2 ≤ layout.end2Byte
    else column.offset % 4 = 0 ∧ column.offset + width ≤ layout.end4Byte
  refuse (placed = false)
    (.invalidStructure ("Invalid TCOLDESC ibData: 0x" ++ hex 4 column.offset))
  refuse (column.size ≠ width)
    (.invalidStructure ("Invalid TCOLDESC cbData: 0x" ++ hex 4 column.size))
  refuse (count < column.existenceBitmapIndex)
    (.invalidStructure ("Invalid TCOLDESC iBit: 0x" ++ hex 4 column.existenceBitmapIndex))

/-- The table header: the row layout, the row index and the columns. -/
def tableContextInfo (layout : RowLayout) (rowIndex : HeapId) (rows : Nat)
    (columns : List TableColumnDescriptor) : Except WriterError Bytes := do
  refuse (0xFF < columns.length)
    (.invalidStructure ("Invalid TCOLDESC count: 0x" ++ hex 1 columns.length))
  refuse (layout.end4Byte % 4 ≠ 0)
    (.invalidStructure ("Invalid TCINFO rgib[TCI_4b]: 0x" ++ hex 4 layout.end4Byte))
  refuse (layout.end2Byte % 2 ≠ 0 ∨ layout.end2Byte < layout.end4Byte)
    (.invalidStructure ("Invalid TCINFO rgib[TCI_2b]: 0x" ++ hex 4 layout.end2Byte))
  refuse (layout.end1Byte < layout.end2Byte)
    (.invalidStructure ("Invalid TCINFO rgib[TCI_1b]: 0x" ++ hex 4 layout.end1Byte))
  refuse (layout.endBitmap < layout.end1Byte ∨
      layout.endBitmap - layout.end1Byte ≠ divCeil columns.length 8)
    (.invalidStructure ("Invalid TCINFO rgib[TCI_bm]: 0x" ++ hex 4 layout.endBitmap))
  for column in columns do
    checkColumn layout columns.length column
  return [UInt8.ofNat HeapNodeType.table.code, UInt8.ofNat columns.length]
    ++ leBytes 2 layout.end4Byte ++ leBytes 2 layout.end2Byte ++ leBytes 2 layout.end1Byte
    ++ leBytes 2 layout.endBitmap ++ leBytes 4 rowIndex.value ++ leBytes 4 rows ++ leBytes 4 0
    ++ columns.flatMap fun column =>
      leBytes 2 column.propType.code ++ leBytes 2 column.propId ++ leBytes 2 column.offset
        ++ [UInt8.ofNat column.size, UInt8.ofNat column.existenceBitmapIndex]

/-- The column of a property. -/
def findColumn (columns : List TableColumnDescriptor) (propertyId : Nat) :
    Except WriterError TableColumnDescriptor :=
  okOr (.invalidStructure "table value has no column") (columns.find? (·.propId = propertyId))

/-- Write the bytes of a cell. -/
def writeRowBytes (row : Bytes) (offset : Nat) (value : Bytes) : Except WriterError Bytes := do
  refuse (row.length < offset + value.length) (.invalidStructure "table value exceeds row")
  return patchBytes row offset value

/-- Mark a column as present in the existence bitmap of a row. -/
def markColumn (row : Bytes) (columns : List TableColumnDescriptor) (propertyId : Nat) :
    Except WriterError Bytes := do
  let column ← findColumn columns propertyId
  let bitmapStart ← okOr (.invalidStructure "table bitmap underflow")
    (checkedSub row.length (divCeil columns.length 8))
  let position := bitmapStart + column.existenceBitmapIndex / 8
  let byte ← okOr (.invalidStructure "table bitmap overflow") row[position]?
  let flag : UInt8 := 0x80 >>> UInt8.ofNat (column.existenceBitmapIndex % 8)
  return patchBytes row position [byte ||| flag]

/-- The bytes of a cell that is carried in its row, if it is. -/
def inlineCell : PropertyValue → Option Bytes
  | .integer16 value => some (leSignedBytes 2 value)
  | .integer32 value => some (leSignedBytes 4 value)
  | .floating32 bits | .errorCode bits => some (leBytes 4 bits)
  | .boolean value => some [if value then 1 else 0]
  | .integer64 value | .currency value | .time value => some (leSignedBytes 8 value)
  | .floating64 bits | .floatingTime bits => some (leBytes 8 bits)
  | _ => none

/-- The column of a cell that a caller may write. -/
def cellColumn (columns : List TableColumnDescriptor) (propertyId : Nat) :
    Except WriterError TableColumnDescriptor := do
  refuse (isStructuralColumn propertyId = true)
    (.invalidStructure "table RowID and RowVer are writer-owned structural fields")
  findColumn columns propertyId

/-- The bytes of a cell that is not carried in its row. -/
def cellVariableBytes (value : PropertyValue) : Except WriterError Bytes := do
  match value with
  | .external _ _ => throw (.invalidStructure "table values cannot reference property subnodes")
  | _ =>
      let encoded ← value.variableBytes
      okOr (.invalidStructure "table variable value is missing") encoded

/-- Write a cell of a compact table. -/
def writeTableValue (row : Bytes) (columns : List TableColumnDescriptor) (propertyId : Nat)
    (value : PropertyValue) (variableCells : List Bytes) :
    Except WriterError (Bytes × List Bytes) := do
  let column ← cellColumn columns propertyId
  match inlineCell value with
  | some cell =>
      let row ← writeRowBytes row column.offset cell
      return (← markColumn row columns propertyId, variableCells)
  | none =>
      let data ← cellVariableBytes value
      if data.isEmpty then
        let row ← writeRowBytes row column.offset (leBytes 4 0)
        return (← markColumn row columns propertyId, variableCells)
      else
        let variableCells := variableCells ++ [data]
        let allocation ← okOr (.valueTooLarge "table allocation")
          (tryFrom 16 (4 + variableCells.length))
        let heapId ← HeapId.ofIndex allocation 0
        let row ← writeRowBytes row column.offset (leBytes 4 heapId.value)
        return (← markColumn row columns propertyId, variableCells)

/-- A row with its identifier and version, before its cells are written. -/
def startRow (layout : RowLayout) (columns : List TableColumnDescriptor) (id : NodeId) :
    Except WriterError Bytes := do
  -- the identifier and the version are copied into slices that a shorter row does not have
  refuse (layout.endBitmap < 8) (.invalidStructure "range end index 8 out of range")
  let row := leBytes 4 id.value ++ leBytes 4 1 ++ List.replicate (layout.endBitmap - 8) 0
  let row ← markColumn row columns ltpRowIdPropId
  markColumn row columns ltpRowVersionPropId

/-- The index of a table's rows, in the order of their identifiers. -/
def rowIndexRecords (rows : List TableRowSpec) : Except WriterError Bytes := do
  let records ← rows.zipIdx.mapM fun (row, index) => do
    let encoded ← okOr (.valueTooLarge "table row index") (tryFrom 32 index)
    return leBytes 4 row.id.value ++ leBytes 4 encoded
  return records.flatten

/-- The cells of one row of a compact table. -/
def writeTableRow (columns : List TableColumnDescriptor) (row : Bytes)
    (variableCells : List Bytes) : Properties → Except WriterError (Bytes × List Bytes)
  | [] => return (row, variableCells)
  | (propertyId, value) :: rest => do
      let (row, variableCells) ← writeTableValue row columns propertyId value variableCells
      writeTableRow columns row variableCells rest

/-- The row matrix of a compact table and its variable cells. -/
def writeTableRows (layout : RowLayout) (columns : List TableColumnDescriptor)
    (variableCells : List Bytes) : List TableRowSpec → Except WriterError (Bytes × List Bytes)
  | [] => return ([], variableCells)
  | row :: rest => do
      let bytes ← startRow layout columns row.id
      let (bytes, variableCells) ← writeTableRow columns bytes variableCells row.values
      let (matrix, variableCells) ← writeTableRows layout columns variableCells rest
      return (bytes ++ matrix, variableCells)

/-- The compact form of a table. -/
def tableContext (columns : List TableColumnDescriptor) (rows : List TableRowSpec) :
    Except WriterError Bytes := do
  let rows := sortByKey (·.id.value) rows
  let layout ← rowLayout columns
  let rowIndex ← HeapId.ofIndex 2 0
  if rows.isEmpty then
    let table ← tableContextInfo layout rowIndex 0 columns
    heapPage .table [table, heapTreeHeader 4 4 0 HeapId.none]
  else
    let rowTreeRoot ← HeapId.ofIndex 3 0
    let matrixId ← HeapId.ofIndex 4 0
    let table ← tableContextInfo layout rowIndex matrixId.value columns
    let leaf ← rowIndexRecords rows
    let (matrix, variableCells) ← writeTableRows layout columns [] rows
    heapPage .table (table :: heapTreeHeader 4 4 0 rowTreeRoot :: leaf :: matrix :: variableCells)

/-- What the external form of a table has collected so far: its heap pages, the
blocks and subnodes of its large cells, and the next node for one. -/
structure ExternalCells where
  heapAllocations : List (List Bytes)
  nextValueNode : Nat
  blocks : List BlockSpec
  subnodes : List LeafSubnodeEntry

/-- Write a cell of an external table. -/
def writeExternalTableValue (row : Bytes) (columns : List TableColumnDescriptor)
    (propertyId : Nat) (value : PropertyValue) (cells : ExternalCells) :
    Ids (Bytes × ExternalCells) := do
  let column ← attempt (cellColumn columns propertyId)
  match inlineCell value with
  | some cell =>
      let row ← attempt (writeRowBytes row column.offset cell)
      return (← attempt (markColumn row columns propertyId), cells)
  | none =>
      let data ← attempt (cellVariableBytes value)
      if data.isEmpty then
        let row ← attempt (writeRowBytes row column.offset (leBytes 4 0))
        return (← attempt (markColumn row columns propertyId), cells)
      else if data.length ≤ maxHeapAllocation then
        let (pages, heapId) ← attempt (pushHeapAllocation cells.heapAllocations data)
        let row ← attempt (writeRowBytes row column.offset (leBytes 4 heapId.value))
        return (← attempt (markColumn row columns propertyId),
          { cells with heapAllocations := pages })
      else
        let valueNode ← attempt (node .listsTablesProperties cells.nextValueNode)
        let next ← attempt (okOr (.valueTooLarge "table value node")
          (checkedAdd 32 cells.nextValueNode 1))
        let (root, blocks) ← appendDataTree data
        let row ← attempt (writeRowBytes row column.offset (leBytes 4 valueNode.value))
        return (← attempt (markColumn row columns propertyId),
          { cells with
            nextValueNode := next
            blocks := cells.blocks ++ blocks
            subnodes := cells.subnodes ++ [⟨valueNode, root, none⟩] })

/-- The cells of one row of an external table. -/
def writeExternalTableRow (columns : List TableColumnDescriptor) (row : Bytes)
    (cells : ExternalCells) : Properties → Ids (Bytes × ExternalCells)
  | [] => return (row, cells)
  | (propertyId, value) :: rest => do
      let (row, cells) ← writeExternalTableValue row columns propertyId value cells
      writeExternalTableRow columns row cells rest

/-- The row matrix of an external table and its collected cells. -/
def writeExternalTableRows (layout : RowLayout) (columns : List TableColumnDescriptor)
    (cells : ExternalCells) : List TableRowSpec → Ids (Bytes × ExternalCells)
  | [] => return ([], cells)
  | row :: rest => do
      let bytes ← attempt (startRow layout columns row.id)
      let (bytes, cells) ← writeExternalTableRow columns bytes cells row.values
      let (matrix, cells) ← writeExternalTableRows layout columns cells rest
      return (bytes ++ matrix, cells)

/-- The blocks of a table, the block that its node refers to, and its subnode block
in the external form. -/
structure TableBuild where
  dataBlock : BlockId
  subnodeBlock : Option BlockId
  blocks : List BlockSpec

/-- The external form of a table. -/
def tableContextExternal (columns : List TableColumnDescriptor) (rows : List TableRowSpec) :
    Ids TableBuild := do
  let rows := sortByKey (·.id.value) rows
  attempt (refuse (rows.isEmpty = true) (.invalidStructure "external table must contain rows"))
  let layout ← attempt (rowLayout columns)
  let rowIndex ← attempt (HeapId.ofIndex 2 0)
  let rowMatrixNode ← attempt (node .listsTablesProperties 0x50000)
  let leaf ← attempt (rowIndexRecords rows)
  let (matrix, cells) ← writeExternalTableRows layout columns ⟨[], 0x50001, [], []⟩ rows
  let (matrixRoot, matrixBlocks) ← appendRowMatrixDataTree matrix layout.endBitmap
  let (subnodeBlock, subnodeBlocks) ←
    appendSubnodeTree (cells.subnodes ++ [⟨rowMatrixNode, matrixRoot, none⟩])
  let (pages, roots) ← attempt (pushTreeLevel 4 cells.heapAllocations
    (chunks (maxHeapAllocation / 8 * 8) leaf))
  let (pages, levels, rowTreeRoot) ← attempt
    (pushTreeLevels 4 "BTH depth" roots.length 0 pages roots)
  let table ← attempt (tableContextInfo layout rowIndex rowMatrixNode.value columns)
  let first ← attempt (heapPage .table [table, heapTreeHeader 4 4 levels rowTreeRoot])
  let heapPages ← attempt (finishHeapPages first pages)
  let (dataBlock, dataBlocks) ← appendDataTreePages heapPages
  return ⟨dataBlock, some subnodeBlock,
    cells.blocks ++ matrixBlocks ++ subnodeBlocks ++ dataBlocks⟩

/-- The blocks of a table: one block in the compact form, under the given or a fresh
identifier, and the external form otherwise. -/
def buildTableContext (columns : List TableColumnDescriptor) (rows : List TableRowSpec)
    (compactBlock : Option BlockId) : Ids TableBuild :=
  match tableContext columns rows with
  | .ok table => do
      let dataBlock ← match compactBlock with
        | some block => pure block
        | none => takeBlockId false
      return ⟨dataBlock, none, [⟨dataBlock, .data table, 2⟩]⟩
  | .error (.valueTooLarge "heap page") => tableContextExternal columns rows
  | .error error => throw error

end PstForge.Ltp
