import PstForge.Ltp.Property

/-! # Heap pages

A heap-on-node is a list of pages of at most `maxDataBlockPayload` bytes. Each
page holds its allocations one after another and ends with a page map of their
offsets. The first page carries the heap header, later pages a two-byte header,
and every page whose index is eight modulo 128 a bitmap of fill levels as well.
-/

namespace PstForge.Ltp

open PstForge.Foundation PstForge.Ndb

def maxDataBlockPayload : Nat := 8176
def maxHeapAllocation : Nat := 3580

/-- A heap identifier: a one-based allocation index within a page of the heap. -/
structure HeapId where
  value : Nat
  deriving DecidableEq, Repr

namespace HeapId

/-- The null heap identifier. -/
def none : HeapId := ⟨0⟩

/-- Form a heap identifier; the allocation index has eleven bits. -/
def new (index blockIndex : Nat) : Except String HeapId :=
  if index < 2 ^ 11 then .ok ⟨(blockIndex * 2 ^ 11 + index) * 32⟩
  else .error ("Invalid HID hidIndex: 0x" ++ hex 4 index)

/-- Form a heap identifier, reporting a bad index as an invalid structure. -/
def ofIndex (index blockIndex : Nat) : Except WriterError HeapId :=
  match new index blockIndex with
  | .ok id => .ok id
  | .error reason => .error (.invalidStructure reason)

end HeapId

/-- The kinds of heap the writer builds. -/
inductive HeapNodeType where
  | table
  | tree
  | properties
  deriving DecidableEq, Repr

def HeapNodeType.code : HeapNodeType → Nat
  | table => 0x7C
  | tree => 0xB5
  | properties => 0xBC

/-- The header of a tree on a heap. -/
def heapTreeHeader (keySize entrySize levels : Nat) (root : HeapId) : Bytes :=
  [UInt8.ofNat HeapNodeType.tree.code, UInt8.ofNat keySize, UInt8.ofNat entrySize,
    UInt8.ofNat levels] ++ leBytes 4 root.value

/-- Eight fill levels packed into a word, four bits each. -/
def packFillLevels (levels : List Nat) : Nat :=
  (levels.take 8).zipIdx.foldl (fun word (level, position) => word ||| (level <<< (position * 4))) 0

/-- The header of the first page of a heap. -/
def heapNodeHeader (pageMapOffset : Nat) (kind : HeapNodeType) (userRoot : HeapId)
    (fillLevels : List Nat) : Bytes :=
  leBytes 2 pageMapOffset ++ [0xEC, UInt8.ofNat kind.code] ++ leBytes 4 userRoot.value
    ++ leBytes 4 (packFillLevels fillLevels)

/-- The header of a page that carries the fill levels of 128 pages. -/
def heapNodeBitmapHeader (pageMapOffset : Nat) (fillLevels : List Nat) : Bytes :=
  leBytes 2 pageMapOffset
    ++ (List.range 16).flatMap fun group => leBytes 4 (packFillLevels (fillLevels.drop (group * 8)))

/-- The offsets of consecutive allocations, and of the end of the last one. -/
def allocationOffsets (start : Nat) : List Bytes → List Nat
  | [] => [start]
  | allocation :: rest => start :: allocationOffsets (start + allocation.length) rest

/-- The page map: the allocation count, the count of empty allocations, the offsets. -/
def pageMap (count free : Nat) (offsets : List Nat) : Bytes :=
  leBytes 2 count ++ leBytes 2 free ++ offsets.flatMap (leBytes 2)

/-- The first page of a heap with its allocations. -/
def heapPage (kind : HeapNodeType) (allocations : List Bytes) : Except WriterError Bytes := do
  let allocationEnd ← okOr (.valueTooLarge "heap page")
    (checkedAdd 64 12 (allocations.map List.length).sum)
  let payloadSize := alignUp allocationEnd 2
  let total := payloadSize + (4 + (allocations.length + 1) * 2)
  refuse (8176 < total) (.valueTooLarge "heap page")
  let userRoot ← HeapId.ofIndex 1 0
  let header := heapNodeHeader payloadSize kind userRoot []
  let body := header ++ allocations.flatten
  let _ ← okOr (.valueTooLarge "heap") (tryFrom 16 body.length)
  let free := (allocations.filter List.isEmpty).length
  return body ++ List.replicate (payloadSize - body.length) 0
    ++ pageMap allocations.length free (allocationOffsets header.length allocations)

/-- A later page of a heap with its allocations. -/
def heapContinuationPageAllocations (pageIndex : Nat) (allocations : List Bytes) :
    Except WriterError Bytes := do
  let bitmap : Bool := pageIndex % 128 = 8
  let headerSize := if bitmap then 66 else 2
  let allocationEnd ← okOr (.valueTooLarge "heap continuation page")
    (checkedAdd 64 headerSize (allocations.map List.length).sum)
  let payloadSize := alignUp allocationEnd 2
  let total := payloadSize + ((allocations.length + 1) * 2 + 4)
  refuse (maxDataBlockPayload < total) (.valueTooLarge "heap continuation page")
  let header := if bitmap then heapNodeBitmapHeader payloadSize [] else leBytes 2 payloadSize
  let body := header ++ allocations.flatten
  let _ ← okOr (.valueTooLarge "heap continuation offset") (tryFrom 16 body.length)
  return body ++ List.replicate (payloadSize - body.length) 0
    ++ pageMap allocations.length 0 (allocationOffsets header.length allocations)

/-- Put an allocation on the last page of a heap under construction, or on a new
page when it does not fit there. Pages are kept in order; the page that holds the
heap header is not among them, so page numbers start at one. -/
def pushHeapAllocation (pages : List (List Bytes)) (allocation : Bytes) :
    Except WriterError (List (List Bytes) × HeapId) := do
  refuse (allocation.isEmpty ∨ maxHeapAllocation < allocation.length)
    (.valueTooLarge "heap allocation")
  let currentPageIndex ← okOr (.valueTooLarge "heap page index") (tryFrom 16 pages.length)
  let onNewPage : Except WriterError (List (List Bytes) × HeapId) := do
    let pages := pages ++ [[allocation]]
    let pageIndex ← okOr (.valueTooLarge "heap page index") (tryFrom 16 pages.length)
    let _ ← heapContinuationPageAllocations pageIndex [allocation]
    return (pages, ← HeapId.ofIndex 1 pageIndex)
  match pages.getLast? with
  | none => onNewPage
  | some current =>
      let extended := current ++ [allocation]
      match heapContinuationPageAllocations currentPageIndex extended with
      | .ok page =>
          if page.length + 3 ≤ maxDataBlockPayload then
            let allocationIndex ← okOr (.valueTooLarge "heap allocation count")
              (tryFrom 16 extended.length)
            let id ← HeapId.ofIndex allocationIndex currentPageIndex
            return (pages.dropLast ++ [extended], id)
          else
            onNewPage
      | .error (.valueTooLarge "heap continuation page") => onNewPage
      | .error error => throw error

/-- How many padding allocations fill a page, and where the page map then starts. -/
def paddingPlan (mapSize allocationEnd : Nat) : Nat → Nat → Except WriterError (Nat × Nat × Nat)
  | 0, _ => throw (.valueTooLarge "heap padding allocations")
  | fuel + 1, paddingAllocations => do
      let filledMapOffset ← okOr (.valueTooLarge "heap page map")
        (checkedSub maxDataBlockPayload (mapSize + paddingAllocations * 2))
      let paddingSize ← okOr (.invalidStructure "heap page allocations overlap the filled map")
        (checkedSub filledMapOffset allocationEnd)
      refuse (paddingSize < paddingAllocations)
        (.invalidStructure "heap page has no room for non-empty padding allocations")
      if paddingSize ≤ paddingAllocations * maxHeapAllocation then
        return (paddingAllocations, filledMapOffset, paddingSize)
      paddingPlan mapSize allocationEnd fuel (paddingAllocations + 1)

/-- The end offsets of the padding allocations, each as large as the heap allows
while every later one keeps at least a byte. -/
def paddingOffsets : (allocations : Nat) → (paddingEnd remaining : Nat) →
    Except WriterError (List Nat × Nat × Nat)
  | 0, paddingEnd, remaining => .ok ([], paddingEnd, remaining)
  | later + 1, paddingEnd, remaining => do
      let size := min (remaining - later) maxHeapAllocation
      let paddingEnd := paddingEnd + size
      let encoded ← okOr (.valueTooLarge "heap padding endpoint") (tryFrom 16 paddingEnd)
      let (offsets, final, rest) ← paddingOffsets later paddingEnd (remaining - size)
      return (encoded :: offsets, final, rest)

/-- Fill a page to the full block payload with padding allocations. -/
def fillHeapPage (page : Bytes) : Except WriterError Bytes := do
  if maxDataBlockPayload ≤ page.length then
    if page.length = maxDataBlockPayload then
      return page
    throw (.valueTooLarge "heap page")
  refuse (page.length < 2) (.invalidStructure "heap page has no map offset")
  let pageMapOffset := leValue (page.take 2)
  refuse (page.length < pageMapOffset) (.invalidStructure "heap map exceeds its page")
  let map := page.drop pageMapOffset
  refuse (map.length < 2) (.invalidStructure "heap page map has no count")
  let allocationCount := leValue (map.take 2)
  refuse (map.length ≠ (allocationCount + 1) * 2 + 4)
    (.invalidStructure "heap page map size does not match its allocation count")
  let allocationEnd := leValue (map.drop (map.length - 2))
  let (paddingAllocations, filledMapOffset, paddingSize) ←
    paddingPlan map.length allocationEnd maxDataBlockPayload 1
  let allocationCount ← okOr (.valueTooLarge "heap allocation count")
    (checkedAdd 16 allocationCount paddingAllocations)
  let (offsets, paddingEnd, remaining) ←
    paddingOffsets paddingAllocations allocationEnd paddingSize
  refuse (remaining ≠ 0 ∨ paddingEnd ≠ filledMapOffset)
    (.invalidStructure "heap padding does not reach the page map")
  let encoded ← okOr (.valueTooLarge "heap page map offset") (tryFrom 16 filledMapOffset)
  let filledMap := patchBytes map 0 (leBytes 2 allocationCount) ++ offsets.flatMap (leBytes 2)
  let body := page.take pageMapOffset
  let resized := body.take encoded ++ List.replicate (encoded - body.length) 0
  return patchBytes (resized ++ filledMap) 0 (leBytes 2 encoded)

/-- The fill level of a page: how much of it is free, in the format's classes. -/
def heapFillLevel (pageSize : Nat) : Except WriterError Nat := do
  let free ← okOr (.valueTooLarge "heap page") (checkedSub maxDataBlockPayload pageSize)
  return if 3584 ≤ free then 0
    else if 2560 ≤ free then 1
    else if 2048 ≤ free then 2
    else if 1792 ≤ free then 3
    else if 1536 ≤ free then 4
    else if 1280 ≤ free then 5
    else if 1024 ≤ free then 6
    else if 768 ≤ free then 7
    else if 512 ≤ free then 8
    else if 256 ≤ free then 9
    else if 128 ≤ free then 10
    else if 64 ≤ free then 11
    else if 32 ≤ free then 12
    else if 16 ≤ free then 13
    else if 8 ≤ free then 14
    else 15

/-- Write the fill levels of the leading pages into the heap header, and those of
each group of 128 pages into the bitmap page that opens the group. -/
def updateHeapFillLevels (pages : List Bytes) : Except WriterError (List Bytes) := do
  let levels ← pages.mapM fun page => heapFillLevel page.length
  match pages with
  | [] => throw (.invalidStructure "heap has no root page")
  | root :: rest =>
      -- the header keeps its map offset, signature and root; only the levels change
      let root := patchBytes root 8 (leBytes 4 (packFillLevels levels))
      let rest := rest.zipIdx.map fun (page, position) =>
        let index := position + 1
        if 8 ≤ index ∧ (index - 8) % 128 = 0 then
          patchBytes page 0 (heapNodeBitmapHeader (leValue (page.take 2)) (levels.drop index))
        else page
      return root :: rest

end PstForge.Ltp
