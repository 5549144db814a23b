import PstForge.Foundation.Machine

/-! # Extent allocation and the allocation-map pages

A store file is divided, from `firstAMap` on, into regions of `amapDataSize`
bytes. Every region opens with an allocation map (AMap) page; some are followed
by an allocation page map (PMap), a free map (FMap) and a free page map (FPMap)
page. Blocks and B-tree pages are placed by `allocateExtent`, which steps over
the map pages as it goes; the map pages themselves are placed afterwards, by
`allocationPages`, from the end of the allocated file alone.
-/

namespace PstForge.Ndb

open PstForge.Foundation

/-- The errors of the store writer that the modelled functions can raise. -/
inductive WriterError where
  | interrupted
  | valueTooLarge (what : String)
  | invalidStructure (reason : String)
  | inputRejected (reason : String)
  | completedValidation (reason : String)
  | io (reason : String)
  deriving DecidableEq, Repr

def slotsPerAMap : Nat := 496 * 8
def slotSize : Nat := 64
def pageSize : Nat := 512
def amapDataSize : Nat := slotsPerAMap * slotSize
def firstAMap : Nat := 0x4400
def initialFileEof : Nat := firstAMap + amapDataSize
def firstData : Nat := 0x4800
def fmapFirstAMap : Nat := 128
def fmapAMapCount : Nat := 496
def fpmapFirstAMap : Nat := 128 * 64
def fpmapAMapCount : Nat := 496 * 64

/-- Round an offset up to an alignment; the product wraps at 64 bits. -/
def alignUp (value alignment : Nat) : Nat :=
  divCeil value alignment * alignment % wordCount 64

/-- How many map pages open the region of an allocation map. -/
def reservedMapPageCount (amapIndex : Nat) : Nat :=
  if amapIndex % 8 = 0 then
    2 + (if fmapFirstAMap ≤ amapIndex ∧ (amapIndex - fmapFirstAMap) % fmapAMapCount = 0
        then 1 else 0)
      + (if fpmapFirstAMap ≤ amapIndex ∧ (amapIndex - fpmapFirstAMap) % fpmapAMapCount = 0
        then 1 else 0)
  else 1

/-- What one turn of the allocation loop decides. -/
inductive AllocationTurn where
  | placed (offset : Nat)
  | retry (offset : Nat)
  deriving DecidableEq, Repr

/-- One turn of the allocation loop: place the extent behind the map pages of the
region that holds the offset, or move on to the next region. -/
def allocateTurn (size alignment offset : Nat) : Except WriterError AllocationTurn := do
  let base ← okOr (.invalidStructure "allocation before first AMap") (checkedSub offset firstAMap)
  let amapIndex := base / amapDataSize
  let regionStart ← okOr (.valueTooLarge "allocation region")
    (checkedAdd 64 firstAMap (saturatingMul 64 amapIndex amapDataSize))
  let reservedEnd ← okOr (.valueTooLarge "allocation map pages")
    (checkedAdd 64 regionStart (saturatingMul 64 (reservedMapPageCount amapIndex) pageSize))
  let offset := if offset < reservedEnd then alignUp reservedEnd alignment else offset
  let extentEnd ← okOr (.valueTooLarge "allocation extent") (checkedAdd 64 offset size)
  let regionEnd ← okOr (.valueTooLarge "allocation region") (checkedAdd 64 regionStart amapDataSize)
  return if extentEnd ≤ regionEnd then .placed offset else .retry regionEnd

/-- The allocation loop within a number of turns; `none` when they do not suffice. -/
def allocateLoop (size alignment : Nat) : Nat → Nat → Option (Except WriterError Nat)
  | 0, _ => none
  | turns + 1, offset =>
      match allocateTurn size alignment offset with
      | .error error => some (.error error)
      | .ok (.placed placed) => some (.ok placed)
      | .ok (.retry next) => allocateLoop size alignment turns next

/-- A bound on the turns of the loop: every retry enters a later region, and a
64-bit file has fewer regions than this. -/
def allocationTurnLimit : Nat := wordCount 64 / amapDataSize + 1

/-- Place an extent at or after the cursor. The result is the extent's offset and
the cursor behind it; on an error the caller's cursor is left as it was. -/
def allocateExtent (cursor size alignment : Nat) : Except WriterError (Nat × Nat) :=
  match allocateLoop size alignment allocationTurnLimit (alignUp cursor alignment) with
  | some (.ok offset) => .ok (offset, offset + size)
  | some (.error error) => .error error
  | none => .error (.valueTooLarge "allocation region")

/-- The end of the file that holds everything allocated so far. -/
def allocationFileEof (allocatedEnd : Nat) : Except WriterError Nat := do
  let used ← okOr (.invalidStructure "allocation end underflow")
    (checkedSub allocatedEnd firstAMap)
  okOr (.valueTooLarge "file EOF") (checkedAdd 64 firstAMap
    (saturatingMul 64 (max (divCeil used amapDataSize) 1) amapDataSize))

/-- The kinds of map page. -/
inductive MapPageKind where
  | allocationMap
  | allocationPageMap
  | freeMap
  | freePageMap
  deriving DecidableEq, Repr

/-- A map page as it is written to the file. -/
structure MapPage where
  kind : MapPageKind
  offset : Nat
  bits : List Nat
  deriving DecidableEq, Repr

/-- The class of a free-slot count in a free map. -/
def freeSlotClass (freeSlots : Nat) : Nat := min freeSlots 0xFF

/-- The free slots of one region when the file is allocated up to a given end. -/
def regionFreeSlots (allocatedEnd amapIndex : Nat) : Except WriterError Nat := do
  let regionStart ← okOr (.valueTooLarge "allocation map offset")
    (checkedAdd 64 firstAMap (saturatingMul 64 amapIndex amapDataSize))
  let regionEnd ← okOr (.valueTooLarge "allocation map extent")
    (checkedAdd 64 regionStart amapDataSize)
  let usedEnd := max (min allocatedEnd regionEnd) regionStart
  let allocatedSlots := divCeil (usedEnd - regionStart) slotSize
  let free ← okOr (.valueTooLarge "allocation map free slots")
    (checkedSub slotsPerAMap allocatedSlots)
  okOr (.valueTooLarge "allocation map free slots") (tryFrom 16 free)

/-- The bitmap of an allocation map whose leading slots are allocated. -/
def amapBits (allocatedSlots : Nat) : List Nat :=
  (List.range 496).map fun byte =>
    (List.range 8).foldl
      (fun bits bit => if byte * 8 + bit < allocatedSlots then bits ||| (0x80 >>> bit) else bits) 0

/-- The class bytes of a free map page that starts at a region. -/
def fmapBits (freeSlots : List Nat) (amapIndex : Nat) : List Nat :=
  let classes := (freeSlots.drop amapIndex).take 496 |>.map freeSlotClass
  classes ++ List.replicate (496 - classes.length) 0

/-- The map pages that open one region, in the order they are written. -/
def regionMapPages (freeSlots : List Nat) (amapIndex : Nat) :
    Except WriterError (List MapPage) := do
  let regionStart ← okOr (.valueTooLarge "allocation map offset")
    (checkedAdd 64 firstAMap (saturatingMul 64 amapIndex amapDataSize))
  let free ← okOr (.invalidStructure "allocation free map is incomplete") freeSlots[amapIndex]?
  let amap : MapPage := ⟨.allocationMap, regionStart, amapBits (slotsPerAMap - free)⟩
  let reserved := regionStart + pageSize
  if amapIndex % 8 = 0 then
    let pmap : MapPage := ⟨.allocationPageMap, reserved, List.replicate 496 0xFF⟩
    let reserved := reserved + pageSize
    let hasFMap : Bool :=
      fmapFirstAMap ≤ amapIndex ∧ (amapIndex - fmapFirstAMap) % fmapAMapCount = 0
    let fmap : List MapPage :=
      if hasFMap then [⟨.freeMap, reserved, fmapBits freeSlots amapIndex⟩] else []
    let reserved := if hasFMap then reserved + pageSize else reserved
    let fpmap : List MapPage :=
      if fpmapFirstAMap ≤ amapIndex ∧ (amapIndex - fpmapFirstAMap) % fpmapAMapCount = 0
      then [⟨.freePageMap, reserved, List.replicate 496 0xFF⟩] else []
    return amap :: pmap :: (fmap ++ fpmap)
  else
    return [amap]

/-- How many regions a file allocated up to a given end has. -/
def amapCount (allocatedEnd : Nat) : Except WriterError Nat := do
  let used ← okOr (.invalidStructure "allocation start underflow")
    (checkedSub allocatedEnd firstAMap)
  return max (divCeil (max used 1) amapDataSize) 1

/-- The free bytes and the leading free-map classes that the header records. -/
structure ConstructedAllocation where
  freeBytes : Nat
  firstFreeMap : List Nat
  deriving DecidableEq, Repr

/-- The map pages written for a file allocated up to a given end, with the free
space that they record. -/
def allocationPages (allocatedEnd : Nat) :
    Except WriterError (List MapPage × ConstructedAllocation) := do
  let count ← amapCount allocatedEnd
  let freeSlots ← (List.range count).mapM (regionFreeSlots allocatedEnd)
  let pages ← (List.range count).mapM (regionMapPages freeSlots)
  let freeBytes ← freeSlots.foldlM (fun total free =>
    okOr (.valueTooLarge "allocation free byte count")
      (checkedAdd 64 total (saturatingMul 64 free slotSize))) 0
  let classes := (freeSlots.take 128).map freeSlotClass
  return (pages.flatten, ⟨freeBytes, classes ++ List.replicate (128 - classes.length) 0⟩)

end PstForge.Ndb
