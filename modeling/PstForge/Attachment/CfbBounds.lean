import PstForge.Foundation.OpenFile
import PstForge.Foundation.Words

/-! # How much a compound file makes its parser do

A compound file is a sequence of sectors that are chained by a table of successors, and the table
lies in sectors of its own that the header and another chain name. Before a file of unknown origin
is given to a parser, the chain of its directory and the one of its small streams are followed:
they must end, without coming back to a sector, and not be too long.
-/

namespace PstForge.Attachment

open PstForge.Foundation

def cfbSignature : Bytes := [0xD0, 0xCF, 0x11, 0xE0, 0xA1, 0xB1, 0x1A, 0xE1]

def maxCfbEntries : Nat := 100000

def maxCfbMinifatBytes : Nat := 8 * 1024 * 1024

def freeSector : Nat := 0xFFFFFFFF

def endOfChain : Nat := 0xFFFFFFFE

def headerU32 (header : Bytes) (offset : Nat) : Nat := leValue ((header.drop offset).take 4)

section Reading

def readCfbSector (sector sectorLen totalSectors : Nat) : EStateM StreamError OpenFile Bytes := do
  attempt (refuse (totalSectors ≤ sector) (.invalidData "CFB sector is outside the attachment"))
  let offset ← attempt (okOr (.other "CFB sector offset overflow")
    ((checkedAdd 64 sector 1).bind (checkedMul 64 · sectorLen)))
  OpenFile.readAt offset sectorLen

/-- Where the successor of a sector is written, in the sector of the table that has it. -/
def fatEntryOffset (sectorLen fatSector entryIndex : Nat) : Option Nat := do
  let entryOffset ← checkedMul 64 entryIndex 4
  let sector ← checkedAdd 64 fatSector 1
  let start ← checkedMul 64 sector sectorLen
  checkedAdd 64 start entryOffset

/-- Follow a chain from a sector, in at most so many steps. -/
def cfbChainFrom (sectorLen totalSectors : Nat) (fatSectors : List Nat) (entriesPerSector : Nat) :
    (steps count current : Nat) → (seen : List Nat) → EStateM StreamError OpenFile (Option Nat)
  | 0, _, _, _ => return none
  | steps + 1, count, current, seen =>
      if current = endOfChain then return some count
      else if totalSectors ≤ current ∨ current ∈ seen then return none
      else
        match fatSectors[current / entriesPerSector]? with
        | none => return none
        | some fatSector => do
            let offset ← attempt (okOr (.other "CFB FAT entry offset overflow")
              (fatEntryOffset sectorLen fatSector (current % entriesPerSector)))
            let next ← OpenFile.readAt offset 4
            cfbChainFrom sectorLen totalSectors fatSectors entriesPerSector steps (count + 1)
              (leValue next) (current :: seen)

def cfbChainLength (firstSector sectorLen totalSectors : Nat) (fatSectors : List Nat)
    (entriesPerSector maximumSectors : Nat) : EStateM StreamError OpenFile (Option Nat) :=
  cfbChainFrom sectorLen totalSectors fatSectors entriesPerSector (maximumSectors + 1) 0
    firstSector []

/-- Take the sectors of the table that are named one after the other, until there are enough. -/
def takeFatSectors (totalSectors fatSectorCount : Nat) : (fatSectors named : List Nat) →
    Option (List Nat)
  | fatSectors, [] => some fatSectors
  | fatSectors, sector :: rest =>
      if sector ≠ freeSector ∧ fatSectors.length < fatSectorCount then
        if totalSectors ≤ sector then none
        else takeFatSectors totalSectors fatSectorCount (fatSectors ++ [sector]) rest
      else takeFatSectors totalSectors fatSectorCount fatSectors rest

/-- Follow the sectors that name further sectors of the table. -/
def followDifat (sectorLen totalSectors fatSectorCount : Nat) :
    (steps : Nat) → (fatSectors : List Nat) → (difatSector : Nat) → (seenDifat : List Nat) →
      EStateM StreamError OpenFile (Option (List Nat))
  | 0, fatSectors, _, _ => return some fatSectors
  | steps + 1, fatSectors, difatSector, seenDifat =>
      if fatSectorCount ≤ fatSectors.length then return some fatSectors
      else if totalSectors ≤ difatSector ∨ difatSector ∈ seenDifat then return none
      else do
        let sector ← readCfbSector difatSector sectorLen totalSectors
        match takeFatSectors totalSectors fatSectorCount fatSectors
            (words 4 (sectorLen / 4 - 1) sector) with
        | none => return none
        | some fatSectors =>
            followDifat sectorLen totalSectors fatSectorCount steps fatSectors
              (leValue (sector.drop (sectorLen - 4))) (difatSector :: seenDifat)

end Reading

section Bounds

/-- The length of a sector, in the two versions there are. -/
def cfbSectorLen (majorVersion sectorShift : Nat) : Option Nat :=
  if majorVersion = 3 ∧ sectorShift = 9 then some 512
  else if majorVersion = 4 ∧ sectorShift = 12 then some 4096
  else none

/-- What the header says of the sectors: their length and how many there are. -/
def cfbSectors (header : Bytes) (byteLen : Nat) : Option (Nat × Nat) :=
  if ¬ cfbSignature <+: header ∨ (header.drop 28).take 2 ≠ [0xFE, 0xFF] then none
  else
    let majorVersion := leValue ((header.drop 26).take 2)
    let sectorShift := leValue ((header.drop 30).take 2)
    (cfbSectorLen majorVersion sectorShift).bind fun sectorLen =>
      if byteLen % sectorLen ≠ 0 then none
      else (tryFrom 32 (byteLen / sectorLen - 1)).map fun totalSectors => (sectorLen, totalSectors)

/-- The sectors of the table of successors, those the header names before the others. -/
def collectFatSectors (header : Bytes) (sectorLen totalSectors : Nat) :
    EStateM StreamError OpenFile (Option (List Nat)) :=
  let fatSectorCount := headerU32 header 44
  if totalSectors < fatSectorCount ∨ totalSectors < headerU32 header 72 then return none
  else
    match takeFatSectors totalSectors fatSectorCount [] (words 4 109 (header.drop 76)) with
    | none => return none
    | some fatSectors => do
        match ← followDifat sectorLen totalSectors fatSectorCount (headerU32 header 72) fatSectors
            (headerU32 header 68) [] with
        | none => return none
        | some fatSectors =>
            if fatSectors.length ≠ fatSectorCount then return none else return some fatSectors

/-- The chains of the directory and of the small streams. -/
def checkCfbChains (header : Bytes) (sectorLen totalSectors : Nat) (fatSectors : List Nat) :
    EStateM StreamError OpenFile Bool := do
  let entriesPerSector := sectorLen / 4
  let directorySectors ← cfbChainLength (headerU32 header 48) sectorLen totalSectors fatSectors
    entriesPerSector (maxCfbEntries / (sectorLen / 128))
  if directorySectors = none then return false
  else if leValue ((header.drop 26).take 2) = 4 ∧ some (headerU32 header 40) ≠ directorySectors then
    return false
  else
    let maximumMinifatSectors := maxCfbMinifatBytes / sectorLen
    if maximumMinifatSectors < headerU32 header 64 then return false
    else if headerU32 header 60 = endOfChain then return true
    else do
      let minifatSectors ← cfbChainLength (headerU32 header 60) sectorLen totalSectors fatSectors
        entriesPerSector maximumMinifatSectors
      return minifatSectors.isSome

def cfbResourceBounds (byteLen : Nat) : EStateM StreamError OpenFile Bool :=
  if byteLen < 512 then return false
  else do
    let header ← OpenFile.readAt 0 512
    match cfbSectors header byteLen with
    | none => return false
    | some (sectorLen, totalSectors) =>
        match ← collectFatSectors header sectorLen totalSectors with
        | none => return false
        | some fatSectors => checkCfbChains header sectorLen totalSectors fatSectors

end Bounds

section Chains

/-- The successor of a sector, as the sectors of the table have it in a file. -/
def fatEntry (bytes : Bytes) (sectorLen : Nat) (fatSectors : List Nat) (entriesPerSector : Nat)
    (sector : Nat) : Option Nat :=
  (fatSectors[sector / entriesPerSector]?).bind fun fatSector =>
    let offset := (fatSector + 1) * sectorLen + sector % entriesPerSector * 4
    if offset + 4 ≤ bytes.length then some (leValue ((bytes.drop offset).take 4)) else none

/-- The sectors from one on to the end mark, each followed by its successor, all of them among
those of the file. -/
inductive FatChain (successor : Nat → Option Nat) (totalSectors : Nat) : Nat → List Nat → Prop where
  | stop : FatChain successor totalSectors endOfChain []
  | step {current next : Nat} {rest : List Nat} : current ≠ endOfChain → current < totalSectors →
      successor current = some next → FatChain successor totalSectors next rest →
        FatChain successor totalSectors current (current :: rest)

variable {successor : Nat → Option Nat} {totalSectors sectorLen entriesPerSector : Nat}
  {fatSectors : List Nat} {file : OpenFile}

theorem FatChain.inside {first : Nat} {sectors : List Nat}
    (chain : FatChain successor totalSectors first sectors) :
    ∀ sector ∈ sectors, sector < totalSectors := by
  induction chain with
  | stop => exact List.forall_mem_nil _
  | step _ inside _ _ ih => exact List.forall_mem_cons.mpr ⟨inside, ih⟩

/-- Where a place in the file can be read, its offset is a word. -/
theorem fatEntryOffset_ok {fatSector entryIndex : Nat} (positive : 0 < sectorLen)
    (fits : (fatSector + 1) * sectorLen + entryIndex * 4 < wordCount 64) :
    fatEntryOffset sectorLen fatSector entryIndex
      = some ((fatSector + 1) * sectorLen + entryIndex * 4) := by
  have sector : fatSector + 1 ≤ (fatSector + 1) * sectorLen := Nat.le_mul_of_pos_right _ positive
  have entry : checkedMul 64 entryIndex 4 = some (entryIndex * 4) :=
    checkedMul_eq_some.mpr ⟨rfl, by omega⟩
  have next : checkedAdd 64 fatSector 1 = some (fatSector + 1) :=
    checkedAdd_eq_some.mpr ⟨rfl, by omega⟩
  have start : checkedMul 64 (fatSector + 1) sectorLen = some ((fatSector + 1) * sectorLen) :=
    checkedMul_eq_some.mpr ⟨rfl, by omega⟩
  have sum : checkedAdd 64 ((fatSector + 1) * sectorLen) (entryIndex * 4)
      = some ((fatSector + 1) * sectorLen + entryIndex * 4) := checkedAdd_eq_some.mpr ⟨rfl, fits⟩
  simp only [fatEntryOffset, entry, next, start, sum, Option.bind_eq_bind, Option.bind_some]

theorem fatEntryOffset_eq {fatSector entryIndex offset : Nat}
    (found : fatEntryOffset sectorLen fatSector entryIndex = some offset) :
    offset = (fatSector + 1) * sectorLen + entryIndex * 4 := by
  obtain ⟨entry, isEntry, found⟩ := Option.bind_eq_some_iff.mp found
  obtain ⟨sector, isSector, found⟩ := Option.bind_eq_some_iff.mp found
  obtain ⟨start, isStart, found⟩ := Option.bind_eq_some_iff.mp found
  rw [(checkedAdd_eq_some.mp found).1, (checkedMul_eq_some.mp isStart).1,
    (checkedAdd_eq_some.mp isSector).1, (checkedMul_eq_some.mp isEntry).1]

/-- A chain that is followed has an answer exactly when it comes to its end in time, over sectors
that were not seen. -/
theorem cfbChainFrom_iff (positive : 0 < sectorLen) (steps : Nat) :
    ∀ (count current : Nat) (seen : List Nat) (file : OpenFile) (n : Nat),
      (∃ next, cfbChainFrom sectorLen totalSectors fatSectors entriesPerSector steps count current
          seen file = .ok (some n) next)
        ↔ ∃ sectors, FatChain (fatEntry file.bytes sectorLen fatSectors entriesPerSector)
              totalSectors current sectors
            ∧ sectors.Nodup ∧ (∀ sector ∈ sectors, sector ∉ seen)
            ∧ n = count + sectors.length ∧ sectors.length < steps := by
  induction steps with
  | zero =>
      intro count current seen file n
      constructor
      · rintro ⟨next, run⟩
        cases run
      · rintro ⟨sectors, -, -, -, -, impossible⟩
        exact absurd impossible (Nat.not_lt_zero _)
  | succ steps ih =>
      intro count current seen file n
      rw [cfbChainFrom]
      by_cases stopped : current = endOfChain
      · rw [if_pos stopped]
        constructor
        · rintro ⟨next, run⟩
          cases run
          rw [stopped]
          exact ⟨[], .stop, List.nodup_nil, List.forall_mem_nil _, rfl, Nat.succ_pos _⟩
        · rintro ⟨sectors, chain, -, -, length, -⟩
          cases chain with
          | stop =>
              rw [length]
              exact ⟨file, rfl⟩
          | step notStopped _ _ _ => exact absurd stopped notStopped
      rw [if_neg stopped]
      by_cases refused : totalSectors ≤ current ∨ current ∈ seen
      · rw [if_pos refused]
        constructor
        · rintro ⟨next, run⟩
          cases run
        · rintro ⟨sectors, chain, -, fresh, -⟩
          cases chain with
          | stop => exact absurd rfl stopped
          | step _ inside _ _ =>
              rcases refused with outside | known
              · omega
              · exact absurd known (fresh _ List.mem_cons_self)
      rw [if_neg refused]
      rw [not_or, Nat.not_le] at refused
      cases sector : fatSectors[current / entriesPerSector]? with
      | none =>
          constructor
          · rintro ⟨next, run⟩
            cases run
          · rintro ⟨sectors, chain, -⟩
            cases chain with
            | stop => exact absurd rfl stopped
            | step _ _ entry _ =>
                rw [fatEntry, sector] at entry
                cases entry
      | some fatSector =>
          have addressable := file.addressable
          dsimp only
          by_cases inside : (fatSector + 1) * sectorLen + current % entriesPerSector * 4 + 4
              ≤ file.bytes.length
          · have offset : fatEntryOffset sectorLen fatSector (current % entriesPerSector)
                = some ((fatSector + 1) * sectorLen + current % entriesPerSector * 4) :=
              fatEntryOffset_ok positive (by omega)
            have entry : fatEntry file.bytes sectorLen fatSectors entriesPerSector current
                = some (leValue (file.range
                    ((fatSector + 1) * sectorLen + current % entriesPerSector * 4) 4)) := by
              rw [fatEntry, sector, Option.bind_some, if_pos inside]
              rfl
            have read := OpenFile.readAt_ok inside
            rw [offset, okOr_some]
            change (∃ next, (OpenFile.readAt _ 4 >>= _ : EStateM _ _ _) file = _) ↔ _
            rw [run_bind, read]
            refine (ih _ _ _ _ n).trans ?_
            constructor
            · rintro ⟨sectors, chain, distinct, fresh, length, short⟩
              refine ⟨current :: sectors, .step stopped refused.1 entry chain, ?_, ?_, ?_, ?_⟩
              · refine List.nodup_cons.mpr ⟨fun member => ?_, distinct⟩
                exact fresh _ member List.mem_cons_self
              · refine List.forall_mem_cons.mpr ⟨refused.2, fun other member known => ?_⟩
                exact fresh other member (List.mem_cons_of_mem _ known)
              · rw [length, List.length_cons]
                omega
              · rw [List.length_cons]
                omega
            · rintro ⟨sectors, chain, distinct, fresh, length, short⟩
              cases chain with
              | stop => exact absurd rfl stopped
              | step _ _ entry' chain =>
                  rw [entry] at entry'
                  cases entry'
                  obtain ⟨new, distinct⟩ := List.nodup_cons.mp distinct
                  rw [List.length_cons] at length short
                  refine ⟨_, chain, distinct, fun other member known => ?_, by omega, by omega⟩
                  rcases List.mem_cons.mp known with rfl | known
                  · exact new member
                  · exact fresh other (List.mem_cons_of_mem _ member) known
          · constructor
            · rintro ⟨next, run⟩
              obtain ⟨offset, found, run⟩ := attempt_bind_run_ok.mp run
              rw [fatEntryOffset_eq (okOr_eq_ok.mp found)] at run
              obtain ⟨_, failed⟩ := OpenFile.readAt_short (Nat.not_le.mp inside) (by omega)
              rw [run_bind, failed] at run
              cases run
            · rintro ⟨sectors, chain, -⟩
              cases chain with
              | stop => exact absurd rfl stopped
              | step _ _ entry _ =>
                  rw [fatEntry, sector, Option.bind_some, if_neg inside] at entry
                  cases entry

end Chains

section Inside

variable {sectorLen totalSectors fatSectorCount entriesPerSector limit : Nat}
  {fatSectors : List Nat}

/-- Every sector of the file ends before the limit. -/
theorem sector_inside (room : (totalSectors + 1) * sectorLen ≤ limit) {sector : Nat}
    (inside : sector < totalSectors) : (sector + 1) * sectorLen + sectorLen ≤ limit := by
  have product := Nat.mul_le_mul_right sectorLen (Nat.succ_le_succ (Nat.succ_le_of_lt inside))
  rw [Nat.succ_mul] at product
  exact product.trans room

theorem readCfbSector_reads (small : limit < wordCount 64) (positive : 0 < sectorLen)
    (room : (totalSectors + 1) * sectorLen ≤ limit) {sector : Nat}
    (inside : sector < totalSectors) :
    OpenFile.Reads limit (readCfbSector sector sectorLen totalSectors) fun _ => True := by
  have below := sector_inside room inside
  have bound : sector + 1 ≤ (sector + 1) * sectorLen := Nat.le_mul_of_pos_right _ positive
  have offset : (checkedAdd 64 sector 1).bind (checkedMul 64 · sectorLen)
      = some ((sector + 1) * sectorLen) := by
    rw [checkedAdd_eq_some.mpr ⟨rfl, by omega⟩, Option.bind_some, checkedMul_eq_some]
    exact ⟨rfl, by omega⟩
  have accepted : refuse (totalSectors ≤ sector)
      (StreamError.invalidData "CFB sector is outside the attachment") = .ok () :=
    refuse_eq_ok.mpr (Nat.not_le.mpr inside)
  apply OpenFile.Reads.attempt_bind accepted
  apply OpenFile.Reads.attempt_bind (okOr_eq_ok.mpr offset)
  exact OpenFile.Reads.readAt below

/-- Only sectors of the file are taken for the table. -/
theorem takeFatSectors_inside {named result : List Nat}
    (inside : ∀ sector ∈ fatSectors, sector < totalSectors)
    (taken : takeFatSectors totalSectors fatSectorCount fatSectors named = some result) :
    ∀ sector ∈ result, sector < totalSectors := by
  induction named generalizing fatSectors with
  | nil =>
      cases taken
      exact inside
  | cons sector rest ih =>
      rw [takeFatSectors] at taken
      split at taken
      · split at taken
        · cases taken
        · apply ih _ taken
          intro other member
          rcases List.mem_append.mp member with member | member
          · exact inside other member
          · rw [List.mem_singleton.mp member]
            omega
      · exact ih inside taken

theorem followDifat_reads (small : limit < wordCount 64) (positive : 0 < sectorLen)
    (room : (totalSectors + 1) * sectorLen ≤ limit) (steps : Nat) :
    ∀ (fatSectors : List Nat) (difatSector : Nat) (seenDifat : List Nat),
      (∀ sector ∈ fatSectors, sector < totalSectors) →
        OpenFile.Reads limit (followDifat sectorLen totalSectors fatSectorCount steps fatSectors
          difatSector seenDifat) fun result =>
            ∀ found, result = some found → ∀ sector ∈ found, sector < totalSectors := by
  induction steps with
  | zero =>
      intro fatSectors difatSector seenDifat inside
      apply OpenFile.Reads.of_pure
      intro found same
      cases same
      exact inside
  | succ steps ih =>
      intro fatSectors difatSector seenDifat inside
      rw [followDifat]
      split
      · apply OpenFile.Reads.of_pure
        intro found same
        cases same
        exact inside
      split
      · exact OpenFile.Reads.of_pure fun found same => nomatch same
      rename_i refused
      rw [not_or, Nat.not_le] at refused
      apply OpenFile.Reads.bind (readCfbSector_reads small positive room refused.1)
      intro sector _
      cases taken : takeFatSectors totalSectors fatSectorCount fatSectors
          (words 4 (sectorLen / 4 - 1) sector) with
      | none => exact OpenFile.Reads.of_pure fun found same => nomatch same
      | some next => exact ih next _ _ (takeFatSectors_inside inside taken)

theorem collectFatSectors_reads (small : limit < wordCount 64) (positive : 0 < sectorLen)
    (room : (totalSectors + 1) * sectorLen ≤ limit) (header : Bytes) :
    OpenFile.Reads limit (collectFatSectors header sectorLen totalSectors) fun result =>
      ∀ found, result = some found → ∀ sector ∈ found, sector < totalSectors := by
  unfold collectFatSectors
  dsimp only
  split
  · exact OpenFile.Reads.of_pure fun found same => nomatch same
  cases taken : takeFatSectors totalSectors (headerU32 header 44) []
      (words 4 109 (header.drop 76)) with
  | none => exact OpenFile.Reads.of_pure fun found same => nomatch same
  | some fatSectors =>
      have inside := takeFatSectors_inside (List.forall_mem_nil _) taken
      apply OpenFile.Reads.bind (followDifat_reads small positive room _ _ _ _ inside)
      intro result found
      cases result with
      | none => exact OpenFile.Reads.of_pure fun found same => nomatch same
      | some fatSectors =>
          dsimp only
          split
          · exact OpenFile.Reads.of_pure fun found same => nomatch same
          · exact OpenFile.Reads.of_pure found

/-- A chain is followed within the file when the sectors of the table are. -/
theorem cfbChainFrom_reads (small : limit < wordCount 64)
    (room : (totalSectors + 1) * sectorLen ≤ limit) (some : 0 < entriesPerSector)
    (entries : entriesPerSector * 4 ≤ sectorLen)
    (inside : ∀ sector ∈ fatSectors, sector < totalSectors) (steps : Nat) :
    ∀ (count current : Nat) (seen : List Nat), OpenFile.Reads limit
      (cfbChainFrom sectorLen totalSectors fatSectors entriesPerSector steps count current seen)
        fun _ => True := by
  induction steps with
  | zero => exact fun count current seen => OpenFile.Reads.of_pure trivial
  | succ steps ih =>
      intro count current seen
      rw [cfbChainFrom]
      split
      · exact OpenFile.Reads.of_pure trivial
      split
      · exact OpenFile.Reads.of_pure trivial
      split
      · exact OpenFile.Reads.of_pure trivial
      rename_i fatSector found
      have entry := Nat.mod_lt current some
      have below := sector_inside room (inside fatSector (List.mem_of_getElem? found))
      have offset : fatEntryOffset sectorLen fatSector (current % entriesPerSector)
          = Option.some ((fatSector + 1) * sectorLen + current % entriesPerSector * 4) :=
        fatEntryOffset_ok (by omega) (by omega)
      apply OpenFile.Reads.attempt_bind (okOr_eq_ok.mpr offset)
      apply OpenFile.Reads.bind (OpenFile.Reads.readAt (by omega))
      exact fun next _ => ih _ _ _

/-- The sectors of a file are of one of two lengths, and lie in it. -/
theorem cfbSectors_some {header : Bytes} {byteLen : Nat} (long : 512 ≤ byteLen)
    (found : cfbSectors header byteLen = some (sectorLen, totalSectors)) :
    (sectorLen = 512 ∨ sectorLen = 4096) ∧ (totalSectors + 1) * sectorLen = byteLen := by
  unfold cfbSectors at found
  split at found
  · cases found
  · obtain ⟨length, isLength, found⟩ := Option.bind_eq_some_iff.mp found
    have lengths : length = 512 ∨ length = 4096 := by
      unfold cfbSectorLen at isLength
      split_ifs at isLength
      · exact Or.inl (Option.some.inj isLength).symm
      · exact Or.inr (Option.some.inj isLength).symm
    split at found
    · cases found
    · rename_i whole
      obtain ⟨total, isTotal, found⟩ := Option.map_eq_some_iff.mp found
      cases found
      obtain ⟨rfl, -⟩ := tryFrom_eq_some.mp isTotal
      refine ⟨lengths, ?_⟩
      rcases lengths with rfl | rfl <;> omega

end Inside

section Outcome

/-- The chain a file has from a sector on, among the sectors of the table: it ends, does not come
back to a sector, and has at most so many. -/
def BoundedChain (bytes : Bytes) (sectorLen totalSectors : Nat) (fatSectors : List Nat)
    (maximum first count : Nat) : Prop :=
  ∃ sectors, FatChain (fatEntry bytes sectorLen fatSectors (sectorLen / 4)) totalSectors first
      sectors
    ∧ sectors.Nodup ∧ (∀ sector ∈ sectors, sector < totalSectors)
    ∧ sectors.length = count ∧ count ≤ maximum

/-- The length of a chain is found exactly when there is one that is not too long. -/
theorem cfbChainLength_iff {sectorLen : Nat} (positive : 0 < sectorLen)
    (first totalSectors maximum : Nat) (fatSectors : List Nat) (file : OpenFile) (n : Nat) :
    (∃ next, cfbChainLength first sectorLen totalSectors fatSectors (sectorLen / 4) maximum file
        = .ok (some n) next)
      ↔ BoundedChain file.bytes sectorLen totalSectors fatSectors maximum first n := by
  refine (cfbChainFrom_iff positive (maximum + 1) 0 first [] file n).trans ?_
  constructor
  · rintro ⟨sectors, chain, distinct, -, rfl, short⟩
    exact ⟨sectors, chain, distinct, chain.inside, (Nat.zero_add _).symm, by omega⟩
  · rintro ⟨sectors, chain, distinct, -, rfl, short⟩
    exact ⟨sectors, chain, distinct, fun _ _ => List.not_mem_nil, (Nat.zero_add _).symm,
      by omega⟩

/-- The chains of the directory and of the small streams are followed within the file. -/
theorem checkCfbChains_reads {sectorLen totalSectors limit : Nat} {fatSectors : List Nat}
    (header : Bytes) (small : limit < wordCount 64)
    (room : (totalSectors + 1) * sectorLen ≤ limit) (lengths : sectorLen = 512 ∨ sectorLen = 4096)
    (inside : ∀ sector ∈ fatSectors, sector < totalSectors) :
    OpenFile.Reads limit (checkCfbChains header sectorLen totalSectors fatSectors)
      fun _ => True := by
  have some : 0 < sectorLen / 4 := by omega
  have entries : sectorLen / 4 * 4 ≤ sectorLen := by omega
  apply OpenFile.Reads.bind (cfbChainFrom_reads small room some entries inside _ _ _ _)
  intro directorySectors _
  split
  · exact OpenFile.Reads.of_pure trivial
  split
  · exact OpenFile.Reads.of_pure trivial
  dsimp only
  split
  · exact OpenFile.Reads.of_pure trivial
  split
  · exact OpenFile.Reads.of_pure trivial
  apply OpenFile.Reads.bind (cfbChainFrom_reads small room some entries inside _ _ _ _)
  exact fun minifatSectors _ => OpenFile.Reads.of_pure trivial

theorem cfbResourceBounds_reads {byteLen : Nat} (small : byteLen < wordCount 64) :
    OpenFile.Reads byteLen (cfbResourceBounds byteLen) fun _ => True := by
  unfold cfbResourceBounds
  split
  · exact OpenFile.Reads.of_pure trivial
  rename_i long
  apply OpenFile.Reads.bind (OpenFile.Reads.readAt (Nat.le_of_not_lt long))
  intro header _
  cases found : cfbSectors header byteLen with
  | none => exact OpenFile.Reads.of_pure trivial
  | some sectors =>
      obtain ⟨sectorLen, totalSectors⟩ := sectors
      obtain ⟨lengths, total⟩ := cfbSectors_some (Nat.le_of_not_lt long) found
      have positive : 0 < sectorLen := by omega
      have room : (totalSectors + 1) * sectorLen ≤ byteLen := total.le
      apply OpenFile.Reads.bind (collectFatSectors_reads small positive room header)
      intro result inside
      cases result with
      | none => exact OpenFile.Reads.of_pure trivial
      | some fatSectors =>
          exact checkCfbChains_reads header small room lengths (inside fatSectors rfl)

/-- What a header promises of the chains of a file, for its parser. -/
structure Bounded (header bytes : Bytes) (sectorLen totalSectors : Nat) (fatSectors : List Nat) :
    Prop where
  directory : ∃ count, BoundedChain bytes sectorLen totalSectors fatSectors
      (maxCfbEntries / (sectorLen / 128)) (headerU32 header 48) count
    ∧ (leValue ((header.drop 26).take 2) = 4 → headerU32 header 40 = count)
  minifat : ∃ count, BoundedChain bytes sectorLen totalSectors fatSectors
      (maxCfbMinifatBytes / sectorLen) (headerU32 header 60) count

theorem checkCfbChains_bounded {header : Bytes} {sectorLen totalSectors limit : Nat}
    {fatSectors : List Nat} {file next : OpenFile} (small : limit < wordCount 64)
    (long : limit ≤ file.bytes.length)
    (room : (totalSectors + 1) * sectorLen ≤ limit) (lengths : sectorLen = 512 ∨ sectorLen = 4096)
    (inside : ∀ sector ∈ fatSectors, sector < totalSectors)
    (run : checkCfbChains header sectorLen totalSectors fatSectors file = .ok true next) :
    Bounded header file.bytes sectorLen totalSectors fatSectors := by
  have positive : 0 < sectorLen := by omega
  have entries : sectorLen / 4 * 4 ≤ sectorLen := by omega
  obtain ⟨answer, middle, directory, run⟩ := bind_run_ok.mp run
  obtain ⟨_, _, run', -, within⟩ := cfbChainFrom_reads small room
    (by omega : 0 < sectorLen / 4) entries inside _ 0 (headerU32 header 48) [] file long
  have same : middle.bytes = file.bytes := by
    rw [cfbChainLength, run'] at directory
    cases directory
    exact within.bytes
  cases answer with
  | none =>
      rw [if_pos rfl] at run
      cases run
  | some count =>
      rw [if_neg (Option.some_ne_none count)] at run
      have bounded := (cfbChainLength_iff positive _ totalSectors _ fatSectors file count).mp
        ⟨middle, directory⟩
      split at run
      · cases run
      rename_i agrees
      have version : leValue ((header.drop 26).take 2) = 4 → headerU32 header 40 = count := by
        intro four
        by_contra other
        exact agrees ⟨four, fun equal => other (Option.some.inj equal)⟩
      refine ⟨⟨count, bounded, version⟩, ?_⟩
      dsimp only at run
      split at run
      · cases run
      split at run
      · rename_i stopped
        rw [stopped]
        exact ⟨0, [], .stop, List.nodup_nil, List.forall_mem_nil _, rfl, Nat.zero_le _⟩
      · obtain ⟨answer, final, minifat, run⟩ := bind_run_ok.mp run
        cases answer with
        | none => cases run
        | some count =>
            have bounded := (cfbChainLength_iff positive _ totalSectors _ fatSectors middle
              count).mp ⟨final, minifat⟩
            rw [same] at bounded
            exact ⟨count, bounded⟩

/-- The check ends on every file, asking for nothing outside the attachment, and when it says yes
the chains a parser will follow are bounded; and the length of a chain is found exactly when
there is one that is not too long. -/
theorem cfbResourceBounds_sound (file : OpenFile) (byteLen : Nat)
    (long : byteLen ≤ file.bytes.length) :
    (∃ bounded next, cfbResourceBounds byteLen file = .ok bounded next
      ∧ OpenFile.Within 0 byteLen file next
      ∧ (bounded = true → ∃ read sectorLen totalSectors fatSectors collected,
          OpenFile.readAt 0 512 file = .ok (file.range 0 512) read
          ∧ cfbSectors (file.range 0 512) byteLen = some (sectorLen, totalSectors)
          ∧ collectFatSectors (file.range 0 512) sectorLen totalSectors read
            = .ok (some fatSectors) collected
          ∧ Bounded (file.range 0 512) file.bytes sectorLen totalSectors fatSectors))
      ∧ ∀ sectorLen first totalSectors maximum fatSectors n, 0 < sectorLen →
        ((∃ next, cfbChainLength first sectorLen totalSectors fatSectors
          (sectorLen / 4) maximum file
            = .ok (some n) next)
          ↔ BoundedChain file.bytes sectorLen totalSectors fatSectors maximum first n) := by
  constructor
  · have small : byteLen < wordCount 64 := lt_of_le_of_lt long file.addressable
    obtain ⟨bounded, next, run, -, within⟩ := cfbResourceBounds_reads small file long
    refine ⟨bounded, next, run, within, ?_⟩
    rintro rfl
    unfold cfbResourceBounds at run
    split at run
    · cases run
    rename_i enough
    have header := @OpenFile.readAt_ok file 0 512 (by omega)
    obtain ⟨bytes, read, first, run⟩ := bind_run_ok.mp run
    have same : bytes = file.range 0 512 ∧ read.bytes = file.bytes := by
      rw [header] at first
      cases first
      exact ⟨rfl, rfl⟩
    obtain ⟨rfl, same⟩ := same
    have longRead : byteLen ≤ read.bytes.length := by rwa [same]
    cases found : cfbSectors (file.range 0 512) byteLen with
    | none =>
        rw [found] at run
        cases run
    | some sectors =>
        obtain ⟨sectorLen, totalSectors⟩ := sectors
        rw [found] at run
        obtain ⟨lengths, total⟩ := cfbSectors_some (Nat.le_of_not_lt enough) found
        obtain ⟨result, collected, collect, run⟩ := bind_run_ok.mp run
        obtain ⟨_, _, collect', inside, within⟩ := collectFatSectors_reads small
          (by omega : 0 < sectorLen) total.le (file.range 0 512) read longRead
        rw [collect'] at collect
        cases collect
        cases result with
        | none => cases run
        | some fatSectors =>
            have bounded := checkCfbChains_bounded small (by rwa [within.bytes]) total.le lengths
              (inside fatSectors rfl) run
            rw [within.bytes, same] at bounded
            exact ⟨read, sectorLen, totalSectors, fatSectors, _, first, rfl, collect', bounded⟩
  · intro sectorLen first totalSectors maximum fatSectors n positive
    exact cfbChainLength_iff positive first totalSectors maximum fatSectors file n

/-- A compound file of the third version with two sectors: its table, and a directory of one
sector. -/
def twoSectors : OpenFile where
  bytes := cfbSignature ++ List.replicate 18 0 ++ [3, 0, 0xFE, 0xFF, 9, 0] ++ List.replicate 12 0
    ++ leBytes 4 1 ++ leBytes 4 1 ++ List.replicate 8 0 ++ leBytes 4 endOfChain ++ leBytes 4 0
    ++ leBytes 4 endOfChain ++ leBytes 4 0 ++ leBytes 4 0 ++ List.replicate 432 0xFF
    ++ leBytes 4 0xFFFFFFFD ++ leBytes 4 endOfChain ++ List.replicate 504 0xFF
    ++ List.replicate 512 0
  addressable := by decide +kernel
  position := 0
  asked := []

theorem cfbResourceBounds_twoSectors : ∃ sectorLen totalSectors fatSectors,
    Bounded (twoSectors.range 0 512) twoSectors.bytes sectorLen totalSectors fatSectors := by
  have long : 1536 ≤ twoSectors.bytes.length := by decide +kernel
  have accepted : (match cfbResourceBounds 1536 twoSectors with
      | .ok bounded _ => bounded
      | .error _ _ => false) = true := by decide +kernel
  obtain ⟨bounded, next, run, -, sound⟩ := (cfbResourceBounds_sound twoSectors 1536 long).1
  rw [run] at accepted
  obtain ⟨_, sectorLen, totalSectors, fatSectors, _, -, -, -, bounded⟩ := sound accepted
  exact ⟨sectorLen, totalSectors, fatSectors, bounded⟩

end Outcome

end PstForge.Attachment
