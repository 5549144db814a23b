import PstForge.Job.Open

/-! # The blobs in the payload pack

A row of the ledger that names a range of the pack is kept when the range lies within
the pack and its bytes have the hash of the row. The rows are kept in the order in
which their ranges follow each other. What was committed is kept even when the process
is killed: its ranges are on the disk.
-/

namespace PstForge.Job

open PstForge.Foundation PstForge.Catalog

section File

variable {file : PackFile}

/-- Where a file is written at its end, the bytes are appended. -/
theorem PackFile.write_bytes (atEnd : file.offset = file.bytes.length) (data : Bytes) :
    (file.write data).bytes = file.bytes ++ data := by
  simp [write, patchBytes, atEnd]

theorem PackFile.setLen_length (length : Nat) : (file.setLen length).bytes.length = length := by
  simp only [setLen, List.length_append, List.length_take, List.length_replicate]
  omega

/-- A range is not touched by what happens behind it. -/
theorem PackFile.range_of_take {other : PackFile} {offset length : Nat}
    (same : other.bytes.take (offset + length) = file.bytes.take (offset + length)) :
    other.range offset length = file.range offset length := by
  simp only [range]
  rw [List.take_drop, List.take_drop, same]

theorem PackFile.range_write (atEnd : file.offset = file.bytes.length) (data : Bytes)
    {offset length : Nat} (inside : offset + length ≤ file.bytes.length) :
    (file.write data).range offset length = file.range offset length := by
  apply range_of_take
  rw [write_bytes atEnd, List.take_append_of_le_length inside]

theorem PackFile.range_setLen {size offset length : Nat} (below : offset + length ≤ size)
    (inside : offset + length ≤ file.bytes.length) :
    (file.setLen size).range offset length = file.range offset length := by
  apply range_of_take
  rw [setLen, List.take_append_of_le_length (by simp; omega), List.take_take, Nat.min_eq_left below]

theorem PackFile.Survives.range {found : Bytes} (survives : file.Survives found)
    {offset length : Nat} (synced : offset + length ≤ file.synced) (other : PackFile)
    (same : other.bytes = found) : other.range offset length = file.range offset length := by
  apply range_of_take
  have cut := congrArg (List.take (offset + length)) survives.2
  rw [List.take_take, List.take_take, Nat.min_eq_left synced] at cut
  rw [same, cut]

end File

section Rows

variable (sha256 : Bytes → Bytes)

/-- The range of a row ends before a limit. -/
def Ahead (limit : Nat) (row : BlobRow) : Prop :=
  ∀ offset, row.packOffset = some offset → offset + row.byteLen ≤ limit

/-- The range of a row lies within the pack, and its bytes have the hash of the row. -/
def Stored (file : PackFile) (row : BlobRow) : Prop :=
  ∀ offset, row.packOffset = some offset → offset + row.byteLen ≤ file.bytes.length
    ∧ sha256 (file.range offset row.byteLen) = row.sha256

/-- The range of a row ends where another one starts, or before. -/
def Before (first second : BlobRow) : Prop :=
  ∀ offset, second.packOffset = some offset → Ahead offset first

variable {sha256}

theorem Ahead.mono {limit limit' : Nat} {row : BlobRow} (ahead : Ahead limit row)
    (le : limit ≤ limit') : Ahead limit' row :=
  fun offset at_ => (ahead offset at_).trans le

theorem Stored.ahead {file : PackFile} {row : BlobRow} (stored : Stored sha256 file row) :
    Ahead file.bytes.length row :=
  fun offset at_ => (stored offset at_).1

/-- The rows of a ledger with what was committed of them, kept in a pack. -/
structure Kept (sha256 : Bytes → Bytes) (rows committed : List BlobRow) (file : PackFile) : Prop
    where
  stored : ∀ row ∈ rows, Stored sha256 file row
  ordered : rows.Pairwise Before
  among : committed <+: rows
  synced : ∀ row ∈ committed, Ahead file.synced row

namespace Kept

variable {rows committed : List BlobRow} {file : PackFile}

theorem ahead (kept : Kept sha256 rows committed file) :
    ∀ row ∈ rows, Ahead file.bytes.length row :=
  fun row member => (kept.stored row member).ahead

/-- Writing at the end keeps everything. -/
theorem write (kept : Kept sha256 rows committed file) (atEnd : file.offset = file.bytes.length)
    (data : Bytes) : Kept sha256 rows committed (file.write data) where
  stored row member offset at_ := by
    obtain ⟨inside, hash⟩ := kept.stored row member offset at_
    rw [PackFile.range_write atEnd data inside, PackFile.write_bytes atEnd, List.length_append]
    exact ⟨by omega, hash⟩
  ordered := kept.ordered
  among := kept.among
  synced row member offset at_ := by
    have inside := kept.ahead row (kept.among.subset member) offset at_
    have synced := kept.synced row member offset at_
    simp only [PackFile.write]
    omega

/-- Cutting off what lies behind the rows keeps them. -/
theorem cut {fewer : List BlobRow} (kept : Kept sha256 rows committed file)
    (fewerRows : fewer <+: rows) (stillCommitted : committed <+: fewer) {length : Nat}
    (ahead : ∀ row ∈ fewer, Ahead length row) :
    Kept sha256 fewer committed ((file.setLen length).seek length) where
  stored row member offset at_ := by
    obtain ⟨inside, hash⟩ := kept.stored row (fewerRows.subset member) offset at_
    have below := ahead row member offset at_
    have longer : (file.setLen length).bytes.length = length := PackFile.setLen_length length
    refine ⟨longer.symm ▸ below, ?_⟩
    rw [← hash, ← PackFile.range_setLen below inside]
    rfl
  ordered := kept.ordered.sublist fewerRows.sublist
  among := stillCommitted
  synced row member := by
    intro offset at_
    have synced := kept.synced row member offset at_
    have below := ahead row (stillCommitted.subset member) offset at_
    simp only [PackFile.seek, PackFile.setLen]
    omega

/-- A new row behind all others. -/
theorem push (kept : Kept sha256 rows committed file) {row : BlobRow}
    (stored : Stored sha256 file row) (behind : ∀ other ∈ rows, Before other row) :
    Kept sha256 (rows ++ [row]) committed file where
  stored other member := by
    rcases List.mem_append.mp member with member | member
    · exact kept.stored other member
    · rw [List.mem_singleton.mp member]
      exact stored
  ordered := by
    rw [List.pairwise_append]
    refine ⟨kept.ordered, List.pairwise_singleton _ _, fun first member second here => ?_⟩
    rw [List.mem_singleton.mp here]
    exact behind first member
  among := kept.among.trans (List.prefix_append _ _)
  synced := kept.synced

/-- Once the pack is on the disk, every row may be committed. -/
theorem sync (kept : Kept sha256 rows committed file) : Kept sha256 rows rows file.sync where
  stored := kept.stored
  ordered := kept.ordered
  among := List.prefix_rfl
  synced := kept.ahead

/-- Nothing is lost by taking rows back to fewer ones. -/
theorem fewer {fewer : List BlobRow} (kept : Kept sha256 rows committed file)
    (fewerRows : fewer <+: rows) (stillCommitted : committed <+: fewer) :
    Kept sha256 fewer committed file where
  stored row member := kept.stored row (fewerRows.subset member)
  ordered := kept.ordered.sublist fewerRows.sublist
  among := stillCommitted
  synced := kept.synced

end Kept

end Rows

end PstForge.Job
