import PstForge.Foundation.Bytes
import PstForge.Foundation.Effect

/-! # Files that are read at a position

A file that is open for reading has a position, at which the next read starts. The system may
serve less than was asked for, or fail. The file remembers which ranges were asked for.
-/

namespace PstForge.Foundation

inductive StreamError where
  | unexpectedEof
  | invalidInput (detail : String)
  | invalidData (detail : String)
  | other (detail : String)
  deriving DecidableEq, Repr

/-- How the system answers a request: it fails, or serves at most so many bytes. -/
inductive Answer where
  | fails (error : StreamError)
  | serves (upTo : Nat)
  deriving DecidableEq, Repr

/-- A file with the position of the next read and the ranges that were asked for, the last one
first. Its length is a word of 64 bits. -/
structure OpenFile where
  bytes : Bytes
  addressable : bytes.length < wordCount 64
  position : Nat
  asked : List (Nat × Nat)

namespace OpenFile

/-- The bytes of a range; there are fewer where the file ends. -/
def range (file : OpenFile) (offset count : Nat) : Bytes := (file.bytes.drop offset).take count

def read (answer : Answer) (count : Nat) : EStateM StreamError OpenFile Bytes := fun file =>
  let asked := (file.position, count) :: file.asked
  match answer with
  | .fails error => .error error { file with asked }
  | .serves upTo =>
      let bytes := file.range file.position (min count upTo)
      .ok bytes { file with position := file.position + bytes.length, asked }

def seek (answer : Answer) (offset : Nat) : EStateM StreamError OpenFile Unit := fun file =>
  match answer with
  | .fails error => .error error file
  | .serves _ => .ok () { file with position := offset }

/-- Read until so many bytes were served, from a system that serves what the file has. -/
def readExact (count : Nat) : EStateM StreamError OpenFile Bytes := fun file =>
  let bytes := file.range file.position count
  let asked := (file.position, count) :: file.asked
  let next := { file with position := file.position + bytes.length, asked }
  if bytes.length < count then .error .unexpectedEof next else .ok bytes next

/-- Read so many bytes at an offset. -/
def readAt (offset count : Nat) : EStateM StreamError OpenFile Bytes := do
  seek (.serves count) offset
  readExact count

/-- What was asked of a file between two points lies in a part of it, and the bytes are the
same. -/
structure Within (low high : Nat) (file next : OpenFile) : Prop where
  bytes : next.bytes = file.bytes
  asked : ∃ fresh, next.asked = fresh ++ file.asked
    ∧ ∀ range ∈ fresh, low ≤ range.1 ∧ range.1 + range.2 ≤ high

namespace Within

variable {low high : Nat} {file next final : OpenFile}

theorem refl (file : OpenFile) : Within low high file file :=
  ⟨rfl, [], rfl, fun _ member => nomatch member⟩

theorem trans (first : Within low high file next) (second : Within low high next final) :
    Within low high file final := by
  obtain ⟨sameFirst, early, askedFirst, insideFirst⟩ := first
  obtain ⟨sameSecond, late, askedSecond, insideSecond⟩ := second
  refine ⟨sameSecond.trans sameFirst, late ++ early, ?_, ?_⟩
  · rw [askedSecond, askedFirst, List.append_assoc]
  · intro range member
    rcases List.mem_append.mp member with member | member
    · exact insideSecond range member
    · exact insideFirst range member

/-- One more range. -/
theorem ask {offset count position : Nat} (above : low ≤ offset) (below : offset + count ≤ high) :
    Within low high file { file with position, asked := (offset, count) :: file.asked } := by
  refine ⟨rfl, [(offset, count)], rfl, fun range member => ?_⟩
  rw [List.mem_singleton.mp member]
  exact ⟨above, below⟩

/-- Going to another position asks for nothing. -/
theorem move {position : Nat} : Within low high file { file with position } :=
  ⟨rfl, [], rfl, fun _ member => nomatch member⟩

end Within

variable {file : OpenFile}

/-- All of a range that the file has can be read. -/
theorem readExact_ok {count : Nat} (inside : file.position + count ≤ file.bytes.length) :
    readExact count file = .ok (file.range file.position count)
      { file with
        position := file.position + count, asked := (file.position, count) :: file.asked } := by
  have length : (file.range file.position count).length = count := by
    rw [range, List.length_take, List.length_drop]
    omega
  simp only [readExact, length, Nat.lt_irrefl, if_false]

theorem readExact_short {count : Nat} (outside : file.bytes.length < file.position + count)
    (some : 0 < count) :
    ∃ next, readExact count file = .error .unexpectedEof next := by
  have length : (file.range file.position count).length < count := by
    rw [range, List.length_take, List.length_drop]
    omega
  refine ⟨{ file with
    position := file.position + (file.range file.position count).length
    asked := (file.position, count) :: file.asked }, ?_⟩
  simp only [readExact, if_pos length]

/-- Reading a range that the file has. -/
theorem readAt_ok {offset count : Nat} (inside : offset + count ≤ file.bytes.length) :
    readAt offset count file = .ok (file.range offset count)
      { file with position := offset + count, asked := (offset, count) :: file.asked } := by
  have moved : ({ file with position := offset } : OpenFile).position + count
      ≤ ({ file with position := offset } : OpenFile).bytes.length := inside
  exact readExact_ok moved

theorem readAt_short {offset count : Nat} (outside : file.bytes.length < offset + count)
    (some : 0 < count) : ∃ next, readAt offset count file = .error .unexpectedEof next := by
  have moved : ({ file with position := offset } : OpenFile).bytes.length
      < ({ file with position := offset } : OpenFile).position + count := outside
  exact readExact_short moved some

/-- The program succeeds in every file that is long enough, asks only for what lies before the
limit, and answers with the property. -/
def Reads {α : Type} (limit : Nat) (program : EStateM StreamError OpenFile α) (Q : α → Prop) :
    Prop :=
  ∀ file : OpenFile, limit ≤ file.bytes.length →
    ∃ value next, program file = .ok value next ∧ Q value ∧ Within 0 limit file next

namespace Reads

variable {α β : Type} {limit : Nat} {Q : α → Prop}

theorem of_pure {value : α} (holds : Q value) :
    Reads limit (pure value : EStateM StreamError OpenFile α) Q :=
  fun file _ => ⟨value, file, rfl, holds, .refl file⟩

theorem bind {first : EStateM StreamError OpenFile β} {M : β → Prop}
    {next : β → EStateM StreamError OpenFile α} (reads : Reads limit first M)
    (readsNext : ∀ value, M value → Reads limit (next value) Q) :
    Reads limit (first >>= next) Q := by
  intro file long
  obtain ⟨value, middle, run, holds, within⟩ := reads file long
  obtain ⟨result, final, run', holds', within'⟩ :=
    readsNext value holds middle (by rwa [within.bytes])
  exact ⟨result, final, bind_run_ok.mpr ⟨value, middle, run, run'⟩, holds', within.trans within'⟩

theorem attempt_bind {source : Except StreamError β} {value : β}
    {next : β → EStateM StreamError OpenFile α} (succeeds : source = .ok value)
    (reads : Reads limit (next value) Q) : Reads limit (attempt source >>= next) Q := by
  rw [succeeds]
  exact reads

theorem readAt {offset count : Nat} (inside : offset + count ≤ limit) :
    Reads limit (OpenFile.readAt offset count) fun _ => True := by
  intro file long
  exact ⟨_, _, readAt_ok (inside.trans long), trivial, .ask (Nat.zero_le _) inside⟩

end Reads

end OpenFile

end PstForge.Foundation
