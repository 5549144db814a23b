import PstForge.Foundation.OpenFile

/-! # One attachment in a larger file

A blob lies in a file among others. What reads it is given a range that begins where the file
stands and has the length of the blob: it can read and seek in it as in a file of its own.
-/

namespace PstForge.Attachment

open PstForge.Foundation

/-- A range of a file, with a position of its own. -/
structure BlobRange where
  inner : OpenFile
  base : Nat
  len : Nat
  position : Nat

/-- Where to seek to; a sum of a word of 64 bits and a signed one is a number of 128 bits. -/
inductive SeekFrom where
  | start (value : Nat)
  | current (value : Int)
  | ending (value : Int)
  deriving DecidableEq, Repr

namespace BlobRange

def new (inner : OpenFile) (len : Nat) : BlobRange where
  inner := inner
  base := inner.position
  len := len
  position := 0

/-- Do something with the file under the range. -/
def onInner {α : Type} (program : EStateM StreamError OpenFile α) :
    EStateM StreamError BlobRange α :=
  zoom BlobRange.inner (fun range inner => { range with inner }) program

def read (answer : Answer) (bufferLen : Nat) : EStateM StreamError BlobRange Bytes := do
  let range ← get
  let remaining := range.len - range.position
  let bufferLen ← attempt (okOr (.other "read buffer length does not fit u64")
    (tryFrom 64 bufferLen))
  let maximum ← attempt (okOr (.other "blob range length does not fit memory index")
    (tryFrom 64 (min remaining bufferLen)))
  let bytes ← onInner (OpenFile.read answer maximum)
  let position ← attempt (okOr (.other "blob range position overflow")
    (checkedAdd 64 range.position bytes.length))
  modify fun range => { range with position }
  return bytes

/-- The position that is asked for, which may lie outside. -/
def target (range : BlobRange) : SeekFrom → Int
  | .start value => value
  | .current value => range.position + value
  | .ending value => range.len + value

def seek (answer : Answer) (position : SeekFrom) : EStateM StreamError BlobRange Nat := do
  let range ← get
  let next := range.target position
  attempt (refuse (next < 0 ∨ (range.len : Int) < next)
    (.invalidInput "seek outside verified attachment blob"))
  let next ← attempt (okOr (.other "blob range seek does not fit u64") (tryFrom 64 next.toNat))
  let absolute ← attempt (okOr (.other "blob range absolute offset overflow")
    (checkedAdd 64 range.base next))
  onInner (OpenFile.seek answer absolute)
  modify fun range => { range with position := next }
  return next

/-- What is asked of a range, with the answer of the system. -/
inductive Request where
  | read (answer : Answer) (bufferLen : Nat)
  | seek (answer : Answer) (position : SeekFrom)
  deriving DecidableEq, Repr

def perform (range : BlobRange) : Request → BlobRange
  | .read answer bufferLen => after (read answer bufferLen) range
  | .seek answer position => after (seek answer position) range

/-- The range after a sequence of requests. -/
def run (range : BlobRange) (requests : List Request) : BlobRange := requests.foldl perform range

end BlobRange

section Invariant

/-- The range `[base, base + len)` of a file that is open at some position in it, after having
been read nowhere else. -/
structure Window (file : OpenFile) (len : Nat) (range : BlobRange) : Prop where
  base : range.base = file.position
  sized : range.len = len
  inside : range.position ≤ len
  aligned : range.inner.position = file.position + range.position
  within : OpenFile.Within file.position (file.position + len) file range.inner

variable {file : OpenFile} {len : Nat} {range : BlobRange}

theorem window_new : Window file len (BlobRange.new file len) where
  base := rfl
  sized := rfl
  inside := Nat.zero_le _
  aligned := rfl
  within := .refl file

/-- The buffer and the rest of the blob bound what is asked of the file. -/
private theorem maximum_ok {bufferLen : Nat} (fits : bufferLen < wordCount 64) :
    tryFrom 64 bufferLen = some bufferLen ∧ tryFrom 64 (min (range.len - range.position) bufferLen)
      = some (min (range.len - range.position) bufferLen) :=
  ⟨tryFrom_eq_some.mpr ⟨rfl, fits⟩,
    tryFrom_eq_some.mpr ⟨rfl, lt_of_le_of_lt (min_le_right _ _) fits⟩⟩

/-- What is asked of the file lies in the blob. -/
theorem Window.asks (window : Window file len range) (bufferLen position : Nat) :
    OpenFile.Within file.position (file.position + len) file
      { range.inner with
        position
        asked := (range.inner.position, min (range.len - range.position) bufferLen)
          :: range.inner.asked } := by
  have inside := window.inside
  have aligned := window.aligned
  have sized := window.sized
  exact window.within.trans (.ask (by omega) (by omega))

/-- What is served is the part of the blob at the position, up to where the buffer or the answer
ends. -/
theorem Window.read (window : Window file len range)
    (larger : file.position + len ≤ file.bytes.length) {bufferLen : Nat}
    (fits : bufferLen < wordCount 64) (upTo : Nat) :
    ∃ next, BlobRange.read (.serves upTo) bufferLen range
        = .ok (((file.range file.position len).drop range.position).take (min bufferLen upTo)) next
      ∧ next.position = range.position + min (min bufferLen upTo) (len - range.position)
      ∧ Window file len next := by
  have asks := window.asks bufferLen
  obtain ⟨base, rfl, inside, aligned, within⟩ := window
  obtain ⟨buffer, maximum⟩ := @maximum_ok range _ fits
  have addressable := file.addressable
  have served : range.inner.range range.inner.position
        (min (min (range.len - range.position) bufferLen) upTo)
      = ((file.range file.position range.len).drop range.position).take (min bufferLen upTo) := by
    rw [OpenFile.range, OpenFile.range, within.bytes, aligned, List.drop_take, List.drop_drop,
      List.take_take]
    congr 1
    omega
  have length : (((file.range file.position range.len).drop range.position).take
      (min bufferLen upTo)).length
        = min (min bufferLen upTo) (range.len - range.position) := by
    rw [List.length_take, List.length_drop, OpenFile.range, List.length_take, List.length_drop]
    omega
  have position : checkedAdd 64 range.position (((file.range file.position range.len).drop
      range.position).take (min bufferLen upTo)).length
        = some (range.position + min (min bufferLen upTo) (range.len - range.position)) := by
    rw [checkedAdd_eq_some, length]
    exact ⟨rfl, by omega⟩
  rw [← served] at position length ⊢
  refine ⟨_, bind_run_ok.mpr ⟨range, range, rfl, attempt_bind_run_ok.mpr ⟨bufferLen,
    okOr_eq_ok.mpr buffer, attempt_bind_run_ok.mpr ⟨_, okOr_eq_ok.mpr maximum,
      bind_run_ok.mpr ⟨_, _, rfl, attempt_bind_run_ok.mpr ⟨_, okOr_eq_ok.mpr position, rfl⟩⟩⟩⟩⟩,
    rfl, ?_⟩
  exact {
    base := base
    sized := rfl
    inside := by
      change range.position + _ ≤ range.len
      omega
    aligned := by
      change range.inner.position + _ = file.position + (range.position + _)
      rw [length, aligned, Nat.add_assoc]
    within := asks _ }

/-- A read that the system fails leaves the range where it was. -/
theorem Window.read_fails (window : Window file len range) {bufferLen : Nat}
    (fits : bufferLen < wordCount 64) (error : StreamError) :
    ∃ next, BlobRange.read (.fails error) bufferLen range = .error error next
      ∧ next.position = range.position ∧ Window file len next := by
  obtain ⟨buffer, maximum⟩ := @maximum_ok range _ fits
  refine ⟨{ range with inner := { range.inner with
    asked := (range.inner.position, min (range.len - range.position) bufferLen)
      :: range.inner.asked } }, ?_, rfl, ?_⟩
  · change (attempt (okOr _ (tryFrom 64 bufferLen)) >>= _ : EStateM _ _ _) range = _
    rw [buffer]
    change (attempt (okOr _ (tryFrom 64 (min (range.len - range.position) bufferLen))) >>= _ :
      EStateM _ _ _) range = _
    rw [maximum]
    rfl
  · exact { window with within := window.asks bufferLen _ }

/-- Seeking outside the blob fails, and changes nothing. -/
theorem BlobRange.seek_outside (answer : Answer) {position : SeekFrom}
    (outside : range.target position < 0 ∨ (range.len : Int) < range.target position) :
    BlobRange.seek answer position range
      = .error (.invalidInput "seek outside verified attachment blob") range := by
  have refused : refuse (range.target position < 0 ∨ (range.len : Int) < range.target position)
      (StreamError.invalidInput "seek outside verified attachment blob")
        = .error (.invalidInput "seek outside verified attachment blob") := if_pos outside
  change (attempt (refuse (range.target position < 0 ∨ (range.len : Int) < range.target position)
    (StreamError.invalidInput "seek outside verified attachment blob")) >>= _ : EStateM _ _ _)
      range = _
  rw [refused]
  rfl

/-- Seeking in the blob asks the file for the place where it lies. -/
theorem Window.seek (window : Window file len range)
    (larger : file.position + len ≤ file.bytes.length) (answer : Answer) {position : SeekFrom}
    (above : 0 ≤ range.target position) (below : range.target position ≤ len) :
    BlobRange.seek answer position range = match answer with
      | .fails error => .error error range
      | .serves _ => .ok (range.target position).toNat
          { range with
            inner := { range.inner with
              position := file.position + (range.target position).toNat }
            position := (range.target position).toNat } := by
  have addressable := file.addressable
  have accepted : refuse (range.target position < 0 ∨ (range.len : Int) < range.target position)
      (StreamError.invalidInput "seek outside verified attachment blob") = .ok () := by
    rw [refuse_eq_ok, window.sized]
    omega
  have next : tryFrom 64 (range.target position).toNat = some (range.target position).toNat :=
    tryFrom_eq_some.mpr ⟨rfl, by omega⟩
  have absolute : checkedAdd 64 range.base (range.target position).toNat
      = some (file.position + (range.target position).toNat) := by
    rw [checkedAdd_eq_some, window.base]
    exact ⟨rfl, by omega⟩
  change (attempt (refuse _ _) >>= _ : EStateM _ _ _) range = _
  rw [accepted]
  change (attempt (okOr _ (tryFrom 64 _)) >>= _ : EStateM _ _ _) range = _
  rw [next]
  change (attempt (okOr _ (checkedAdd 64 _ _)) >>= _ : EStateM _ _ _) range = _
  rw [absolute]
  cases answer <;> rfl

/-- No request takes the range out of the blob. -/
theorem Window.perform (window : Window file len range)
    (larger : file.position + len ≤ file.bytes.length) (request : BlobRange.Request) :
    Window file len (range.perform request) := by
  cases request with
  | read answer bufferLen =>
      change Window file len (after (BlobRange.read answer bufferLen) range)
      by_cases fits : bufferLen < wordCount 64
      · cases answer with
        | fails error =>
            obtain ⟨next, run, -, kept⟩ := window.read_fails fits error
            rwa [after, run]
        | serves upTo =>
            obtain ⟨next, run, -, kept⟩ := window.read larger fits upTo
            rwa [after, run]
      · have refused : tryFrom 64 bufferLen = none := if_neg fits
        have run : BlobRange.read answer bufferLen range
            = .error (.other "read buffer length does not fit u64") range := by
          change (attempt (okOr _ (tryFrom 64 bufferLen)) >>= _ : EStateM _ _ _) range = _
          rw [refused]
          rfl
        rwa [after, run]
  | seek answer position =>
      change Window file len (after (BlobRange.seek answer position) range)
      by_cases outside : range.target position < 0 ∨ (range.len : Int) < range.target position
      · rwa [after, BlobRange.seek_outside answer outside]
      · rw [window.sized] at outside
        have above : 0 ≤ range.target position := by omega
        have below : range.target position ≤ len := by omega
        rw [after, window.seek larger answer above below]
        cases answer with
        | fails error => exact window
        | serves upTo =>
            exact {
              base := window.base
              sized := window.sized
              inside := by
                change (range.target position).toNat ≤ len
                omega
              aligned := rfl
              within := window.within.trans .move }

theorem window_run (larger : file.position + len ≤ file.bytes.length)
    (requests : List BlobRange.Request) :
    Window file len ((BlobRange.new file len).run requests) := by
  have step : ∀ range, Window file len range → ∀ requests : List BlobRange.Request,
      Window file len (range.run requests) := by
    intro range window requests
    induction requests generalizing range with
    | nil => exact window
    | cons request rest ih => exact ih _ (window.perform larger request)
  exact step _ window_new requests

end Invariant

section Outcome

/-- After every sequence of reads and seeks in a larger file: the file was asked for nothing
outside the blob, a read gives the bytes of the blob at the position, a seek in the blob goes
where it is told, and any other seek fails and changes nothing. -/
theorem blobRange_run (file : OpenFile) (len : Nat)
    (larger : file.position + len ≤ file.bytes.length) (requests : List BlobRange.Request) :
    let blob := file.range file.position len
    let range := (BlobRange.new file len).run requests
    range.position ≤ len
      ∧ OpenFile.Within file.position (file.position + len) file range.inner
      ∧ (∀ bufferLen < wordCount 64, ∀ upTo, ∃ next,
          BlobRange.read (.serves upTo) bufferLen range
              = .ok ((blob.drop range.position).take (min bufferLen upTo)) next
            ∧ next.position
              = range.position + ((blob.drop range.position).take (min bufferLen upTo)).length)
      ∧ (∀ bufferLen < wordCount 64, ∀ error, ∃ next,
          BlobRange.read (.fails error) bufferLen range = .error error next
            ∧ next.position = range.position)
      ∧ (∀ answer position, range.target position < 0 ∨ (len : Int) < range.target position →
          ∃ error, BlobRange.seek answer position range = .error error range)
      ∧ (∀ upTo position, 0 ≤ range.target position → range.target position ≤ len →
          ∃ next, BlobRange.seek (.serves upTo) position range
              = .ok (range.target position).toNat next
            ∧ (next.position : Int) = range.target position)
      ∧ (∀ error position, ∃ error',
          BlobRange.seek (.fails error) position range = .error error' range) := by
  intro blob range
  have window : Window file len range := window_run larger requests
  have outside : ∀ answer position,
      range.target position < 0 ∨ (len : Int) < range.target position →
        ∃ error, BlobRange.seek answer position range = .error error range := by
    intro answer position outside
    rw [← window.sized] at outside
    exact ⟨_, BlobRange.seek_outside answer outside⟩
  refine ⟨window.inside, window.within, ?_, ?_, outside, ?_, ?_⟩
  · intro bufferLen fits upTo
    obtain ⟨next, run, position, -⟩ := window.read larger fits upTo
    have whole : blob.length = len := by
      change ((file.bytes.drop file.position).take len).length = len
      rw [List.length_take, List.length_drop]
      omega
    exact ⟨next, run, by rw [position, List.length_take, List.length_drop, whole]⟩
  · intro bufferLen fits error
    obtain ⟨next, run, position, -⟩ := window.read_fails fits error
    exact ⟨next, run, position⟩
  · intro upTo position above below
    exact ⟨_, window.seek larger _ above below, Int.toNat_of_nonneg above⟩
  · intro error position
    by_cases out : range.target position < 0 ∨ (len : Int) < range.target position
    · exact outside _ _ out
    · exact ⟨error, window.seek larger _ (by omega) (by omega)⟩

/-- A blob of four bytes in a file of ten. -/
def tenBytes : OpenFile where
  bytes := [0, 1, 2, 3, 4, 5, 6, 7, 8, 9]
  addressable := by decide
  position := 3
  asked := []

theorem blobRange_run_tenBytes : ((BlobRange.new tenBytes 4).run
    [.read (.serves 9) 3, .seek (.serves 0) (.current 2), .seek (.serves 0)
      (.ending (-2))]).position
      ≤ 4 :=
  (blobRange_run tenBytes 4 (by decide) _).1

end Outcome

end PstForge.Attachment
