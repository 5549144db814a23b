import PstForge.Foundation.Machine

/-! # Byte strings, text and hexadecimal rendering

The encodings that a binary format is written with: little-endian words, signed
words in two's complement, and text as UTF-16. Text is a list of characters, so
every value of it is well-formed Unicode.
-/

namespace PstForge.Foundation

/-- A byte string. -/
abbrev Bytes := List UInt8

/-- Well-formed Unicode text. -/
abbrev Text := List Char

/-- The little-endian bytes of a word of `count` bytes; higher digits are dropped. -/
def leBytes : (count : Nat) → (value : Nat) → Bytes
  | 0, _ => []
  | count + 1, value => UInt8.ofNat value :: leBytes count (value / 256)

/-- The word that little-endian bytes denote. -/
def leValue : Bytes → Nat
  | [] => 0
  | byte :: rest => byte.toNat + 256 * leValue rest

/-- The little-endian two's complement of a signed word of `count` bytes. -/
def leSignedBytes (count : Nat) (value : Int) : Bytes :=
  leBytes count (value % (256 ^ count : Nat)).toNat

/-- The UTF-16 code units of one character. -/
def utf16Units (char : Char) : List Nat :=
  let code := char.toNat
  if code < 0x10000 then [code]
  else
    let rest := code - 0x10000
    [0xD800 + rest / 0x400, 0xDC00 + rest % 0x400]

/-- The UTF-16 code units of a text. -/
def encodeUtf16 (text : Text) : List Nat := text.flatMap utf16Units

/-- Overwrite a range of a byte string; bytes outside the range are kept. -/
def patchBytes (target : Bytes) (offset : Nat) (value : Bytes) : Bytes :=
  target.take offset ++ value ++ target.drop (offset + value.length)

/-- Split a list into pieces of a given length; the last may be shorter. -/
def chunks {α : Type} (size : Nat) (source : List α) : List (List α) :=
  go source.length source
where
  go : Nat → List α → List (List α)
    | 0, _ => []
    | _ + 1, [] => []
    | fuel + 1, source => source.take size :: go fuel (source.drop size)

private def hexDigit (digit : Nat) : Char :=
  if digit < 10 then Char.ofNat (48 + digit) else Char.ofNat (55 + digit)

private def hexDigits : (fuel : Nat) → (value : Nat) → List Char → List Char
  | 0, _, tail => tail
  | fuel + 1, value, tail =>
      let tail := hexDigit (value % 16) :: tail
      if value / 16 = 0 then tail else hexDigits fuel (value / 16) tail

/-- Upper-case hexadecimal digits, padded with zeros to a width. -/
def hex (width value : Nat) : String :=
  let digits := hexDigits 20 value []
  String.ofList (List.replicate (width - digits.length) '0' ++ digits)

@[simp] theorem length_leBytes (count value : Nat) : (leBytes count value).length = count := by
  induction count generalizing value with
  | zero => rfl
  | succ count ih => simp [leBytes, ih]

/-- A word that fits is read as it was written. -/
theorem leValue_leBytes {count value : Nat} (small : value < 256 ^ count) :
    leValue (leBytes count value) = value := by
  induction count generalizing value with
  | zero =>
      rw [Nat.pow_zero] at small
      rw [leBytes, leValue]
      omega
  | succ count ih =>
      have less : value / 256 < 256 ^ count := by
        rw [Nat.pow_succ] at small
        exact Nat.div_lt_of_lt_mul (by omega)
      have digit : (UInt8.ofNat value).toNat = value % 256 := by simp
      rw [leBytes, leValue, ih less, digit]
      omega

@[simp] theorem length_leSignedBytes (count : Nat) (value : Int) :
    (leSignedBytes count value).length = count := by
  simp [leSignedBytes]

theorem chunks_nil {α : Type} (size : Nat) : chunks size ([] : List α) = [] := rfl

private theorem chunks_go_mem {α : Type} {size : Nat} (positive : 0 < size) :
    ∀ (fuel : Nat) (source : List α), ∀ piece ∈ chunks.go size fuel source,
      piece ≠ [] ∧ piece.length ≤ size := by
  intro fuel
  induction fuel with
  | zero => intro source piece member; simp [chunks.go] at member
  | succ fuel ih =>
      intro source piece member
      cases source with
      | nil => simp [chunks.go] at member
      | cons head tail =>
          simp only [chunks.go, List.mem_cons] at member
          rcases member with rfl | member
          · constructor
            · cases size with
              | zero => omega
              | succ size => simp
            · exact (List.length_take_le _ _)
          · exact ih _ piece member

/-- Every piece of a split is nonempty and no longer than the piece length. -/
theorem mem_chunks {α : Type} {size : Nat} (positive : 0 < size) {source : List α}
    {piece : List α} (member : piece ∈ chunks size source) :
    piece ≠ [] ∧ piece.length ≤ size :=
  chunks_go_mem positive _ _ piece member

private theorem chunks_go_flatten {α : Type} {size : Nat} (positive : 0 < size) :
    ∀ (fuel : Nat) (source : List α), source.length ≤ fuel →
      (chunks.go size fuel source).flatten = source := by
  intro fuel
  induction fuel with
  | zero =>
      intro source bound
      simp [List.length_eq_zero_iff.mp (Nat.le_zero.mp bound), chunks.go]
  | succ fuel ih =>
      intro source bound
      cases source with
      | nil => rfl
      | cons head tail =>
          simp only [chunks.go, List.flatten_cons]
          rw [ih _ (by simp only [List.length_drop, List.length_cons] at bound ⊢; omega)]
          exact List.take_append_drop size _

/-- The pieces of a split, in order, are the source. -/
theorem chunks_flatten {α : Type} {size : Nat} (positive : 0 < size) (source : List α) :
    (chunks size source).flatten = source :=
  chunks_go_flatten positive _ source (Nat.le_refl _)

end PstForge.Foundation
