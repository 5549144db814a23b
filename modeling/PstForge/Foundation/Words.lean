import PstForge.Foundation.Bytes

/-! # Reading words and text back

What little-endian words and UTF-16 text are read as. Reading undoes writing, and, where
every digit is read, writing undoes reading.
-/

namespace PstForge.Foundation

section Words

theorem leValue_lt (bytes : Bytes) : leValue bytes < 256 ^ bytes.length := by
  induction bytes with
  | nil => exact Nat.one_pos
  | cons byte rest ih =>
      have digit := byte.toNat_lt
      rw [leValue, List.length_cons, Nat.pow_succ]
      omega

/-- A word that is written as it was read gives the same bytes. -/
theorem leBytes_leValue (bytes : Bytes) : leBytes bytes.length (leValue bytes) = bytes := by
  induction bytes with
  | nil => rfl
  | cons byte rest ih =>
      have digit := byte.toNat_lt
      have low : UInt8.ofNat (byte.toNat + 256 * leValue rest) = byte := by
        apply UInt8.toNat_inj.mp
        rw [UInt8.toNat_ofNat']
        omega
      have high : (byte.toNat + 256 * leValue rest) / 256 = leValue rest := by omega
      rw [List.length_cons, leValue, leBytes, low, high, ih]

/-- The given number of words of `width` bytes that a byte string starts with. -/
def words (width : Nat) : (count : Nat) → Bytes → List Nat
  | 0, _ => []
  | count + 1, bytes => leValue (bytes.take width) :: words width count (bytes.drop width)

variable {width count : Nat} {bytes : Bytes}

@[simp] theorem length_words : (words width count bytes).length = count := by
  induction count generalizing bytes with
  | zero => rfl
  | succ count ih => rw [words, List.length_cons, ih]

theorem words_lt (long : count * width ≤ bytes.length) :
    ∀ word ∈ words width count bytes, word < 256 ^ width := by
  induction count generalizing bytes with
  | zero => exact List.forall_mem_nil _
  | succ count ih =>
      rw [Nat.succ_mul] at long
      have rest : count * width ≤ (bytes.drop width).length := by
        rw [List.length_drop]
        omega
      have first := leValue_lt (bytes.take width)
      rw [List.length_take, Nat.min_eq_left (by omega)] at first
      exact List.forall_mem_cons.mpr ⟨first, ih rest⟩

/-- Words are read as they were written. -/
theorem words_append {source : List Nat} (small : ∀ word ∈ source, word < 256 ^ width)
    (rest : Bytes) :
    words width source.length (source.flatMap (leBytes width) ++ rest) = source := by
  induction source with
  | nil => rfl
  | cons word source ih =>
      obtain ⟨first, others⟩ := List.forall_mem_cons.mp small
      have taken : (leBytes width word ++ (source.flatMap (leBytes width) ++ rest)).take width =
          leBytes width word := List.take_left' (length_leBytes width word)
      have dropped : (leBytes width word ++ (source.flatMap (leBytes width) ++ rest)).drop width =
          source.flatMap (leBytes width) ++ rest := List.drop_left' (length_leBytes width word)
      rw [List.flatMap_cons, List.append_assoc, List.length_cons, words, taken, dropped,
        leValue_leBytes first, ih others]

/-- Words are written as they were read. -/
theorem flatMap_words (long : count * width ≤ bytes.length) :
    (words width count bytes).flatMap (leBytes width) = bytes.take (count * width) := by
  induction count generalizing bytes with
  | zero => rw [Nat.zero_mul, List.take_zero, words, List.flatMap_nil]
  | succ count ih =>
      rw [Nat.succ_mul] at long
      have rest : count * width ≤ (bytes.drop width).length := by
        rw [List.length_drop]
        omega
      have first : leBytes width (leValue (bytes.take width)) = bytes.take width := by
        have same := leBytes_leValue (bytes.take width)
        rwa [List.length_take, Nat.min_eq_left (by omega)] at same
      rw [words, List.flatMap_cons, ih rest, first, Nat.succ_mul, Nat.add_comm (count * width),
        List.take_add]

/-- The word at a position is the one read there. -/
theorem getElem?_words {position : Nat} (inside : position < count) :
    (words width count bytes)[position]? = some (leValue
      ((bytes.drop (position * width)).take width)) := by
  induction position generalizing count bytes with
  | zero =>
      cases count with
      | zero => exact absurd inside (Nat.lt_irrefl 0)
      | succ count => rw [words, List.getElem?_cons_zero, Nat.zero_mul, List.drop_zero]
  | succ position ih =>
      cases count with
      | zero => exact absurd inside (Nat.not_lt_zero _)
      | succ count =>
          rw [words, List.getElem?_cons_succ, ih (Nat.lt_of_succ_lt_succ inside), List.drop_drop,
            Nat.succ_mul, Nat.add_comm width]

end Words

section Utf16

/-- The text that UTF-16 code units denote; unpaired surrogates denote none. -/
def decodeUtf16 : List Nat → Option Text
  | [] => some []
  | unit :: rest =>
      if unit < 0xD800 ∨ 0xE000 ≤ unit then
        (decodeUtf16 rest).map (Char.ofNat unit :: ·)
      else if 0xDC00 ≤ unit then none
      else
        match rest with
        | [] => none
        | low :: rest =>
            if 0xDC00 ≤ low ∧ low < 0xE000 then
              (decodeUtf16 rest).map
                (Char.ofNat (0x10000 + (unit - 0xD800) * 0x400 + (low - 0xDC00)) :: ·)
            else none

theorem utf16Units_bmp {char : Char} (small : char.toNat < 0x10000) :
    utf16Units char = [char.toNat] := by
  unfold utf16Units
  rw [if_pos small]

theorem utf16Units_pair {char : Char} (large : ¬ char.toNat < 0x10000) :
    utf16Units char = [0xD800 + (char.toNat - 0x10000) / 0x400,
      0xDC00 + (char.toNat - 0x10000) % 0x400] := by
  simp only [utf16Units, if_neg large]

theorem char_toNat_cases (char : Char) :
    char.toNat < 0xD800 ∨ 0xE000 ≤ char.toNat ∧ char.toNat < 0x110000 := by
  have valid : char.val.toNat.isValidChar := char.valid
  unfold Nat.isValidChar at valid
  change char.val.toNat < 0xD800 ∨ 0xE000 ≤ char.val.toNat ∧ char.val.toNat < 0x110000
  omega

/-- Every number outside the surrogates is a character. -/
theorem exists_char {code : Nat}
    (valid : code < 0xD800 ∨ 0xE000 ≤ code ∧ code < 0x110000) :
    ∃ char : Char, char.toNat = code := by
  have isValid : code.isValidChar := by
    unfold Nat.isValidChar
    omega
  refine ⟨Char.ofNat code, ?_⟩
  rw [Char.ofNat, dif_pos isValid]
  rfl

/-- A code unit has sixteen bits. -/
theorem utf16Units_lt (char : Char) : ∀ unit ∈ utf16Units char, unit < 0x10000 := by
  have range := char_toNat_cases char
  by_cases small : char.toNat < 0x10000
  · rw [utf16Units_bmp small]
    exact List.forall_mem_singleton.mpr small
  · rw [utf16Units_pair small]
    intro unit member
    rcases List.mem_pair.mp member with high | low
    · omega
    · omega

theorem encodeUtf16_lt (text : Text) : ∀ unit ∈ encodeUtf16 text, unit < 0x10000 := by
  intro unit member
  obtain ⟨char, -, member⟩ := List.mem_flatMap.mp member
  exact utf16Units_lt char unit member

theorem decodeUtf16_plain {unit : Nat} (plain : unit < 0xD800 ∨ 0xE000 ≤ unit) (rest : List Nat) :
    decodeUtf16 (unit :: rest) = (decodeUtf16 rest).map (Char.ofNat unit :: ·) := by
  rw [decodeUtf16.eq_def]
  exact if_pos plain

theorem decodeUtf16_pair {high low : Nat} (isHigh : 0xD800 ≤ high ∧ high < 0xDC00)
    (isLow : 0xDC00 ≤ low ∧ low < 0xE000) (rest : List Nat) :
    decodeUtf16 (high :: low :: rest) = (decodeUtf16 rest).map
      (Char.ofNat (0x10000 + (high - 0xD800) * 0x400 + (low - 0xDC00)) :: ·) := by
  have surrogate : ¬ (high < 0xD800 ∨ 0xE000 ≤ high) := by omega
  have leading : ¬ 0xDC00 ≤ high := by omega
  rw [decodeUtf16.eq_def]
  simp only [if_neg surrogate, if_neg leading, if_pos isLow]

theorem decodeUtf16_utf16Units (char : Char) (rest : List Nat) :
    decodeUtf16 (utf16Units char ++ rest) = (decodeUtf16 rest).map (char :: ·) := by
  have range := char_toNat_cases char
  by_cases small : char.toNat < 0x10000
  · have plain : char.toNat < 0xD800 ∨ 0xE000 ≤ char.toNat := by omega
    rw [utf16Units_bmp small, List.singleton_append, decodeUtf16_plain plain, Char.ofNat_toNat]
  · have high : 0xD800 ≤ 0xD800 + (char.toNat - 0x10000) / 0x400 ∧
        0xD800 + (char.toNat - 0x10000) / 0x400 < 0xDC00 := by omega
    have low : 0xDC00 ≤ 0xDC00 + (char.toNat - 0x10000) % 0x400 ∧
        0xDC00 + (char.toNat - 0x10000) % 0x400 < 0xE000 := by omega
    have code : 0x10000 + (0xD800 + (char.toNat - 0x10000) / 0x400 - 0xD800) * 0x400 +
        (0xDC00 + (char.toNat - 0x10000) % 0x400 - 0xDC00) = char.toNat := by omega
    rw [utf16Units_pair small, List.cons_append, List.cons_append, List.nil_append,
      decodeUtf16_pair high low, code, Char.ofNat_toNat]

/-- Text is read as it was written. -/
theorem decodeUtf16_encodeUtf16 (text : Text) : decodeUtf16 (encodeUtf16 text) = some text := by
  induction text with
  | nil => rfl
  | cons char text ih =>
      rw [encodeUtf16, List.flatMap_cons, decodeUtf16_utf16Units]
      rw [encodeUtf16] at ih
      rw [ih, Option.map_some]

/-- Only the null character is written with a null unit. -/
theorem zero_mem_encodeUtf16 {text : Text} : 0 ∈ encodeUtf16 text ↔ Char.ofNat 0 ∈ text := by
  constructor
  · intro member
    obtain ⟨char, present, member⟩ := List.mem_flatMap.mp member
    by_cases small : char.toNat < 0x10000
    · rw [utf16Units_bmp small, List.mem_singleton] at member
      have null : Char.ofNat 0 = char := by rw [member, Char.ofNat_toNat]
      rwa [null]
    · rw [utf16Units_pair small] at member
      rcases List.mem_pair.mp member with none | none
      · omega
      · omega
  · intro member
    exact List.mem_flatMap.mpr ⟨Char.ofNat 0, member, by decide⟩

end Utf16

end PstForge.Foundation
