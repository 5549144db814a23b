import PstForge.Foundation.Words

/-! # Text as UTF-8

A byte string is looked at character by character: the first byte says how many there are, and
the second one has a narrower range behind some of the first ones. What is cut off in the middle of
a character is told apart from what is no character.
-/

namespace PstForge.Foundation

/-- The bytes of a text in UTF-8. -/
def encodeUtf8 (text : Text) : Bytes := text.flatMap String.utf8EncodeChar

/-- How many bytes a character has that begins with a byte, zero for those that begin none. -/
def utf8CharWidth (first : UInt8) : Nat :=
  if first.toNat < 0x80 then 1
  else if first.toNat < 0xC2 then 0
  else if first.toNat < 0xE0 then 2
  else if first.toNat < 0xF0 then 3
  else if first.toNat < 0xF5 then 4
  else 0

/-- The bytes behind the first one. -/
def Continuation (byte : UInt8) : Prop := 0x80 ≤ byte.toNat ∧ byte.toNat < 0xC0

instance : DecidablePred Continuation := fun byte =>
  inferInstanceAs (Decidable (0x80 ≤ byte.toNat ∧ byte.toNat < 0xC0))

/-- The second byte of three or four: no character is longer than it has to be, is a surrogate or
lies behind the last one. -/
def SecondOf (first second : UInt8) : Prop :=
  Continuation second
    ∧ (first.toNat = 0xE0 → 0xA0 ≤ second.toNat) ∧ (first.toNat = 0xED → second.toNat < 0xA0)
    ∧ (first.toNat = 0xF0 → 0x90 ≤ second.toNat) ∧ (first.toNat = 0xF4 → second.toNat < 0x90)

instance (first : UInt8) : DecidablePred (SecondOf first) := fun second =>
  inferInstanceAs (Decidable (Continuation second
    ∧ (first.toNat = 0xE0 → 0xA0 ≤ second.toNat) ∧ (first.toNat = 0xED → second.toNat < 0xA0)
    ∧ (first.toNat = 0xF0 → 0x90 ≤ second.toNat) ∧ (first.toNat = 0xF4 → second.toNat < 0x90)))

/-- Check the byte at an index of a character and go on behind it; the bytes before it are no
character when it is wrong, and may still become one when it is missing. -/
def utf8Next (index : Nat) (good : UInt8 → Prop) [DecidablePred good] (bytes : Bytes) :
    Except (Option Nat) Bytes :=
  match bytes with
  | [] => .error none
  | byte :: rest => if good byte then .ok rest else .error (some index)

/-- The width of the first character; or how many bytes are no character, if more bytes cannot
make it one. -/
def utf8First : Bytes → Except (Option Nat) Nat
  | [] => .error none
  | first :: rest =>
      match utf8CharWidth first with
      | 1 => .ok 1
      | 2 => do
          let _ ← utf8Next 1 Continuation rest
          .ok 2
      | 3 => do
          let rest ← utf8Next 1 (SecondOf first) rest
          let _ ← utf8Next 2 Continuation rest
          .ok 3
      | 4 => do
          let rest ← utf8Next 1 (SecondOf first) rest
          let rest ← utf8Next 2 Continuation rest
          let _ ← utf8Next 3 Continuation rest
          .ok 4
      | _ => .error (some 1)

/-- Where a byte string stops being text: behind so many bytes that are, and, if it is not just
cut off there, with so many that are not. -/
structure Utf8Error where
  validUpTo : Nat
  errorLen : Option Nat
  deriving DecidableEq, Repr

/-- Check a byte string character by character. -/
def fromUtf8 (bytes : Bytes) : Except Utf8Error Unit := go bytes.length 0 bytes
where
  go : (fuel index : Nat) → Bytes → Except Utf8Error Unit
    | _, _, [] => .ok ()
    | 0, index, _ => .error ⟨index, none⟩
    | fuel + 1, index, bytes =>
        match utf8First bytes with
        | .ok width => go fuel (index + width) (bytes.drop width)
        | .error errorLen => .error ⟨index, errorLen⟩

section Characters

/-- The four shapes of a character. -/
theorem utf8EncodeChar_cases (char : Char) :
    (char.toNat < 0x80 ∧ String.utf8EncodeChar char = [UInt8.ofNat char.toNat])
      ∨ (0x80 ≤ char.toNat ∧ char.toNat < 0x800 ∧ String.utf8EncodeChar char =
          [UInt8.ofNat (0xC0 + char.toNat / 0x40), UInt8.ofNat (0x80 + char.toNat % 0x40)])
      ∨ (0x800 ≤ char.toNat ∧ char.toNat < 0x10000 ∧ String.utf8EncodeChar char =
          [UInt8.ofNat (0xE0 + char.toNat / 0x1000), UInt8.ofNat (0x80 + char.toNat / 0x40 % 0x40),
            UInt8.ofNat (0x80 + char.toNat % 0x40)])
      ∨ (0x10000 ≤ char.toNat ∧ String.utf8EncodeChar char =
          [UInt8.ofNat (0xF0 + char.toNat / 0x40000),
            UInt8.ofNat (0x80 + char.toNat / 0x1000 % 0x40),
            UInt8.ofNat (0x80 + char.toNat / 0x40 % 0x40),
            UInt8.ofNat (0x80 + char.toNat % 0x40)]) := by
  have range := char_toNat_cases char
  have value : char.val.toNat = char.toNat := rfl
  by_cases one : char.toNat ≤ 0x7F
  · left
    simp only [String.utf8EncodeChar, value, if_pos one, and_true]
    omega
  right
  by_cases two : char.toNat ≤ 0x7FF
  · left
    refine ⟨by omega, by omega, ?_⟩
    simp only [String.utf8EncodeChar, value, if_neg one, if_pos two]
    rw [Nat.mod_eq_of_lt (by omega : char.toNat / 64 < 0x20), Nat.add_comm, Nat.add_comm 0x80]
  right
  by_cases three : char.toNat ≤ 0xFFFF
  · left
    refine ⟨by omega, by omega, ?_⟩
    simp only [String.utf8EncodeChar, value, if_neg one, if_neg two, if_pos three]
    rw [Nat.mod_eq_of_lt (by omega : char.toNat / 4096 < 0x10), Nat.add_comm, Nat.add_comm 0x80,
      Nat.add_comm 0x80]
  · right
    refine ⟨by omega, ?_⟩
    simp only [String.utf8EncodeChar, value, if_neg one, if_neg two, if_neg three]
    rw [Nat.mod_eq_of_lt (by omega : char.toNat / 262144 < 0x08), Nat.add_comm, Nat.add_comm 0x80,
      Nat.add_comm 0x80, Nat.add_comm 0x80]

private theorem toNat_byte {value : Nat} (small : value < 256) :
    (UInt8.ofNat value).toNat = value := by
  rw [UInt8.toNat_ofNat']
  exact Nat.mod_eq_of_lt small

private theorem continuation_byte {digit : Nat} (small : digit < 0x40) :
    Continuation (UInt8.ofNat (0x80 + digit)) := by
  unfold Continuation
  rw [toNat_byte (by omega)]
  omega

private theorem utf8Next_good {index : Nat} {good : UInt8 → Prop} [DecidablePred good]
    {byte : UInt8} (isGood : good byte) (rest : Bytes) :
    utf8Next index good (byte :: rest) = .ok rest := if_pos isGood

/-- A character is found as it was written. -/
theorem utf8First_encodeChar (char : Char) (rest : Bytes) :
    utf8First (String.utf8EncodeChar char ++ rest)
      = .ok (String.utf8EncodeChar char).length := by
  have range := char_toNat_cases char
  rcases utf8EncodeChar_cases char with ⟨small, bytes⟩ | ⟨above, below, bytes⟩ |
    ⟨above, below, bytes⟩ | ⟨above, bytes⟩ <;> rw [bytes]
  · have width : utf8CharWidth (UInt8.ofNat char.toNat) = 1 := by
      rw [utf8CharWidth, toNat_byte (by omega), if_pos small]
    simp only [List.cons_append, utf8First, width]
    rfl
  · have first : (UInt8.ofNat (0xC0 + char.toNat / 0x40)).toNat = 0xC0 + char.toNat / 0x40 :=
      toNat_byte (by omega)
    have width : utf8CharWidth (UInt8.ofNat (0xC0 + char.toNat / 0x40)) = 2 := by
      rw [utf8CharWidth, first, if_neg (by omega), if_neg (by omega), if_pos (by omega)]
    have last : Continuation (UInt8.ofNat (0x80 + char.toNat % 0x40)) :=
      continuation_byte (by omega)
    simp only [List.cons_append, utf8First, width, utf8Next_good last]
    rfl
  · have first : (UInt8.ofNat (0xE0 + char.toNat / 0x1000)).toNat = 0xE0 + char.toNat / 0x1000 :=
      toNat_byte (by omega)
    have width : utf8CharWidth (UInt8.ofNat (0xE0 + char.toNat / 0x1000)) = 3 := by
      rw [utf8CharWidth, first, if_neg (by omega), if_neg (by omega), if_neg (by omega),
        if_pos (by omega)]
    have second : SecondOf (UInt8.ofNat (0xE0 + char.toNat / 0x1000))
        (UInt8.ofNat (0x80 + char.toNat / 0x40 % 0x40)) := by
      refine ⟨continuation_byte (by omega), ?_⟩
      rw [first, toNat_byte (by omega)]
      omega
    have last : Continuation (UInt8.ofNat (0x80 + char.toNat % 0x40)) :=
      continuation_byte (by omega)
    have found : utf8Next 1 (SecondOf (UInt8.ofNat (0xE0 + char.toNat / 0x1000)))
        (UInt8.ofNat (0x80 + char.toNat / 0x40 % 0x40)
          :: UInt8.ofNat (0x80 + char.toNat % 0x40) :: rest)
        = .ok (UInt8.ofNat (0x80 + char.toNat % 0x40) :: rest) := utf8Next_good second _
    simp only [List.cons_append, List.nil_append, utf8First, width, found]
    change (utf8Next 2 Continuation _ >>= _) = _
    rw [utf8Next_good last]
    rfl
  · have first : (UInt8.ofNat (0xF0 + char.toNat / 0x40000)).toNat
        = 0xF0 + char.toNat / 0x40000 := toNat_byte (by omega)
    have width : utf8CharWidth (UInt8.ofNat (0xF0 + char.toNat / 0x40000)) = 4 := by
      rw [utf8CharWidth, first, if_neg (by omega), if_neg (by omega), if_neg (by omega),
        if_neg (by omega), if_pos (by omega)]
    have second : SecondOf (UInt8.ofNat (0xF0 + char.toNat / 0x40000))
        (UInt8.ofNat (0x80 + char.toNat / 0x1000 % 0x40)) := by
      refine ⟨continuation_byte (by omega), ?_⟩
      rw [first, toNat_byte (by omega)]
      omega
    have third : Continuation (UInt8.ofNat (0x80 + char.toNat / 0x40 % 0x40)) :=
      continuation_byte (by omega)
    have last : Continuation (UInt8.ofNat (0x80 + char.toNat % 0x40)) :=
      continuation_byte (by omega)
    simp only [List.cons_append, List.nil_append, utf8First, width]
    rw [utf8Next_good second]
    change (utf8Next 2 Continuation _ >>= _) = _
    rw [utf8Next_good third]
    change (utf8Next 3 Continuation _ >>= _) = _
    rw [utf8Next_good last]
    rfl

private theorem utf8Next_ok {index : Nat} {good : UInt8 → Prop} [DecidablePred good]
    {bytes rest : Bytes} (next : utf8Next index good bytes = .ok rest) :
    ∃ byte, good byte ∧ bytes = byte :: rest := by
  cases bytes with
  | nil => cases next
  | cons byte bytes =>
      by_cases isGood : good byte
      · rw [utf8Next_good isGood] at next
        cases next
        exact ⟨byte, isGood, rfl⟩
      · rw [utf8Next, if_neg isGood] at next
        cases next

/-- Where a first byte has a width, its value lies in the range of the width. -/
theorem utf8CharWidth_cases (first : UInt8) :
    (utf8CharWidth first = 1 ∧ first.toNat < 0x80)
      ∨ (utf8CharWidth first = 2 ∧ 0xC2 ≤ first.toNat ∧ first.toNat < 0xE0)
      ∨ (utf8CharWidth first = 3 ∧ 0xE0 ≤ first.toNat ∧ first.toNat < 0xF0)
      ∨ (utf8CharWidth first = 4 ∧ 0xF0 ≤ first.toNat ∧ first.toNat < 0xF5)
      ∨ utf8CharWidth first = 0 := by
  unfold utf8CharWidth
  split_ifs <;> omega

private theorem ofNat_byte {value : Nat} {byte : UInt8} (same : value = byte.toNat) :
    UInt8.ofNat value = byte := by
  rw [same, UInt8.ofNat_toNat]

private theorem exists_one {first : UInt8} (small : first.toNat < 0x80) :
    ∃ char, String.utf8EncodeChar char = [first] := by
  have valid : first.toNat < 0xD800 := by omega
  obtain ⟨char, code⟩ := exists_char (Or.inl valid)
  refine ⟨char, ?_⟩
  rcases utf8EncodeChar_cases char with ⟨_, bytes⟩ | ⟨above, _⟩ | ⟨above, _⟩ | ⟨above, _⟩
  · rw [bytes, ofNat_byte code]
  all_goals omega

private theorem exists_two {first second : UInt8} (above : 0xC2 ≤ first.toNat)
    (below : first.toNat < 0xE0) (last : Continuation second) :
    ∃ char, String.utf8EncodeChar char = [first, second] := by
  unfold Continuation at last
  have valid : (first.toNat - 0xC0) * 0x40 + (second.toNat - 0x80) < 0xD800 := by omega
  obtain ⟨char, code⟩ := exists_char (Or.inl valid)
  refine ⟨char, ?_⟩
  rcases utf8EncodeChar_cases char with ⟨_, bytes⟩ | ⟨_, _, bytes⟩ | ⟨_, _, bytes⟩ | ⟨_, bytes⟩
  case inr.inl => rw [bytes, @ofNat_byte _ first (by omega), @ofNat_byte _ second (by omega)]
  all_goals omega

private theorem exists_three {first second third : UInt8} (above : 0xE0 ≤ first.toNat)
    (below : first.toNat < 0xF0) (middle : SecondOf first second) (last : Continuation third) :
    ∃ char, String.utf8EncodeChar char = [first, second, third] := by
  unfold Continuation at last
  unfold SecondOf Continuation at middle
  obtain ⟨char, code⟩ : ∃ char : Char, char.toNat = (first.toNat - 0xE0) * 0x1000
      + (second.toNat - 0x80) * 0x40 + (third.toNat - 0x80) := exists_char (by omega)
  refine ⟨char, ?_⟩
  rcases utf8EncodeChar_cases char with ⟨_, bytes⟩ | ⟨_, _, bytes⟩ | ⟨_, _, bytes⟩ | ⟨_, bytes⟩
  case inr.inr.inl =>
    rw [bytes, @ofNat_byte _ first (by omega), @ofNat_byte _ second (by omega),
      @ofNat_byte _ third (by omega)]
  all_goals omega

private theorem exists_four {first second third fourth : UInt8} (above : 0xF0 ≤ first.toNat)
    (below : first.toNat < 0xF5) (middle : SecondOf first second) (next : Continuation third)
    (last : Continuation fourth) :
    ∃ char, String.utf8EncodeChar char = [first, second, third, fourth] := by
  unfold Continuation at next last
  unfold SecondOf Continuation at middle
  obtain ⟨char, code⟩ : ∃ char : Char, char.toNat = (first.toNat - 0xF0) * 0x40000
      + (second.toNat - 0x80) * 0x1000 + (third.toNat - 0x80) * 0x40 + (fourth.toNat - 0x80) :=
    exists_char (by omega)
  refine ⟨char, ?_⟩
  rcases utf8EncodeChar_cases char with ⟨_, bytes⟩ | ⟨_, _, bytes⟩ | ⟨_, _, bytes⟩ | ⟨_, bytes⟩
  case inr.inr.inr =>
    rw [bytes, @ofNat_byte _ first (by omega), @ofNat_byte _ second (by omega),
      @ofNat_byte _ third (by omega), @ofNat_byte _ fourth (by omega)]
  all_goals omega

/-- What is found to be a character is one. -/
theorem exists_encodeChar {bytes : Bytes} {width : Nat} (found : utf8First bytes = .ok width) :
    ∃ char rest, bytes = String.utf8EncodeChar char ++ rest
      ∧ (String.utf8EncodeChar char).length = width := by
  cases bytes with
  | nil => cases found
  | cons first rest =>
      rcases utf8CharWidth_cases first with ⟨size, small⟩ | ⟨size, above, below⟩ |
        ⟨size, above, below⟩ | ⟨size, above, below⟩ | size <;>
        simp only [utf8First, size] at found
      · cases found
        obtain ⟨char, encoded⟩ := exists_one small
        exact ⟨char, rest, by rw [encoded]; rfl, by rw [encoded]; rfl⟩
      · obtain ⟨left, next, same⟩ := bind_eq_ok.mp found
        cases same
        obtain ⟨second, last, rfl⟩ := utf8Next_ok next
        obtain ⟨char, encoded⟩ := exists_two above below last
        exact ⟨char, left, by rw [encoded]; rfl, by rw [encoded]; rfl⟩
      · obtain ⟨behind, next, found⟩ := bind_eq_ok.mp found
        obtain ⟨left, next', same⟩ := bind_eq_ok.mp found
        cases same
        obtain ⟨second, middle, rfl⟩ := utf8Next_ok next
        obtain ⟨third, last, rfl⟩ := utf8Next_ok next'
        obtain ⟨char, encoded⟩ := exists_three above below middle last
        exact ⟨char, left, by rw [encoded]; rfl, by rw [encoded]; rfl⟩
      · obtain ⟨behind, next, found⟩ := bind_eq_ok.mp found
        obtain ⟨later, next', found⟩ := bind_eq_ok.mp found
        obtain ⟨left, next'', same⟩ := bind_eq_ok.mp found
        cases same
        obtain ⟨second, middle, rfl⟩ := utf8Next_ok next
        obtain ⟨third, inner, rfl⟩ := utf8Next_ok next'
        obtain ⟨fourth, last, rfl⟩ := utf8Next_ok next''
        obtain ⟨char, encoded⟩ := exists_four above below middle inner last
        exact ⟨char, left, by rw [encoded]; rfl, by rw [encoded]; rfl⟩
      · cases found

private theorem utf8Next_append {index : Nat} {good : UInt8 → Prop} [DecidablePred good]
    {bytes rest : Bytes} (next : utf8Next index good bytes = .ok rest) (more : Bytes) :
    utf8Next index good (bytes ++ more) = .ok (rest ++ more) := by
  obtain ⟨byte, isGood, rfl⟩ := utf8Next_ok next
  exact utf8Next_good isGood _

private theorem utf8Next_wrong {index wrong : Nat} {good : UInt8 → Prop} [DecidablePred good]
    {bytes : Bytes} (next : utf8Next index good bytes = .error (some wrong)) (more : Bytes) :
    utf8Next index good (bytes ++ more) = .error (some wrong) := by
  cases bytes with
  | nil => cases next
  | cons byte bytes =>
      by_cases isGood : good byte
      · rw [utf8Next_good isGood] at next
        cases next
      · rw [utf8Next, if_neg isGood] at next
        rw [List.cons_append, utf8Next, if_neg isGood, next]

private theorem utf8Next_missing {index : Nat} {good : UInt8 → Prop} [DecidablePred good]
    {bytes : Bytes} (next : utf8Next index good bytes = .error none) : bytes = [] := by
  cases bytes with
  | nil => rfl
  | cons byte bytes =>
      by_cases isGood : good byte
      · rw [utf8Next_good isGood] at next
        cases next
      · rw [utf8Next, if_neg isGood] at next
        cases next

/-- What is no character does not become one with more bytes. -/
theorem utf8First_wrong {bytes : Bytes} {wrong : Nat}
    (found : utf8First bytes = .error (some wrong)) (more : Bytes) :
    utf8First (bytes ++ more) = .error (some wrong) := by
  cases bytes with
  | nil => cases found
  | cons first rest =>
      rw [List.cons_append]
      rcases utf8CharWidth_cases first with ⟨size, -⟩ | ⟨size, -⟩ | ⟨size, -⟩ | ⟨size, -⟩ | size <;>
        simp only [utf8First, size] at found ⊢
      · cases found
      · rcases bind_eq_error.mp found with next | ⟨_, -, same⟩
        · exact bind_eq_error.mpr (Or.inl (utf8Next_wrong next more))
        · cases same
      · rcases bind_eq_error.mp found with next | ⟨_, next, found⟩
        · exact bind_eq_error.mpr (Or.inl (utf8Next_wrong next more))
        rcases bind_eq_error.mp found with next' | ⟨_, -, same⟩
        · exact bind_eq_error.mpr (Or.inr ⟨_, utf8Next_append next more,
            bind_eq_error.mpr (Or.inl (utf8Next_wrong next' more))⟩)
        · cases same
      · rcases bind_eq_error.mp found with next | ⟨_, next, found⟩
        · exact bind_eq_error.mpr (Or.inl (utf8Next_wrong next more))
        rcases bind_eq_error.mp found with next' | ⟨_, next', found⟩
        · exact bind_eq_error.mpr (Or.inr ⟨_, utf8Next_append next more,
            bind_eq_error.mpr (Or.inl (utf8Next_wrong next' more))⟩)
        rcases bind_eq_error.mp found with next'' | ⟨_, -, same⟩
        · exact bind_eq_error.mpr (Or.inr ⟨_, utf8Next_append next more, bind_eq_error.mpr
            (Or.inr ⟨_, utf8Next_append next' more,
              bind_eq_error.mpr (Or.inl (utf8Next_wrong next'' more))⟩)⟩)
        · cases same
      · exact found

/-- A character that is cut off has at most three bytes. -/
theorem length_of_utf8First_none {bytes : Bytes} (found : utf8First bytes = .error none) :
    bytes.length ≤ 3 := by
  cases bytes with
  | nil => exact Nat.zero_le _
  | cons first rest =>
      rcases utf8CharWidth_cases first with ⟨size, -⟩ | ⟨size, -⟩ | ⟨size, -⟩ | ⟨size, -⟩ | size <;>
        simp only [utf8First, size] at found
      · cases found
      · rcases bind_eq_error.mp found with next | ⟨_, -, same⟩
        · rw [utf8Next_missing next]
          exact Nat.le_add_left _ _
        · cases same
      · rcases bind_eq_error.mp found with next | ⟨behind, next, third⟩
        · rw [utf8Next_missing next]
          exact Nat.le_add_left _ _
        obtain ⟨_, -, same⟩ := utf8Next_ok next
        rcases bind_eq_error.mp third with next' | ⟨_, -, impossible⟩
        · rw [same, utf8Next_missing next']
          exact Nat.le_add_left _ _
        · cases impossible
      · rcases bind_eq_error.mp found with next | ⟨behind, next, third⟩
        · rw [utf8Next_missing next]
          exact Nat.le_add_left _ _
        obtain ⟨_, -, same⟩ := utf8Next_ok next
        rcases bind_eq_error.mp third with next' | ⟨later, next', fourth⟩
        · rw [same, utf8Next_missing next']
          exact Nat.le_add_left _ _
        obtain ⟨_, -, same'⟩ := utf8Next_ok next'
        rcases bind_eq_error.mp fourth with next'' | ⟨_, -, impossible⟩
        · rw [same, same', utf8Next_missing next'']
          exact Nat.le_refl _
        · cases impossible
      · cases found

end Characters

section WellFormed

/-- A byte string that is text in UTF-8. -/
def WellFormedUtf8 (bytes : Bytes) : Prop := ∃ text, bytes = encodeUtf8 text

theorem encodeUtf8_cons (char : Char) (text : Text) :
    encodeUtf8 (char :: text) = String.utf8EncodeChar char ++ encodeUtf8 text :=
  List.flatMap_cons

theorem encodeUtf8_append (text more : Text) :
    encodeUtf8 (text ++ more) = encodeUtf8 text ++ encodeUtf8 more :=
  List.flatMap_append

/-- Well-formed text begins with a character. -/
theorem WellFormedUtf8.first {bytes : Bytes} (wellFormed : WellFormedUtf8 bytes)
    (nonempty : bytes ≠ []) : ∃ width, utf8First bytes = .ok width := by
  obtain ⟨text, rfl⟩ := wellFormed
  cases text with
  | nil => exact absurd rfl nonempty
  | cons char text =>
      rw [encodeUtf8_cons]
      exact ⟨_, utf8First_encodeChar char _⟩

/-- A character in front does not matter. -/
theorem wellFormedUtf8_char {char : Char} {bytes : Bytes} :
    WellFormedUtf8 (String.utf8EncodeChar char ++ bytes) ↔ WellFormedUtf8 bytes := by
  constructor
  · rintro ⟨text, same⟩
    have found := utf8First_encodeChar char bytes
    cases text with
    | nil =>
        rw [same] at found
        cases found
    | cons other text =>
        rw [encodeUtf8_cons] at same
        rw [same, utf8First_encodeChar other] at found
        have lengths := Except.ok.inj found
        exact ⟨text, (List.append_inj same lengths.symm).2⟩
  · rintro ⟨text, rfl⟩
    exact ⟨char :: text, (encodeUtf8_cons char text).symm⟩

/-- Text in front does not matter. -/
theorem wellFormedUtf8_text {text : Text} {bytes : Bytes} :
    WellFormedUtf8 (encodeUtf8 text ++ bytes) ↔ WellFormedUtf8 bytes := by
  induction text with
  | nil => exact Iff.rfl
  | cons char text ih => rw [encodeUtf8_cons, List.append_assoc, wellFormedUtf8_char, ih]

private theorem fromUtf8_go (bytes : Bytes) : ∀ (fuel index : Nat), bytes.length ≤ fuel →
    (fromUtf8.go fuel index bytes = .ok () ∧ WellFormedUtf8 bytes)
      ∨ ∃ text rest errorLen, bytes = encodeUtf8 text ++ rest ∧ rest ≠ []
        ∧ utf8First rest = .error errorLen
        ∧ fromUtf8.go fuel index bytes
          = .error ⟨index + (encodeUtf8 text).length, errorLen⟩ := by
  intro fuel
  induction fuel generalizing bytes with
  | zero =>
      intro index few
      obtain rfl := List.length_eq_zero_iff.mp (Nat.le_zero.mp few)
      exact Or.inl ⟨rfl, [], rfl⟩
  | succ fuel ih =>
      intro index few
      cases bytes with
      | nil => exact Or.inl ⟨rfl, [], rfl⟩
      | cons byte bytes =>
          rw [fromUtf8.go.eq_3 _ _ _ (List.cons_ne_nil _ _)]
          cases found : utf8First (byte :: bytes) with
          | error errorLen =>
              exact Or.inr ⟨[], byte :: bytes, errorLen, rfl, List.cons_ne_nil _ _, found, rfl⟩
          | ok width =>
              obtain ⟨char, rest, same, length⟩ := exists_encodeChar found
              have some : 0 < width := by
                rw [← length, String.length_utf8EncodeChar]
                exact char.utf8Size_pos
              have dropped : (byte :: bytes).drop width = rest := by
                rw [same, List.drop_left' length]
              have fewer : rest.length ≤ fuel := by
                have total := congrArg List.length same
                rw [List.length_append, List.length_cons] at total
                rw [List.length_cons] at few
                omega
              simp only [dropped]
              rcases ih rest (index + width) fewer with ⟨run, wellFormed⟩ |
                ⟨text, left, errorLen, split, nonempty, wrong, run⟩
              · refine Or.inl ⟨run, ?_⟩
                rw [same]
                exact wellFormedUtf8_char.mpr wellFormed
              · refine Or.inr ⟨char :: text, left, errorLen, ?_, nonempty, wrong, ?_⟩
                · rw [same, split, encodeUtf8_cons, List.append_assoc]
                · rw [run, encodeUtf8_cons, List.length_append, length, Nat.add_assoc]

/-- A byte string is text, or stops being text behind some of it, where no character is. -/
theorem fromUtf8_cases (bytes : Bytes) :
    (fromUtf8 bytes = .ok () ∧ WellFormedUtf8 bytes)
      ∨ ∃ text rest errorLen, bytes = encodeUtf8 text ++ rest ∧ rest ≠ []
        ∧ utf8First rest = .error errorLen
        ∧ fromUtf8 bytes = .error ⟨(encodeUtf8 text).length, errorLen⟩ := by
  have cases := fromUtf8_go bytes bytes.length 0 (Nat.le_refl _)
  simp only [Nat.zero_add] at cases
  exact cases

end WellFormed

end PstForge.Foundation
