import PstForge.Foundation.OpenFile
import PstForge.Foundation.Utf8
import PstForge.Ltp.Property

/-! # Text that is checked while it is read

A value that is too large to be held is read piece by piece, and whether it is text is decided on
the way. A piece may end in the middle of a code unit, of a pair of surrogates or of a character;
what is left over is kept for the next one.
-/

namespace PstForge.Translate

open PstForge.Foundation PstForge.Ltp

inductive CanonicalWriteError where
  | blobRead (itemKey : String) (source : StreamError)
  deriving DecidableEq, Repr

/-- What a reader answers, one read after the other; behind the last one nothing is left. -/
abbrev Readings := List (Except StreamError Bytes)

section Utf16

/-- Whether a code unit may come next, and whether it leaves a leading surrogate open. -/
def validUtf16Word (word : Nat) (pendingHighSurrogate : Bool) : Bool × Bool :=
  if pendingHighSurrogate then
    if 0xDC00 ≤ word ∧ word ≤ 0xDFFF then (true, false) else (false, pendingHighSurrogate)
  else if 0xD800 ≤ word ∧ word ≤ 0xDBFF then (true, true)
  else (¬ (0xDC00 ≤ word ∧ word ≤ 0xDFFF), pendingHighSurrogate)

/-- What is kept between two pieces. -/
structure Utf16Scan where
  pendingByte : Option UInt8
  pendingHighSurrogate : Bool
  deriving DecidableEq, Repr

/-- The code units of a piece; there is no answer when one of them must not be there. -/
def scanWords : Bytes → Utf16Scan → Option Utf16Scan
  | low :: high :: rest, scan =>
      let (valid, pendingHighSurrogate) :=
        validUtf16Word (leValue [low, high]) scan.pendingHighSurrogate
      if valid then scanWords rest { scan with pendingHighSurrogate } else none
  | [low], scan => some { scan with pendingByte := some low }
  | [], scan => some scan

/-- A piece, behind the byte that was left of the one before. -/
def scanPiece (bytes : Bytes) (scan : Utf16Scan) : Option Utf16Scan :=
  match scan.pendingByte with
  | some low =>
      match bytes with
      | [] => some scan
      | high :: rest =>
          let (valid, pendingHighSurrogate) :=
            validUtf16Word (leValue [low, high]) scan.pendingHighSurrogate
          if valid then scanWords rest ⟨none, pendingHighSurrogate⟩ else none
  | none => scanWords bytes scan

def validUtf16From : Utf16Scan → Readings → Except CanonicalWriteError Bool
  | scan, [] => .ok (scan.pendingByte.isNone && !scan.pendingHighSurrogate)
  | _, .error source :: _ => .error (.blobRead "<validation>" source)
  | scan, .ok read :: rest =>
      if read = [] then .ok (scan.pendingByte.isNone && !scan.pendingHighSurrogate)
      else
        match scanPiece read scan with
        | none => .ok false
        | some scan => validUtf16From scan rest

def validUtf16Stream (reader : Readings) : Except CanonicalWriteError Bool :=
  validUtf16From ⟨none, false⟩ reader

end Utf16

section Utf8

def validUtf8From (itemKey : String) : (pending : Bytes) → Readings →
    Except CanonicalWriteError Bool
  | pending, [] => .ok (pending = [])
  | _, .error source :: _ => .error (.blobRead itemKey source)
  | pending, .ok read :: rest =>
      if read = [] then .ok (pending = [])
      else
        match fromUtf8 (pending ++ read) with
        | .ok _ => validUtf8From itemKey [] rest
        | .error ⟨_, some _⟩ => .ok false
        | .error ⟨validUpTo, none⟩ =>
            let pending := (pending ++ read).drop validUpTo
            if 3 < pending.length then .ok false else validUtf8From itemKey pending rest

def validUtf8Stream (itemKey : String) (reader : Readings) : Except CanonicalWriteError Bool :=
  validUtf8From itemKey [] reader

end Utf8

section Utf16

/-- The byte that was left of a piece stands before the next one. -/
theorem scanPiece_eq (bytes : Bytes) (scan : Utf16Scan) : scanPiece bytes scan =
    scanWords (scan.pendingByte.toList ++ bytes) ⟨none, scan.pendingHighSurrogate⟩ := by
  obtain ⟨pendingByte, pendingHighSurrogate⟩ := scan
  cases pendingByte with
  | none => rfl
  | some low => cases bytes <;> rfl

/-- It does not matter where a byte string is cut. -/
theorem scanWords_append (bytes more : Bytes) (pendingHighSurrogate : Bool) :
    scanWords (bytes ++ more) ⟨none, pendingHighSurrogate⟩ =
      (scanWords bytes ⟨none, pendingHighSurrogate⟩).bind (scanPiece more) := by
  generalize start : Utf16Scan.mk none pendingHighSurrogate = scan
  induction bytes, scan using scanWords.induct generalizing pendingHighSurrogate with
  | case1 low high rest scan pending found ih =>
      subst start
      simp only [List.cons_append, scanWords, found, if_true]
      exact ih pending rfl
  | case2 low high rest scan valid pending found isWrong =>
      subst start
      simp only [List.cons_append, scanWords, found, isWrong]
      rfl
  | case3 low scan =>
      subst start
      rw [scanWords, Option.bind_some, scanPiece_eq]
      rfl
  | case4 scan =>
      subst start
      rw [scanWords, Option.bind_some, scanPiece_eq]
      rfl

/-- A stream is valid when its whole is. -/
theorem validUtf16From_eq {pieces : List Bytes} (nonempty : ∀ piece ∈ pieces, piece ≠ [])
    (scan : Utf16Scan) : validUtf16From scan (pieces.map .ok) =
      .ok (scanPiece pieces.flatten scan = some ⟨none, false⟩) := by
  induction pieces generalizing scan with
  | nil =>
      obtain ⟨pendingByte, pendingHighSurrogate⟩ := scan
      cases pendingByte <;> cases pendingHighSurrogate <;> rfl
  | cons piece pieces ih =>
      have some := nonempty piece List.mem_cons_self
      have later := ih fun other member => nonempty other (List.mem_cons_of_mem _ member)
      have cut : scanPiece (piece :: pieces).flatten scan =
          (scanPiece piece scan).bind (scanPiece pieces.flatten) := by
        rw [scanPiece_eq, scanPiece_eq piece, List.flatten_cons, ← List.append_assoc,
          scanWords_append]
      rw [List.map_cons, validUtf16From, if_neg some, cut]
      cases scanPiece piece scan with
      | none => rfl
      | some next => exact later next

/-- A word that completes a pair, one that begins a pair, and one that stands alone. -/
theorem validUtf16Word_cases {word : Nat} {pendingHighSurrogate next : Bool}
    (isValid : validUtf16Word word pendingHighSurrogate = (true, next)) :
    (pendingHighSurrogate = true ∧ next = false ∧ 0xDC00 ≤ word ∧ word < 0xE000)
      ∨ (pendingHighSurrogate = false ∧ next = true ∧ 0xD800 ≤ word ∧ word < 0xDC00)
      ∨ (pendingHighSurrogate = false ∧ next = false ∧ (word < 0xD800 ∨ 0xE000 ≤ word)) := by
  unfold validUtf16Word at isValid
  cases pendingHighSurrogate with
  | true =>
      rw [if_pos rfl] at isValid
      split at isValid <;> cases isValid
      exact Or.inl ⟨rfl, rfl, by omega, by omega⟩
  | false =>
      rw [if_neg Bool.false_ne_true] at isValid
      split at isValid
      · cases isValid
        exact Or.inr (Or.inl ⟨rfl, rfl, by omega, by omega⟩)
      · obtain ⟨outside, rfl⟩ := Prod.mk.inj isValid
        have plain := of_decide_eq_true outside
        exact Or.inr (Or.inr ⟨rfl, rfl, by omega⟩)

/-- What a byte string is when all of its words are valid and nothing is left over. -/
theorem scanWords_sound {bytes : Bytes} {scan : Utf16Scan} (cut : scan.pendingByte = none)
    (valid : scanWords bytes scan = some ⟨none, false⟩) :
    if scan.pendingHighSurrogate then
      ∃ low text, 0xDC00 ≤ low ∧ low < 0xE000 ∧ bytes = leBytes 2 low ++ unicodeBytes text
    else ∃ text, bytes = unicodeBytes text := by
  induction bytes, scan using scanWords.induct with
  | case1 low high rest scan pending found ih =>
      simp only [scanWords, found, if_true] at valid
      have later := ih cut valid
      have word : leBytes 2 (leValue [low, high]) = [low, high] := leBytes_leValue [low, high]
      have bound : leValue [low, high] < 256 ^ 2 := leValue_lt [low, high]
      generalize leValue [low, high] = unit at found word bound
      rcases validUtf16Word_cases found with ⟨was, rfl, above, below⟩ | ⟨was, rfl, above, below⟩ |
        ⟨was, rfl, plain⟩
      · obtain ⟨text, same⟩ := later
        rw [was, if_pos rfl]
        refine ⟨unit, text, above, below, ?_⟩
        rw [word, same]
        rfl
      · obtain ⟨second, text, secondAbove, secondBelow, same⟩ := later
        rw [was, if_neg Bool.false_ne_true]
        obtain ⟨char, code⟩ : ∃ char : Char, char.toNat
            = 0x10000 + (unit - 0xD800) * 0x400 + (second - 0xDC00) := exists_char (by omega)
        have leading : 0xD800 + (char.toNat - 0x10000) / 0x400 = unit := by omega
        have trailing : 0xDC00 + (char.toNat - 0x10000) % 0x400 = second := by omega
        have units : utf16Units char = [unit, second] := by
          rw [utf16Units_pair (by omega), leading, trailing]
        refine ⟨char :: text, ?_⟩
        rw [same]
        simp [unicodeBytes, encodeUtf16, units, word]
      · obtain ⟨text, same⟩ := later
        rw [was, if_neg Bool.false_ne_true]
        obtain ⟨char, code⟩ : ∃ char : Char, char.toNat = unit := exists_char (by omega)
        have units : utf16Units char = [unit] := by
          rw [utf16Units_bmp (by omega), code]
        refine ⟨char :: text, ?_⟩
        rw [same]
        simp [unicodeBytes, encodeUtf16, units, word]
  | case2 low high rest scan isValid pending found isWrong =>
      simp only [scanWords, found, isWrong] at valid
      cases valid
  | case3 low scan => cases valid
  | case4 scan =>
      cases valid
      exact ⟨[], rfl⟩

/-- A valid word in front. -/
theorem scanWords_word {word : Nat} (small : word < 0x10000) {pendingHighSurrogate next : Bool}
    (isValid : validUtf16Word word pendingHighSurrogate = (true, next)) (rest : Bytes) :
    scanWords (leBytes 2 word ++ rest) ⟨none, pendingHighSurrogate⟩
      = scanWords rest ⟨none, next⟩ := by
  have read : leValue [UInt8.ofNat word, UInt8.ofNat (word / 256)] = word :=
    @leValue_leBytes 2 word (by omega)
  change scanWords (UInt8.ofNat word :: UInt8.ofNat (word / 256) :: rest) _ = _
  rw [scanWords, read, isValid]
  rfl

/-- The words of a text are valid, and leave nothing over. -/
theorem scanWords_text (text : Text) : scanWords (unicodeBytes text) ⟨none, false⟩
    = some ⟨none, false⟩ := by
  induction text with
  | nil => rfl
  | cons char text ih =>
      have range := char_toNat_cases char
      have split : unicodeBytes (char :: text)
          = (utf16Units char).flatMap (leBytes 2) ++ unicodeBytes text := by
        simp [unicodeBytes, encodeUtf16]
      rw [split]
      by_cases small : char.toNat < 0x10000
      · have isValid : validUtf16Word char.toNat false = (true, false) := by
          have low : ¬ (0xD800 ≤ char.toNat ∧ char.toNat ≤ 0xDBFF) := by omega
          have high : ¬ (0xDC00 ≤ char.toNat ∧ char.toNat ≤ 0xDFFF) := by omega
          simp only [validUtf16Word, if_neg Bool.false_ne_true, if_neg low, decide_eq_true high]
        rw [utf16Units_bmp small, List.flatMap_singleton, scanWords_word small isValid, ih]
      · have first : validUtf16Word (0xD800 + (char.toNat - 0x10000) / 0x400) false
            = (true, true) := by
          have inside : 0xD800 ≤ 0xD800 + (char.toNat - 0x10000) / 0x400
              ∧ 0xD800 + (char.toNat - 0x10000) / 0x400 ≤ 0xDBFF := by omega
          simp only [validUtf16Word, if_neg Bool.false_ne_true, if_pos inside]
        have second : validUtf16Word (0xDC00 + (char.toNat - 0x10000) % 0x400) true
            = (true, false) := by
          have inside : 0xDC00 ≤ 0xDC00 + (char.toNat - 0x10000) % 0x400
              ∧ 0xDC00 + (char.toNat - 0x10000) % 0x400 ≤ 0xDFFF := by omega
          simp only [validUtf16Word, if_true, if_pos inside]
        rw [utf16Units_pair small, List.flatMap_cons, List.flatMap_singleton, List.append_assoc,
          scanWords_word (by omega) first, scanWords_word (by omega) second, ih]

/-- The whole is valid exactly when it is text. -/
theorem scanWords_iff (bytes : Bytes) : scanWords bytes ⟨none, false⟩ = some ⟨none, false⟩
    ↔ ∃ text, bytes = unicodeBytes text := by
  constructor
  · intro valid
    exact scanWords_sound rfl valid
  · rintro ⟨text, rfl⟩
    exact scanWords_text text

theorem even_unicodeBytes (text : Text) : (unicodeBytes text).length % 2 = 0 := by
  rw [length_unicodeBytes, Nat.mul_mod_left]

end Utf16

section Utf8

/-- A stream is valid when what was left over and the rest are well-formed together. -/
theorem validUtf8From_eq (itemKey : String) {pieces : List Bytes}
    (nonempty : ∀ piece ∈ pieces, piece ≠ []) {pending : Bytes}
    (cut : pending = [] ∨ utf8First pending = .error none) :
    ∃ valid, validUtf8From itemKey pending (pieces.map .ok) = .ok valid
      ∧ (valid = true ↔ WellFormedUtf8 (pending ++ pieces.flatten)) := by
  induction pieces generalizing pending with
  | nil =>
      refine ⟨_, rfl, ?_⟩
      rw [decide_eq_true_iff, List.flatten_nil, List.append_nil]
      constructor
      · rintro rfl
        exact ⟨[], rfl⟩
      · intro wellFormed
        by_contra some
        obtain ⟨width, found⟩ := wellFormed.first some
        rcases cut with empty | missing
        · exact some empty
        · rw [missing] at found
          cases found
  | cons piece pieces ih =>
      have some := nonempty piece List.mem_cons_self
      have later := @ih fun other member => nonempty other (List.mem_cons_of_mem _ member)
      rw [List.map_cons, validUtf8From, if_neg some, List.flatten_cons, ← List.append_assoc]
      rcases fromUtf8_cases (pending ++ piece) with ⟨run, text, same⟩ |
        ⟨text, rest, errorLen, same, left, wrong, run⟩
      · obtain ⟨valid, answer, iff⟩ := later (Or.inl rfl)
        rw [run, same]
        refine ⟨valid, answer, ?_⟩
        rw [wellFormedUtf8_text]
        exact iff
      · rw [run, same, List.append_assoc, wellFormedUtf8_text]
        cases errorLen with
        | some length =>
            refine ⟨false, rfl, ?_⟩
            constructor
            · intro impossible
              cases impossible
            · intro wellFormed
              obtain ⟨width, found⟩ := wellFormed.first
                fun empty => left (List.append_eq_nil_iff.mp empty).1
              rw [utf8First_wrong wrong] at found
              cases found
        | none =>
            have dropped : (encodeUtf8 text ++ rest).drop (encodeUtf8 text).length = rest :=
              List.drop_left
            have few : ¬ 3 < rest.length := Nat.not_lt.mpr (length_of_utf8First_none wrong)
            simp only [dropped, if_neg few]
            exact later (Or.inr wrong)

end Utf8

section Outcome

/-- However a reader splits a byte string into pieces, the answer is whether the whole is text. -/
theorem validStreams (itemKey : String) (pieces : List Bytes)
    (nonempty : ∀ piece ∈ pieces, piece ≠ []) :
    (∃ valid, validUtf16Stream (pieces.map .ok) = .ok valid
        ∧ (valid = true ↔ pieces.flatten.length % 2 = 0
          ∧ ∃ text, pieces.flatten = unicodeBytes text))
      ∧ ∃ valid, validUtf8Stream itemKey (pieces.map .ok) = .ok valid
        ∧ (valid = true ↔ ∃ text, pieces.flatten = encodeUtf8 text) := by
  constructor
  · refine ⟨_, validUtf16From_eq nonempty _, ?_⟩
    rw [decide_eq_true_iff, scanPiece_eq]
    refine (scanWords_iff pieces.flatten).trans ?_
    constructor
    · rintro ⟨text, same⟩
      rw [same]
      exact ⟨even_unicodeBytes text, text, rfl⟩
    · exact And.right
  · exact validUtf8From_eq itemKey nonempty (Or.inl rfl)

/-- A character of two units and four bytes, cut in its middle. -/
theorem validStreams_cut :
    ∃ valid, validUtf8Stream "note" ([[0xF0, 0x9F], [0x98], [0x80]].map .ok) = .ok valid
      ∧ (valid = true ↔ ∃ text, [0xF0, 0x9F, 0x98, 0x80] = encodeUtf8 text) :=
  (validStreams "note" [[0xF0, 0x9F], [0x98], [0x80]] (by decide)).2

end Outcome

end PstForge.Translate
