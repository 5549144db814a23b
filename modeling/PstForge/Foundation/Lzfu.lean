import PstForge.Foundation.Bytes
import PstForge.Foundation.Machine

/-! # Compressed rich text

A payload of compressed rich text is a sequence of runs. A run begins with a control byte, whose
bits tell from the lowest on what the next eight tokens are: a literal byte, or a reference of two
bytes that copies from a ring of `4096` bytes. The ring starts with a dictionary of common text and
then takes every byte that is put out, and a reference to the place where the next byte would go
ends the text.
-/

namespace PstForge.Foundation.Lzfu

/-- The bytes that the ring starts with. -/
def initialDictionary : Bytes :=
  ("\x7b\\rtf1\\ansi\\mac\\deff0\\deftab720\x7b\\fonttbl;\x7d\x7b\\f0\\fnil \\froman \\fswiss " ++
    "\\fmodern \\fscript \\fdecor MS Sans SerifSymbolArialTimes New RomanCourier\x7b\\colortbl" ++
    "\\red0\\green0\\blue0\r\n\\par \\pard\\plain\\f0\\fs20\\b\\i\\u\\tab\\tx").toList.map
      fun letter => UInt8.ofNat letter.toNat

def ringSize : Nat := 4096

/-- A decoder: the input that is left, what was put out, and the ring. -/
structure Decoder where
  rest : Bytes
  output : Bytes
  ring : Bytes

namespace Decoder

def start (payload : Bytes) : Decoder where
  rest := payload
  output := []
  ring := initialDictionary ++ List.replicate (ringSize - initialDictionary.length) 0

/-- The place in the ring where the next byte goes. -/
def writeOffset (decoder : Decoder) : Nat :=
  (initialDictionary.length + decoder.output.length) % ringSize

def put (decoder : Decoder) (byte : UInt8) : Decoder :=
  { decoder with
    output := decoder.output ++ [byte]
    ring := decoder.ring.set decoder.writeOffset byte }

/-- Copy bytes from the ring; the copy can run into what it puts out. -/
def copy : (length source : Nat) → Decoder → Decoder
  | 0, _, decoder => decoder
  | length + 1, source, decoder =>
      copy length ((source + 1) % ringSize) (decoder.put (decoder.ring.getD source 0))

end Decoder

/-- The place in the ring that a reference names. -/
def referenceOffset (high low : UInt8) : Nat := (high.toNat * 256 + low.toNat) / 16

def referenceLength (low : UInt8) : Nat := low.toNat % 16 + 2

/-- How decoding ends: at the end marker, with the whole text, or where the input does. -/
inductive Ending where
  | marker (output : Bytes)
  | exhausted
  deriving DecidableEq

/-- Decode a token. -/
def token (isReference : Bool) (decoder : Decoder) : Except Ending Decoder :=
  match isReference, decoder.rest with
  | false, byte :: rest => .ok ({ decoder with rest }.put byte)
  | true, high :: low :: rest =>
      if referenceOffset high low = decoder.writeOffset then .error (.marker decoder.output)
      else .ok ({ decoder with rest }.copy (referenceLength low) (referenceOffset high low))
  | _, _ => .error .exhausted

/-- Whether a control byte announces a reference. -/
def announces (control : UInt8) (bit : Nat) : Bool := control.toNat.testBit bit

/-- Decode the tokens of a run from a bit on. -/
def decodeRun (control : UInt8) : List Nat → Decoder → Except Ending Decoder
  | [], decoder => .ok decoder
  | bit :: bits, decoder => do
      let next ← token (announces control bit) decoder
      decodeRun control bits next

/-- Decode runs; every run takes up its control byte, which bounds their number. -/
def decodeRuns : (runs : Nat) → Decoder → Ending
  | 0, _ => .exhausted
  | runs + 1, decoder =>
      match decoder.rest with
      | [] => .exhausted
      | control :: rest =>
          match decodeRun control (List.range 8) { decoder with rest } with
          | .error ending => ending
          | .ok next => decodeRuns runs next

/-- Decode a payload. -/
def decode (payload : Bytes) : Ending := decodeRuns payload.length (.start payload)

section Output

variable {decoder next : Decoder} {output : Bytes}

@[simp] theorem initialDictionary_length : initialDictionary.length = 207 := by decide +kernel

@[simp] theorem put_output (byte : UInt8) :
    (decoder.put byte).output = decoder.output ++ [byte] := rfl

@[simp] theorem put_rest (byte : UInt8) : (decoder.put byte).rest = decoder.rest := rfl

theorem copy_keeps (length : Nat) : ∀ (source : Nat) (decoder : Decoder),
    (decoder.copy length source).output.length = decoder.output.length + length ∧
      (decoder.copy length source).rest = decoder.rest := by
  induction length with
  | zero => exact fun _ _ => ⟨rfl, rfl⟩
  | succ length ih =>
      intro source decoder
      obtain ⟨output, rest⟩ := ih ((source + 1) % ringSize)
        (decoder.put (decoder.ring.getD source 0))
      rw [put_output, List.length_append, List.length_singleton] at output
      rw [put_rest] at rest
      rw [Decoder.copy, output, rest]
      exact ⟨by omega, rfl⟩

/-- A token never takes output back, and never adds to the input. -/
theorem token_ok {isReference : Bool} (htoken : token isReference decoder = .ok next) :
    decoder.output.length ≤ next.output.length ∧ next.rest.length ≤ decoder.rest.length := by
  unfold token at htoken
  split at htoken
  case h_1 byte rest here =>
    cases htoken
    rw [put_output, put_rest, here]
    exact ⟨(List.prefix_append _ _).length_le, Nat.le_succ _⟩
  case h_2 high low rest here =>
    split at htoken
    case isTrue => cases htoken
    case isFalse =>
      cases htoken
      obtain ⟨output, kept⟩ := copy_keeps (referenceLength low) (referenceOffset high low)
        { decoder with rest }
      rw [output, kept, here]
      exact ⟨Nat.le_add_right _ _, Nat.le_add_right rest.length 2⟩
  case h_3 => cases htoken

theorem token_marker {isReference : Bool}
    (htoken : token isReference decoder = .error (.marker output)) : output = decoder.output := by
  unfold token at htoken
  split at htoken
  case h_1 => cases htoken
  case h_2 =>
    split at htoken
    case isTrue => cases htoken; rfl
    case isFalse => cases htoken
  case h_3 => cases htoken

theorem decodeRun_ok {control : UInt8} {bits : List Nat} :
    ∀ {decoder next : Decoder}, decodeRun control bits decoder = .ok next →
      decoder.output.length ≤ next.output.length ∧ next.rest.length ≤ decoder.rest.length := by
  induction bits with
  | nil =>
      intro decoder next hrun
      cases hrun
      exact ⟨Nat.le_refl _, Nat.le_refl _⟩
  | cons bit bits ih =>
      intro decoder next hrun
      obtain ⟨middle, htoken, hrest⟩ := bind_eq_ok.mp hrun
      have first := token_ok htoken
      have others := ih hrest
      exact ⟨first.1.trans others.1, others.2.trans first.2⟩

theorem decodeRun_marker {control : UInt8} {bits : List Nat} :
    ∀ {decoder : Decoder}, decodeRun control bits decoder = .error (.marker output) →
      decoder.output.length ≤ output.length := by
  induction bits with
  | nil => exact fun hrun => nomatch hrun
  | cons bit bits ih =>
      intro decoder hrun
      rw [decodeRun] at hrun
      cases htoken : token (announces control bit) decoder with
      | error ending =>
          rw [htoken] at hrun
          cases hrun
          rw [token_marker htoken]
      | ok middle =>
          rw [htoken] at hrun
          exact (token_ok htoken).1.trans (ih hrun)

/-- What was put out stays in front of the whole text. -/
theorem decodeRuns_marker {runs : Nat} :
    ∀ {decoder : Decoder}, decodeRuns runs decoder = .marker output →
      decoder.output.length ≤ output.length := by
  induction runs with
  | zero => exact fun hrun => nomatch hrun
  | succ runs ih =>
      intro decoder hrun
      rw [decodeRuns] at hrun
      split at hrun
      case h_1 => cases hrun
      case h_2 control rest here =>
        split at hrun
        case h_1 ending ended =>
          subst hrun
          have kept := decodeRun_marker ended
          exact kept
        case h_2 next went => exact (decodeRun_ok went).1.trans (ih hrun)

/-- More runs than there are input bytes decode nothing more. -/
theorem decodeRuns_enough {runs : Nat} :
    ∀ {more : Nat} {decoder : Decoder}, decoder.rest.length ≤ runs → runs ≤ more →
      decodeRuns more decoder = decodeRuns runs decoder := by
  induction runs with
  | zero =>
      intro more decoder short _
      have empty := List.length_eq_zero_iff.mp (Nat.le_zero.mp short)
      cases more with
      | zero => rfl
      | succ more => simp only [decodeRuns, empty]
  | succ runs ih =>
      intro more decoder short le
      obtain ⟨more, rfl⟩ : ∃ count, more = count + 1 := ⟨more - 1, by omega⟩
      rw [decodeRuns, decodeRuns]
      split
      case h_1 => rfl
      case h_2 control rest here =>
        split
        case h_1 => rfl
        case h_2 next went =>
          have fewer := (decodeRun_ok went).2
          rw [here, List.length_cons] at short
          exact ih (by dsimp only at fewer; omega) (Nat.le_of_succ_le_succ le)

end Output

section Literals

variable {control : UInt8}

/-- Literal tokens put their bytes out. -/
theorem decodeRun_literals {bits : List Nat} (literal : ∀ bit ∈ bits,
    announces control bit = false) :
    ∀ {bytes tail : Bytes} {decoder : Decoder}, bytes.length = bits.length →
      decoder.rest = bytes ++ tail →
        ∃ next, decodeRun control bits decoder = .ok next ∧ next.rest = tail ∧
          next.output = decoder.output ++ bytes := by
  induction bits with
  | nil =>
      intro bytes tail decoder count rest
      obtain rfl := List.length_eq_zero_iff.mp count
      exact ⟨decoder, rfl, rest, (List.append_nil _).symm⟩
  | cons bit bits ih =>
      intro bytes tail decoder count rest
      cases bytes with
      | nil => cases count
      | cons byte bytes =>
          obtain ⟨plain, others⟩ := List.forall_mem_cons.mp literal
          have one : token (announces control bit) decoder =
              .ok ({ decoder with rest := bytes ++ tail }.put byte) := by
            simp only [plain, token, rest, List.cons_append]
          have start : ({ decoder with rest := bytes ++ tail }.put byte).rest = bytes ++ tail := rfl
          obtain ⟨next, went, left, output⟩ := ih others (Nat.succ.inj count) start
          refine ⟨next, ?_, left, ?_⟩
          · rw [decodeRun, one]
            exact went
          · rw [output, put_output, List.append_assoc]
            rfl

theorem decodeRun_append {first second : List Nat} : ∀ {decoder : Decoder},
    decodeRun control (first ++ second) decoder =
      decodeRun control first decoder >>= decodeRun control second := by
  induction first with
  | nil => exact fun {_} => rfl
  | cons bit first ih =>
      intro decoder
      rw [List.cons_append, decodeRun, decodeRun]
      cases token (announces control bit) decoder with
      | error ending => rfl
      | ok next => exact ih

/-- A reference to the place of the next byte ends the text. -/
theorem token_end {high low : UInt8} {decoder : Decoder} {tail : Bytes}
    (rest : decoder.rest = high :: low :: tail)
    (here : referenceOffset high low = decoder.writeOffset) :
    token true decoder = .error (.marker decoder.output) := by
  simp only [token, rest]
  exact if_pos here

/-- Runs of eight literals put their bytes out. -/
theorem decodeRuns_literals {groups : List Bytes} (full : ∀ group ∈ groups, group.length = 8) :
    ∀ {tail : Bytes} {decoder : Decoder}, decoder.rest = groups.flatMap (0 :: ·) ++ tail →
      ∃ next, next.rest = tail ∧ next.output = decoder.output ++ groups.flatten ∧
        ∀ runs, decodeRuns (groups.length + runs) decoder = decodeRuns runs next := by
  induction groups with
  | nil =>
      intro tail decoder rest
      refine ⟨decoder, rest, (List.append_nil _).symm, fun runs => ?_⟩
      rw [List.length_nil, Nat.zero_add]
  | cons group groups ih =>
      intro tail decoder rest
      obtain ⟨eight, others⟩ := List.forall_mem_cons.mp full
      have literal : ∀ bit ∈ List.range 8, announces 0 bit = false := by decide
      rw [List.flatMap_cons, List.append_assoc, List.cons_append] at rest
      have start : ({ decoder with rest := group ++ (groups.flatMap (0 :: ·) ++ tail) } :
          Decoder).rest = group ++ (groups.flatMap (0 :: ·) ++ tail) := rfl
      obtain ⟨middle, went, left, output⟩ := decodeRun_literals literal eight start
      obtain ⟨next, behind, whole, same⟩ := ih others left
      refine ⟨next, behind, ?_, fun runs => ?_⟩
      · rw [whole, output, List.append_assoc, List.flatten_cons]
      · rw [List.length_cons, Nat.add_right_comm, decodeRuns, rest]
        dsimp only
        rw [went]
        exact same runs

/-- A run whose last token is the end marker ends the text. -/
theorem decodeRuns_last {decoder : Decoder} {bytes : Bytes} {high low : UInt8}
    (few : bytes.length < 8) (rest : decoder.rest = control :: bytes ++ [high, low])
    (literal : ∀ bit < bytes.length, announces control bit = false)
    (last : announces control bytes.length = true)
    (here : referenceOffset high low =
      (initialDictionary.length + (decoder.output ++ bytes).length) % ringSize) (runs : Nat) :
    decodeRuns (runs + 1) decoder = .marker (decoder.output ++ bytes) := by
  have tokens : List.range 8 = List.range bytes.length ++ (bytes.length ::
      List.range' (bytes.length + 1) (7 - bytes.length)) := by
    generalize bytes.length = count at few
    interval_cases count <;> rfl
  have start : ({ decoder with rest := bytes ++ [high, low] } : Decoder).rest =
      bytes ++ [high, low] := rfl
  obtain ⟨next, went, left, output⟩ := decodeRun_literals
    (fun bit member => literal bit (List.mem_range.mp member)) List.length_range.symm start
  have ends : decodeRun control (List.range 8) { decoder with rest := bytes ++ [high, low] } =
      .error (.marker (decoder.output ++ bytes)) := by
    rw [tokens, decodeRun_append, went]
    show decodeRun control (_ :: _) next = _
    have marker : token (announces control bytes.length) next = .error (.marker next.output) := by
      rw [last]
      apply token_end left
      rw [here, Decoder.writeOffset, output]
    rw [decodeRun, marker, output]
    rfl
  rw [decodeRuns, rest]
  simp only [List.cons_append, ends]

end Literals

end PstForge.Foundation.Lzfu
