import Mathlib.Data.Nat.Bitwise
import PstForge.Foundation.Chunks
import PstForge.Foundation.Lzfu
import PstForge.Writer.Properties

/-! # Compressed bodies

A rich-text body that arrives compressed is kept only when its runs end as they should: the check
walks over the tokens of the payload and counts what they would put out, without decoding them. A
body that arrives plain is put into a container of literal runs.
-/

namespace PstForge.Translate

open PstForge.Foundation PstForge.Writer

section Check

/-- How far the check has come: the payload behind the cursor, the bytes that were counted and
the place in the ring where the next one would go. -/
structure EndRunScan where
  rest : Bytes
  written : Nat
  writeOffset : Nat

/-- Whether a bit of a control byte is set. -/
def controlBit (control : UInt8) (bit : Nat) : Bool :=
  control.toNat &&& (1 <<< bit) ≠ 0

/-- Count a token; the check can end here with its answer. -/
def scanToken (rawSize : Nat) (isReference : Bool) (scan : EndRunScan) :
    Except Bool EndRunScan :=
  if isReference = false then
    match scan.rest with
    | [] => .error false
    | _ :: rest =>
        if rawSize ≤ scan.written then .error false
        else .ok ⟨rest, scan.written + 1, (scan.writeOffset + 1) % 4096⟩
  else
    match scan.rest with
    | high :: low :: rest =>
        let encoded := high.toNat * 256 + low.toNat
        let offset := encoded >>> 4
        if offset = scan.writeOffset then .error (scan.written = rawSize)
        else
          let length := (encoded &&& 0x000F) + 2
          match checkedAdd 64 scan.written length with
          | none => .error false
          | some nextWritten =>
              if rawSize < nextWritten then .error false
              else .ok ⟨rest, nextWritten, (scan.writeOffset + length) % 4096⟩
    | _ => .error false

/-- Count the tokens of a run from a bit on. -/
def scanRun (rawSize : Nat) (control : UInt8) : List Nat → EndRunScan → Except Bool EndRunScan
  | [], scan => .ok scan
  | bit :: bits, scan => do
      let next ← scanToken rawSize (controlBit control bit) scan
      scanRun rawSize control bits next

/-- Count runs; every run takes up its control byte, which bounds their number. -/
def scanRuns (rawSize : Nat) : (runs : Nat) → EndRunScan → Bool
  | 0, _ => false
  | runs + 1, scan =>
      match scan.rest with
      | [] => false
      | control :: rest =>
          match scanRun rawSize control (List.range 8) { scan with rest } with
          | .error answer => answer
          | .ok next => scanRuns rawSize runs next

/-- Whether a payload ends with an end run behind exactly so many bytes. -/
def compressedRtfHasEndRun (payload : Bytes) (rawSize : Nat) : Bool :=
  scanRuns rawSize payload.length ⟨payload, 0, 207⟩

end Check

section Agreement

variable {rawSize : Nat}

/-- The check stands where a decoder does, which is not past the size. -/
structure Follows (rawSize : Nat) (scan : EndRunScan) (decoder : Lzfu.Decoder) : Prop where
  counts : scan = ⟨decoder.rest, decoder.output.length, decoder.writeOffset⟩
  inside : decoder.output.length ≤ rawSize

/-- A decoder ends at a marker behind exactly so many bytes. -/
def EndsAt (rawSize : Nat) : Lzfu.Ending → Prop
  | .marker output => output.length = rawSize
  | .exhausted => False

/-- The check and a decoder agree: both go on side by side, or the check has its answer, which
tells how the decoder ends; when that has not ended yet, it is past the size. -/
def Agrees (rawSize : Nat) : Except Bool EndRunScan → Except Lzfu.Ending Lzfu.Decoder → Prop
  | .ok scan, .ok decoder => Follows rawSize scan decoder
  | .error answer, .error ending => answer = true ↔ EndsAt rawSize ending
  | .error answer, .ok decoder => answer = false ∧ rawSize < decoder.output.length
  | .ok _, .error _ => False

theorem controlBit_announces (control : UInt8) (bit : Nat) :
    controlBit control bit = Lzfu.announces control bit := by
  unfold controlBit Lzfu.announces
  rw [Nat.one_shiftLeft, Nat.and_two_pow]
  cases control.toNat.testBit bit <;> simp

/-- The place of the next byte moves on with the bytes that are put out. -/
theorem writeOffset_add {decoder next : Lzfu.Decoder} {length : Nat}
    (count : next.output.length = decoder.output.length + length) :
    (decoder.writeOffset + length) % 4096 = next.writeOffset := by
  rw [Lzfu.Decoder.writeOffset, Lzfu.Decoder.writeOffset, Lzfu.ringSize, count]
  omega

/-- The place and the length that the check reads off a reference. -/
theorem encoded_reference (high low : UInt8) :
    (high.toNat * 256 + low.toNat) >>> 4 = Lzfu.referenceOffset high low ∧
      ((high.toNat * 256 + low.toNat) &&& 0x000F) + 2 = Lzfu.referenceLength low := by
  have mask : (high.toNat * 256 + low.toNat) &&& 0x000F = (high.toNat * 256 + low.toNat) % 16 :=
    Nat.and_two_pow_sub_one_eq_mod _ 4
  rw [mask, Nat.shiftRight_eq_div_pow, Lzfu.referenceOffset, Lzfu.referenceLength]
  omega

theorem scanToken_agrees {scan : EndRunScan} {decoder : Lzfu.Decoder}
    (size : rawSize < wordCount 64) (follows : Follows rawSize scan decoder) (isReference : Bool) :
    Agrees rawSize (scanToken rawSize isReference scan) (Lzfu.token isReference decoder) := by
  obtain ⟨rfl, inside⟩ := follows
  obtain ⟨scanned, output, ring⟩ := decoder
  cases isReference with
  | false =>
      cases scanned with
      | nil => exact ⟨Bool.noConfusion, fun ends => ends.elim⟩
      | cons byte rest =>
          have count : (output ++ [byte]).length = output.length + 1 := List.length_append
          simp only [scanToken, Lzfu.token, ↓reduceIte]
          split
          case isTrue full =>
            refine ⟨rfl, ?_⟩
            rw [Lzfu.put_output, count]
            exact Nat.lt_succ_of_le full
          case isFalse free =>
            have place : ((⟨byte :: rest, output, ring⟩ : Lzfu.Decoder).writeOffset + 1) % 4096 =
                ((⟨rest, output, ring⟩ : Lzfu.Decoder).put byte).writeOffset :=
              writeOffset_add count
            constructor
            · rw [Lzfu.put_output, Lzfu.put_rest, count, ← place]
            · rw [Lzfu.put_output, count]
              exact Nat.lt_of_not_le free
  | true =>
      rcases scanned with _ | ⟨high, _ | ⟨low, rest⟩⟩
      · exact ⟨Bool.noConfusion, fun ends => ends.elim⟩
      · exact ⟨Bool.noConfusion, fun ends => ends.elim⟩
      · obtain ⟨offset, length⟩ := encoded_reference high low
        obtain ⟨count, left⟩ := Lzfu.copy_keeps (Lzfu.referenceLength low)
          (Lzfu.referenceOffset high low) ⟨rest, output, ring⟩
        simp only [scanToken, Lzfu.token, Bool.true_eq_false, ↓reduceIte, offset, length]
        by_cases marker : Lzfu.referenceOffset high low =
            (⟨high :: low :: rest, output, ring⟩ : Lzfu.Decoder).writeOffset
        · rw [if_pos marker, if_pos marker]
          exact decide_eq_true_iff
        · rw [if_neg marker, if_neg marker]
          split
          case h_1 overflow =>
            refine ⟨rfl, ?_⟩
            rw [count]
            have large : wordCount 64 ≤ output.length + Lzfu.referenceLength low := by
              by_contra small
              have fits := checkedAdd_eq_some.mpr ⟨rfl, Nat.not_le.mp small⟩
              rw [overflow] at fits
              cases fits
            exact size.trans_le large
          case h_2 nextWritten added =>
            obtain ⟨rfl, -⟩ := checkedAdd_eq_some.mp added
            split
            case isTrue past => exact ⟨rfl, by rw [count]; exact past⟩
            case isFalse within =>
              constructor
              · rw [left, count, ← writeOffset_add count]
                rfl
              · rw [count]
                exact Nat.not_lt.mp within

/-- A decoder that is past the size does not end there. -/
theorem not_endsAt_of_past {decoder : Lzfu.Decoder} (past : rawSize < decoder.output.length)
    (runs : Nat) : ¬EndsAt rawSize (Lzfu.decodeRuns runs decoder) := by
  intro ends
  cases hrun : Lzfu.decodeRuns runs decoder with
  | exhausted =>
      rw [hrun] at ends
      exact ends
  | marker output =>
      rw [hrun] at ends
      have kept := Lzfu.decodeRuns_marker hrun
      have whole : output.length = rawSize := ends
      omega

theorem scanRun_agrees {control : UInt8} {bits : List Nat} (size : rawSize < wordCount 64) :
    ∀ {scan : EndRunScan} {decoder : Lzfu.Decoder}, Follows rawSize scan decoder →
      Agrees rawSize (scanRun rawSize control bits scan) (Lzfu.decodeRun control bits decoder) := by
  induction bits with
  | nil => exact fun follows => follows
  | cons bit bits ih =>
      intro scan decoder follows
      have step := scanToken_agrees size follows (controlBit control bit)
      rw [scanRun, Lzfu.decodeRun, ← controlBit_announces]
      revert step
      cases scanToken rawSize (controlBit control bit) scan with
      | ok scan =>
          cases Lzfu.token (controlBit control bit) decoder with
          | ok next => exact fun follows => ih follows
          | error ending => exact fun impossible => impossible.elim
      | error answer =>
          cases Lzfu.token (controlBit control bit) decoder with
          | error ending => exact fun agrees => agrees
          | ok next =>
              rintro ⟨rfl, past⟩
              show Agrees rawSize (.error false) (Lzfu.decodeRun control bits next)
              cases hrun : Lzfu.decodeRun control bits next with
              | ok later => exact ⟨rfl, past.trans_le (Lzfu.decodeRun_ok hrun).1⟩
              | error ending =>
                  refine ⟨Bool.noConfusion, fun ends => ?_⟩
                  cases ending with
                  | exhausted => exact ends.elim
                  | marker output =>
                      have kept := Lzfu.decodeRun_marker hrun
                      have whole : output.length = rawSize := ends
                      omega

/-- The check answers whether a decoder ends behind exactly so many bytes. -/
theorem scanRuns_endsAt {runs : Nat} (size : rawSize < wordCount 64) :
    ∀ {scan : EndRunScan} {decoder : Lzfu.Decoder}, Follows rawSize scan decoder →
      (scanRuns rawSize runs scan = true ↔ EndsAt rawSize (Lzfu.decodeRuns runs decoder)) := by
  induction runs with
  | zero => exact fun _ => ⟨Bool.noConfusion, fun ends => ends.elim⟩
  | succ runs ih =>
      intro scan decoder follows
      obtain ⟨rfl, inside⟩ := follows
      obtain ⟨scanned, output, ring⟩ := decoder
      cases scanned with
      | nil => exact ⟨Bool.noConfusion, fun ends => ends.elim⟩
      | cons control rest =>
          have start : Follows rawSize ⟨rest, output.length, _⟩ ⟨rest, output, ring⟩ :=
            ⟨rfl, inside⟩
          have step : Agrees rawSize
              (scanRun rawSize control (List.range 8) ⟨rest, output.length,
                (⟨control :: rest, output, ring⟩ : Lzfu.Decoder).writeOffset⟩)
              (Lzfu.decodeRun control (List.range 8) ⟨rest, output, ring⟩) :=
            scanRun_agrees size start
          simp only [scanRuns, Lzfu.decodeRuns]
          generalize scanRun rawSize control (List.range 8) _ = scanned at step ⊢
          generalize Lzfu.decodeRun control (List.range 8) _ = decoded at step ⊢
          cases scanned with
          | ok scan =>
              cases decoded with
              | ok next => exact ih step
              | error ending => exact step.elim
          | error answer =>
              cases decoded with
              | error ending => exact step
              | ok next =>
                  obtain ⟨rfl, past⟩ := step
                  exact ⟨Bool.noConfusion, fun ends =>
                    (not_endsAt_of_past past runs ends).elim⟩

/-- The check tells whether a decoder reaches an end marker behind exactly so many bytes. -/
theorem compressedRtfHasEndRun_iff (size : rawSize < wordCount 64) (payload : Bytes) :
    compressedRtfHasEndRun payload rawSize = true ↔
      ∃ output, Lzfu.decode payload = .marker output ∧ output.length = rawSize := by
  have start : Follows rawSize ⟨payload, 0, 207⟩ (.start payload) := by
    refine ⟨?_, Nat.zero_le _⟩
    rw [Lzfu.Decoder.writeOffset, Lzfu.initialDictionary_length]
    rfl
  have answer : compressedRtfHasEndRun payload rawSize = true ↔
      EndsAt rawSize (Lzfu.decode payload) := scanRuns_endsAt size start
  rw [answer]
  cases Lzfu.decode payload with
  | exhausted =>
      constructor
      · exact fun ends => ends.elim
      · rintro ⟨_, same, _⟩
        cases same
  | marker output =>
      constructor
      · exact fun whole => ⟨output, rfl, whole⟩
      · rintro ⟨_, same, whole⟩
        obtain rfl := Lzfu.Ending.marker.inj same
        exact whole

end Agreement

section Container

/-- The runs that a plain body is put into. -/
def rtfRuns (rtf : Bytes) : Bytes :=
  (chunks 8 (rtf.take (rtf.length / 8 * 8))).flatMap (0 :: ·)
    ++ (1 <<< UInt8.ofNat (rtf.drop (rtf.length / 8 * 8)).length) :: rtf.drop (rtf.length / 8 * 8)
    ++ (leBytes 2 ((207 + rtf.length) % 4096 * 16)).reverse

theorem length_flatMap_runs {groups : List Bytes} :
    (groups.flatMap (0 :: ·)).length = groups.flatten.length + groups.length := by
  induction groups with
  | nil => rfl
  | cons group groups ih =>
      rw [List.flatMap_cons, List.length_append, ih, List.flatten_cons, List.length_append,
        List.length_cons, List.length_cons]
      omega

theorem length_rtfRuns (rtf : Bytes) :
    (rtfRuns rtf).length = rtf.length + divCeil (rtf.length + 1) 8 + 2 := by
  have positive : 0 < 8 := by decide
  have whole := chunks_flatten positive (rtf.take (rtf.length / 8 * 8))
  have count := length_chunks positive (rtf.take (rtf.length / 8 * 8))
  rw [List.length_take, divCeil] at count
  rw [rtfRuns, List.length_append, List.length_append, length_flatMap_runs, whole, count,
    List.length_cons, List.length_reverse, length_leBytes, List.length_take, List.length_drop,
    divCeil]
  omega

/-- The control byte of the last run announces the end marker behind its literals. -/
theorem announces_last : ∀ count < 8,
    (∀ bit < count, Lzfu.announces (1 <<< UInt8.ofNat count) bit = false) ∧
      Lzfu.announces (1 <<< UInt8.ofNat count) count = true := by
  decide

/-- The end marker names the place that it was made of. -/
theorem referenceOffset_end {place : Nat} (small : place < 4096) :
    ∃ high low, (leBytes 2 (place * 16)).reverse = [high, low] ∧
      Lzfu.referenceOffset high low = place := by
  refine ⟨UInt8.ofNat (place * 16 / 256), UInt8.ofNat (place * 16), rfl, ?_⟩
  rw [Lzfu.referenceOffset, UInt8.toNat_ofNat', UInt8.toNat_ofNat']
  omega

/-- The runs decode to the body. -/
theorem decode_rtfRuns (rtf : Bytes) : Lzfu.decode (rtfRuns rtf) = .marker rtf := by
  have positive : 0 < 8 := by decide
  have whole := chunks_flatten positive (rtf.take (rtf.length / 8 * 8))
  have count := length_chunks positive (rtf.take (rtf.length / 8 * 8))
  have full : ∀ group ∈ chunks 8 (rtf.take (rtf.length / 8 * 8)), group.length = 8 := by
    have even : (rtf.take (rtf.length / 8 * 8)).length = rtf.length / 8 * 8 := by
      rw [List.length_take]
      omega
    exact chunks_even positive even
  obtain ⟨high, low, marker, place⟩ :=
    referenceOffset_end (Nat.mod_lt (207 + rtf.length) (by decide : 0 < 4096))
  have few : (rtf.drop (rtf.length / 8 * 8)).length < 8 := by
    rw [List.length_drop]
    omega
  have start : (Lzfu.Decoder.start (rtfRuns rtf)).rest =
      (chunks 8 (rtf.take (rtf.length / 8 * 8))).flatMap (0 :: ·) ++
        ((1 <<< UInt8.ofNat (rtf.drop (rtf.length / 8 * 8)).length) ::
          rtf.drop (rtf.length / 8 * 8) ++ [high, low]) := by
    rw [← marker, ← List.append_assoc]
    rfl
  obtain ⟨next, left, output, same⟩ := Lzfu.decodeRuns_literals full start
  have joined : next.output ++ rtf.drop (rtf.length / 8 * 8) = rtf := by
    rw [output, whole]
    exact List.take_append_drop _ _
  obtain ⟨literal, last⟩ := announces_last _ few
  have ends := Lzfu.decodeRuns_last few left literal last (by
    rw [place, joined, Lzfu.initialDictionary_length]
    rfl)
  have room : ∃ runs, (rtfRuns rtf).length =
      (chunks 8 (rtf.take (rtf.length / 8 * 8))).length + (runs + 1) := by
    refine ⟨(rtfRuns rtf).length - (chunks 8 (rtf.take (rtf.length / 8 * 8))).length - 1, ?_⟩
    rw [count, length_rtfRuns, List.length_take, divCeil, divCeil]
    omega
  obtain ⟨runs, room⟩ := room
  rw [Lzfu.decode, room, same, ends, joined]

theorem tableEntry_lt (bits : Nat) : ∀ {value : Nat}, value < 2 ^ 32 →
    computeCrc.tableEntry bits value < 2 ^ 32 := by
  induction bits with
  | zero => exact fun small => small
  | succ bits ih =>
      intro value small
      have half : value / 2 < 2 ^ 32 := Nat.lt_of_le_of_lt (Nat.div_le_self _ _) small
      rw [computeCrc.tableEntry]
      apply ih
      split
      · exact Nat.xor_lt_two_pow half (by decide)
      · exact half

/-- A checksum fits its field. -/
theorem computeCrc_lt (data : Bytes) : ∀ {crc : Nat}, crc < 2 ^ 32 →
    computeCrc crc data < 2 ^ 32 := by
  induction data with
  | nil => exact fun small => small
  | cons byte data ih =>
      intro crc small
      apply ih
      have entry : (crc ^^^ byte.toNat) % 256 < 2 ^ 32 :=
        Nat.lt_trans (Nat.mod_lt _ (by decide)) (by decide)
      have rest : crc / 256 < 2 ^ 32 := Nat.lt_of_le_of_lt (Nat.div_le_self _ _) small
      exact Nat.xor_lt_two_pow (tableEntry_lt 8 entry) rest

/-- A plain body is put into a container whose header describes it and whose runs end and decode
as they should, and of any payload the check tells how a decoder ends. -/
theorem rtfContainer_decodes :
    (∀ rtf : Bytes, rtf.length + divCeil (rtf.length + 1) 8 + 14 < wordCount 32 →
      ∃ container, rtfContainer rtf = .ok container ∧
        rtfContainerLen rtf.length = .ok container.length ∧
        leValue (container.take 4) + 4 = container.length ∧
        leValue ((container.drop 4).take 4) = rtf.length ∧
        leValue ((container.drop 8).take 4) = 0x75465A4C ∧
        leValue ((container.drop 12).take 4) = computeCrc 0 (container.drop 16) ∧
        compressedRtfHasEndRun (container.drop 16) rtf.length = true ∧
        Lzfu.decode (container.drop 16) = .marker rtf) ∧
    ∀ (payload : Bytes) (rawSize : Nat), rawSize < wordCount 64 →
      (compressedRtfHasEndRun payload rawSize = true ↔
        ∃ output, Lzfu.decode payload = .marker output ∧ output.length = rawSize) := by
  refine ⟨fun rtf fits => ?_, fun payload rawSize size => compressedRtfHasEndRun_iff size payload⟩
  have length := length_rtfRuns rtf
  have word : wordCount 32 = 256 ^ 4 := by decide
  have wide : 256 ^ 4 + 256 < wordCount 64 := by decide
  rw [word] at fits
  have decoded := decode_rtfRuns rtf
  have checked : compressedRtfHasEndRun (rtfRuns rtf) rtf.length = true :=
    (compressedRtfHasEndRun_iff (by omega) _).mpr ⟨rtf, decoded, rfl⟩
  have crc := computeCrc_lt (rtfRuns rtf) (by decide : 0 < 2 ^ 32)
  have made : rtfContainer rtf = .ok (leBytes 4 ((rtfRuns rtf).length + 12) ++ leBytes 4 rtf.length
      ++ leBytes 4 0x75465A4C ++ leBytes 4 (computeCrc 0 (rtfRuns rtf)) ++ rtfRuns rtf) := by
    have total : rtfContainerLen rtf.length =
        .ok (rtf.length + divCeil (rtf.length + 1) 8 + 18) :=
      okOr_eq_ok.mpr (tryFrom_eq_some.mpr ⟨rfl, by omega⟩)
    have compressedSize : tryFrom 32 ((rtfRuns rtf).length + 12) =
        some ((rtfRuns rtf).length + 12) :=
      tryFrom_eq_some.mpr ⟨rfl, by omega⟩
    have rawSize : tryFrom 32 rtf.length = some rtf.length := tryFrom_eq_some.mpr ⟨rfl, by omega⟩
    unfold rtfRuns at compressedSize ⊢
    simp only [rtfContainer, total, compressedSize, rawSize, okOr]
    rfl
  refine ⟨_, made, ?_, ?_, ?_, ?_, ?_, checked, decoded⟩
  · simp only [List.length_append, length_leBytes, length]
    exact okOr_eq_ok.mpr (tryFrom_eq_some.mpr ⟨by omega, by omega⟩)
  · have first : leValue (leBytes 4 ((rtfRuns rtf).length + 12)) = (rtfRuns rtf).length + 12 :=
      leValue_leBytes (by omega)
    simp only [List.length_append, length_leBytes]
    show leValue (leBytes 4 _) + 4 = _
    rw [first]
    omega
  · have raw : rtf.length < 256 ^ 4 := by omega
    exact leValue_leBytes raw
  · have magic : 0x75465A4C < 256 ^ 4 := by decide
    exact leValue_leBytes magic
  · have sum : computeCrc 0 (rtfRuns rtf) < 256 ^ 4 := crc
    exact leValue_leBytes sum

/-- A body of nine bytes in its container. -/
theorem rtfContainer_decodes_nine :
    ∃ container, rtfContainer [1, 2, 3, 4, 5, 6, 7, 8, 9] = .ok container ∧
      Lzfu.decode (container.drop 16) = .marker [1, 2, 3, 4, 5, 6, 7, 8, 9] ∧
      compressedRtfHasEndRun (container.drop 16) 8 = false := by
  obtain ⟨containers, checks⟩ := rtfContainer_decodes
  obtain ⟨container, made, -, -, -, -, -, -, decoded⟩ :=
    containers [1, 2, 3, 4, 5, 6, 7, 8, 9] (by decide)
  refine ⟨container, made, decoded, ?_⟩
  have answer := checks (container.drop 16) 8 (by decide)
  rw [decoded] at answer
  rw [← Bool.not_eq_true, answer]
  rintro ⟨output, same, short⟩
  obtain rfl := Lzfu.Ending.marker.inj same
  exact absurd short (by decide)

end Container

end PstForge.Translate
