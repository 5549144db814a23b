import Mathlib.Data.Char
import Mathlib.Data.List.Lex
import Mathlib.Data.List.Sort
import Mathlib.Data.Prod.Lex
import Mathlib.Order.WithBot
import PstForge.Job.Ledger

/-! # Which candidates go into which part

The candidates are put into one order, and each is added to the part that is open as long as
the estimated size of that part leaves room for the reserve. A candidate that is too large for
any part gets one of its own. How large a part will be is asked of the whole part: the estimate
need not grow with the candidates.
-/

namespace PstForge.Split

open PstForge.Foundation PstForge.Catalog PstForge.Job

/-- Where in the store a candidate's folder stands. -/
inductive CanonicalFolderLocation where
  | storeRoot
  | ipmSubtree
  deriving DecidableEq, Repr

/-- What is known of a candidate when the parts are planned. -/
structure PackCandidate where
  key : ItemKey
  folderLocation : CanonicalFolderLocation
  folderPath : List Text
  payloadBytes : Nat
  deriving DecidableEq, Repr

/-- The candidates of one part. -/
structure PartAssignment where
  index : Nat
  candidates : List PackCandidate
  estimatedBytes : Nat
  oversize : Bool
  deriving DecidableEq, Repr

inductive PackingError where
  | zeroMaximumSize
  | reserveExceedsMaximum (reserve maximum : Nat)
  | invalidFolderPath
  | duplicateCandidate (key : ItemKey)
  | tooManyParts
  | sizeOverflow
  | estimator (detail : String)
  deriving DecidableEq, Repr

section Order

def CanonicalFolderLocation.rank : CanonicalFolderLocation → Nat
  | .storeRoot => 0
  | .ipmSubtree => 1

def provenanceRank : CatalogProvenance → Nat
  | .normal => 0
  | .recovered => 1
  | .orphan => 2
  | .fragment => 3

/-- The fields of a key in the order in which they are compared; nothing is before something. -/
def keyOrder (key : ItemKey) : Nat ×ₗ WithBot Nat ×ₗ WithBot Nat ×ₗ Nat :=
  toLex (provenanceRank key.provenance, toLex (key.sourceNodeId, toLex (key.recoveryIndex,
    key.occurrence)))

/-- What two candidates are compared by: the place, the path and the key, one after the
other. -/
def candidateOrder (candidate : PackCandidate) :
    Nat ×ₗ List Text ×ₗ Nat ×ₗ WithBot Nat ×ₗ WithBot Nat ×ₗ Nat :=
  toLex (candidate.folderLocation.rank, toLex (candidate.folderPath, keyOrder candidate.key))

/-- Whether a candidate may stand before another one. -/
def Precedes (left right : PackCandidate) : Prop := candidateOrder left ≤ candidateOrder right

instance : DecidableRel Precedes := fun left right =>
  inferInstanceAs (Decidable (candidateOrder left ≤ candidateOrder right))

/-- The candidates in their canonical order; equal ones stay as they come. -/
def sortCandidates (candidates : List PackCandidate) : List PackCandidate :=
  candidates.insertionSort Precedes

/-- The first key that was seen before. -/
def duplicateKey : (seen : List ItemKey) → List PackCandidate → Option ItemKey
  | _, [] => none
  | seen, candidate :: rest =>
      if candidate.key ∈ seen then some candidate.key
      else duplicateKey (candidate.key :: seen) rest

end Order

section Parts

variable (estimatePartBytes : List PackCandidate → Except PackingError Nat)

def pushPart (parts : List PartAssignment) (candidates : List PackCandidate)
    (estimatedBytes : Nat) (oversize : Bool) : Except PackingError (List PartAssignment) := do
  let index ← okOr .tooManyParts ((tryFrom 32 parts.length).bind (checkedAdd 32 · 1))
  .ok (parts ++ [⟨index, candidates, estimatedBytes, oversize⟩])

/-- The parts that are closed, and the one that is open. -/
structure Packing where
  parts : List PartAssignment
  current : List PackCandidate
  currentEstimate : Nat
  deriving DecidableEq, Repr

def packCandidate (effectiveLimit : Nat) (packing : Packing) (candidate : PackCandidate) :
    Except PackingError Packing := do
  let proposed := packing.current ++ [candidate]
  let proposedEstimate ← estimatePartBytes proposed
  if packing.current ≠ [] ∧ effectiveLimit < proposedEstimate then
    let parts ← pushPart packing.parts packing.current packing.currentEstimate false
    let currentEstimate ← estimatePartBytes [candidate]
    if effectiveLimit < currentEstimate then
      let parts ← pushPart parts [candidate] currentEstimate true
      .ok ⟨parts, [], 0⟩
    else .ok ⟨parts, [candidate], currentEstimate⟩
  else if effectiveLimit < proposedEstimate then
    let parts ← pushPart packing.parts proposed proposedEstimate true
    .ok ⟨parts, [], 0⟩
  else .ok ⟨packing.parts, proposed, proposedEstimate⟩

def closePacking (packing : Packing) : Except PackingError (List PartAssignment) :=
  if packing.current ≠ [] then
    pushPart packing.parts packing.current packing.currentEstimate false
  else .ok packing.parts

def packCandidates (candidates : List PackCandidate) (maximumBytes safetyReserveBytes : Nat) :
    Except PackingError (List PartAssignment) := do
  refuse (maximumBytes = 0) .zeroMaximumSize
  let effectiveLimit ← okOr (.reserveExceedsMaximum safetyReserveBytes maximumBytes)
    (checkedSub maximumBytes safetyReserveBytes)
  refuse (∃ candidate ∈ candidates, [] ∈ candidate.folderPath) .invalidFolderPath
  let candidates := sortCandidates candidates
  match duplicateKey [] candidates with
  | some key => .error (.duplicateCandidate key)
  | none =>
      let packing ← candidates.foldlM (packCandidate estimatePartBytes effectiveLimit) ⟨[], [], 0⟩
      closePacking packing

end Parts

section Order

variable {left right : PackCandidate} {candidates : List PackCandidate}

theorem provenanceRank_injective : Function.Injective provenanceRank := by
  intro left right same
  cases left <;> cases right <;> first | rfl | cases same

theorem keyOrder_injective : Function.Injective keyOrder := by
  intro left right same
  obtain ⟨provenance, rest⟩ := Prod.mk.inj same
  obtain ⟨node, rest⟩ := Prod.mk.inj rest
  obtain ⟨index, occurrence⟩ := Prod.mk.inj rest
  cases left
  cases right
  cases provenanceRank_injective provenance
  cases node
  cases index
  cases occurrence
  rfl

/-- Candidates that are equal in the order have the same key. -/
theorem key_eq_of_candidateOrder (same : candidateOrder left = candidateOrder right) :
    left.key = right.key := by
  simp only [candidateOrder, EmbeddingLike.apply_eq_iff_eq, Prod.mk.injEq] at same
  exact keyOrder_injective same.2.2

instance : Std.Total Precedes := ⟨fun _ _ => le_total _ _⟩

instance : IsTrans PackCandidate Precedes := ⟨fun _ _ _ first second => le_trans first second⟩

theorem sortCandidates_perm : (sortCandidates candidates).Perm candidates :=
  List.perm_insertionSort _ _

theorem sortCandidates_sorted : (sortCandidates candidates).Pairwise Precedes :=
  List.pairwise_insertionSort _ _

/-- Where no key occurs twice, the order does not depend on where the candidates stood. -/
theorem sortCandidates_eq (distinct : (candidates.map (·.key)).Nodup)
    {others : List PackCandidate} (same : others.Perm candidates) :
    sortCandidates others = sortCandidates candidates := by
  have perm := (sortCandidates_perm.trans same).trans (@sortCandidates_perm candidates).symm
  apply perm.eq_of_pairwise _ sortCandidates_sorted sortCandidates_sorted
  intro first second member other before after
  have key := key_eq_of_candidateOrder (le_antisymm before after)
  have first_mem := same.subset (sortCandidates_perm.subset member)
  have second_mem := sortCandidates_perm.subset other
  exact List.inj_on_of_nodup_map distinct first_mem second_mem key

end Order

section Loop

variable (estimate : List PackCandidate → Nat) (limit : Nat)

/-- Why a part was closed: with the first candidate of what follows it would be too large. -/
def Full (part : PartAssignment) (next : List PackCandidate) : Prop :=
  part.oversize = false → ∃ candidate ∈ next.head?,
    limit < estimate (part.candidates ++ [candidate])

/-- Two parts that could not be joined at the candidate between them. -/
def Separate (part next : PartAssignment) : Prop :=
  next.oversize = false → Full estimate limit part next.candidates

/-- A part within the limit, or a single candidate that exceeds it. -/
structure Sized (part : PartAssignment) : Prop where
  estimated : part.estimatedBytes = estimate part.candidates
  nonempty : part.candidates ≠ []
  within : part.oversize = false → estimate part.candidates ≤ limit
  alone : part.oversize = true → ∃ candidate, part.candidates = [candidate] ∧
    limit < estimate [candidate]

/-- What holds of the parts that are closed. -/
structure Closed (parts : List PartAssignment) : Prop where
  numbered : parts.map (·.index) = List.range' 1 parts.length
  sized : ∀ part ∈ parts, Sized estimate limit part
  separate : parts.IsChain (Separate estimate limit)

/-- What holds after some candidates were packed. -/
structure Packed (consumed : List PackCandidate) (packing : Packing) : Prop where
  whole : (packing.parts.map (·.candidates)).flatten ++ packing.current = consumed
  closed : Closed estimate limit packing.parts
  full : ∀ part ∈ packing.parts.getLast?, Full estimate limit part packing.current
  current : packing.current ≠ [] →
    packing.currentEstimate = estimate packing.current ∧ estimate packing.current ≤ limit

end Loop

section Rules

variable {estimate : List PackCandidate → Nat} {limit : Nat} {consumed : List PackCandidate}
  {packing : Packing} {parts : List PartAssignment} {candidate : PackCandidate}

theorem pushPart_ok {candidates : List PackCandidate} {estimatedBytes : Nat} {oversize : Bool}
    {final : List PartAssignment}
    (push : pushPart parts candidates estimatedBytes oversize = .ok final) :
    final = parts ++ [⟨parts.length + 1, candidates, estimatedBytes, oversize⟩] := by
  obtain ⟨index, numbered, same⟩ := bind_eq_ok.mp push
  obtain ⟨count, fits, next⟩ := Option.bind_eq_some_iff.mp (okOr_eq_ok.mp numbered)
  rw [(checkedAdd_eq_some.mp next).1, (tryFrom_eq_some.mp fits).1] at same
  cases same
  rfl

/-- A part with one candidate that no part has room for. -/
theorem sized_alone (large : limit < estimate [candidate]) (index : Nat) :
    Sized estimate limit ⟨index, [candidate], estimate [candidate], true⟩ where
  estimated := rfl
  nonempty := List.cons_ne_nil _ _
  within small := nomatch small
  alone _ := ⟨candidate, rfl, large⟩

/-- The part that is open is within the limit. -/
theorem Packed.sized (packed : Packed estimate limit consumed packing)
    (nonempty : packing.current ≠ []) (index : Nat) :
    Sized estimate limit ⟨index, packing.current, packing.currentEstimate, false⟩ where
  estimated := (packed.current nonempty).1
  nonempty := nonempty
  within _ := (packed.current nonempty).2
  alone oversize := nomatch oversize

/-- Another part behind the ones there are. -/
theorem Closed.push (closed : Closed estimate limit parts) {part : PartAssignment}
    (index : part.index = parts.length + 1) (sized : Sized estimate limit part)
    (separate : ∀ last ∈ parts.getLast?, Separate estimate limit last part) :
    Closed estimate limit (parts ++ [part]) where
  numbered := by
    rw [List.map_append, closed.numbered, List.length_append, List.length_singleton,
      List.range'_concat, List.map_singleton, index, Nat.one_mul, Nat.add_comm 1]
  sized := by
    intro other member
    rcases List.mem_append.mp member with member | member
    · exact closed.sized other member
    · rw [List.mem_singleton.mp member]
      exact sized
  separate := by
    rw [List.isChain_append]
    refine ⟨closed.separate, List.isChain_singleton _, ?_⟩
    intro last isLast next isNext
    cases isNext
    exact separate last isLast

/-- Closing the part that is open. -/
theorem Packed.close (packed : Packed estimate limit consumed packing)
    (nonempty : packing.current ≠ []) :
    Closed estimate limit (packing.parts ++
      [⟨packing.parts.length + 1, packing.current, packing.currentEstimate, false⟩]) :=
  packed.closed.push rfl (packed.sized nonempty _) fun last isLast _ => packed.full last isLast

/-- A part of its own for a candidate that is too large, when no part is open. -/
theorem Closed.alone (closed : Closed estimate limit parts)
    (large : limit < estimate [candidate]) :
    Packed estimate limit ((parts.map (·.candidates)).flatten ++ [candidate])
      ⟨parts ++ [⟨parts.length + 1, [candidate], estimate [candidate], true⟩], [], 0⟩ where
  whole := by simp
  closed := closed.push rfl (sized_alone large _) fun _ _ small => nomatch small
  full := by
    intro part isLast
    rw [List.getLast?_concat] at isLast
    cases isLast
    exact fun small => nomatch small
  current nonempty := absurd rfl nonempty

/-- Every candidate goes into one part, whichever of the four ways it takes. -/
theorem packCandidate_packed (packed : Packed estimate limit consumed packing) {next : Packing}
    (step : packCandidate (fun part => .ok (estimate part)) limit packing candidate = .ok next) :
    Packed estimate limit (consumed ++ [candidate]) next := by
  obtain ⟨proposedEstimate, asked, step⟩ := bind_eq_ok.mp step
  cases asked
  by_cases opened : packing.current ≠ [] ∧ limit < estimate (packing.current ++ [candidate])
  · rw [if_pos opened] at step
    obtain ⟨parts, push, step⟩ := bind_eq_ok.mp step
    obtain ⟨currentEstimate, asked, step⟩ := bind_eq_ok.mp step
    cases asked
    rw [pushPart_ok push] at step
    have closed := packed.close opened.1
    have whole : (List.map PartAssignment.candidates (packing.parts ++
        [⟨packing.parts.length + 1, packing.current, packing.currentEstimate, false⟩])).flatten
          = consumed := by
      simpa using packed.whole
    by_cases large : limit < estimate [candidate]
    · rw [if_pos large] at step
      obtain ⟨parts, push, step⟩ := bind_eq_ok.mp step
      cases step
      rw [pushPart_ok push, ← whole]
      exact closed.alone large
    · rw [if_neg large] at step
      cases step
      refine ⟨by rw [whole], closed, ?_, fun _ => ⟨rfl, Nat.le_of_not_lt large⟩⟩
      intro part isLast
      rw [List.getLast?_concat] at isLast
      cases isLast
      exact fun _ => ⟨candidate, rfl, opened.2⟩
  · rw [if_neg opened] at step
    by_cases large : limit < estimate (packing.current ++ [candidate])
    · have empty : packing.current = [] := by
        by_contra nonempty
        exact opened ⟨nonempty, large⟩
      rw [if_pos large] at step
      obtain ⟨parts, push, step⟩ := bind_eq_ok.mp step
      cases step
      rw [pushPart_ok push, ← packed.whole, empty]
      rw [empty] at large
      simpa using packed.closed.alone large
    · rw [if_neg large] at step
      cases step
      refine ⟨?_, packed.closed, ?_, fun _ => ⟨rfl, Nat.le_of_not_lt large⟩⟩
      · rw [← packed.whole, List.append_assoc]
      · intro part isLast small
        obtain ⟨first, isFirst, tooLarge⟩ := packed.full part isLast small
        exact ⟨first, by simp_all, tooLarge⟩

/-- The whole loop. -/
theorem foldlM_packed (packed : Packed estimate limit consumed packing)
    {candidates : List PackCandidate} {final : Packing}
    (run : candidates.foldlM (packCandidate (fun part => .ok (estimate part)) limit) packing
      = .ok final) : Packed estimate limit (consumed ++ candidates) final := by
  induction candidates generalizing consumed packing with
  | nil =>
      cases run
      rwa [List.append_nil]
  | cons candidate rest ih =>
      rw [List.foldlM_cons] at run
      obtain ⟨next, step, run⟩ := bind_eq_ok.mp run
      have later := ih (packCandidate_packed packed step) run
      rwa [List.append_assoc] at later

theorem packed_nil : Packed estimate limit [] ⟨[], [], 0⟩ where
  whole := rfl
  closed := ⟨rfl, (fun _ member => nomatch member), List.isChain_nil⟩
  full _ isLast := nomatch isLast
  current nonempty := absurd rfl nonempty

/-- Nothing is left open at the end. -/
theorem closePacking_closed (packed : Packed estimate limit consumed packing)
    (close : closePacking packing = .ok parts) :
    (parts.map (·.candidates)).flatten = consumed ∧ Closed estimate limit parts := by
  unfold closePacking at close
  by_cases nonempty : packing.current ≠ []
  · rw [if_pos nonempty] at close
    rw [pushPart_ok close]
    exact ⟨by simpa using packed.whole, packed.close nonempty⟩
  · rw [if_neg nonempty] at close
    cases close
    have whole := packed.whole
    rw [not_not.mp nonempty, List.append_nil] at whole
    exact ⟨whole, packed.closed⟩

/-- What the order of the candidates does not change is not seen by the result. -/
theorem packCandidates_perm {estimator : List PackCandidate → Except PackingError Nat}
    {candidates others : List PackCandidate} (distinct : (candidates.map (·.key)).Nodup)
    (same : others.Perm candidates) (maximumBytes safetyReserveBytes : Nat) :
    packCandidates estimator others maximumBytes safetyReserveBytes =
      packCandidates estimator candidates maximumBytes safetyReserveBytes := by
  have paths : (∃ candidate ∈ others, [] ∈ candidate.folderPath) ↔
      ∃ candidate ∈ candidates, [] ∈ candidate.folderPath := by simp only [same.mem_iff]
  simp only [packCandidates, sortCandidates_eq distinct same, paths]

end Rules

section Outcome

/-- The parts hold the candidates in their canonical order, one part after the other; a part is
within what the reserve leaves of the maximum or a single candidate beyond it, and two parts
that are not oversize could not have been joined where they meet. -/
theorem packCandidates_parts (estimate : List PackCandidate → Nat)
    {candidates : List PackCandidate} (distinct : (candidates.map (·.key)).Nodup)
    {maximumBytes safetyReserveBytes : Nat} {parts : List PartAssignment}
    (packed : packCandidates (fun part => .ok (estimate part)) candidates maximumBytes
      safetyReserveBytes = .ok parts) :
    (parts.map (·.candidates)).flatten = sortCandidates candidates
      ∧ (sortCandidates candidates).Perm candidates
      ∧ (sortCandidates candidates).Pairwise Precedes
      ∧ parts.map (·.index) = List.range' 1 parts.length
      ∧ (∀ others : List PackCandidate, others.Perm candidates →
          packCandidates (fun part => .ok (estimate part)) others maximumBytes
            safetyReserveBytes = .ok parts)
      ∧ (∀ part ∈ parts, part.estimatedBytes = estimate part.candidates ∧ part.candidates ≠ [])
      ∧ (∀ part ∈ parts, part.oversize = false →
          estimate part.candidates + safetyReserveBytes ≤ maximumBytes)
      ∧ (∀ part ∈ parts, part.oversize = true → ∃ candidate, part.candidates = [candidate]
          ∧ maximumBytes < estimate [candidate] + safetyReserveBytes)
      ∧ parts.IsChain fun part next => part.oversize = false → next.oversize = false →
          ∃ candidate ∈ next.candidates.head?,
            maximumBytes < estimate (part.candidates ++ [candidate]) + safetyReserveBytes := by
  have order : ∀ others : List PackCandidate, others.Perm candidates →
      packCandidates (fun part => .ok (estimate part)) others maximumBytes
        safetyReserveBytes = .ok parts :=
    fun others same => (packCandidates_perm distinct same _ _).trans packed
  obtain ⟨_, _, packed⟩ := bind_eq_ok.mp packed
  obtain ⟨limit, bounded, packed⟩ := bind_eq_ok.mp packed
  obtain ⟨rfl, reserve⟩ := checkedSub_eq_some.mp (okOr_eq_ok.mp bounded)
  obtain ⟨_, _, packed⟩ := bind_eq_ok.mp packed
  dsimp only at packed
  cases duplicate : duplicateKey [] (sortCandidates candidates) with
  | some key =>
      rw [duplicate] at packed
      cases packed
  | none =>
      rw [duplicate] at packed
      obtain ⟨packing, run, close⟩ := bind_eq_ok.mp packed
      obtain ⟨whole, closed⟩ := closePacking_closed (foldlM_packed packed_nil run) close
      refine ⟨whole, sortCandidates_perm, sortCandidates_sorted, closed.numbered, order,
        fun part member => ⟨(closed.sized part member).estimated,
          (closed.sized part member).nonempty⟩, ?_, ?_, ?_⟩
      · intro part member small
        have within := (closed.sized part member).within small
        omega
      · intro part member oversize
        obtain ⟨candidate, alone, large⟩ := (closed.sized part member).alone oversize
        exact ⟨candidate, alone, by omega⟩
      · apply closed.separate.imp
        intro part next separate small nextSmall
        obtain ⟨candidate, first, large⟩ := separate nextSmall small
        exact ⟨candidate, first, by omega⟩

/-- Three notes: the first in the order is small, the second too large for any part, and the
third is given first. -/
def threeNotes : List PackCandidate :=
  [⟨⟨.normal, some 9, none, 0⟩, .ipmSubtree, ["Sent".toList], 10⟩,
   ⟨⟨.normal, some 2, none, 0⟩, .ipmSubtree, ["Inbox".toList], 20⟩,
   ⟨⟨.orphan, some 5, none, 0⟩, .ipmSubtree, ["Inbox".toList], 500⟩]

theorem packCandidates_parts_threeNotes :
    ∃ parts : List PartAssignment,
      (parts.map (·.candidates)).flatten = sortCandidates threeNotes := by
  have distinct : (threeNotes.map (·.key)).Nodup := by decide
  have succeeds : (packCandidates (fun part => .ok (100 + (part.map (·.payloadBytes)).sum))
      threeNotes 200 10).toBool = true := by decide +kernel
  obtain ⟨parts, packed⟩ := exists_ok succeeds
  exact ⟨parts, (packCandidates_parts _ distinct packed).1⟩

end Outcome

end PstForge.Split
