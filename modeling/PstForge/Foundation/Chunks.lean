import PstForge.Foundation.Bytes
import PstForge.Foundation.Machine

/-! # Lists cut into pieces

How the pieces of a list follow from those of its rest, how many there are, and which lists are
cut into given pieces.
-/

namespace PstForge.Foundation

variable {α β : Type} {size : Nat}

private theorem chunks_go_fuel (positive : 0 < size) : ∀ {fuel more : Nat} {source : List α},
    source.length ≤ fuel → source.length ≤ more →
      chunks.go size fuel source = chunks.go size more source := by
  intro fuel
  induction fuel with
  | zero =>
      intro more source few _
      obtain rfl := List.length_eq_zero_iff.mp (Nat.le_zero.mp few)
      cases more <;> rfl
  | succ fuel ih =>
      intro more source few many
      cases source with
      | nil => cases more <;> rfl
      | cons head tail =>
          cases more with
          | zero => exact absurd many (Nat.not_succ_le_zero _)
          | succ more =>
              have shorter : ((head :: tail).drop size).length ≤ tail.length := by
                rw [List.length_drop, List.length_cons]
                omega
              rw [List.length_cons] at few many
              rw [chunks.go.eq_3 _ _ _ (List.cons_ne_nil _ _),
                chunks.go.eq_3 _ _ _ (List.cons_ne_nil _ _),
                ih (by omega) (by omega : _ ≤ more)]

/-- The first piece, and the pieces of the rest. -/
theorem chunks_cons (positive : 0 < size) {source : List α} (nonempty : source ≠ []) :
    chunks size source = source.take size :: chunks size (source.drop size) := by
  cases source with
  | nil => exact absurd rfl nonempty
  | cons head tail =>
      have shorter : ((head :: tail).drop size).length ≤ tail.length := by
        rw [List.length_drop, List.length_cons]
        omega
      rw [chunks, List.length_cons, chunks.go.eq_3 _ _ _ (List.cons_ne_nil _ _), chunks]
      exact congrArg _ (chunks_go_fuel positive shorter (Nat.le_refl _))

theorem chunks_ne_nil (positive : 0 < size) {source : List α} (nonempty : source ≠ []) :
    chunks size source ≠ [] := by
  rw [chunks_cons positive nonempty]
  exact List.cons_ne_nil _ _

/-- A list that fits a piece is one piece. -/
theorem chunks_single {source : List α} (nonempty : source ≠ []) (fits : source.length ≤ size) :
    chunks size source = [source] := by
  have positive : 0 < size := Nat.lt_of_lt_of_le (List.length_pos_of_ne_nil nonempty) fits
  rw [chunks_cons positive nonempty, List.take_of_length_le fits, List.drop_of_length_le fits,
    chunks_nil]

/-- A full piece in front is cut off as it is. -/
theorem chunks_append (positive : 0 < size) {piece : List α} (full : piece.length = size)
    (source : List α) : chunks size (piece ++ source) = piece :: chunks size source := by
  have nonempty : piece ++ source ≠ [] := by
    intro empty
    rw [(List.append_eq_nil_iff.mp empty).1, List.length_nil] at full
    omega
  rw [chunks_cons positive nonempty, List.take_left' full, List.drop_left' full]

/-- Full pieces and a last one that is not too long are what their list is cut into. -/
theorem chunks_flatten_append (positive : 0 < size) {pieces : List (List α)} {last : List α}
    (full : ∀ piece ∈ pieces, piece.length = size) (some : last ≠ []) (fits : last.length ≤ size) :
    chunks size (pieces.flatten ++ last) = pieces ++ [last] := by
  induction pieces with
  | nil => exact chunks_single some fits
  | cons piece pieces ih =>
      rw [List.flatten_cons, List.append_assoc, chunks_append positive
        (full piece List.mem_cons_self),
        ih fun other member => full other (List.mem_cons_of_mem _ member), List.cons_append]

/-- Full pieces are what their list is cut into. -/
theorem chunks_flatten_full (positive : 0 < size) {pieces : List (List α)}
    (full : ∀ piece ∈ pieces, piece.length = size) : chunks size pieces.flatten = pieces := by
  induction pieces with
  | nil => rfl
  | cons piece pieces ih =>
      rw [List.flatten_cons, chunks_append positive (full piece List.mem_cons_self),
        ih fun other member => full other (List.mem_cons_of_mem _ member)]

/-- A list of full pieces cut into larger pieces is cut between them. -/
theorem chunks_flatten_groups (positive : 0 < size) {count : Nat} (some : 0 < count)
    {pieces : List (List α)} (full : ∀ piece ∈ pieces, piece.length = size) :
    chunks (count * size) pieces.flatten = (chunks count pieces).map List.flatten := by
  have length : ∀ {several : List (List α)}, (∀ piece ∈ several, piece.length = size) →
      several.flatten.length = several.length * size := by
    intro several each
    rw [List.length_flatten, List.map_congr_left each, List.map_const', List.sum_replicate,
      smul_eq_mul]
  generalize bound : pieces.length = total
  induction total using Nat.strong_induction_on generalizing pieces with
  | _ total ih =>
      cases pieces with
      | nil => rfl
      | cons piece pieces =>
          have nonempty : (piece :: pieces).flatten ≠ [] := by
            rw [← List.length_pos_iff, length full, List.length_cons]
            exact Nat.mul_pos (Nat.succ_pos _) positive
          have cut : (piece :: pieces).flatten =
              ((piece :: pieces).take count).flatten ++ ((piece :: pieces).drop count).flatten := by
            rw [← List.flatten_append, List.take_append_drop]
          have others : ∀ other ∈ (piece :: pieces).drop count, other.length = size :=
            fun other member => full other (List.mem_of_mem_drop member)
          have rest := ih _ (by rw [← bound, List.length_drop, List.length_cons]; omega) others rfl
          rw [chunks_cons some (List.cons_ne_nil _ _), List.map_cons, ← rest]
          by_cases many : count ≤ (piece :: pieces).length
          · have whole : ((piece :: pieces).take count).flatten.length = count * size := by
              rw [length fun other member => full other (List.mem_of_mem_take member),
                List.length_take, Nat.min_eq_left many]
            rw [cut, chunks_append (Nat.mul_pos some positive) whole]
          · have few : (piece :: pieces).length ≤ count := Nat.le_of_not_le many
            rw [List.drop_of_length_le few, List.take_of_length_le few, List.flatten_nil,
              chunks_nil]
            refine chunks_single nonempty ?_
            rw [length full]
            exact Nat.mul_le_mul_right size few

/-- How many pieces a list is cut into. -/
theorem length_chunks (positive : 0 < size) (source : List α) :
    (chunks size source).length = divCeil source.length size := by
  generalize length : source.length = count
  induction count using Nat.strong_induction_on generalizing source with
  | _ count ih =>
      cases source with
      | nil =>
          rw [List.length_nil] at length
          rw [← length, chunks_nil, List.length_nil, divCeil, Nat.div_eq_of_lt (by omega)]
      | cons head tail =>
          rw [List.length_cons] at length
          have rest := ih (count - size) (by omega) ((head :: tail).drop size)
            (by rw [List.length_drop, List.length_cons, length])
          rw [chunks_cons positive (List.cons_ne_nil _ _), List.length_cons, rest, divCeil, divCeil]
          by_cases more : size < count
          · have same : count + size - 1 = count - size + size - 1 + size := by omega
            rw [same, Nat.add_div_right _ positive]
          · have same : count - size + size - 1 = size - 1 := by omega
            have one : (count + size - 1) / size = 1 :=
              Nat.div_eq_of_lt_le (by omega) (by omega)
            rw [same, Nat.div_eq_of_lt (by omega : size - 1 < size), one]

/-- All pieces but the last are full. -/
theorem chunks_full (positive : 0 < size) : ∀ {count : Nat} {source : List α},
    source.length ≤ count → ∀ piece ∈ (chunks size source).dropLast, piece.length = size := by
  intro count
  induction count with
  | zero =>
      intro source few
      rw [List.length_eq_zero_iff.mp (Nat.le_zero.mp few), chunks_nil]
      exact fun _ member => absurd member List.not_mem_nil
  | succ count ih =>
      intro source few piece member
      by_cases empty : source = []
      · rw [empty, chunks_nil] at member
        exact absurd member List.not_mem_nil
      · rw [chunks_cons positive empty] at member
        by_cases more : source.drop size = []
        · rw [more, chunks_nil, List.dropLast_singleton] at member
          exact absurd member List.not_mem_nil
        · have long := List.length_pos_of_ne_nil more
          rw [List.length_drop] at long
          rw [List.dropLast_cons_of_ne_nil (chunks_ne_nil positive more)] at member
          rcases List.mem_cons.mp member with rfl | later
          · rw [List.length_take]
            omega
          · exact ih (by rw [List.length_drop]; omega) piece later

/-- All pieces are full when the size divides the length. -/
theorem chunks_even (positive : 0 < size) {count : Nat} :
    ∀ {source : List α}, source.length = count * size →
      ∀ piece ∈ chunks size source, piece.length = size := by
  induction count with
  | zero =>
      intro source empty
      rw [List.length_eq_zero_iff.mp (empty.trans (Nat.zero_mul size)), chunks_nil]
      exact fun _ member => absurd member List.not_mem_nil
  | succ count ih =>
      intro source length piece member
      rw [Nat.succ_mul] at length
      have nonempty : source ≠ [] := by
        rw [← List.length_pos_iff]
        omega
      rw [chunks_cons positive nonempty] at member
      rcases List.mem_cons.mp member with rfl | later
      · rw [List.length_take]
        omega
      · exact ih (by rw [List.length_drop]; omega) piece later

/-- Lists that agree entry by entry agree piece by piece. -/
theorem forall₂_chunks {relation : α → β → Prop} (positive : 0 < size) {source : List α}
    {target : List β} (related : List.Forall₂ relation source target) :
    List.Forall₂ (List.Forall₂ relation) (chunks size source) (chunks size target) := by
  generalize bound : source.length = count
  induction count using Nat.strong_induction_on generalizing source target with
  | _ count ih =>
      cases related with
      | nil => exact .nil
      | cons head tail =>
          have whole := List.Forall₂.cons head tail
          rw [List.length_cons] at bound
          rw [chunks_cons positive (List.cons_ne_nil _ _),
            chunks_cons positive (List.cons_ne_nil _ _)]
          refine .cons (List.forall₂_take size whole) ?_
          refine ih _ ?_ (List.forall₂_drop size whole) rfl
          rw [List.length_drop, List.length_cons]
          omega

end PstForge.Foundation
