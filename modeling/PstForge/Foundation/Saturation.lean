import Mathlib.Data.List.Basic
import Mathlib.Order.Monotone.Basic

/-! # Selections that grow until nothing is added

Rows are selected from a list because of the labels of rows that were selected before. A
selection that only grows with the labels is complete after as many rounds as there are rows.
-/

namespace PstForge.Foundation

variable {α β : Type} {source : List α} {label : α → β} {chosen : List β → α → Bool}

/-- The labels of the rows that some labels select. -/
def selection (source : List α) (label : α → β) (chosen : List β → α → Bool) (labels : List β) :
    List β :=
  (source.filter (chosen labels)).map label

theorem mem_selection {labels : List β} {target : β} :
    target ∈ selection source label chosen labels ↔
      ∃ row ∈ source, chosen labels row = true ∧ label row = target := by
  unfold selection
  rw [List.mem_map]
  constructor
  · rintro ⟨row, member, same⟩
    obtain ⟨there, selected⟩ := List.mem_filter.mp member
    exact ⟨row, there, selected, same⟩
  · rintro ⟨row, there, selected, same⟩
    exact ⟨row, List.mem_filter.mpr ⟨there, selected⟩, same⟩

/-- What is selected has what selecting passes on. -/
theorem iterate_selection_induction {holds : β → Prop} (rounds : Nat)
    (step : ∀ labels, (∀ known ∈ labels, holds known) → ∀ row ∈ source,
      chosen labels row = true → holds (label row)) :
    ∀ target ∈ (selection source label chosen)^[rounds] [], holds target := by
  induction rounds with
  | zero =>
      intro target inside
      cases inside
  | succ rounds ih =>
      intro target inside
      rw [Function.iterate_succ_apply'] at inside
      obtain ⟨row, there, selected, rfl⟩ := mem_selection.mp inside
      exact step _ ih row there selected

section Growing

variable (grows : ∀ {few many : List β}, few ⊆ many → ∀ row, chosen few row = true →
  chosen many row = true)

include grows

theorem selection_sublist {few many : List β} (subset : few ⊆ many) :
    (selection source label chosen few).Sublist (selection source label chosen many) :=
  (List.monotone_filter_right source (grows subset)).map label

theorem iterate_selection_sublist (rounds : Nat) :
    ((selection source label chosen)^[rounds] []).Sublist
      ((selection source label chosen)^[rounds + 1] []) := by
  induction rounds with
  | zero => exact List.nil_sublist _
  | succ rounds ih =>
      rw [Function.iterate_succ_apply', Function.iterate_succ_apply' _ (rounds + 1)]
      exact selection_sublist grows ih.subset

/-- A selection that grows with its labels ends within as many rounds as there are rows. -/
theorem iterate_selection_fixed {rounds : Nat} (enough : source.length ≤ rounds) :
    selection source label chosen ((selection source label chosen)^[rounds] []) =
      (selection source label chosen)^[rounds] [] := by
  let reached (rounds : Nat) : List β := (selection source label chosen)^[rounds] []
  have grown : ∀ rounds, (reached rounds).Sublist (reached (rounds + 1)) :=
    iterate_selection_sublist grows
  have monotone : Monotone fun rounds => (reached rounds).length :=
    monotone_nat_of_le_succ fun rounds => (grown rounds).length_le
  have bounded : ∀ rounds, (reached rounds).length ≤ source.length := by
    intro rounds
    cases rounds with
    | zero => exact Nat.zero_le _
    | succ rounds =>
        change ((selection source label chosen)^[rounds + 1] []).length ≤ _
        rw [Function.iterate_succ_apply', selection, List.length_map]
        exact List.length_filter_le _ _
  -- Two rounds that select equally many rows select the same ones, and so do all later ones.
  have stays : ∀ rounds, (reached rounds).length = (reached (rounds + 1)).length →
      (reached (rounds + 1)).length = (reached (rounds + 2)).length := by
    intro rounds same
    have fixed : reached rounds = reached (rounds + 1) := (grown rounds).eq_of_length same
    have next : reached (rounds + 2) = reached (rounds + 1) := by
      change (selection source label chosen)^[rounds + 1 + 1] [] = _
      rw [Function.iterate_succ_apply']
      change selection source label chosen (reached (rounds + 1)) = _
      rw [← fixed]
      exact (Function.iterate_succ_apply' _ _ _).symm.trans fixed.symm
    rw [next]
  have here := Nat.stabilises_of_monotone monotone bounded stays enough
  have further := Nat.stabilises_of_monotone monotone bounded stays (Nat.le_succ_of_le enough)
  have fixed := (grown rounds).eq_of_length (here.trans further.symm)
  exact (Function.iterate_succ_apply' _ _ _).symm.trans fixed.symm

end Growing

end PstForge.Foundation
