import Mathlib.Tactic

/-! # Search trees of pages

A search tree is kept in pages: a page holds entries in the order of their keys, or
children, each under the least key that it holds. A search follows the last child whose key is not
greater than the one that is looked for. Trees are built level by level, by grouping the
pages of a level under those of the next one.
-/

namespace PstForge.Foundation

variable {ρ α : Type}

/-- A page of a search tree over references. -/
inductive TreePage (ρ α : Type) where
  | leaf (entries : List (Nat × α))
  | branch (children : List (Nat × ρ))

/-- The last child whose key is not greater than the given one. -/
def childFor (children : List (Nat × ρ)) (key : Nat) : Option ρ :=
  (children.takeWhile fun child => child.1 ≤ key).getLast?.map (·.2)

/-- The entry with a key, from a page and at most so many levels below it. -/
def searchTree (pages : ρ → Option (TreePage ρ α)) (key : Nat) :
    (levels : Nat) → ρ → Option (Nat × α)
  | 0, ref =>
      match pages ref with
      | some (.leaf entries) => entries.find? fun entry => entry.1 = key
      | _ => none
  | levels + 1, ref =>
      match pages ref with
      | some (.leaf entries) => entries.find? fun entry => entry.1 = key
      | some (.branch children) => (childFor children key).bind (searchTree pages key levels)
      | none => none

/-- A page holds entries: it is a leaf with them, or its children hold them one after another,
each under its least key. -/
def HoldsEntries (pages : ρ → Option (TreePage ρ α)) : (level : Nat) → ρ → List (Nat × α) → Prop
  | 0, ref, entries => pages ref = some (.leaf entries) ∧ entries ≠ []
  | level + 1, ref, entries => ∃ children parts, pages ref = some (.branch children) ∧
      children ≠ [] ∧ entries = parts.flatten ∧
      List.Forall₂ (fun child part => HoldsEntries pages level child.2 part ∧
        part.head?.map (·.1) = some child.1) children parts

/-- The pages of a level hold entries one after another, each under its least key. -/
def RowHolds (pages : ρ → Option (TreePage ρ α)) (level : Nat) (row : List (Nat × ρ))
    (entries : List (Nat × α)) : Prop :=
  ∃ parts, entries = parts.flatten ∧
    List.Forall₂ (fun child part => HoldsEntries pages level child.2 part ∧
      part.head?.map (·.1) = some child.1) row parts

/-- Entries in the strict order of their keys. -/
def KeysIncrease (entries : List (Nat × α)) : Prop :=
  entries.Pairwise fun first second => first.1 < second.1

variable {pages : ρ → Option (TreePage ρ α)} {level : Nat} {ref : ρ} {entries : List (Nat × α)}
  {key : Nat}

section Rows

theorem forall₂_map_eq {γ δ ε : Type} {relation : γ → δ → Prop} {f : γ → ε} {g : δ → ε}
    {first : List γ} {second : List δ} (related : List.Forall₂ relation first second)
    (same : ∀ a b, relation a b → g b = f a) : second.map g = first.map f := by
  induction related with
  | nil => rfl
  | cons here _ ih => rw [List.map_cons, List.map_cons, same _ _ here, ih]

theorem forall₂_mem {γ δ : Type} {relation : γ → δ → Prop} {first : List γ} {second : List δ}
    (related : List.Forall₂ relation first second) {b : δ} (member : b ∈ second) :
    ∃ a ∈ first, relation a b := by
  induction related with
  | nil => cases member
  | cons here _ ih =>
      rcases List.mem_cons.mp member with rfl | later
      · exact ⟨_, List.mem_cons_self, here⟩
      · obtain ⟨a, there, is⟩ := ih later
        exact ⟨a, List.mem_cons_of_mem _ there, is⟩

theorem forall₂_and {γ δ : Type} {relation : γ → δ → Prop} {left : γ → Prop} {right : δ → Prop}
    {first : List γ} {second : List δ} (related : List.Forall₂ relation first second)
    (lefts : ∀ a ∈ first, left a) (rights : ∀ b ∈ second, right b) :
    List.Forall₂ (fun a b => relation a b ∧ left a ∧ right b) first second := by
  induction related with
  | nil => exact .nil
  | cons here _ ih =>
      obtain ⟨leftHead, leftTail⟩ := List.forall_mem_cons.mp lefts
      obtain ⟨rightHead, rightTail⟩ := List.forall_mem_cons.mp rights
      exact .cons ⟨here, leftHead, rightHead⟩ (ih leftTail rightTail)

theorem forall₂_mem_left {γ δ : Type} {relation : γ → δ → Prop} {first : List γ} {second : List δ}
    (related : List.Forall₂ relation first second) {a : γ} (member : a ∈ first) :
    ∃ b ∈ second, relation a b := by
  obtain ⟨b, there, is⟩ := forall₂_mem related.flip member
  exact ⟨b, there, is⟩

end Rows

section Search

theorem childFor_cons (child : Nat × ρ) (children : List (Nat × ρ)) (key : Nat) :
    childFor (child :: children) key =
      if child.1 ≤ key then (childFor children key).or (some child.2) else none := by
  unfold childFor
  rw [List.takeWhile_cons]
  by_cases small : child.1 ≤ key
  · rw [if_pos small, if_pos (decide_eq_true small)]
    cases children.takeWhile fun child => decide (child.1 ≤ key) with
    | nil => rfl
    | cons next rest =>
        rw [List.getLast?_cons_cons, List.getLast?_eq_some_getLast (List.cons_ne_nil next rest)]
        rfl
  · rw [if_neg small, if_neg (by rwa [decide_eq_true_eq])]
    rfl

/-- The chosen child is one of the children. -/
theorem childFor_mem {children : List (Nat × ρ)} {ref : ρ}
    (chosen : childFor children key = some ref) : ∃ child ∈ children, child.2 = ref := by
  obtain ⟨child, last, same⟩ := Option.map_eq_some_iff.mp chosen
  exact ⟨child, (List.takeWhile_prefix _).subset (List.mem_of_getLast? last), same⟩

theorem find?_key_none (different : ∀ entry ∈ entries, entry.1 ≠ key) :
    (entries.find? fun entry => entry.1 = key) = none := by
  rw [List.find?_eq_none]
  intro entry member
  rw [decide_eq_true_eq]
  exact different entry member

theorem head_le (increase : KeysIncrease entries) {least : Nat}
    (first : entries.head?.map (·.1) = some least) : ∀ entry ∈ entries, least ≤ entry.1 := by
  cases entries with
  | nil => cases first
  | cons head rest =>
      cases first
      intro entry member
      rcases List.mem_cons.mp member with rfl | later
      · exact Nat.le_refl _
      · exact Nat.le_of_lt ((List.pairwise_cons.mp increase).1 entry later)

theorem head?_append_key {rest : List (Nat × α)} {least : Nat}
    (first : entries.head?.map (·.1) = some least) :
    (entries ++ rest).head?.map (·.1) = some least := by
  cases entries with
  | nil => cases first
  | cons head tail => exact first

/-- Following the right child finds what the children hold. -/
theorem childFor_find {children : List (Nat × ρ)} {parts : List (List (Nat × α))}
    {search : ρ → Option (Nat × α)} (increase : KeysIncrease parts.flatten)
    (rows : List.Forall₂ (fun child part =>
      search child.2 = (part.find? fun entry => entry.1 = key) ∧
        part.head?.map (·.1) = some child.1) children parts) :
    (childFor children key).bind search = parts.flatten.find? fun entry => entry.1 = key := by
  induction rows with
  | nil => rfl
  | @cons child part children parts here rows ih =>
      obtain ⟨searched, least⟩ := here
      rw [List.flatten_cons] at increase ⊢
      obtain ⟨inside, behind, below⟩ := List.pairwise_append.mp increase
      rw [childFor_cons]
      by_cases small : child.1 ≤ key
      · rw [if_pos small, List.find?_append, ← searched]
        cases next : childFor children key with
        | none =>
            have later : (parts.flatten.find? fun entry => entry.1 = key) = none := by
              rw [← ih behind, next]
              rfl
            rw [later, Option.none_or, Option.or_none]
            rfl
        | some follower =>
            have first : part.find? (fun entry => entry.1 = key) = none := by
              refine find?_key_none fun entry member => ?_
              cases rows with
              | nil => cases next
              | @cons sibling other siblings others beside _ =>
                  rw [childFor_cons] at next
                  split at next
                  case isFalse => cases next
                  case isTrue reached =>
                    obtain ⟨head, is⟩ := Option.map_eq_some_iff.mp beside.2
                    have there : head ∈ (other :: others).flatten :=
                      List.mem_append_left _ (List.mem_of_head? is.1)
                    have less := below entry member head there
                    rw [is.2] at less
                    exact Nat.ne_of_lt (Nat.lt_of_lt_of_le less reached)
            have found := ih behind
            rw [next] at found
            rw [searched, first, Option.none_or, Option.some_or, ← found]
      · rw [if_neg small]
        refine (find?_key_none fun entry member => ?_).symm
        have lower := head_le increase (head?_append_key least) entry member
        omega

theorem rows_search {children : List (Nat × ρ)} {parts : List (List (Nat × α))}
    {holds : ρ → List (Nat × α) → Prop} {search : ρ → Option (Nat × α)}
    (finds : ∀ ref part, holds ref part → KeysIncrease part →
      search ref = part.find? fun entry => entry.1 = key)
    (increase : KeysIncrease parts.flatten)
    (rows : List.Forall₂ (fun child part => holds child.2 part ∧
      part.head?.map (·.1) = some child.1) children parts) :
    List.Forall₂ (fun child part => search child.2 = (part.find? fun entry => entry.1 = key) ∧
      part.head?.map (·.1) = some child.1) children parts := by
  induction rows with
  | nil => exact .nil
  | cons here _ ih =>
      rw [List.flatten_cons] at increase
      obtain ⟨inside, behind, -⟩ := List.pairwise_append.mp increase
      exact .cons ⟨finds _ _ here.1 inside, here.2⟩ (ih behind)

/-- A search finds what the tree holds. -/
theorem searchTree_holds {levels : Nat} (enough : level ≤ levels)
    (holds : HoldsEntries pages level ref entries) (increase : KeysIncrease entries) :
    searchTree pages key levels ref = entries.find? fun entry => entry.1 = key := by
  induction level generalizing levels ref entries with
  | zero =>
      cases levels with
      | zero => simp only [searchTree, holds.1]
      | succ levels => simp only [searchTree, holds.1]
  | succ level ih =>
      obtain ⟨children, parts, found, -, rfl, rows⟩ := holds
      cases levels with
      | zero => exact absurd enough (Nat.not_succ_le_zero level)
      | succ levels =>
          simp only [searchTree, found]
          refine childFor_find increase (rows_search ?_ increase rows)
          exact fun ref part holds increase => ih (Nat.le_of_succ_le_succ enough) holds increase

end Search

section Build

theorem least_of_row {holds : ρ → List (Nat × α) → Prop} {row : List (Nat × ρ)}
    {parts : List (List (Nat × α))} {least : Nat}
    (rows : List.Forall₂ (fun child part => holds child.2 part ∧
      part.head?.map (·.1) = some child.1) row parts)
    (first : row.head?.map (·.1) = some least) : parts.flatten.head?.map (·.1) = some least := by
  cases rows with
  | nil => cases first
  | cons here _ =>
      cases first
      rw [List.flatten_cons]
      exact head?_append_key here.2

/-- Grouping a row under the pages of the next level. -/
theorem RowHolds.parents {row : List (Nat × ρ)} {groups : List (List (Nat × ρ))}
    {parents : List (Nat × ρ)} (holds : RowHolds pages level row entries)
    (whole : groups.flatten = row)
    (branches : List.Forall₂ (fun group parent => pages parent.2 = some (.branch group) ∧
      group.head?.map (·.1) = some parent.1) groups parents) :
    RowHolds pages (level + 1) parents entries := by
  obtain ⟨parts, rfl, rows⟩ := holds
  subst whole
  induction branches generalizing parts with
  | nil =>
      cases rows
      exact ⟨[], rfl, .nil⟩
  | @cons group parent groups parents here branches ih =>
      rw [List.flatten_cons] at rows
      have mine := List.forall₂_take group.length rows
      have others := List.forall₂_drop group.length rows
      rw [List.take_left] at mine
      rw [List.drop_left] at others
      obtain ⟨rest, same, later⟩ := ih _ others
      refine ⟨(parts.take group.length).flatten :: rest, ?_, .cons ⟨⟨group, _, here.1, ?_, rfl,
        mine⟩,
        least_of_row mine here.2⟩ later⟩
      · rw [List.flatten_cons, ← same, ← List.flatten_append, List.take_append_drop]
      · rintro rfl
        cases here.2

/-- A row of leaves holds their entries. -/
theorem RowHolds.leaves {row : List (Nat × ρ)} {groups : List (List (Nat × α))}
    (leaves : List.Forall₂ (fun child group => pages child.2 = some (.leaf group) ∧
      group.head?.map (·.1) = some child.1) row groups) :
    RowHolds pages 0 row groups.flatten := by
  refine ⟨groups, rfl, leaves.imp fun child group here => ⟨⟨here.1, ?_⟩, here.2⟩⟩
  rintro rfl
  cases here.2

/-- A row of one page is a tree. -/
theorem RowHolds.single {root : Nat × ρ} (holds : RowHolds pages level [root] entries) :
    HoldsEntries pages level root.2 entries := by
  obtain ⟨parts, rfl, rows⟩ := holds
  obtain ⟨part, others, here, none, rfl⟩ := List.forall₂_cons_left_iff.mp rows
  cases none
  rw [List.flatten_singleton]
  exact here.1

end Build

end PstForge.Foundation
