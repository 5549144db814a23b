import Mathlib.Tactic

/-! # Fixed-width unsigned arithmetic on natural numbers

Machine words are natural numbers here, and every operation of a fixed width
says at which width it works. A checked operation answers `none` exactly where
the machine operation overflows, a saturating one stops at the largest word, and
a wrapping one reduces modulo the width. Computations that may fail take their
operand through `Except` and name the error of an overflow at the place where it
is raised.
-/

namespace PstForge.Foundation

/-- The number of words of `width` bits. -/
def wordCount (width : Nat) : Nat := 2 ^ width

/-- Addition at a fixed width, refusing to overflow. -/
def checkedAdd (width a b : Nat) : Option Nat :=
  if a + b < wordCount width then some (a + b) else none

/-- Subtraction of unsigned words, refusing to go below zero. -/
def checkedSub (a b : Nat) : Option Nat :=
  if b ≤ a then some (a - b) else none

/-- Multiplication at a fixed width, refusing to overflow. -/
def checkedMul (width a b : Nat) : Option Nat :=
  if a * b < wordCount width then some (a * b) else none

/-- Multiplication at a fixed width, stopping at the largest word. -/
def saturatingMul (width a b : Nat) : Nat := min (a * b) (wordCount width - 1)

/-- Addition at a fixed width, stopping at the largest word. -/
def saturatingAdd (width a b : Nat) : Nat := min (a + b) (wordCount width - 1)

/-- Division of unsigned words, rounding up. -/
def divCeil (a b : Nat) : Nat := (a + b - 1) / b

/-- Conversion into a narrower word, refusing values that do not fit. -/
def tryFrom (width a : Nat) : Option Nat :=
  if a < wordCount width then some a else none

/-- Read an optional result, naming the error of its absence. -/
def okOr {ε α : Type} (error : ε) : Option α → Except ε α
  | some value => .ok value
  | none => .error error

/-- Refuse to go on under a condition, naming the error. -/
def refuse {ε : Type} (condition : Prop) [Decidable condition] (error : ε) : Except ε Unit :=
  if condition then .error error else .ok ()

@[simp] theorem checkedAdd_eq_some {width a b c : Nat} :
    checkedAdd width a b = some c ↔ c = a + b ∧ a + b < wordCount width := by
  unfold checkedAdd
  split <;> grind

@[simp] theorem checkedSub_eq_some {a b c : Nat} :
    checkedSub a b = some c ↔ c = a - b ∧ b ≤ a := by
  unfold checkedSub
  split <;> grind

@[simp] theorem checkedMul_eq_some {width a b c : Nat} :
    checkedMul width a b = some c ↔ c = a * b ∧ a * b < wordCount width := by
  unfold checkedMul
  split <;> grind

@[simp] theorem tryFrom_eq_some {width a b : Nat} :
    tryFrom width a = some b ↔ b = a ∧ a < wordCount width := by
  unfold tryFrom
  split <;> grind

@[simp] theorem okOr_eq_ok {ε α : Type} {error : ε} {source : Option α} {value : α} :
    okOr error source = .ok value ↔ source = some value := by
  cases source <;> simp [okOr]

theorem okOr_eq_error {ε α : Type} {error raised : ε} {source : Option α} :
    okOr error source = .error raised ↔ source = none ∧ error = raised := by
  cases source <;> simp [okOr]

@[simp] theorem okOr_some {ε α : Type} (error : ε) (value : α) :
    okOr error (some value) = .ok value := rfl

@[simp] theorem okOr_none {ε α : Type} (error : ε) :
    okOr error (none : Option α) = .error error := rfl

@[simp] theorem refuse_eq_ok {ε : Type} {condition : Prop} [Decidable condition] {error : ε}
    {value : Unit} : refuse condition error = .ok value ↔ ¬ condition := by
  unfold refuse
  split <;> simp_all

theorem refuse_eq_error {ε : Type} {condition : Prop} [Decidable condition] {error raised : ε} :
    refuse condition error = .error raised ↔ condition ∧ error = raised := by
  unfold refuse
  split <;> simp_all

/-- A successful sequential composition has a successful first part whose value
the second part continues from. -/
theorem bind_eq_ok {ε α β : Type} {first : Except ε α} {next : α → Except ε β} {result : β} :
    (first >>= next) = .ok result ↔ ∃ value, first = .ok value ∧ next value = .ok result := by
  cases first with
  | error error => simp [bind, Except.bind]
  | ok value => simp [bind, Except.bind]

/-- A sequential composition fails in its first part or in what continues from it. -/
theorem bind_eq_error {ε α β : Type} {first : Except ε α} {next : α → Except ε β} {error : ε} :
    (first >>= next) = .error error ↔ first = .error error
      ∨ ∃ value, first = .ok value ∧ next value = .error error := by
  cases first with
  | error error => simp [bind, Except.bind]
  | ok value => simp [bind, Except.bind]

theorem exists_ok {ε α : Type} {source : Except ε α} (succeeds : source.toBool = true) :
    ∃ value, source = .ok value := by
  cases source with
  | error error => cases succeeds
  | ok value => exact ⟨value, rfl⟩

/-- A traversal in which every element has an answer. -/
theorem mapM_ok {ε α β : Type} {f : α → Except ε β} {g : α → β} {source : List α}
    (answers : ∀ element ∈ source, f element = .ok (g element)) :
    source.mapM f = .ok (source.map g) := by
  induction source with
  | nil => rfl
  | cons element rest ih =>
      have later := ih fun other member => answers other (List.mem_cons_of_mem _ member)
      rw [List.mapM_cons, answers element List.mem_cons_self, later]
      rfl

/-- A traversal succeeds when every element has an answer. -/
theorem exists_mapM_ok {ε α β : Type} {f : α → Except ε β} {source : List α}
    (answered : ∀ element ∈ source, ∃ result, f element = .ok result) :
    ∃ results, source.mapM f = .ok results := by
  induction source with
  | nil => exact ⟨[], rfl⟩
  | cons element rest ih =>
      obtain ⟨⟨first, hfirst⟩, later⟩ := List.forall_mem_cons.mp answered
      obtain ⟨others, hothers⟩ := ih later
      refine ⟨first :: others, ?_⟩
      rw [List.mapM_cons, hfirst, hothers]
      rfl

/-- Every result of a successful traversal comes from one of the elements. -/
theorem exists_of_mem_mapM_ok {ε α β : Type} {f : α → Except ε β} {source : List α}
    {results : List β} (hmap : source.mapM f = .ok results) {result : β}
    (member : result ∈ results) : ∃ element ∈ source, f element = .ok result := by
  induction source generalizing results with
  | nil =>
      rw [List.mapM_nil] at hmap
      cases hmap
      cases member
  | cons element rest ih =>
      rw [List.mapM_cons] at hmap
      obtain ⟨first, hfirst, hmap⟩ := bind_eq_ok.mp hmap
      obtain ⟨others, hothers, hmap⟩ := bind_eq_ok.mp hmap
      cases hmap
      rcases List.mem_cons.mp member with rfl | member
      · exact ⟨element, List.mem_cons_self, hfirst⟩
      · obtain ⟨other, there, hother⟩ := ih hothers member
        exact ⟨other, List.mem_cons_of_mem _ there, hother⟩

/-- A successful traversal answers every element in its place. -/
theorem forall₂_of_mapM_ok {ε α β : Type} {f : α → Except ε β} {source : List α}
    {results : List β} (hmap : source.mapM f = .ok results) :
    List.Forall₂ (fun element result => f element = .ok result) source results := by
  induction source generalizing results with
  | nil =>
      rw [List.mapM_nil] at hmap
      cases hmap
      exact .nil
  | cons element rest ih =>
      rw [List.mapM_cons] at hmap
      obtain ⟨first, hfirst, hmap⟩ := bind_eq_ok.mp hmap
      obtain ⟨others, hothers, hmap⟩ := bind_eq_ok.mp hmap
      cases hmap
      exact .cons hfirst (ih hothers)

/-- The answer to the element at a position. -/
theorem getElem?_of_mapM_ok {ε α β : Type} {f : α → Except ε β} {source : List α}
    {results : List β} (hmap : source.mapM f = .ok results) {index : Nat} {element : α}
    (here : source[index]? = some element) :
    ∃ result, results[index]? = some result ∧ f element = .ok result := by
  have related := forall₂_of_mapM_ok hmap
  clear hmap
  induction related generalizing index with
  | nil => simp at here
  | cons head _ ih =>
      cases index with
      | zero =>
          rw [List.getElem?_cons_zero, Option.some.injEq] at here
          exact ⟨_, rfl, here ▸ head⟩
      | succ index =>
          rw [List.getElem?_cons_succ] at here
          exact ih here

/-- What holds of every answer in its place, as an equation between the two lists. -/
theorem map_eq_of_mapM_ok {ε α β γ : Type} {f : α → Except ε β} {source : List α}
    {results : List β} {key : α → γ} {key' : β → γ} (hmap : source.mapM f = .ok results)
    (same : ∀ element result, f element = .ok result → key' result = key element) :
    results.map key' = source.map key := by
  have related := forall₂_of_mapM_ok hmap
  clear hmap
  induction related with
  | nil => rfl
  | cons head _ ih => rw [List.map_cons, List.map_cons, same _ _ head, ih]

/-- Rounding up never drops below the dividend. -/
theorem le_divCeil_mul (a : Nat) {b : Nat} (positive : 0 < b) : a ≤ divCeil a b * b := by
  unfold divCeil
  have remainder := Nat.mod_lt (a + b - 1) positive
  have division := Nat.div_add_mod (a + b - 1) b
  rw [Nat.mul_comm] at division
  omega

/-- Rounding up adds less than one divisor. -/
theorem divCeil_mul_lt (a : Nat) {b : Nat} (positive : 0 < b) : divCeil a b * b < a + b := by
  unfold divCeil
  have quotient := Nat.div_mul_le_self (a + b - 1) b
  omega

end PstForge.Foundation
