import PstForge.Foundation.Machine

/-! # Computations whose state survives their errors

A routine that mutates its arguments in place and may fail half-way leaves the
mutations behind. `EStateM` is that kind of computation: an error carries the
state it was raised in. This module gives it three ways of being reasoned about:
inversion of a successful run into the runs of its parts, a rule for relations
between the states before and after that hold however the run ends (`Keeps`), one
for what holds of the two ways it can end (`Ensures`), and two rules for running two
computations side by side: both end alike (`Mirrors`), or the second succeeds where the
first does (`Follows`).
-/

namespace PstForge.Foundation

variable {ε σ τ α β : Type}

/-- Run a computation without effects inside an effectful one. -/
def attempt (source : Except ε α) : EStateM ε σ α := fun state =>
  match source with
  | .ok value => .ok value state
  | .error error => .error error state

/-- Run a computation on one component of a larger state. -/
def zoom (view : σ → τ) (update : σ → τ → σ) (inner : EStateM ε τ α) : EStateM ε σ α :=
  fun state =>
    match inner (view state) with
    | .ok value part => .ok value (update state part)
    | .error error part => .error error (update state part)

/-- The state a run ends in, whether it succeeds or fails. -/
def after (program : EStateM ε σ α) (state : σ) : σ :=
  match program state with
  | .ok _ next => next
  | .error _ next => next

/-- Whether a run succeeds. -/
def succeeds (program : EStateM ε σ α) (state : σ) : Bool :=
  match program state with
  | .ok _ _ => true
  | .error _ _ => false

/-- Run a computation, and another one on the error and in the state it failed in. -/
def onError (program : EStateM ε σ α) (handler : ε → EStateM ε σ α) : EStateM ε σ α :=
  fun state =>
    match program state with
    | .ok value next => .ok value next
    | .error error next => handler error next

section Inversion

theorem run_bind (first : EStateM ε σ α) (next : α → EStateM ε σ β) (state : σ) :
    (first >>= next) state =
      match first state with
      | .ok value middle => next value middle
      | .error error middle => .error error middle := by
  simp only [bind, EStateM.bind]
  cases first state <;> rfl

theorem run_get (state : σ) : (get : EStateM ε σ σ) state = .ok state state :=
  rfl

theorem run_set (next state : σ) : (set next : EStateM ε σ PUnit) state = .ok ⟨⟩ next :=
  rfl

theorem run_modify (f : σ → σ) (state : σ) :
    (modify f : EStateM ε σ PUnit) state = .ok ⟨⟩ (f state) :=
  rfl

theorem run_throw (error : ε) (state : σ) :
    (throw error : EStateM ε σ α) state = .error error state :=
  rfl

/-- A successful sequence runs both parts successfully. -/
theorem bind_run_ok {first : EStateM ε σ α} {next : α → EStateM ε σ β} {state final : σ}
    {result : β} :
    (first >>= next) state = .ok result final ↔
      ∃ value middle, first state = .ok value middle ∧ next value middle = .ok result final := by
  rw [run_bind]
  cases first state <;> simp

@[simp] theorem pure_run_ok {value result : α} {state final : σ} :
    (pure value : EStateM ε σ α) state = .ok result final ↔ result = value ∧ final = state := by
  simp only [pure, EStateM.pure, EStateM.Result.ok.injEq]
  constructor <;> rintro ⟨rfl, rfl⟩ <;> exact ⟨rfl, rfl⟩

@[simp] theorem throw_run_ok {error : ε} {result : α} {state final : σ} :
    (throw error : EStateM ε σ α) state = .ok result final ↔ False := by
  simp [run_throw]

@[simp] theorem attempt_run_ok {source : Except ε α} {result : α} {state final : σ} :
    (attempt source : EStateM ε σ α) state = .ok result final ↔
      source = .ok result ∧ final = state := by
  cases source with
  | error error => simp [attempt]
  | ok value =>
      simp only [attempt, EStateM.Result.ok.injEq, Except.ok.injEq]
      constructor <;> rintro ⟨rfl, rfl⟩ <;> exact ⟨rfl, rfl⟩

theorem attempt_bind_run_ok {source : Except ε α} {next : α → EStateM ε σ β} {state final : σ}
    {result : β} :
    (attempt source >>= next) state = .ok result final ↔
      ∃ value, source = .ok value ∧ next value state = .ok result final := by
  rw [run_bind]
  cases source <;> simp [attempt]

@[simp] theorem get_run_ok {result state final : σ} :
    (get : EStateM ε σ σ) state = .ok result final ↔ result = state ∧ final = state := by
  rw [run_get, EStateM.Result.ok.injEq]
  constructor <;> rintro ⟨rfl, rfl⟩ <;> exact ⟨rfl, rfl⟩

@[simp] theorem set_run_ok {next state final : σ} {result : PUnit} :
    (set next : EStateM ε σ PUnit) state = .ok result final ↔ final = next := by
  simp only [run_set, EStateM.Result.ok.injEq, true_and]
  exact eq_comm

@[simp] theorem modify_run_ok {f : σ → σ} {state final : σ} {result : PUnit} :
    (modify f : EStateM ε σ PUnit) state = .ok result final ↔ final = f state := by
  simp only [run_modify, EStateM.Result.ok.injEq, true_and]
  exact eq_comm

theorem zoom_run_ok {view : σ → τ} {update : σ → τ → σ} {inner : EStateM ε τ α} {result : α}
    {state final : σ} :
    (zoom view update inner : EStateM ε σ α) state = .ok result final ↔
      ∃ part, inner (view state) = .ok result part ∧ final = update state part := by
  unfold zoom
  cases inner (view state) with
  | error error part => simp
  | ok value part =>
      simp only [EStateM.Result.ok.injEq]
      constructor
      · rintro ⟨rfl, rfl⟩; exact ⟨part, ⟨rfl, rfl⟩, rfl⟩
      · rintro ⟨_, ⟨rfl, rfl⟩, rfl⟩; exact ⟨rfl, rfl⟩

theorem discard_run_ok {program : EStateM ε σ α} {state final : σ} {result : PUnit} :
    (discard program : EStateM ε σ PUnit) state = .ok result final ↔
      ∃ value, program state = .ok value final := by
  simp only [Functor.discard, Functor.mapConst, EStateM.map, Function.comp]
  cases program state <;> simp

theorem succeeds_run_ok {program : EStateM ε σ PUnit} {state : σ}
    (success : succeeds program state = true) :
    program state = .ok ⟨⟩ (after program state) := by
  unfold succeeds at success
  unfold after
  split at success
  case h_1 _ _ run => rw [run]
  case h_2 => cases success

theorem exists_run_ok {program : EStateM ε σ α} {state : σ}
    (success : succeeds program state = true) :
    ∃ value final, program state = .ok value final := by
  cases hrun : program state with
  | ok value final => exact ⟨value, final, rfl⟩
  | error error final =>
      rw [succeeds, hrun] at success
      cases success

theorem onError_run_ok {program : EStateM ε σ α} {handler : ε → EStateM ε σ α} {state final : σ}
    {result : α} :
    onError program handler state = .ok result final ↔ program state = .ok result final ∨
      ∃ error middle, program state = .error error middle ∧
        handler error middle = .ok result final := by
  unfold onError
  cases program state <;> simp

end Inversion

/-- However the computation ends, the state it ends in is related to the one it
started from. -/
def Keeps (relation : σ → σ → Prop) (program : EStateM ε σ α) : Prop :=
  ∀ state, relation state (after program state)

namespace Keeps

variable {relation : σ → σ → Prop}

theorem of_pure (refl : ∀ state, relation state state) (value : α) :
    Keeps relation (pure value : EStateM ε σ α) := refl

theorem of_throw (refl : ∀ state, relation state state) (error : ε) :
    Keeps relation (throw error : EStateM ε σ α) := refl

theorem of_attempt (refl : ∀ state, relation state state) (source : Except ε α) :
    Keeps relation (attempt source : EStateM ε σ α) := by
  intro state
  cases source <;> exact refl state

theorem of_get (refl : ∀ state, relation state state) :
    Keeps relation (get : EStateM ε σ σ) := refl

theorem of_modify {f : σ → σ} (step : ∀ state, relation state (f state)) :
    Keeps relation (modify f : EStateM ε σ PUnit) := step

theorem bind (trans : ∀ {a b c}, relation a b → relation b c → relation a c)
    {first : EStateM ε σ α} {next : α → EStateM ε σ β} (keepsFirst : Keeps relation first)
    (keepsNext : ∀ value, Keeps relation (next value)) :
    Keeps relation (first >>= next) := by
  intro state
  have start := keepsFirst state
  unfold after at start ⊢
  rw [run_bind]
  cases hfirst : first state with
  | error error middle => simpa only [hfirst] using start
  | ok value middle =>
      rw [hfirst] at start
      exact trans start (keepsNext value middle)

/-- What the part keeps gives what the whole keeps. -/
theorem zoom_of {view : σ → τ} {update : σ → τ → σ} {inner : EStateM ε τ α}
    {part : τ → τ → Prop} (keeps : Keeps part inner)
    (lift : ∀ state next, part (view state) next → relation state (update state next)) :
    Keeps relation (Foundation.zoom view update inner : EStateM ε σ α) := by
  intro state
  have kept := keeps (view state)
  unfold after Foundation.zoom at *
  cases hrun : inner (view state) <;> rw [hrun] at kept <;> exact lift state _ kept

theorem zoom {view : σ → τ} {update : σ → τ → σ} {inner : EStateM ε τ α}
    (lift : ∀ state part, relation state (update state part)) :
    Keeps relation (Foundation.zoom view update inner : EStateM ε σ α) := by
  have anything : Keeps (fun _ _ => True) inner := fun _ => trivial
  exact anything.zoom_of fun state next _ => lift state next

theorem onError (trans : ∀ {a b c}, relation a b → relation b c → relation a c)
    {program : EStateM ε σ α} {handler : ε → EStateM ε σ α} (keeps : Keeps relation program)
    (keepsHandler : ∀ error, Keeps relation (handler error)) :
    Keeps relation (Foundation.onError program handler) := by
  intro state
  have start := keeps state
  unfold after Foundation.onError at *
  cases hrun : program state with
  | ok value next => simpa only [hrun] using start
  | error error next =>
      rw [hrun] at start
      exact trans start (keepsHandler error next)

theorem map {program : EStateM ε σ α} (f : α → β) (keeps : Keeps relation program) :
    Keeps relation (f <$> program) := by
  intro state
  have start := keeps state
  unfold after at *
  simp only [Functor.map, EStateM.map]
  cases hrun : program state <;> simpa only [hrun] using start

theorem of_discard {program : EStateM ε σ α} (keeps : Keeps relation program) :
    Keeps relation (discard program) := by
  intro state
  have start := keeps state
  unfold after at *
  simp only [Functor.discard, Functor.mapConst, EStateM.map, Function.comp]
  cases hrun : program state <;> simpa only [hrun] using start

theorem mono {weaker : σ → σ → Prop} {program : EStateM ε σ α} (keeps : Keeps relation program)
    (le : ∀ {a b}, relation a b → weaker a b) : Keeps weaker program :=
  fun state => le (keeps state)

end Keeps

/-- From a state, the computation ends in a success with the property `Q` or in a
failure with the property `E`. -/
def Ensures (program : EStateM ε σ α) (state : σ) (Q : α → σ → Prop) (E : ε → σ → Prop) :
    Prop :=
  match program state with
  | .ok value next => Q value next
  | .error error next => E error next

namespace Ensures

variable {state : σ} {Q : α → σ → Prop} {E : ε → σ → Prop}

theorem of_pure {value : α} (holds : Q value state) :
    Ensures (pure value : EStateM ε σ α) state Q E := holds

theorem of_throw {error : ε} (holds : E error state) :
    Ensures (throw error : EStateM ε σ α) state Q E := holds

theorem of_attempt {source : Except ε α} (holdsOk : ∀ value, source = .ok value → Q value state)
    (holdsFail : ∀ error, source = .error error → E error state) :
    Ensures (attempt source : EStateM ε σ α) state Q E := by
  cases source with
  | error error => exact holdsFail error rfl
  | ok value => exact holdsOk value rfl

theorem of_get {Q : σ → σ → Prop} (holds : Q state state) :
    Ensures (get : EStateM ε σ σ) state Q E := holds

theorem of_modify {f : σ → σ} {Q : PUnit → σ → Prop} (holds : Q ⟨⟩ (f state)) :
    Ensures (modify f : EStateM ε σ PUnit) state Q E := holds

theorem mono {Q' : α → σ → Prop} {E' : ε → σ → Prop} {program : EStateM ε σ α}
    (ensures : Ensures program state Q E)
    (okLe : ∀ value next, Q value next → Q' value next)
    (failLe : ∀ error next, E error next → E' error next) :
    Ensures program state Q' E' := by
  unfold Ensures at *
  cases hrun : program state with
  | ok value next => exact okLe value next (by simpa only [hrun] using ensures)
  | error error next => exact failLe error next (by simpa only [hrun] using ensures)

theorem and {Q' : α → σ → Prop} {E' : ε → σ → Prop} {program : EStateM ε σ α}
    (ensures : Ensures program state Q E) (ensures' : Ensures program state Q' E') :
    Ensures program state (fun value next => Q value next ∧ Q' value next)
      (fun error next => E error next ∧ E' error next) := by
  unfold Ensures at *
  cases hrun : program state with
  | ok value next =>
      rw [hrun] at ensures ensures'
      exact ⟨ensures, ensures'⟩
  | error error next =>
      rw [hrun] at ensures ensures'
      exact ⟨ensures, ensures'⟩

theorem bind {first : EStateM ε σ β} {next : β → EStateM ε σ α} {M : β → σ → Prop}
    (ensuresFirst : Ensures first state M E)
    (ensuresNext : ∀ value between, M value between →
      Ensures (next value) between Q E) :
    Ensures (first >>= next) state Q E := by
  unfold Ensures at ensuresFirst ⊢
  rw [run_bind]
  cases hfirst : first state with
  | error error between => simpa only [hfirst] using ensuresFirst
  | ok value between =>
      exact ensuresNext value between (by simpa only [hfirst] using ensuresFirst)

/-- What the first part has to end in is what the second part starts from. -/
theorem seq {first : EStateM ε σ β} {next : β → EStateM ε σ α}
    (ensures : Ensures first state (fun value between => Ensures (next value) between Q E) E) :
    Ensures (first >>= next) state Q E :=
  ensures.bind fun _ _ goes => goes

theorem get_bind {next : σ → EStateM ε σ α} (ensures : Ensures (next state) state Q E) :
    Ensures (get >>= next) state Q E := ensures

theorem modify_bind {f : σ → σ} {next : PUnit → EStateM ε σ α}
    (ensures : Ensures (next ⟨⟩) (f state) Q E) :
    Ensures (modify f >>= next) state Q E := ensures

theorem attempt_bind {source : Except ε β} {next : β → EStateM ε σ α}
    (ensures : ∀ value, source = .ok value → Ensures (next value) state Q E)
    (fails : ∀ error, source = .error error → E error state) :
    Ensures (attempt source >>= next) state Q E := by
  cases source with
  | error error => exact fails error rfl
  | ok value => exact ensures value rfl

theorem refuse_bind {condition : Prop} [Decidable condition] {error : ε}
    {next : Unit → EStateM ε σ α} (passes : ¬ condition → Ensures (next ⟨⟩) state Q E)
    (fails : condition → E error state) :
    Ensures (attempt (refuse condition error) >>= next) state Q E := by
  apply attempt_bind
  · rintro ⟨⟩ passed
    exact passes (refuse_eq_ok.mp passed)
  · intro raised failed
    obtain ⟨holds, rfl⟩ := refuse_eq_error.mp failed
    exact fails holds

theorem of_refuse {condition : Prop} [Decidable condition] {error : ε} {Q : Unit → σ → Prop}
    (passes : ¬ condition → Q ⟨⟩ state) (fails : condition → E error state) :
    Ensures (attempt (refuse condition error) : EStateM ε σ Unit) state Q E := by
  apply of_attempt
  · rintro ⟨⟩ passed
    exact passes (refuse_eq_ok.mp passed)
  · intro raised failed
    obtain ⟨holds, rfl⟩ := refuse_eq_error.mp failed
    exact fails holds

theorem of_ok {source : Except ε α} {value : α} (succeeds : source = .ok value)
    (holds : Q value state) : Ensures (attempt source : EStateM ε σ α) state Q E := by
  rw [succeeds]
  exact holds

theorem of_discard {program : EStateM ε σ α} {Q : PUnit → σ → Prop}
    (ensures : Ensures program state (fun _ next => Q ⟨⟩ next) E) :
    Ensures (discard program) state Q E := by
  unfold Ensures at *
  simp only [Functor.discard, Functor.mapConst, EStateM.map, Function.comp]
  cases hrun : program state <;> simpa only [hrun] using ensures

theorem of_onError {program : EStateM ε σ α} {handler : ε → EStateM ε σ α}
    {failing : ε → σ → Prop} (ensures : Ensures program state Q failing)
    (handled : ∀ error between, failing error between →
      Ensures (handler error) between Q E) :
    Ensures (onError program handler) state Q E := by
  unfold Ensures onError at *
  cases hrun : program state with
  | ok value next => simpa only [hrun] using ensures
  | error error next => exact handled error next (by simpa only [hrun] using ensures)

theorem of_zoom {view : σ → τ} {update : σ → τ → σ} {inner : EStateM ε τ α}
    (ensures : Ensures inner (view state) (fun value part => Q value (update state part))
      (fun error part => E error (update state part))) :
    Ensures (zoom view update inner : EStateM ε σ α) state Q E := by
  unfold Ensures zoom at *
  cases hrun : inner (view state) <;> simpa only [hrun] using ensures

/-- What a run that succeeds ensures. -/
theorem run_ok {program : EStateM ε σ α} {value : α} {next : σ}
    (ensures : Ensures program state Q E) (hrun : program state = .ok value next) :
    Q value next := by
  unfold Ensures at ensures
  rw [hrun] at ensures
  exact ensures

/-- What holds of both ends holds of the state the run ends in. -/
theorem ends {program : EStateM ε σ α} {P : σ → Prop}
    (ensures : Ensures program state (fun _ next => P next) fun _ next => P next) :
    P (after program state) := by
  unfold Ensures at ensures
  unfold after
  cases hrun : program state <;> simpa only [hrun] using ensures

/-- A run that cannot fail succeeds. -/
theorem exists_run {program : EStateM ε σ α} (ensures : Ensures program state Q fun _ _ => False) :
    ∃ value next, program state = .ok value next ∧ Q value next := by
  unfold Ensures at ensures
  cases hrun : program state with
  | ok value next =>
      rw [hrun] at ensures
      exact ⟨value, next, rfl, ensures⟩
  | error error next =>
      rw [hrun] at ensures
      exact ensures.elim

/-- A relation that is kept holds of both ends. -/
theorem of_keeps {relation : σ → σ → Prop} {program : EStateM ε σ α}
    (keeps : Keeps relation program) (state : σ) :
    Ensures program state (fun _ next => relation state next)
      (fun _ next => relation state next) := by
  have related := keeps state
  unfold after at related
  unfold Ensures
  cases hrun : program state <;> simpa only [hrun] using related

end Ensures

/-- Two computations end alike: from related states they both succeed with the same value, or
both fail with the same error, one of a kind, and the states they end in are related. -/
def Mirrors (pre post : σ → τ → Prop) (fails : ε → Prop) (left : EStateM ε σ α)
    (right : EStateM ε τ α) : Prop :=
  ∀ s t, pre s t →
    match left s, right t with
    | .ok a s', .ok b t' => a = b ∧ post s' t'
    | .error e s', .error f t' => e = f ∧ fails e ∧ post s' t'
    | _, _ => False

namespace Mirrors

variable {pre mid post : σ → τ → Prop} {fails : ε → Prop}

theorem of_pure (value : α) :
    Mirrors pre pre fails (pure value : EStateM ε σ α) (pure value : EStateM ε τ α) :=
  fun _ _ related => ⟨rfl, related⟩

theorem of_throw {error : ε} (kind : fails error) :
    Mirrors pre pre fails (throw error : EStateM ε σ α) (throw error : EStateM ε τ α) :=
  fun _ _ related => ⟨rfl, kind, related⟩

theorem of_attempt {source : Except ε α} (kind : ∀ error, source = .error error → fails error) :
    Mirrors pre pre fails (attempt source : EStateM ε σ α) (attempt source : EStateM ε τ α) := by
  intro s t related
  cases source with
  | error error => exact ⟨rfl, kind error rfl, related⟩
  | ok value => exact ⟨rfl, related⟩

theorem of_modify {f : σ → σ} {g : τ → τ} (step : ∀ s t, pre s t → post (f s) (g t)) :
    Mirrors pre post fails (modify f : EStateM ε σ PUnit) (modify g : EStateM ε τ PUnit) :=
  fun s t related => ⟨rfl, step s t related⟩

/-- What is done with a state that is read is done with both states. -/
theorem get_bind {next : σ → EStateM ε σ α} {next' : τ → EStateM ε τ α}
    (mirrors : ∀ s t, pre s t → Mirrors pre post fails (next s) (next' t)) :
    Mirrors pre post fails (get >>= next) (get >>= next') :=
  fun s t related => mirrors s t related s t related

theorem mono {weaker : σ → τ → Prop} {left : EStateM ε σ α} {right : EStateM ε τ α}
    (mirrors : Mirrors pre post fails left right) (le : ∀ s t, post s t → weaker s t) :
    Mirrors pre weaker fails left right := by
  intro s t related
  have ends := mirrors s t related
  revert ends
  cases left s <;> cases right t <;> intro ends
  · exact ⟨ends.1, le _ _ ends.2⟩
  · exact ends
  · exact ends
  · exact ⟨ends.1, ends.2.1, le _ _ ends.2.2⟩

/-- What follows is compared on the values that the first part can give. -/
theorem bind_of {first : EStateM ε σ α} {first' : EStateM ε τ α} {next : α → EStateM ε σ β}
    {next' : α → EStateM ε τ β} {gives : α → Prop} (mirrorsFirst : Mirrors pre mid fails first
      first')
    (le : ∀ s t, mid s t → post s t) (given : ∀ s value s', first s = .ok value s' → gives value)
    (mirrorsNext : ∀ value, gives value → Mirrors mid post fails (next value) (next' value)) :
    Mirrors pre post fails (first >>= next) (first' >>= next') := by
  intro s t related
  have start := mirrorsFirst s t related
  have given := given s
  rw [run_bind, run_bind]
  revert start given
  cases first s <;> cases first' t <;> intro start given
  · obtain ⟨rfl, relatedMiddle⟩ := start
    exact mirrorsNext _ (given _ _ rfl) _ _ relatedMiddle
  · exact False.elim start
  · exact False.elim start
  · exact ⟨start.1, start.2.1, le _ _ start.2.2⟩

theorem bind {first : EStateM ε σ α} {first' : EStateM ε τ α} {next : α → EStateM ε σ β}
    {next' : α → EStateM ε τ β} (mirrorsFirst : Mirrors pre mid fails first first')
    (le : ∀ s t, mid s t → post s t)
    (mirrorsNext : ∀ value, Mirrors mid post fails (next value) (next' value)) :
    Mirrors pre post fails (first >>= next) (first' >>= next') :=
  mirrorsFirst.bind_of le (fun _ _ _ _ => trivial) fun value (_ : True) => mirrorsNext value

theorem onError {program : EStateM ε σ α} {program' : EStateM ε τ α}
    {handler : ε → EStateM ε σ α} {handler' : ε → EStateM ε τ α} {failing : ε → Prop}
    (mirrors : Mirrors pre mid failing program program') (le : ∀ s t, mid s t → post s t)
    (handled : ∀ error, failing error → Mirrors mid post fails (handler error) (handler' error)) :
    Mirrors pre post fails (Foundation.onError program handler)
      (Foundation.onError program' handler') := by
  intro s t related
  have start := mirrors s t related
  unfold Foundation.onError
  revert start
  cases program s <;> cases program' t <;> intro start
  · exact ⟨start.1, le _ _ start.2⟩
  · exact False.elim start
  · exact False.elim start
  · obtain ⟨rfl, kind, relatedMiddle⟩ := start
    exact handled _ kind _ _ relatedMiddle

theorem map {program : EStateM ε σ α} {program' : EStateM ε τ α} (f : α → β)
    (mirrors : Mirrors pre post fails program program') :
    Mirrors pre post fails (f <$> program) (f <$> program') := by
  intro s t related
  have start := mirrors s t related
  simp only [Functor.map, EStateM.map]
  revert start
  cases program s <;> cases program' t <;> intro start
  · exact ⟨congrArg f start.1, start.2⟩
  · exact start
  · exact start
  · exact start

theorem of_discard {program : EStateM ε σ α} {program' : EStateM ε τ α}
    (mirrors : Mirrors pre post fails program program') :
    Mirrors pre post fails (discard program) (discard program') := by
  intro s t related
  have start := mirrors s t related
  simp only [Functor.discard, Functor.mapConst, EStateM.map, Function.comp]
  revert start
  cases program s <;> cases program' t <;> intro start
  · exact ⟨trivial, start.2⟩
  · exact start
  · exact start
  · exact start

end Mirrors

/-- The second computation succeeds wherever the first does: from related states it ends in
related states, and the values are related. -/
def Follows (pre post : σ → τ → Prop) (same : α → β → Prop) (left : EStateM ε σ α)
    (right : EStateM ε τ β) : Prop :=
  ∀ s t, pre s t → ∀ value s', left s = .ok value s' →
    ∃ value' t', right t = .ok value' t' ∧ same value value' ∧ post s' t'

namespace Follows

variable {α' β' : Type} {pre mid post : σ → τ → Prop} {same : α → β → Prop}
variable {same' : α' → β' → Prop}

theorem of_pure {value : α} {value' : β} (related : same value value') :
    Follows pre pre same (pure value : EStateM ε σ α) (pure value' : EStateM ε τ β) := by
  intro s t holds result s' hrun
  obtain ⟨rfl, rfl⟩ := pure_run_ok.mp hrun
  exact ⟨value', t, rfl, related, holds⟩

theorem of_throw {error : ε} {right : EStateM ε τ β} :
    Follows pre post same (throw error : EStateM ε σ α) right := by
  intro s t _ result s' hrun
  exact (throw_run_ok.mp hrun).elim

theorem of_attempt {source : Except ε α} {source' : Except ε β}
    (related : ∀ value, source = .ok value → ∃ value', source' = .ok value' ∧ same value value') :
    Follows pre pre same (attempt source : EStateM ε σ α) (attempt source' : EStateM ε τ β) := by
  intro s t holds result s' hrun
  obtain ⟨hsource, rfl⟩ := attempt_run_ok.mp hrun
  obtain ⟨value', hsource', also⟩ := related result hsource
  exact ⟨value', t, attempt_run_ok.mpr ⟨hsource', rfl⟩, also, holds⟩

theorem attempt_same (source : Except ε α) :
    Follows pre pre Eq (attempt source : EStateM ε σ α) (attempt source : EStateM ε τ α) :=
  of_attempt fun value hsource => ⟨value, hsource, rfl⟩

theorem of_modify {f : σ → σ} {g : τ → τ} (step : ∀ s t, pre s t → post (f s) (g t)) :
    Follows pre post Eq (modify f : EStateM ε σ PUnit) (modify g : EStateM ε τ PUnit) := by
  intro s t holds result s' hrun
  obtain rfl := modify_run_ok.mp hrun
  exact ⟨⟨⟩, g t, rfl, rfl, step s t holds⟩

/-- What is done with a state that is read is done with both states. -/
theorem get_bind {next : σ → EStateM ε σ α} {next' : τ → EStateM ε τ β}
    (follows : ∀ s t, pre s t → Follows pre post same (next s) (next' t)) :
    Follows pre post same (get >>= next) (get >>= next') :=
  fun s t holds => follows s t holds s t holds

theorem bind {first : EStateM ε σ α} {first' : EStateM ε τ β} {next : α → EStateM ε σ α'}
    {next' : β → EStateM ε τ β'} (followsFirst : Follows pre mid same first first')
    (followsNext : ∀ value value', same value value' →
      Follows mid post same' (next value) (next' value')) :
    Follows pre post same' (first >>= next) (first' >>= next') := by
  intro s t holds result s' hrun
  obtain ⟨value, middle, hfirst, hnext⟩ := bind_run_ok.mp hrun
  obtain ⟨value', middle', hfirst', related, between⟩ := followsFirst s t holds value middle hfirst
  obtain ⟨result', t', hnext', relatedResult, behind⟩ :=
    followsNext value value' related middle middle' between result s' hnext
  exact ⟨result', t', bind_run_ok.mpr ⟨value', middle', hfirst', hnext'⟩, relatedResult, behind⟩

/-- What follows the first part is compared on equal values. -/
theorem bind_same {first : EStateM ε σ α} {first' : EStateM ε τ α} {next : α → EStateM ε σ α'}
    {next' : α → EStateM ε τ β'} (followsFirst : Follows pre mid Eq first first')
    (followsNext : ∀ value, Follows mid post same' (next value) (next' value)) :
    Follows pre post same' (first >>= next) (first' >>= next') := by
  refine followsFirst.bind ?_
  rintro value _ rfl
  exact followsNext value

/-- A part of the state that both sides have alike is worked on alike. -/
theorem of_zoom {ρ : Type} {view : σ → ρ} {view' : τ → ρ} {update : σ → ρ → σ}
    {update' : τ → ρ → τ} (inner : EStateM ε ρ α) (alike : ∀ s t, pre s t → view s = view' t)
    (step : ∀ s t part, pre s t → post (update s part) (update' t part)) :
    Follows pre post Eq (zoom view update inner : EStateM ε σ α)
      (zoom view' update' inner : EStateM ε τ α) := by
  intro s t holds result s' hrun
  obtain ⟨part, hinner, rfl⟩ := zoom_run_ok.mp hrun
  rw [alike s t holds] at hinner
  exact ⟨result, update' t part, zoom_run_ok.mpr ⟨part, hinner, rfl⟩, rfl, step s t part holds⟩

theorem mono {weaker : σ → τ → Prop} {looser : α → β → Prop} {left : EStateM ε σ α}
    {right : EStateM ε τ β} (follows : Follows pre post same left right)
    (states : ∀ s t, post s t → weaker s t)
    (values : ∀ value value', same value value' → looser value value') :
    Follows pre weaker looser left right := by
  intro s t holds value s' hrun
  obtain ⟨value', t', hright, related, behind⟩ := follows s t holds value s' hrun
  exact ⟨value', t', hright, values _ _ related, states _ _ behind⟩

end Follows

end PstForge.Foundation
