import Mathlib.Init

/-!
# Running actions

Builders, planners, resolvers and walks are actions: they have a state, may fail, and keep the state
when they fail. Running an action gives its answer and the state after it.
-/

namespace Except

variable {ε ε' α β : Type}

@[simp] theorem ok_bind (value : α) (next : α → Except ε β) :
    (Except.ok value >>= next) = next value :=
  rfl

@[simp] theorem error_bind (error : ε) (next : α → Except ε β) :
    (Except.error error >>= next) = .error error :=
  rfl

/-- A sequence that succeeds is a success from which the rest succeeds. -/
theorem of_bind_eq_ok {answer : Except ε α} {next : α → Except ε β} {result : β}
    (succeeds : answer >>= next = .ok result) :
    ∃ value, answer = .ok value ∧ next value = .ok result := by
  cases answer with
  | error => contradiction
  | ok value => exact ⟨value, rfl, succeeds⟩

theorem bind_eq_ok_iff {answer : Except ε α} {next : α → Except ε β} {result : β} :
    answer >>= next = .ok result ↔ ∃ value, answer = .ok value ∧ next value = .ok result := by
  refine ⟨of_bind_eq_ok, ?_⟩
  rintro ⟨value, rfl, succeeds⟩
  exact succeeds

/-- One check after another. -/
theorem check_bind_eq_ok_iff {check : Except ε Unit} {next : Except ε β} {result : β} :
    (check >>= fun _ => next) = .ok result ↔ check = .ok () ∧ next = .ok result := by
  rw [bind_eq_ok_iff]
  exact ⟨fun ⟨_, checked, succeeds⟩ => ⟨checked, succeeds⟩,
    fun ⟨checked, succeeds⟩ => ⟨(), checked, succeeds⟩⟩

/-- A sequence fails in its first part, or in what follows a success of it. -/
theorem of_bind_eq_error {answer : Except ε α} {next : α → Except ε β} {error : ε}
    (fails : answer >>= next = .error error) :
    answer = .error error ∨ ∃ value, answer = .ok value ∧ next value = .error error := by
  cases answer with
  | error other => exact .inl (congrArg Except.error (Except.error.inj fails))
  | ok value => exact .inr ⟨value, rfl, fails⟩

theorem of_toOption_eq_some {answer : Except ε α} {result : α}
    (succeeded : answer.toOption = some result) : answer = .ok result := by
  cases answer with
  | error error => contradiction
  | ok value => rw [Option.some.inj succeeded]

/-- An error that was changed comes of an error. -/
theorem of_mapError_eq_error {answer : Except ε α} {change : ε → ε'} {error : ε'}
    (fails : answer.mapError change = .error error) :
    ∃ reason, answer = .error reason ∧ error = change reason := by
  cases answer with
  | error reason => exact ⟨reason, rfl, (Except.error.inj fails).symm⟩
  | ok value => contradiction

/-- Changing errors does not touch what succeeds. -/
theorem of_mapError_eq_ok {answer : Except ε α} {change : ε → ε'} {result : α}
    (succeeds : answer.mapError change = .ok result) : answer = .ok result := by
  cases answer with
  | error => contradiction
  | ok value => rw [← Except.ok.inj succeeds]

/-- Answers that are the same up to how errors are said have the same continuations up to that. -/
theorem mapError_bind_congr {change : ε → ε'} {answer other : Except ε α}
    (same : other.mapError change = answer.mapError change) (next : α → Except ε β) :
    (other >>= next).mapError change = (answer >>= next).mapError change := by
  cases answer with
  | error error =>
    obtain ⟨error', rfl, causes⟩ := of_mapError_eq_error same
    exact congrArg Except.error causes.symm
  | ok value => rw [of_mapError_eq_ok same]

end Except

namespace ExceptT

variable {ε ε' σ α β : Type}

/-- What an action answers in a state, and the state after it. -/
def on (action : ExceptT ε (StateM σ) α) (state : σ) : Except ε α × σ :=
  Id.run (action.run.run state)

@[simp] theorem on_pure (value : α) (state : σ) :
    (pure value : ExceptT ε (StateM σ) α).on state = (.ok value, state) :=
  rfl

@[simp] theorem on_throw (error : ε) (state : σ) :
    (throw error : ExceptT ε (StateM σ) α).on state = (.error error, state) :=
  rfl

@[simp] theorem on_mk_pure (answer : Except ε α) (state : σ) :
    (ExceptT.mk (pure answer) : ExceptT ε (StateM σ) α).on state = (answer, state) :=
  rfl

/-- A sequence goes on from the state that its first part leaves, unless that fails. -/
theorem on_bind (action : ExceptT ε (StateM σ) α) (next : α → ExceptT ε (StateM σ) β)
    (state : σ) :
    (action >>= next).on state =
      match action.on state with
      | (.ok value, after) => (next value).on after
      | (.error error, after) => (.error error, after) := by
  change Id.run ((ExceptT.bind action next).run.run state) = _
  unfold ExceptT.bind on
  simp only [ExceptT.run, ExceptT.mk, StateT.run_bind]
  rcases (StateT.run action state : Except ε α × σ) with ⟨_ | value, after⟩
  · rfl
  · rfl

/-- An action that succeeds did so part by part. -/
theorem of_on_bind {action : ExceptT ε (StateM σ) α} {next : α → ExceptT ε (StateM σ) β}
    {state after : σ} {result : β} (ran : (action >>= next).on state = (.ok result, after)) :
    ∃ value between, action.on state = (.ok value, between) ∧
      (next value).on between = (.ok result, after) := by
  rw [on_bind] at ran
  rcases came : action.on state with ⟨error | value, between⟩
  · rw [came] at ran
    cases ran
  · rw [came] at ran
    exact ⟨value, between, rfl, ran⟩

theorem on_eq_of_toOption {action : ExceptT ε (StateM σ) α} {state : σ} {value : α}
    (succeeded : (action.on state).1.toOption = some value) :
    action.on state = (.ok value, (action.on state).2) := by
  rw [← Except.of_toOption_eq_some succeeded]

/-- Changing an answer changes neither errors nor states. -/
theorem on_map (change : α → β) (action : ExceptT ε (StateM σ) α) (state : σ) :
    (change <$> action).on state =
      ((action.on state).1.map change, (action.on state).2) := by
  rw [map_eq_pure_bind, on_bind]
  rcases action.on state with ⟨_ | value, after⟩
  · rfl
  · rfl

/-- Changing an error changes neither answers nor states. -/
theorem on_adapt (change : ε → ε') (action : ExceptT ε (StateM σ) α) (state : σ) :
    (ExceptT.adapt change action : ExceptT ε' (StateM σ) α).on state =
      ((action.on state).1.mapError change, (action.on state).2) := by
  rfl

@[simp] theorem on_get (state : σ) :
    (get : ExceptT ε (StateM σ) σ).on state = (.ok state, state) :=
  rfl

/-! ### Two runs -/

/-- Two runs that both have answers or both fail, with related states after answers. -/
inductive RunAlike (states : σ → σ → Prop) (errors : ε → ε → Prop) (answers : α → α → Prop) :
    Except ε α × σ → Except ε α × σ → Prop
  | ok {answer other : α} {after after' : σ} (same : answers answer other)
      (related : states after after') :
      RunAlike states errors answers (.ok answer, after) (.ok other, after')
  | error {error other : ε} {after after' : σ} (same : errors error other) :
      RunAlike states errors answers (.error error, after) (.error other, after')

/-- Two actions that run alike in related states. -/
def Agrees (states : σ → σ → Prop) (errors : ε → ε → Prop) (answers : α → α → Prop)
    (action other : ExceptT ε (StateM σ) α) : Prop :=
  ∀ state state', states state state' →
    RunAlike states errors answers (action.on state) (other.on state')

section

variable {states : σ → σ → Prop} {errors : ε → ε → Prop} {answers : α → α → Prop}

theorem agrees_pure {answer other : α} (same : answers answer other) :
    Agrees states errors answers (pure answer) (pure other) :=
  fun _ _ related => .ok same related

theorem agrees_throw {error other : ε} (same : errors error other) :
    Agrees states errors answers (throw error) (throw other) :=
  fun _ _ _ => .error same

theorem agrees_get : Agrees states errors states (get : ExceptT ε (StateM σ) σ) get :=
  fun _ _ related => .ok related related

/-- Runs that agree go on alike from answers that are alike. -/
theorem Agrees.bind {answers' : β → β → Prop} {action other : ExceptT ε (StateM σ) α}
    {next next' : α → ExceptT ε (StateM σ) β} (first : Agrees states errors answers action other)
    (second : ∀ answer answer', answers answer answer' →
      Agrees states errors answers' (next answer) (next' answer')) :
    Agrees states errors answers' (action >>= next) (other >>= next') := by
  intro state state' related
  rw [on_bind, on_bind]
  have alike := first state state' related
  generalize action.on state = run at alike
  generalize other.on state' = run' at alike
  cases alike with
  | ok same between => exact second _ _ same _ _ between
  | error same => exact .error same

/-- Errors may be said otherwise, if that keeps them related. -/
theorem Agrees.adapt {errors' : ε' → ε' → Prop} {change : ε → ε'}
    {action other : ExceptT ε (StateM σ) α} (agrees : Agrees states errors answers action other)
    (kept : ∀ error other, errors error other → errors' (change error) (change other)) :
    Agrees states errors' answers (ExceptT.adapt change action) (ExceptT.adapt change other) := by
  intro state state' related
  rw [on_adapt, on_adapt]
  have alike := agrees state state' related
  generalize action.on state = run at alike
  generalize other.on state' = run' at alike
  cases alike with
  | ok same after => exact .ok same after
  | error same => exact .error (kept _ _ same)

end

end ExceptT
