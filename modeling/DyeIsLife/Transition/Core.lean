import Mathlib.Data.List.Basic

/-!
# Labelled partial transitions

A component is modelled by an executable step function: a state, an action, and
the next state when the action is enabled.  A run is a finite list of actions.
Three predicates speak about a whole run: `Always` about the states it passes
through, `Guarded` about the state and action of each of its steps, and
`Stepwise` about the states before and after each of its steps.  The rules
below turn one-step facts into facts about every run.
-/

namespace DyeIsLife.Transition

universe u v

/-- A deterministic labelled transition; `none` means that the action is not
enabled. -/
abbrev Step (σ : Type u) (α : Type v) := σ → α → Option σ

variable {σ : Type u} {α : Type v}

/-- Execute a list of actions from left to right.  A disabled action makes the
whole run undefined. -/
def run (step : Step σ α) : σ → List α → Option σ
  | state, [] => some state
  | state, action :: rest => (step state action).bind fun next => run step next rest

@[simp]
theorem run_nil (step : Step σ α) (state : σ) : run step state [] = some state :=
  rfl

theorem run_cons_eq_some_iff (step : Step σ α) (state final : σ) (action : α)
    (rest : List α) :
    run step state (action :: rest) = some final ↔
      ∃ next, step state action = some next ∧ run step next rest = some final := by
  simp only [run]
  exact Option.bind_eq_some_iff

/-- Every enabled step of the run is taken in a state, and with an action, that
meet `condition`. -/
def Guarded (step : Step σ α) (condition : σ → α → Prop) : σ → List α → Prop
  | _, [] => True
  | state, action :: rest =>
      ∀ next, step state action = some next →
        condition state action ∧ Guarded step condition next rest

/-- Every state the run passes through, the first and the last included,
satisfies `property`. -/
def Always (step : Step σ α) (property : σ → Prop) : σ → List α → Prop
  | state, [] => property state
  | state, action :: rest =>
      property state ∧
        ∀ next, step state action = some next → Always step property next rest

/-- Every enabled step of the run relates the states before and after it. -/
def Stepwise (step : Step σ α) (relation : σ → α → σ → Prop) : σ → List α → Prop
  | _, [] => True
  | state, action :: rest =>
      ∀ next, step state action = some next →
        relation state action next ∧ Stepwise step relation next rest

/-- What the steps of a run yield, in order. -/
def collect {β : Type v} (step : Step σ α) (yields : σ → α → Option β) : σ → List α → List β
  | _, [] => []
  | state, action :: rest =>
      (yields state action).toList ++
        match step state action with
        | some next => collect step yields next rest
        | none => []

theorem collect_cons {β : Type v} {step : Step σ α} (yields : σ → α → Option β) {state next : σ}
    {action : α} (taken : step state action = some next) (rest : List α) :
    collect step yields state (action :: rest) =
      (yields state action).toList ++ collect step yields next rest := by
  rw [collect, taken]

theorem Guarded.cons {step : Step σ α} {condition : σ → α → Prop} {state next : σ}
    {action : α} {rest : List α} (taken : step state action = some next)
    (met : condition state action) (guardedRest : Guarded step condition next rest) :
    Guarded step condition state (action :: rest) := by
  intro other takenOther
  obtain rfl := Option.some.inj (taken.symm.trans takenOther)
  exact ⟨met, guardedRest⟩

/-- Guardedness can be computed by executing the run. -/
instance Guarded.decidable (step : Step σ α) (condition : σ → α → Prop)
    [∀ state action, Decidable (condition state action)] :
    (state : σ) → (actions : List α) → Decidable (Guarded step condition state actions)
  | _, [] => isTrue trivial
  | state, action :: rest =>
      match taken : step state action with
      | none => isTrue fun _ enabled => nomatch taken.symm.trans enabled
      | some next =>
          have := Guarded.decidable step condition next rest
          decidable_of_iff (condition state action ∧ Guarded step condition next rest)
            ⟨fun both => .cons taken both.1 both.2, fun guarded => guarded next taken⟩

/-- What holds of every action of the run joins the condition. -/
theorem Guarded.and_of_mem {step : Step σ α} {condition : σ → α → Prop} {allowed : α → Prop}
    {state : σ} {actions : List α} (guarded : Guarded step condition state actions)
    (all : ∀ action ∈ actions, allowed action) :
    Guarded step (fun state action => condition state action ∧ allowed action)
      state actions := by
  induction actions generalizing state with
  | nil => exact trivial
  | cons action rest ih =>
      intro next taken
      rcases guarded next taken with ⟨met, guardedRest⟩
      constructor
      · exact ⟨met, all action List.mem_cons_self⟩
      · exact ih guardedRest fun other member => all other (List.mem_cons_of_mem action member)

theorem Always.head {step : Step σ α} {property : σ → Prop} {state : σ}
    {actions : List α} (always : Always step property state actions) :
    property state := by
  cases actions with
  | nil => exact always
  | cons action rest => exact always.1

theorem Always.last {step : Step σ α} {property : σ → Prop} {state final : σ}
    {actions : List α} (always : Always step property state actions)
    (executed : run step state actions = some final) : property final := by
  induction actions generalizing state with
  | nil =>
      cases executed
      exact always
  | cons action rest ih =>
      obtain ⟨next, taken, executedRest⟩ :=
        (run_cons_eq_some_iff step state final action rest).mp executed
      exact ih (always.2 next taken) executedRest

/-- Invariant rule for guarded runs: what every guarded step preserves holds in
the final state of every guarded run. -/
theorem invariant_of_guarded {step : Step σ α} {condition : σ → α → Prop}
    {invariant : σ → Prop}
    (preserved : ∀ state action next, invariant state → condition state action →
      step state action = some next → invariant next)
    {state final : σ} {actions : List α} (initial : invariant state)
    (guarded : Guarded step condition state actions)
    (executed : run step state actions = some final) : invariant final := by
  induction actions generalizing state with
  | nil =>
      cases executed
      exact initial
  | cons action rest ih =>
      obtain ⟨next, taken, executedRest⟩ :=
        (run_cons_eq_some_iff step state final action rest).mp executed
      obtain ⟨met, guardedRest⟩ := guarded next taken
      exact ih (preserved state action next initial met taken) guardedRest executedRest

/-- Invariant rule for all runs. -/
theorem invariant_of_run {step : Step σ α} {invariant : σ → Prop}
    (preserved : ∀ state action next, invariant state →
      step state action = some next → invariant next)
    {state final : σ} {actions : List α} (initial : invariant state)
    (executed : run step state actions = some final) : invariant final := by
  induction actions generalizing state with
  | nil =>
      cases executed
      exact initial
  | cons action rest ih =>
      obtain ⟨next, taken, executedRest⟩ :=
        (run_cons_eq_some_iff step state final action rest).mp executed
      exact ih (preserved state action next initial taken) executedRest

/-- The relation holds at every step that a run reaches. -/
theorem Stepwise.at_step {step : Step σ α} {relation : σ → α → σ → Prop} {state reached next : σ}
    {before after : List α} {action : α}
    (stepwise : Stepwise step relation state (before ++ action :: after))
    (executed : run step state before = some reached)
    (taken : step reached action = some next) : relation reached action next := by
  induction before generalizing state with
  | nil =>
      cases executed
      exact (stepwise next taken).1
  | cons first rest ih =>
      obtain ⟨second, takenFirst, executedRest⟩ :=
        (run_cons_eq_some_iff step state reached first rest).mp executed
      exact ih (stepwise second takenFirst).2 executedRest

/-- What guarded steps from an invariant do holds at every step of a guarded
run. -/
theorem stepwise_of_guarded {step : Step σ α} {condition : σ → α → Prop} {invariant : σ → Prop}
    {relation : σ → α → σ → Prop}
    (preserved : ∀ state action next, invariant state → condition state action →
      step state action = some next → invariant next ∧ relation state action next)
    {state : σ} {actions : List α} (initial : invariant state)
    (guarded : Guarded step condition state actions) : Stepwise step relation state actions := by
  induction actions generalizing state with
  | nil => exact trivial
  | cons action rest ih =>
      intro next taken
      obtain ⟨met, guardedRest⟩ := guarded next taken
      obtain ⟨kept, related⟩ := preserved state action next initial met taken
      exact ⟨related, ih kept guardedRest⟩

/-- What every step does holds at every step of a run. -/
theorem stepwise_of_forall {step : Step σ α} {relation : σ → α → σ → Prop}
    (related : ∀ state action next, step state action = some next → relation state action next)
    (state : σ) (actions : List α) : Stepwise step relation state actions := by
  induction actions generalizing state with
  | nil => exact trivial
  | cons action rest ih => exact fun next taken => ⟨related state action next taken, ih next⟩

/-- A guarded run keeps a property in all its states, provided guarded steps
preserve an invariant that implies the property. -/
theorem always_of_guarded {step : Step σ α} {condition : σ → α → Prop}
    {invariant property : σ → Prop}
    (holds : ∀ state, invariant state → property state)
    (preserved : ∀ state action next, invariant state → condition state action →
      step state action = some next → invariant next)
    {state : σ} {actions : List α} (initial : invariant state)
    (guarded : Guarded step condition state actions) : Always step property state actions := by
  induction actions generalizing state with
  | nil => exact holds state initial
  | cons action rest ih =>
      constructor
      · exact holds state initial
      · intro next taken
        rcases guarded next taken with ⟨met, guardedRest⟩
        exact ih (preserved state action next initial met taken) guardedRest

/-- A run keeps a property in all its states exactly when all its steps meet a
condition, provided guarded steps preserve an invariant that implies the
property and an unguarded step destroys the property at once. -/
theorem always_iff_guarded {step : Step σ α} {condition : σ → α → Prop}
    {invariant property : σ → Prop}
    (holds : ∀ state, invariant state → property state)
    (preserved : ∀ state action next, invariant state → condition state action →
      step state action = some next → invariant next)
    (destroyed : ∀ state action next, invariant state → ¬ condition state action →
      step state action = some next → ¬ property next)
    {state : σ} (initial : invariant state) (actions : List α) :
    Always step property state actions ↔ Guarded step condition state actions := by
  induction actions generalizing state with
  | nil => exact ⟨fun _ => trivial, fun _ => holds state initial⟩
  | cons action rest ih =>
      constructor
      · rintro ⟨_, alwaysRest⟩ next taken
        have met : condition state action := by
          by_contra unmet
          exact destroyed state action next initial unmet taken (alwaysRest next taken).head
        exact ⟨met, (ih (preserved state action next initial met taken)).mp
          (alwaysRest next taken)⟩
      · exact always_of_guarded holds preserved initial

/-- All steps of a run that keeps a property meet a condition, provided a step
that does not either destroys the property at once or leaves a flaw that no
later step removes and that shows in the last state. -/
theorem guarded_of_always {step : Step σ α} {condition : σ → α → Prop}
    {invariant property flawed : σ → Prop}
    (preserved : ∀ state action next, invariant state → step state action = some next →
      invariant next)
    (broken : ∀ state action next, invariant state → ¬ condition state action →
      step state action = some next → ¬ property next ∨ flawed next)
    (stays : ∀ state action next, invariant state → flawed state →
      step state action = some next → flawed next)
    {state final : σ} {actions : List α} (shows : flawed final → ¬ property final)
    (initial : invariant state) (executed : run step state actions = some final)
    (always : Always step property state actions) : Guarded step condition state actions := by
  have joint : ∀ state action next, invariant state ∧ flawed state →
      step state action = some next → invariant next ∧ flawed next := by
    rintro state action next ⟨holds, flaw⟩ taken
    exact ⟨preserved state action next holds taken, stays state action next holds flaw taken⟩
  induction actions generalizing state with
  | nil => exact trivial
  | cons action rest ih =>
      intro next taken
      obtain ⟨other, takenOther, executedRest⟩ :=
        (run_cons_eq_some_iff step state final action rest).mp executed
      cases takenOther.symm.trans taken
      have kept := preserved state action _ initial taken
      constructor
      · by_contra unmet
        rcases broken state action _ initial unmet taken with destroyed | flaw
        · exact destroyed (always.2 _ taken).head
        · have both := invariant_of_run joint ⟨kept, flaw⟩ executedRest
          exact shows both.2 ((always.2 _ taken).last executedRest)
      · exact ih kept executedRest (always.2 _ taken)

/-- Every action of the run is permitted in the state in which it is attempted,
whether or not the step is defined there. -/
def Permitted (step : Step σ α) (permission : σ → α → Prop) : σ → List α → Prop
  | _, [] => True
  | state, action :: rest =>
      permission state action ∧
        ∀ next, step state action = some next → Permitted step permission next rest

/-- Permission can be computed by executing the run. -/
instance Permitted.decidable (step : Step σ α) (permission : σ → α → Prop)
    [∀ state action, Decidable (permission state action)] :
    (state : σ) → (actions : List α) → Decidable (Permitted step permission state actions)
  | _, [] => isTrue trivial
  | state, action :: rest =>
      match taken : step state action with
      | none =>
          decidable_of_iff (permission state action)
            ⟨fun allowed => ⟨allowed, fun _ enabled => nomatch taken.symm.trans enabled⟩, And.left⟩
      | some next =>
          have := Permitted.decidable step permission next rest
          decidable_of_iff (permission state action ∧ Permitted step permission next rest)
            ⟨fun both => ⟨both.1, fun _ enabled =>
              Option.some.inj (taken.symm.trans enabled) ▸ both.2⟩,
              fun permitted => ⟨permitted.1, permitted.2 next taken⟩⟩

/-- Progress and preservation: when a permitted action is always defined and
keeps an invariant, no permitted run is cut short.  The invariant may speak
about the actions already taken. -/
theorem exists_run_of_permitted {step : Step σ α} {permission : σ → α → Prop}
    (invariant : List α → σ → Prop)
    (progress : ∀ done state action, invariant done state → permission state action →
      ∃ next, step state action = some next ∧ invariant (done ++ [action]) next)
    {state : σ} {actions : List α} (initial : invariant [] state)
    (permitted : Permitted step permission state actions) :
    ∃ final, run step state actions = some final ∧ invariant actions final := by
  suffices general : ∀ done, invariant done state →
      ∃ final, run step state actions = some final ∧ invariant (done ++ actions) final by
    exact general [] initial
  clear initial
  induction actions generalizing state with
  | nil =>
      intro done holds
      exact ⟨state, rfl, by simpa using holds⟩
  | cons action rest ih =>
      intro done holds
      rcases permitted with ⟨allowed, permittedRest⟩
      obtain ⟨next, taken, kept⟩ := progress done state action holds allowed
      obtain ⟨final, executed, reached⟩ := ih (permittedRest next taken) (done ++ [action]) kept
      exact ⟨final, (run_cons_eq_some_iff step state final action rest).mpr ⟨next, taken, executed⟩,
        by simpa using reached⟩

/-- Two permissions given throughout a run. -/
theorem Permitted.and {step : Step σ α} {permission also : σ → α → Prop} {state : σ}
    {actions : List α} (permitted : Permitted step permission state actions)
    (permittedAlso : Permitted step also state actions) :
    Permitted step (fun state action => permission state action ∧ also state action)
      state actions := by
  induction actions generalizing state with
  | nil => exact trivial
  | cons action rest ih =>
      rcases permitted with ⟨allowed, permittedRest⟩
      rcases permittedAlso with ⟨allowedAlso, permittedAlsoRest⟩
      constructor
      · exact ⟨allowed, allowedAlso⟩
      · intro next taken
        exact ih (permittedRest next taken) (permittedAlsoRest next taken)

theorem Permitted.imp {step : Step σ α} {permission weaker : σ → α → Prop}
    (implied : ∀ state action, permission state action → weaker state action) {state : σ}
    {actions : List α} (permitted : Permitted step permission state actions) :
    Permitted step weaker state actions := by
  induction actions generalizing state with
  | nil => exact trivial
  | cons action rest ih =>
      rcases permitted with ⟨allowed, permittedRest⟩
      constructor
      · exact implied state action allowed
      · intro next taken
        exact ih (permittedRest next taken)

/-- What holds of every action of a run is permitted throughout. -/
theorem permitted_of_mem {step : Step σ α} {allowed : α → Prop} (state : σ) {actions : List α}
    (all : ∀ action ∈ actions, allowed action) :
    Permitted step (fun _ action => allowed action) state actions := by
  induction actions generalizing state with
  | nil => exact trivial
  | cons action rest ih =>
      constructor
      · exact all action List.mem_cons_self
      · intro next _
        exact ih next fun other member => all other (List.mem_cons_of_mem action member)

/-- A permitted run up to its last action, and that action. -/
theorem Permitted.concat {step : Step σ α} {permission : σ → α → Prop} {state reached : σ}
    {before : List α} {action : α} (permitted : Permitted step permission state (before ++ [action]))
    (executed : run step state before = some reached) :
    Permitted step permission state before ∧ permission reached action := by
  induction before generalizing state with
  | nil =>
      cases executed
      exact ⟨trivial, permitted.1⟩
  | cons first rest ih =>
      obtain ⟨next, taken, executedRest⟩ :=
        (run_cons_eq_some_iff step state reached first rest).mp executed
      rcases permitted with ⟨allowed, permittedRest⟩
      obtain ⟨kept, last⟩ := ih (permittedRest next taken) executedRest
      refine ⟨⟨allowed, fun other takenOther => ?_⟩, last⟩
      obtain rfl := Option.some.inj (taken.symm.trans takenOther)
      exact kept

/-- Translating actions: when a permitted action is defined as its translation,
which is permitted too, a permitted run is executed as the translated one. -/
theorem Permitted.map {β : Type v} {step : Step σ α} {step' : Step σ β}
    {permission : σ → α → Prop} {permission' : σ → β → Prop} (translate : α → β)
    (simulates : ∀ state action, permission state action →
      step state action = step' state (translate action) ∧ permission' state (translate action))
    {state : σ} {actions : List α} (permitted : Permitted step permission state actions) :
    Permitted step' permission' state (actions.map translate) ∧
      run step state actions = run step' state (actions.map translate) := by
  induction actions generalizing state with
  | nil => exact ⟨trivial, rfl⟩
  | cons action rest ih =>
      rcases permitted with ⟨allowed, permittedRest⟩
      obtain ⟨same, allowed'⟩ := simulates state action allowed
      constructor
      · constructor
        · exact allowed'
        · intro next taken
          exact (ih (permittedRest next (same.trans taken))).1
      · rw [List.map_cons, run, run, same]
        cases taken : step' state (translate action) with
        | none => rfl
        | some next => exact (ih (permittedRest next (same.trans taken))).2

/-- A loop whose body always succeeds succeeds; the invariant may speak about
the elements already passed. -/
theorem exists_foldlM_eq_some {body : Step σ α} (invariant : List α → σ → Prop) (items : List α)
    (progress : ∀ done item state, item ∈ items → invariant done state →
      ∃ next, body state item = some next ∧ invariant (done ++ [item]) next)
    {state : σ} (initial : invariant [] state) :
    ∃ final, items.foldlM body state = some final ∧ invariant items final := by
  suffices general : ∀ done, invariant done state →
      ∃ final, items.foldlM body state = some final ∧ invariant (done ++ items) final by
    exact general [] initial
  clear initial
  induction items generalizing state with
  | nil =>
      intro done holds
      exact ⟨state, rfl, by simpa using holds⟩
  | cons item rest ih =>
      intro done holds
      obtain ⟨next, taken, kept⟩ := progress done item state List.mem_cons_self holds
      obtain ⟨final, executed, reached⟩ :=
        ih (fun done other state member => progress done other state (List.mem_cons_of_mem item member))
          (done ++ [item]) kept
      constructor
      · constructor
        · rw [List.foldlM_cons, taken]
          exact executed
        · simpa using reached

end DyeIsLife.Transition
