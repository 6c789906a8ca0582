import Mathlib.Logic.Relation

/-!
# Guarded runs of a transition system

A run is a sequence of labelled steps from a start state.  Each step may be
subject to a guard on the state it is taken in.  `Reached` collects the states
of all guarded runs, and `Reached.invariant` is the induction principle that the
safety results of every component use.
-/

namespace Pegasos.Support

universe u v v' w

variable {State : Type u} {Action : Type v}

/-- States of the runs that begin in a `start` state and whose steps all meet
`guard` in the state in which they are taken. -/
inductive Reached (start : State → Prop) (step : State → Action → State → Prop)
    (guard : State → Action → Prop) : State → Prop where
  | start {state : State} : start state → Reached start step guard state
  | step {state state' : State} {action : Action} :
      Reached start step guard state → guard state action →
      step state action state' → Reached start step guard state'

/-- Reachability without a guard. -/
abbrev Reachable (start : State → Prop) (step : State → Action → State → Prop) :
    State → Prop :=
  Reached start step fun _ _ => True

namespace Reached

variable {start : State → Prop} {step : State → Action → State → Prop}
variable {guard weaker : State → Action → Prop}

/-- A predicate that holds in every start state and is preserved by every
guarded step holds in every state of every guarded run. -/
theorem invariant {state : State} (reached : Reached start step guard state)
    (property : State → Prop)
    (initial : ∀ {state}, start state → property state)
    (preserved : ∀ {state state' action}, property state → guard state action →
      step state action state' → property state') :
    property state := by
  induction reached with
  | start isStart => exact initial isStart
  | step _ guarded taken ih => exact preserved ih guarded taken

/-- Weakening the guard keeps every reached state. -/
theorem mono {state : State} (reached : Reached start step guard state)
    (weaken : ∀ {state action}, guard state action → weaker state action) :
    Reached start step weaker state := by
  induction reached with
  | start isStart => exact .start isStart
  | step _ guarded taken ih => exact .step ih (weaken guarded) taken

end Reached

/-! ## Executable runs -/

/-- The state after a list of actions, if every one of them can be taken. -/
def runs (step : State → Action → Option State) : State → List Action → Option State
  | state, [] => some state
  | state, action :: rest => (step state action).bind fun state' => runs step state' rest

/-- Every action of a list meets `guard` in the state in which it is taken. -/
def Along (step : State → Action → Option State) (guard : State → Action → Prop) :
    State → List Action → Prop
  | _, [] => True
  | state, action :: rest =>
      guard state action ∧ ∀ state', step state action = some state' → Along step guard state' rest

section Runs

variable {step : State → Action → Option State} {guard : State → Action → Prop}
variable {start : State → Prop} {state state' : State} {actions : List Action}

theorem Reached.runs (reached : Reached start (fun s a s' => step s a = some s') guard state)
    (along : Along step guard state actions) (ran : Support.runs step state actions = some state') :
    Reached start (fun s a s' => step s a = some s') guard state' := by
  induction actions generalizing state with
  | nil =>
      simp only [Support.runs, Option.some.injEq] at ran
      exact ran ▸ reached
  | cons action rest ih =>
      obtain ⟨middle, taken, ran⟩ := Option.bind_eq_some_iff.mp ran
      exact ih (.step reached along.1 taken) (along.2 middle taken) ran

theorem along_true : Along step (fun _ _ => True) state actions := by
  induction actions generalizing state with
  | nil => trivial
  | cons action rest ih => exact ⟨trivial, fun _ _ => ih⟩

/-- Whether a list of actions meets a decidable guard can be computed. -/
instance decidableAlong [∀ state action, Decidable (guard state action)] :
    (state : State) → (actions : List Action) → Decidable (Along step guard state actions)
  | _, [] => isTrue trivial
  | state, action :: rest =>
      match taken : step state action with
      | none =>
          decidable_of_iff (guard state action)
            ⟨fun guarded => ⟨guarded, by simp [taken]⟩, fun along => along.1⟩
      | some state' =>
          have : Decidable (Along step guard state' rest) := decidableAlong state' rest
          decidable_of_iff (guard state action ∧ Along step guard state' rest)
            ⟨fun both => ⟨both.1, fun _ other => by
                obtain rfl := Option.some.inj (taken.symm.trans other)
                exact both.2⟩,
              fun along => ⟨along.1, along.2 state' taken⟩⟩

/-- The state after an executable run whose actions meet the guard is reached. -/
theorem reached_of_runs (isStart : start state) (along : Along step guard state actions)
    (ran : Support.runs step state actions = some state') :
    Reached start (fun s a s' => step s a = some s') guard state' :=
  (Reached.start isStart).runs along ran

/-- The state after an executable run is reachable. -/
theorem reachable_of_runs (isStart : start state)
    (ran : Support.runs step state actions = some state') :
    Reachable start (fun s a s' => step s a = some s') state' :=
  reached_of_runs isStart along_true ran

end Runs

/-! ## Runs with outputs -/

/-- The outputs of a list of actions and the state behind them. -/
def trace {Output : Type w} (step : State → Action → Output × State) :
    State → List Action → List Output × State
  | state, [] => ([], state)
  | state, action :: rest =>
      let (output, state) := step state action
      let (outputs, state) := trace step state rest
      (output :: outputs, state)

/-- Every action of a list meets `guard` in the state in which it is taken. -/
def Guarded {Output : Type w} (step : State → Action → Output × State)
    (guard : State → Action → Prop) : State → List Action → Prop
  | _, [] => True
  | state, action :: rest => guard state action ∧ Guarded step guard (step state action).2 rest

/-- A system whose steps give the same outputs as those of another one, and keep a
relation to it, has the outputs of the other one in every run. -/
theorem trace_simulates {Output : Type w} {Abstract : Type v'}
    {step : State → Action → Output × State} {step' : Abstract → Action → Output × Abstract}
    {guard : Abstract → Action → Prop} {related : State → Abstract → Prop}
    (simulates : ∀ {state abstract action}, related state abstract → guard abstract action →
      (step state action).1 = (step' abstract action).1 ∧
        related (step state action).2 (step' abstract action).2)
    {state : State} {abstract : Abstract} {actions : List Action}
    (start : related state abstract) (guarded : Guarded step' guard abstract actions) :
    (trace step state actions).1 = (trace step' abstract actions).1 ∧
      related (trace step state actions).2 (trace step' abstract actions).2 := by
  induction actions generalizing state abstract with
  | nil => exact ⟨rfl, start⟩
  | cons action rest ih =>
      obtain ⟨output, next⟩ := simulates start guarded.1
      obtain ⟨outputs, last⟩ := ih next guarded.2
      exact ⟨congrArg₂ List.cons output outputs, last⟩

end Pegasos.Support
