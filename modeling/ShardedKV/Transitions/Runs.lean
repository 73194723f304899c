import Mathlib.Tactic.Common

/-!
# Runs of a step function

A step is taken or is not possible.  A condition on the state and the action before a step can be
asked of every step of a run.
-/

namespace ShardedKV.Transitions

variable {State Action : Type} (step : State → Action → Option State)

def run (state : State) : List Action → Option State
  | [] => some state
  | action :: actions => (step state action).bind fun next => run next actions

section Runs

variable {step}

theorem eq_run {runs : State → List Action → Option State} (nil : ∀ state, runs state [] = some state)
    (cons : ∀ state action actions, runs state (action :: actions) =
      (step state action).bind fun next => runs next actions) (state : State) (actions : List Action) :
    runs state actions = run step state actions := by
  induction actions generalizing state with
  | nil => exact nil state
  | cons action actions inductionHypothesis => rw [cons, run, funext inductionHypothesis]

theorem run_append (state : State) (actions more : List Action) :
    run step state (actions ++ more) = (run step state actions).bind fun middle => run step middle more := by
  induction actions generalizing state with
  | nil => rfl
  | cons action actions inductionHypothesis => simp only [List.cons_append, run, inductionHypothesis, Option.bind_assoc]

theorem run_keeps {invariant : State → Prop}
    (keeps : ∀ state action next, invariant state → step state action = some next → invariant next)
    {state final : State} {actions : List Action} (start : invariant state)
    (ran : run step state actions = some final) : invariant final := by
  induction actions generalizing state with
  | nil =>
    cases ran
    exact start
  | cons action actions inductionHypothesis =>
    obtain ⟨next, stepped, rest⟩ := Option.bind_eq_some_iff.mp ran
    exact inductionHypothesis (keeps state action next start stepped) rest

end Runs

/-- Every step of the run meets the condition. -/
def Throughout (condition : State → Action → Prop) (state : State) : List Action → Prop
  | [] => True
  | action :: actions => condition state action ∧
    match step state action with
    | none => True
    | some next => Throughout condition next actions

instance decidableThroughout (condition : State → Action → Prop)
    [decidable : ∀ state action, Decidable (condition state action)] (state : State) :
    (actions : List Action) → Decidable (Throughout step condition state actions)
  | [] => .isTrue trivial
  | action :: actions =>
    match holds : step state action with
    | none => decidable_of_iff (condition state action) (by simp [Throughout, holds])
    | some next =>
      have := decidableThroughout condition next actions
      decidable_of_iff (condition state action ∧ Throughout step condition next actions) (by simp [Throughout, holds])

variable {step} {condition : State → Action → Prop}

/-- What every step that meets the condition keeps, a run that meets it throughout keeps. -/
theorem run_invariant {invariant : State → Prop}
    (keeps : ∀ state action next, invariant state → condition state action → step state action = some next →
      invariant next)
    {state final : State} {actions : List Action} (start : invariant state)
    (throughout : Throughout step condition state actions) (ran : run step state actions = some final) :
    invariant final := by
  induction actions generalizing state with
  | nil =>
    cases ran
    exact start
  | cons action actions inductionHypothesis =>
    obtain ⟨next, stepped, rest⟩ := Option.bind_eq_some_iff.mp ran
    obtain ⟨meets, later⟩ := throughout
    rw [stepped] at later
    exact inductionHypothesis (keeps state action next start meets stepped) later rest

end ShardedKV.Transitions
