import Mathlib.Logic.Relation
import Mathlib.Tactic.Common

/-!
# Unbounded loops

A loop without a condition runs its body until the body leaves it.  A model of such a loop takes
its turns with a fuel; if every turn keeps an invariant, does not panic and makes a measure
smaller, then a fuel above the measure is enough.
-/

namespace ShardedKV.Loops

variable {State : Type}

/-- What one turn of a loop does. -/
inductive Turn (State : Type) where
  | leave
  | next (state : State)
  | panic

/-- The state in which the loop is left, if that happens within the fuel. -/
def run (turn : State → Turn State) : Nat → State → Option State
  | 0, _ => none
  | fuel + 1, state =>
    match turn state with
    | .leave => some state
    | .next state => run turn fuel state
    | .panic => none

theorem run_of_measure {turn : State → Turn State} {invariant : State → Prop} {measure : State → Nat}
    (safe : ∀ state, invariant state → turn state ≠ .panic)
    (keeps : ∀ state after, invariant state → turn state = .next after →
      invariant after ∧ measure after < measure state)
    {fuel : Nat} {state : State} (start : invariant state) (enough : measure state < fuel) :
    ∃ final, run turn fuel state = some final ∧ invariant final ∧ turn final = .leave := by
  induction fuel generalizing state with
  | zero => omega
  | succ fuel inductionHypothesis =>
    cases here : turn state with
    | leave => exact ⟨state, by simp [run, here], start, here⟩
    | next after =>
      obtain ⟨kept, smaller⟩ := keeps state after start here
      obtain ⟨final, ran, holds, left⟩ := inductionHypothesis kept (by omega)
      exact ⟨final, by simp [run, here, ran], holds, left⟩
    | panic => exact absurd here (safe state start)

/-- The loop comes from one state to another. -/
def Reaches (turn : State → Turn State) : State → State → Prop :=
  Relation.ReflTransGen fun state after => turn state = .next after

theorem Reaches.invariant {turn : State → Turn State} {invariant : State → Prop}
    (keeps : ∀ state after, invariant state → turn state = .next after → invariant after)
    {state later : State} (start : invariant state) (reaches : Reaches turn state later) : invariant later := by
  induction reaches with
  | refl => exact start
  | tail _ goesOn inductionHypothesis => exact keeps _ _ inductionHypothesis goesOn

theorem run_reaches {turn : State → Turn State} {fuel : Nat} {state final : State}
    (ran : run turn fuel state = some final) : Reaches turn state final ∧ turn final = .leave := by
  induction fuel generalizing state with
  | zero => cases ran
  | succ fuel inductionHypothesis =>
    cases here : turn state with
    | leave =>
      simp only [run, here, Option.some.injEq] at ran
      subst ran
      exact ⟨.refl, here⟩
    | next after =>
      simp only [run, here] at ran
      obtain ⟨reaches, left⟩ := inductionHypothesis ran
      exact ⟨.head here reaches, left⟩
    | panic => simp [run, here] at ran

theorem run_invariant {turn : State → Turn State} {invariant : State → Prop}
    (keeps : ∀ state after, invariant state → turn state = .next after → invariant after)
    {fuel : Nat} {state final : State} (start : invariant state) (ran : run turn fuel state = some final) :
    invariant final ∧ turn final = .leave := by
  obtain ⟨reaches, left⟩ := run_reaches ran
  exact ⟨reaches.invariant keeps start, left⟩

theorem run_of_le {turn : State → Turn State} {fuel more : Nat} (enough : fuel ≤ more) {state final : State}
    (ran : run turn fuel state = some final) : run turn more state = some final := by
  induction fuel generalizing state more with
  | zero => cases ran
  | succ fuel inductionHypothesis =>
    obtain ⟨more, rfl⟩ : ∃ fewer, more = fewer + 1 := ⟨more - 1, by omega⟩
    cases here : turn state with
    | leave => simpa only [run, here] using ran
    | next after =>
      simp only [run, here] at ran ⊢
      exact inductionHypothesis (by omega) ran
    | panic => simp [run, here] at ran

/-- What two loops do in one turn, with states in relation. -/
inductive Turn.Related (related : State → State → Prop) : Turn State → Turn State → Prop where
  | leave : Related related .leave .leave
  | next {one other : State} (here : related one other) : Related related (.next one) (.next other)
  | panic : Related related .panic .panic

theorem run_related {turn turn' : State → Turn State} {related : State → State → Prop}
    (turns : ∀ one other, related one other → Turn.Related related (turn one) (turn' other))
    (fuel : Nat) {one other : State} (start : related one other) :
    Option.Rel related (run turn fuel one) (run turn' fuel other) := by
  induction fuel generalizing one other with
  | zero => exact .none
  | succ fuel inductionHypothesis =>
    have here := turns one other start
    simp only [run]
    generalize turn one = first at here ⊢
    generalize turn' other = second at here ⊢
    cases here with
    | leave => exact .some start
    | next after => exact inductionHypothesis after
    | panic => exact .none

end ShardedKV.Loops
