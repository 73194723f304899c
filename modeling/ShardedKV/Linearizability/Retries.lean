import Mathlib.Data.Nat.Find
import ShardedKV.Linearizability.History

/-!
# Retried operations

A client that repeats a request until it is answered makes a service perform one operation
several times.  An update must change the object the first time only, and its answer says
nothing about the object; a read changes nothing, and any of its performances may be the one
that is answered.  Such a run is linearizable: an update takes effect when it is first
performed, a read when it is performed for its answer.
-/

namespace ShardedKV.Linearizability

variable {State Op Ret Id Record : Type}

/-- Reads leave every state alone; what an update returns does not depend on the state. -/
structure ReadsAndUpdates (object : Sequential State Op Ret) (isRead : Op → Bool) : Prop where
  reads : ∀ state op, isRead op = true → (object.step state op).1 = state
  updates : ∀ first second op, isRead op = false →
    (object.step first op).2 = (object.step second op).2

/-- `performed t` is the operation the service performs at moment `t`, perhaps again. -/
structure Retried (object : Sequential State Op Ret) (observe : Record → Option (Event Id Op Ret))
    (run : List Record) (state : Nat → State) (performed : Nat → Option (Id × Op)) : Prop where
  initial : state 0 = object.initial
  idle : ∀ t < run.length, performed t = none → state (t + 1) = state t
  fresh : ∀ t < run.length, ∀ id op, performed t = some (id, op) →
    (∀ u < t, ∀ op', performed u ≠ some (id, op')) → state (t + 1) = (object.step (state t) op).1
  repeated : ∀ t < run.length, ∀ id op, performed t = some (id, op) →
    (∃ u < t, ∃ op', performed u = some (id, op')) → state (t + 1) = state t
  invoked : ∀ t id op, performed t = some (id, op) →
    ∃ i < t, seen observe run i = some (.invoke id op)
  invokedOnce : ∀ i j id op op', seen observe run i = some (.invoke id op) →
    seen observe run j = some (.invoke id op') → i = j
  answered : ∀ j id ret, seen observe run j = some (.respond id ret) →
    ∃ t < j, ∃ op, performed t = some (id, op) ∧ (object.step (state t) op).2 = ret
  answeredOnce : ∀ i j id ret ret', seen observe run i = some (.respond id ret) →
    seen observe run j = some (.respond id ret') → i = j

namespace Retried

variable {object : Sequential State Op Ret} {observe : Record → Option (Event Id Op Ret)}
  {run : List Record} {state : Nat → State} {performed : Nat → Option (Id × Op)}

theorem same_op (retried : Retried object observe run state performed) {t u : Nat} {id : Id}
    {op op' : Op} (first : performed t = some (id, op)) (second : performed u = some (id, op')) :
    op = op' := by
  obtain ⟨i, _, invoked⟩ := retried.invoked t id op first
  obtain ⟨j, _, invoked'⟩ := retried.invoked u id op' second
  have same := retried.invokedOnce i j id op op' invoked invoked'
  rw [same, invoked'] at invoked
  cases invoked
  rfl

theorem exists_answer (retried : Retried object observe run state performed) (id : Id) :
    ∃ t, ∀ j ret, seen observe run j = some (.respond id ret) →
      t < j ∧ ∃ op, performed t = some (id, op) ∧ (object.step (state t) op).2 = ret := by
  by_cases responded : ∃ i ret, seen observe run i = some (.respond id ret)
  · obtain ⟨i, ret, response⟩ := responded
    obtain ⟨t, before, op, here, returned⟩ := retried.answered i id ret response
    refine ⟨t, fun j ret' response' => ?_⟩
    -- There is one response, so the answer found for it is the answer for every response.
    have same := retried.answeredOnce i j id ret ret' response response'
    rw [same, response'] at response
    cases response
    exact ⟨same ▸ before, op, here, returned⟩
  · exact ⟨0, fun j ret response => absurd ⟨j, ret, response⟩ responded⟩

theorem exists_first {t : Nat} {id : Id} {op : Op} (here : performed t = some (id, op)) :
    ∃ u ≤ t, (∃ op', performed u = some (id, op')) ∧ ∀ v < u, ∀ op', performed v ≠ some (id, op') := by
  classical
  have exists_performance : ∃ u, ∃ op', performed u = some (id, op') := ⟨t, op, here⟩
  refine ⟨Nat.find exists_performance, Nat.find_min' exists_performance ⟨op, here⟩,
    Nat.find_spec exists_performance, fun v before op' again => ?_⟩
  exact Nat.find_min exists_performance before ⟨op', again⟩

/-- Does the operation take effect at `t`: a read when it is answered from `t`, an update when
`t` is its first performance? -/
def TakesEffect (observe : Record → Option (Event Id Op Ret)) (run : List Record)
    (performed : Nat → Option (Id × Op)) (isRead : Op → Bool) (answer : Id → Nat)
    (t : Nat) (id : Id) (op : Op) : Prop :=
  if isRead op then t = answer id ∧ ∃ j ret, seen observe run j = some (.respond id ret)
  else ∀ u < t, ∀ op', performed u ≠ some (id, op')

open Classical in
noncomputable def point (object : Sequential State Op Ret) (state : Nat → State)
    (observe : Record → Option (Event Id Op Ret)) (run : List Record)
    (performed : Nat → Option (Id × Op)) (isRead : Op → Bool) (answer : Id → Nat) (t : Nat) :
    Option (Id × Op × Ret) :=
  match performed t with
  | none => none
  | some (id, op) =>
    if TakesEffect observe run performed isRead answer t id op then
      some (id, op, (object.step (state t) op).2)
    else none

section

variable {isRead : Op → Bool} {answer : Id → Nat}

theorem point_eq_some {t : Nat} {id : Id} {op : Op} {ret : Ret} :
    point object state observe run performed isRead answer t = some (id, op, ret) ↔
      performed t = some (id, op) ∧ (object.step (state t) op).2 = ret ∧
        TakesEffect observe run performed isRead answer t id op := by
  unfold point
  cases performed t with
  | none => simp
  | some entry =>
    obtain ⟨id', op'⟩ := entry
    by_cases effective : TakesEffect observe run performed isRead answer t id' op'
    · simp only [effective, if_true, Option.some.injEq, Prod.mk.injEq]
      constructor
      · rintro ⟨rfl, rfl, rfl⟩
        exact ⟨⟨rfl, rfl⟩, rfl, effective⟩
      · rintro ⟨⟨rfl, rfl⟩, rfl, _⟩
        exact ⟨rfl, rfl, rfl⟩
    · simp only [effective, if_false, Option.some.injEq, Prod.mk.injEq]
      constructor
      · intro impossible
        cases impossible
      · rintro ⟨⟨rfl, rfl⟩, _, effective'⟩
        exact absurd effective' effective

theorem point_eq_none {t : Nat}
    (silent : point object state observe run performed isRead answer t = none) :
    performed t = none ∨ ∃ id op, performed t = some (id, op) ∧
      ¬ TakesEffect observe run performed isRead answer t id op := by
  unfold point at silent
  cases here : performed t with
  | none => exact .inl rfl
  | some entry =>
    refine .inr ⟨entry.1, entry.2, rfl, fun effective => ?_⟩
    simp [here, effective] at silent

end

variable (retried : Retried object observe run state performed)
include retried

theorem read_keeps {isRead : Op → Bool}
    (kinds : ReadsAndUpdates object isRead) {t : Nat} (inside : t < run.length) {id : Id} {op : Op}
    (here : performed t = some (id, op)) (reading : isRead op = true) : state (t + 1) = state t := by
  by_cases again : ∃ u < t, ∃ op', performed u = some (id, op')
  · exact retried.repeated t inside id op here again
  · have first : ∀ u < t, ∀ op', performed u ≠ some (id, op') :=
      fun u before op' performance => again ⟨u, before, op', performance⟩
    rw [retried.fresh t inside id op here first, kinds.reads _ _ reading]

theorem update_keeps {t : Nat} (inside : t < run.length) {id : Id} {op : Op} (here : performed t = some (id, op))
    (again : ¬ ∀ u < t, ∀ op', performed u ≠ some (id, op')) : state (t + 1) = state t := by
  apply retried.repeated t inside id op here
  by_contra never
  apply again
  intro u before op' performance
  exact never ⟨u, before, op', performance⟩

theorem points {isRead : Op → Bool} (kinds : ReadsAndUpdates object isRead) {answer : Id → Nat}
    (answers : ∀ id j ret, seen observe run j = some (.respond id ret) → answer id < j ∧
      ∃ op, performed (answer id) = some (id, op) ∧ (object.step (state (answer id)) op).2 = ret) :
    Points object observe run state
      (point object state observe run performed isRead answer) where
  initial := retried.initial
  idle := by
    intro t inside silent
    rcases point_eq_none silent with nothing | ⟨id, op, here, ineffective⟩
    · exact retried.idle t inside nothing
    cases reading : isRead op with
    | true => exact retried.read_keeps kinds inside here reading
    | false =>
      simp only [TakesEffect, reading, Bool.false_eq_true, if_false] at ineffective
      exact retried.update_keeps inside here ineffective
  effect := by
    intro t inside id op ret atPoint
    obtain ⟨here, returned, effective⟩ := point_eq_some.mp atPoint
    cases reading : isRead op with
    | true =>
      rw [retried.read_keeps kinds inside here reading]
      exact Prod.ext (kinds.reads _ _ reading) returned
    | false =>
      simp only [TakesEffect, reading, Bool.false_eq_true, if_false] at effective
      rw [retried.fresh t inside id op here effective, ← returned]
  distinct := by
    intro t u id op op' ret ret' first second
    obtain ⟨here, _, effective⟩ := point_eq_some.mp first
    obtain ⟨here', _, effective'⟩ := point_eq_some.mp second
    obtain rfl := retried.same_op here here'
    cases reading : isRead op with
    | true =>
      simp only [TakesEffect, reading, if_true] at effective effective'
      rw [effective.1, effective'.1]
    | false =>
      simp only [TakesEffect, reading, Bool.false_eq_true, if_false] at effective effective'
      rcases Nat.lt_trichotomy t u with before | same | after
      · exact absurd here (effective' t before op)
      · exact same
      · exact absurd here' (effective u after op)
  invoked := by
    intro t id op ret atPoint
    exact retried.invoked t id op (point_eq_some.mp atPoint).1
  invokedOnce := retried.invokedOnce
  answered := by
    intro j id ret responded
    obtain ⟨before, op, here, returned⟩ := answers id j ret responded
    cases reading : isRead op with
    | true =>
      refine ⟨answer id, before, op, point_eq_some.mpr ⟨here, returned, ?_⟩⟩
      simp only [TakesEffect, reading, if_true]
      exact ⟨trivial, j, ret, responded⟩
    | false =>
      -- The answer may come from a repetition, the effect from the first performance.
      obtain ⟨u, notAfter, ⟨op', first⟩, none_before⟩ := exists_first here
      obtain rfl := retried.same_op first here
      refine ⟨u, by omega, op', point_eq_some.mpr ⟨first, ?_, ?_⟩⟩
      · rw [← returned]
        exact kinds.updates _ _ op' reading
      · simpa only [TakesEffect, reading, Bool.false_eq_true, if_false] using none_before

theorem linearizable {isRead : Op → Bool}
    (kinds : ReadsAndUpdates object isRead) : Linearizable object (run.filterMap observe) := by
  choose answer answers using retried.exists_answer
  exact (retried.points kinds answers).linearizable

end Retried

end ShardedKV.Linearizability
