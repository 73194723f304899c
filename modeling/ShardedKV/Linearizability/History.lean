import Mathlib.Data.List.Basic
import Mathlib.Data.List.Nodup
import Mathlib.Data.List.Range
import Mathlib.Tactic.Common

/-!
# Linearizable histories

A history lists the invocations and responses of named operations as they happen.  It is
linearizable when the completed operations, with some of the pending ones, can be put in one
order that a sequential object explains and that keeps the order of operations that do not
overlap.

The rule at the end is the usual way to show it: every operation takes effect at one moment
between its invocation and its response.
-/

namespace ShardedKV.Linearizability

variable {State Op Ret Id : Type}

/-- A sequential object: what an operation does to the state, and what it returns. -/
structure Sequential (State Op Ret : Type) where
  initial : State
  step : State → Op → State × Ret

inductive Event (Id Op Ret : Type) where
  | invoke (id : Id) (op : Op)
  | respond (id : Id) (ret : Ret)
deriving DecidableEq, Repr

/-- The sequence of operations is one the object can go through from `state`. -/
def Sequential.Legal (object : Sequential State Op Ret) (state : State) : List (Op × Ret) → Prop
  | [] => True
  | (op, ret) :: rest =>
    (object.step state op).2 = ret ∧ object.Legal (object.step state op).1 rest

def Linearizable (object : Sequential State Op Ret) (history : List (Event Id Op Ret)) : Prop :=
  ∃ order : List (Id × Op × Ret),
    (order.map Prod.fst).Nodup ∧
    (∀ id op ret, (id, op, ret) ∈ order → Event.invoke id op ∈ history) ∧
    (∀ id ret, Event.respond id ret ∈ history → ∃ op, (id, op, ret) ∈ order) ∧
    object.Legal object.initial (order.map Prod.snd) ∧
    ∀ earlier ret later op,
      [Event.respond earlier ret, Event.invoke later op].Sublist history →
      later ∈ order.map Prod.fst → [earlier, later].Sublist (order.map Prod.fst)

/-! ## Moments of a run

The run may record more than the history shows, so the moments are positions in a list of
arbitrary records and `observe` says which of them are events. -/

variable {Record : Type} {observe : Record → Option (Event Id Op Ret)} {run : List Record}

/-- The event that happened at moment `t` of the run, if any did. -/
def seen (observe : Record → Option (Event Id Op Ret)) (run : List Record) (t : Nat) :
    Option (Event Id Op Ret) :=
  run[t]?.bind observe

theorem seen_lt {t : Nat} {event : Event Id Op Ret} (here : seen observe run t = some event) :
    t < run.length := by
  by_contra outside
  rw [seen, List.getElem?_eq_none (by omega)] at here
  cases here

theorem mem_history {event : Event Id Op Ret} :
    event ∈ run.filterMap observe ↔ ∃ t, seen observe run t = some event := by
  simp only [List.mem_filterMap, seen, Option.bind_eq_some_iff]
  constructor
  · rintro ⟨record, member, observed⟩
    obtain ⟨t, here⟩ := List.mem_iff_getElem?.mp member
    exact ⟨t, record, here, observed⟩
  · rintro ⟨t, record, here, observed⟩
    exact ⟨record, List.mem_of_getElem? here, observed⟩

theorem seen_of_pair_sublist {first second : Event Id Op Ret}
    (ordered : [first, second].Sublist (run.filterMap observe)) :
    ∃ t u, t < u ∧ seen observe run t = some first ∧ seen observe run u = some second := by
  induction run with
  | nil => simp at ordered
  | cons record rest inductionHypothesis =>
    -- Whatever is found in the tail happens one moment later in the whole run.
    have later : [first, second].Sublist (rest.filterMap observe) →
        ∃ t u, t < u ∧ seen observe (record :: rest) t = some first ∧
          seen observe (record :: rest) u = some second := by
      intro inRest
      obtain ⟨t, u, before, atFirst, atSecond⟩ := inductionHypothesis inRest
      exact ⟨t + 1, u + 1, by omega, by simpa [seen] using atFirst, by simpa [seen] using atSecond⟩
    cases observed : observe record with
    | none => exact later (by simpa [List.filterMap_cons, observed] using ordered)
    | some event =>
      rw [List.filterMap_cons_some observed] at ordered
      cases ordered with
      | cons _ inRest => exact later inRest
      | cons_cons _ tail =>
        obtain ⟨u, atSecond⟩ := mem_history.mp (List.singleton_sublist.mp tail)
        exact ⟨0, u + 1, by omega, by simp [seen, observed], by simpa [seen] using atSecond⟩

/-! ## Linearization points -/

/-- `point t` is the operation that takes effect at moment `t`, and `state t` the object before
that moment. -/
structure Points (object : Sequential State Op Ret) (observe : Record → Option (Event Id Op Ret))
    (run : List Record) (state : Nat → State) (point : Nat → Option (Id × Op × Ret)) : Prop where
  initial : state 0 = object.initial
  idle : ∀ t < run.length, point t = none → state (t + 1) = state t
  effect : ∀ t < run.length, ∀ id op ret, point t = some (id, op, ret) →
    object.step (state t) op = (state (t + 1), ret)
  distinct : ∀ t u id op op' ret ret',
    point t = some (id, op, ret) → point u = some (id, op', ret') → t = u
  invoked : ∀ t id op ret, point t = some (id, op, ret) →
    ∃ i < t, seen observe run i = some (.invoke id op)
  invokedOnce : ∀ i j id op op', seen observe run i = some (.invoke id op) →
    seen observe run j = some (.invoke id op') → i = j
  answered : ∀ j id ret, seen observe run j = some (.respond id ret) →
    ∃ t < j, ∃ op, point t = some (id, op, ret)

namespace Points

variable {object : Sequential State Op Ret} {state : Nat → State}
  {point : Nat → Option (Id × Op × Ret)}

theorem range_eq_append {t bound : Nat} (inside : t ≤ bound) :
    List.range bound = List.range t ++ (List.range (bound - t)).map (t + ·) := by
  conv_lhs => rw [show bound = t + (bound - t) by omega]
  exact List.range_add

/-- The points up to a moment are a legal sequence that ends in the state of that moment. -/
theorem legal_from (points : Points object observe run state point) (count start : Nat)
    (inside : start + count ≤ run.length) :
    object.Legal (state start)
      (((List.range count).map (start + ·)).filterMap point |>.map Prod.snd) := by
  induction count generalizing start with
  | zero => simp [Sequential.Legal]
  | succ count inductionHypothesis =>
    have rest := inductionHypothesis (start + 1) (by omega)
    have shifted : (List.range (count + 1)).map (start + ·) =
        start :: (List.range count).map (start + 1 + ·) := by
      rw [List.range_succ_eq_map]
      simp [Function.comp_def, Nat.add_comm, Nat.add_left_comm]
    rw [shifted]
    cases here : point start with
    | none =>
      rw [List.filterMap_cons_none here, ← points.idle start (by omega) here]
      exact rest
    | some entry =>
      obtain ⟨id, op, ret⟩ := entry
      have stepped := points.effect start (by omega) id op ret here
      rw [List.filterMap_cons_some here, List.map_cons]
      simp only [Sequential.Legal, stepped]
      exact ⟨trivial, rest⟩

theorem pair_sublist {t u : Nat} {first second : Id × Op × Ret} (before : t < u)
    (inside : u < run.length) (atFirst : point t = some first) (atSecond : point u = some second) :
    [first.1, second.1].Sublist (((List.range run.length).filterMap point).map Prod.fst) := by
  -- Split the moments at the second point; each half holds one of the two.
  rw [range_eq_append (Nat.le_of_lt inside), List.filterMap_append, List.map_append]
  change ([first.1] ++ [second.1]).Sublist _
  apply List.Sublist.append
  · apply List.singleton_sublist.mpr
    exact List.mem_map.mpr ⟨first, List.mem_filterMap.mpr ⟨t, by simpa using before, atFirst⟩, rfl⟩
  · apply List.singleton_sublist.mpr
    refine List.mem_map.mpr ⟨second, List.mem_filterMap.mpr ⟨u, ?_, atSecond⟩, rfl⟩
    exact List.mem_map.mpr ⟨0, List.mem_range.mpr (by omega), rfl⟩

theorem linearizable (points : Points object observe run state point) :
    Linearizable object (run.filterMap observe) := by
  have member : ∀ entry, entry ∈ (List.range run.length).filterMap point ↔
      ∃ t < run.length, point t = some entry := by
    simp
  refine ⟨(List.range run.length).filterMap point, ?_, ?_, ?_, ?_, ?_⟩
  · -- Two moments of one operation are the same moment.
    rw [List.map_filterMap]
    apply List.nodup_range.filterMap
    intro t u id atFirst atSecond
    simp only [Option.mem_def, Option.map_eq_some_iff, Prod.exists] at atFirst atSecond
    obtain ⟨_, op, ret, atFirst, rfl⟩ := atFirst
    obtain ⟨_, op', ret', atSecond, rfl⟩ := atSecond
    exact points.distinct t u _ op op' ret ret' atFirst atSecond
  · intro id op ret inOrder
    obtain ⟨t, _, here⟩ := (member _).mp inOrder
    obtain ⟨i, _, invoked⟩ := points.invoked t id op ret here
    exact mem_history.mpr ⟨i, invoked⟩
  · intro id ret responded
    obtain ⟨j, here⟩ := mem_history.mp responded
    obtain ⟨t, before, op, atPoint⟩ := points.answered j id ret here
    exact ⟨op, (member _).mpr ⟨t, before.trans (seen_lt here), atPoint⟩⟩
  · rw [← points.initial]
    simpa using points.legal_from run.length 0 (by omega)
  · intro earlier ret later op ordered inOrder
    obtain ⟨j, i, before, responded, invoked⟩ := seen_of_pair_sublist ordered
    obtain ⟨t, beforeResponse, op', atEarlier⟩ := points.answered j earlier ret responded
    obtain ⟨⟨_, op'', ret'⟩, inPoints, rfl⟩ := List.mem_map.mp inOrder
    obtain ⟨u, inside, atLater⟩ := (member _).mp inPoints
    -- The later operation takes effect after its only invocation, hence after the response.
    obtain ⟨i', afterInvocation, invoked'⟩ := points.invoked u _ op'' ret' atLater
    have same := points.invokedOnce i i' _ op op'' invoked invoked'
    exact pair_sublist (by omega) inside atEarlier atLater

end Points

end ShardedKV.Linearizability
