import ShardedKV.Backtracking.Search
import ShardedKV.Porcupine.Checker
import Mathlib.Data.Finset.Range
import Mathlib.Data.Finset.Insert
import Mathlib.Data.Finset.Lattice.Lemmas
import Mathlib.Data.Finset.Dedup

/-!
# Linearizations as paths of the search

A configuration of the search is the set of operations that have been linearized and the state they
lead to.  An operation may come next if its call stands before every return that is still in the list.
The paths from the initial configuration to one with an empty list are the linearizations.
-/

namespace ShardedKV.Porcupine

open Backtracking (Space Path Solvable Ranked)

variable {State Input Output : Type}

/-! ## Histories by the positions of their entries -/

/-- So many operations, numbered from 0: where their entries stand, and what they were given and
answered. -/
structure History (Input Output : Type) where
  count : Nat
  callAt : Nat → Nat
  returnAt : Nat → Nat
  input : Nat → Input
  output : Nat → Output

/-- The nodes of a list are the calls and returns of the history. -/
structure History.Fits (history : History Input Output) (node : Nat → Option (Node Input Output)) (total : Nat) :
    Prop where
  call : ∀ id < history.count, node (history.callAt id) =
    some { value := .input (history.input id), matching := some (history.returnAt id), id }
  ret : ∀ id < history.count, node (history.returnAt id) =
    some { value := .output (history.output id), matching := none, id }
  order : ∀ id < history.count, 0 < history.callAt id ∧ history.callAt id < history.returnAt id ∧
    history.returnAt id ≤ total
  only : ∀ address, 0 < address → address ≤ total →
    ∃ id < history.count, address = history.callAt id ∨ address = history.returnAt id

/-- The model goes through the operations from a state. -/
def Model.Legal (model : Model State Input Output) (state : State) : List (Input × Output) → Prop
  | [] => True
  | (input, output) :: rest =>
    (model.step state input output).1 = true ∧ model.Legal (model.step state input output).2 rest

/-- The state that the operations lead to. -/
def Model.after (model : Model State Input Output) (state : State) : List (Input × Output) → State
  | [] => state
  | (input, output) :: rest => model.after (model.step state input output).2 rest

/-- States that the model takes to be equal allow the same operations. -/
def Model.EqualSound (model : Model State Input Output) : Prop :=
  ∀ one other, model.equal one other = true → ∀ operations, model.Legal one operations → model.Legal other operations

namespace History

def operations (history : History Input Output) (order : List Nat) : List (Input × Output) :=
  order.map fun id => (history.input id, history.output id)

/-- What may come after some operations that have been linearized: others, each after all that had
returned before it was called, so that the model can go through them. -/
structure Partial (history : History Input Output) (model : Model State Input Output) (done : Finset Nat)
    (state : State) (order : List Nat) : Prop where
  nodup : order.Nodup
  fresh : ∀ id ∈ order, id < history.count ∧ id ∉ done
  realTime : ∀ before id after, order = before ++ id :: after → ∀ other < history.count,
    history.returnAt other < history.callAt id → other ∈ done ∨ other ∈ before
  legal : model.Legal state (history.operations order)

/-- The same with all that have not been linearized. -/
structure Completion (history : History Input Output) (model : Model State Input Output) (done : Finset Nat)
    (state : State) (order : List Nat) : Prop where
  nodup : order.Nodup
  mem : ∀ id, id ∈ order ↔ id < history.count ∧ id ∉ done
  realTime : order.Pairwise fun earlier later => ¬ history.returnAt later < history.callAt earlier
  legal : model.Legal state (history.operations order)

/-- An order of all operations that keeps the order of those that do not overlap. -/
def Linearization (history : History Input Output) (model : Model State Input Output) (order : List Nat) : Prop :=
  history.Completion model ∅ model.init order

end History

/-! ## The space of the search -/

/-- The addresses that are still in the list. -/
def remaining (node : Nat → Option (Node Input Output)) (total : Nat) (done : Finset Nat) : List Nat :=
  (List.range' 1 total).filter fun address => (node address).any fun entry => entry.id ∉ done

def isCall (node : Nat → Option (Node Input Output)) (address : Nat) : Bool :=
  (node address).any fun entry => entry.matching.isSome

/-- What `model.Step` says to the call at an address. -/
def stepAt (model : Model State Input Output) (node : Nat → Option (Node Input Output)) (state : State)
    (address : Nat) : Option (Nat × State) :=
  match node address with
  | none => none
  | some entry =>
    match entry.value, (entry.matching.bind node).map Node.value with
    | .input input, some (.output output) =>
      if (model.step state input output).1 then some (entry.id, (model.step state input output).2) else none
    | _, _ => none

def space (model : Model State Input Output) (node : Nat → Option (Node Input Output)) (total : Nat) :
    Space (Finset Nat × State) Nat where
  moves := fun config => (remaining node total config.1).takeWhile (isCall node)
  apply := fun config address => (stepAt model node config.2 address).map fun (id, state) => (insert id config.1, state)
  goal := fun config => (remaining node total config.1).isEmpty
  same := fun config other => config.1 = other.1 && model.equal config.2 other.2

namespace History.Fits

variable {history : History Input Output} {node : Nat → Option (Node Input Output)} {total : Nat}
  {model : Model State Input Output} {done : Finset Nat} {state : State} {id address : Nat}

theorem sorted_remaining : (remaining node total done).Pairwise (· < ·) :=
  (List.pairwise_lt_range').filter _

theorem nodup_remaining : (remaining node total done).Nodup := sorted_remaining.imp Nat.ne_of_lt

theorem mem_takeWhile_of_sorted {list : List Nat} (sorted : list.Pairwise (· < ·)) (test : Nat → Bool) :
    address ∈ list.takeWhile test ↔ address ∈ list ∧ ∀ other ∈ list, other ≤ address → test other = true := by
  induction list with
  | nil => simp
  | cons first rest inductionHypothesis =>
    rw [List.pairwise_cons] at sorted
    by_cases passes : test first = true
    · rw [List.takeWhile_cons_of_pos passes, List.mem_cons, List.mem_cons, inductionHypothesis sorted.2]
      constructor
      · rintro (rfl | ⟨member, all⟩)
        · refine ⟨.inl rfl, fun other member below => ?_⟩
          rcases List.mem_cons.mp member with rfl | later
          · exact passes
          · have := sorted.1 other later
            omega
        · refine ⟨.inr member, fun other isOther below => ?_⟩
          rcases List.mem_cons.mp isOther with rfl | later
          · exact passes
          · exact all other later below
      · rintro ⟨rfl | member, all⟩
        · exact .inl rfl
        · exact .inr ⟨member, fun other later below => all other (List.mem_cons_of_mem _ later) below⟩
    · rw [List.takeWhile_cons_of_neg passes]
      simp only [List.not_mem_nil, List.mem_cons, false_iff, not_and]
      rintro (rfl | member) all
      · exact passes (all _ (.inl rfl) le_rfl)
      · exact passes (all first (.inl rfl) (sorted.1 address member).le)

/-! ### Addresses -/

variable (fits : history.Fits node total)
include fits

theorem isCall_callAt (inside : id < history.count) :
    isCall node (history.callAt id) = true := by
  simp [isCall, fits.call id inside]

theorem isCall_returnAt (inside : id < history.count) :
    isCall node (history.returnAt id) = false := by
  simp [isCall, fits.ret id inside]

theorem mem_remaining :
    address ∈ remaining node total done ↔
      ∃ id < history.count, id ∉ done ∧ (address = history.callAt id ∨ address = history.returnAt id) := by
  simp only [remaining, List.mem_filter, List.mem_range'_1]
  constructor
  · rintro ⟨⟨positive, bound⟩, undone⟩
    obtain ⟨id, inside, rfl | rfl⟩ := fits.only address (by omega) (by omega)
    · exact ⟨id, inside, by simpa [fits.call id inside] using undone, .inl rfl⟩
    · exact ⟨id, inside, by simpa [fits.ret id inside] using undone, .inr rfl⟩
  · rintro ⟨id, inside, undone, rfl | rfl⟩
    · have := fits.order id inside
      exact ⟨by omega, by simpa [fits.call id inside] using undone⟩
    · have := fits.order id inside
      exact ⟨by omega, by simpa [fits.ret id inside] using undone⟩

theorem callAt_ne_returnAt {other : Nat} (inside : id < history.count)
    (isOther : other < history.count) : history.callAt id ≠ history.returnAt other := by
  intro same
  have here := fits.isCall_callAt inside
  rw [same, fits.isCall_returnAt isOther] at here
  cases here

theorem callAt_inj {other : Nat} (inside : id < history.count)
    (isOther : other < history.count) : history.callAt id = history.callAt other ↔ id = other := by
  refine ⟨fun same => ?_, fun same => same ▸ rfl⟩
  have here := fits.call id inside
  rw [same, fits.call other isOther, Option.some.injEq, Node.mk.injEq] at here
  exact here.2.2.symm

theorem returnAt_inj {other : Nat} (inside : id < history.count)
    (isOther : other < history.count) : history.returnAt id = history.returnAt other ↔ id = other := by
  refine ⟨fun same => ?_, fun same => same ▸ rfl⟩
  have here := fits.ret id inside
  rw [same, fits.ret other isOther, Option.some.injEq, Node.mk.injEq] at here
  exact here.2.2.symm

theorem callAt_mem (inside : id < history.count) :
    history.callAt id ∈ remaining node total done ↔ id ∉ done := by
  rw [fits.mem_remaining]
  constructor
  · rintro ⟨other, isOther, undone, same | same⟩
    · rwa [(fits.callAt_inj inside isOther).mp same]
    · exact absurd same (fits.callAt_ne_returnAt inside isOther)
  · exact fun undone => ⟨id, inside, undone, .inl rfl⟩

theorem remaining_insert (inside : id < history.count) :
    remaining node total (insert id done) =
      ((remaining node total done).erase (history.callAt id)).erase (history.returnAt id) := by
  have nodup : (remaining node total done).Nodup := nodup_remaining
  rw [(nodup.erase _).erase_eq_filter, nodup.erase_eq_filter, List.filter_filter, remaining, remaining,
    List.filter_filter]
  refine List.filter_congr fun address member => ?_
  rw [List.mem_range'_1] at member
  rw [Bool.eq_iff_iff, Bool.and_eq_true, Bool.and_eq_true, bne_iff_ne, bne_iff_ne]
  obtain ⟨other, isOther, rfl | rfl⟩ := fits.only address (by omega) (by omega)
  · rw [fits.call other isOther, Ne, Ne, fits.callAt_inj isOther inside]
    simp [fits.callAt_ne_returnAt isOther inside]
  · rw [fits.ret other isOther, Ne, Ne, fits.returnAt_inj isOther inside]
    simp [(fits.callAt_ne_returnAt inside isOther).symm]

/-! ### Moves -/

theorem mem_moves :
    address ∈ (space model node total).moves (done, state) ↔ ∃ id < history.count, id ∉ done ∧
      address = history.callAt id ∧
      ∀ other < history.count, other ∉ done → ¬ history.returnAt other < history.callAt id := by
  simp only [space, mem_takeWhile_of_sorted sorted_remaining, fits.mem_remaining]
  constructor
  · rintro ⟨⟨id, inside, undone, rfl | rfl⟩, calls⟩
    · refine ⟨id, inside, undone, rfl, fun other isOther otherUndone before => ?_⟩
      have call := calls _ ⟨other, isOther, otherUndone, .inr rfl⟩ before.le
      rw [fits.isCall_returnAt isOther] at call
      cases call
    · have call := calls _ ⟨id, inside, undone, .inr rfl⟩ le_rfl
      rw [fits.isCall_returnAt inside] at call
      cases call
  · rintro ⟨id, inside, undone, rfl, first⟩
    refine ⟨⟨id, inside, undone, .inl rfl⟩, ?_⟩
    rintro _ ⟨other, isOther, otherUndone, rfl | rfl⟩ below
    · exact fits.isCall_callAt isOther
    · have different := fits.callAt_ne_returnAt inside isOther
      exact absurd (lt_of_le_of_ne below different.symm) (first other isOther otherUndone)

theorem apply_callAt (inside : id < history.count) :
    (space model node total).apply (done, state) (history.callAt id) =
      if (model.step state (history.input id) (history.output id)).1 = true then
        some (insert id done, (model.step state (history.input id) (history.output id)).2)
      else none := by
  simp only [space, stepAt, fits.call id inside, Option.bind_some, fits.ret id inside, Option.map_some]
  split <;> rfl

theorem goal_iff :
    (space model node total).goal (done, state) = true ↔ ∀ id < history.count, id ∈ done := by
  simp only [space, List.isEmpty_iff]
  constructor
  · intro empty id inside
    by_contra undone
    have member := (fits.callAt_mem inside).mpr undone
    rw [empty] at member
    cases member
  · intro all
    refine List.eq_nil_iff_forall_not_mem.mpr fun address member => ?_
    obtain ⟨id, inside, undone, -⟩ := fits.mem_remaining.mp member
    exact undone (all id inside)

/-! ### Paths and orders -/

theorem partial_cons {order : List Nat} :
    history.Partial model done state (id :: order) ↔
      id < history.count ∧ history.callAt id ∈ (space model node total).moves (done, state) ∧
      (model.step state (history.input id) (history.output id)).1 = true ∧
      history.Partial model (insert id done) (model.step state (history.input id) (history.output id)).2 order := by
  constructor
  · rintro ⟨nodup, fresh, realTime, accepted, legal⟩
    obtain ⟨inside, undone⟩ := fresh id List.mem_cons_self
    rw [List.nodup_cons] at nodup
    refine ⟨inside, fits.mem_moves.mpr ⟨id, inside, undone, rfl, ?_⟩, accepted, nodup.2, ?_, ?_, legal⟩
    · intro other isOther otherUndone before
      rcases realTime [] id order rfl other isOther before with isDone | impossible
      · exact otherUndone isDone
      · cases impossible
    · intro other member
      obtain ⟨isOther, otherUndone⟩ := fresh other (List.mem_cons_of_mem _ member)
      refine ⟨isOther, fun isDone => ?_⟩
      rcases Finset.mem_insert.mp isDone with rfl | isDone
      · exact nodup.1 member
      · exact otherUndone isDone
    · intro before later after isOrder other isOther earlier
      rw [Finset.mem_insert]
      rcases realTime (id :: before) later after (by rw [isOrder, List.cons_append]) other isOther earlier with
        isDone | member
      · exact .inl (.inr isDone)
      · rcases List.mem_cons.mp member with rfl | member
        · exact .inl (.inl rfl)
        · exact .inr member
  · rintro ⟨inside, possible, accepted, nodup, fresh, realTime, legal⟩
    obtain ⟨same, isSame, undone, equal, first⟩ := fits.mem_moves.mp possible
    rw [fits.callAt_inj inside isSame] at equal
    subst equal
    refine ⟨?_, ?_, ?_, accepted, legal⟩
    · exact List.nodup_cons.mpr ⟨fun member => (fresh id member).2 (Finset.mem_insert_self _ _), nodup⟩
    · intro other member
      rcases List.mem_cons.mp member with rfl | member
      · exact ⟨inside, undone⟩
      · exact ⟨(fresh other member).1, fun isDone => (fresh other member).2 (Finset.mem_insert_of_mem isDone)⟩
    · intro before later after isOrder other isOther earlier
      cases before with
      | nil =>
        obtain ⟨rfl, -⟩ := List.cons.inj isOrder
        by_contra otherUndone
        exact first other isOther (fun isDone => otherUndone (.inl isDone)) earlier
      | cons head before =>
        obtain ⟨rfl, isRest⟩ := List.cons.inj isOrder
        rcases realTime before later after isRest other isOther earlier with isDone | member
        · rcases Finset.mem_insert.mp isDone with rfl | isDone
          · exact .inr List.mem_cons_self
          · exact .inl isDone
        · exact .inr (List.mem_cons_of_mem _ member)

/-- The paths of the search are the orders of operations that the model can go through. -/
theorem path_iff {path : List Nat} {config : Finset Nat × State} :
    Path (space model node total) (done, state) path config ↔ ∃ order, history.Partial model done state order ∧
      path = order.map history.callAt ∧
      config = (done ∪ order.toFinset, model.after state (history.operations order)) := by
  constructor
  · intro taken
    induction path generalizing done state with
    | nil =>
      rcases taken.cases_head with ⟨-, rfl⟩ | ⟨_, _, _, impossible, -⟩
      · refine ⟨[], ⟨List.nodup_nil, by simp, by simp, trivial⟩, rfl, ?_⟩
        simp [operations, Model.after]
      · cases impossible
    | cons address path inductionHypothesis =>
      rcases taken.cases_head with ⟨impossible, -⟩ | ⟨move, next, rest, isPath, possible, applied, further⟩
      · cases impossible
      cases isPath
      obtain ⟨id, inside, -, rfl, -⟩ := fits.mem_moves.mp possible
      rw [fits.apply_callAt inside] at applied
      split at applied
      · rename_i accepted
        cases applied
        obtain ⟨order, rest, rfl, rfl⟩ := inductionHypothesis further
        refine ⟨id :: order, fits.partial_cons.mpr ⟨inside, possible, accepted, rest⟩, rfl, ?_⟩
        simp [operations, Model.after, Finset.insert_union]
      · cases applied
  · rintro ⟨order, isPartial, rfl, rfl⟩
    induction order generalizing done state with
    | nil => simpa [operations, Model.after] using Path.nil
    | cons id order inductionHypothesis =>
      obtain ⟨inside, possible, accepted, further⟩ := fits.partial_cons.mp isPartial
      refine .cons possible (by rw [fits.apply_callAt inside, if_pos accepted]) ?_
      simpa [operations, Model.after, Finset.insert_union] using inductionHypothesis further

theorem completion_iff {order : List Nat} :
    history.Completion model done state order ↔
      history.Partial model done state order ∧ ∀ id < history.count, id ∈ done ∨ id ∈ order := by
  constructor
  · rintro ⟨nodup, mem, realTime, legal⟩
    have all : ∀ id < history.count, id ∈ done ∨ id ∈ order := fun id inside =>
      or_iff_not_imp_left.mpr fun undone => (mem id).mpr ⟨inside, undone⟩
    refine ⟨⟨nodup, fun id member => (mem id).mp member, ?_, legal⟩, all⟩
    rintro before id after rfl other isOther earlier
    refine (all other isOther).imp_right fun member => ?_
    rcases List.mem_append.mp member with inBefore | later
    · exact inBefore
    · rcases List.mem_cons.mp later with rfl | inAfter
      · have := fits.order other isOther
        omega
      · exact absurd earlier ((List.pairwise_cons.mp (List.pairwise_append.mp realTime).2.1).1 other inAfter)
  · rintro ⟨⟨nodup, fresh, realTime, legal⟩, all⟩
    refine ⟨nodup, fun id => ⟨fresh id, fun missing => (all id missing.1).resolve_left missing.2⟩, ?_, legal⟩
    refine List.pairwise_iff_getElem.mpr fun i j iInside jInside less earlier => ?_
    -- what has returned would have to come before
    have isOrder : order = order.take i ++ order[i] :: order.drop (i + 1) := by simp
    obtain ⟨isId, undone⟩ := fresh order[j] (List.getElem_mem jInside)
    rcases realTime _ _ _ isOrder order[j] isId earlier with isDone | member
    · exact undone isDone
    · obtain ⟨k, kInside, same⟩ := List.getElem_of_mem member
      rw [List.getElem_take, nodup.getElem_inj_iff] at same
      rw [List.length_take] at kInside
      omega

theorem solvable_iff :
    Solvable (space model node total) (done, state) ↔ ∃ order, history.Completion model done state order := by
  constructor
  · rintro ⟨path, final, taken, reached⟩
    obtain ⟨order, isPartial, -, rfl⟩ := fits.path_iff.mp taken
    refine ⟨order, fits.completion_iff.mpr ⟨isPartial, fun id inside => ?_⟩⟩
    simpa using fits.goal_iff.mp reached id inside
  · rintro ⟨order, completion⟩
    obtain ⟨isPartial, all⟩ := fits.completion_iff.mp completion
    refine ⟨_, _, fits.path_iff.mpr ⟨order, isPartial, rfl, rfl⟩, fits.goal_iff.mpr fun id inside => ?_⟩
    simpa using all id inside

theorem ranked (sound : model.EqualSound) :
    Ranked (space model node total) fun config => (remaining node total config.1).length where
  smaller := by
    rintro ⟨done, state⟩ address next possible applied
    obtain ⟨id, inside, undone, rfl, -⟩ := fits.mem_moves.mp possible
    rw [fits.apply_callAt inside] at applied
    split at applied
    · cases applied
      have member := (fits.callAt_mem inside).mpr undone
      rw [fits.remaining_insert inside]
      calc (((remaining node total done).erase (history.callAt id)).erase (history.returnAt id)).length
          ≤ ((remaining node total done).erase (history.callAt id)).length := List.length_erase_le
        _ < (remaining node total done).length := by
          have := List.length_pos_of_mem member
          rw [List.length_erase_of_mem member]
          omega
    · cases applied
  moves := fun config => (List.takeWhile_sublist _).length_le
  same_rank := by
    rintro ⟨done, state⟩ ⟨other, otherState⟩ same
    simp only [space, Bool.and_eq_true, decide_eq_true_eq] at same
    rw [same.1]
  same_solvable := by
    rintro ⟨done, state⟩ ⟨other, otherState⟩ same solvable
    simp only [space, Bool.and_eq_true, decide_eq_true_eq] at same
    obtain ⟨rfl, equal⟩ := same
    obtain ⟨order, nodup, mem, realTime, legal⟩ := fits.solvable_iff.mp solvable
    exact fits.solvable_iff.mpr ⟨order, nodup, mem, realTime, sound state otherState equal _ legal⟩

end History.Fits

end ShardedKV.Porcupine
