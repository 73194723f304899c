import Mathlib.Data.Set.Finite.Lemmas
import Mathlib.Data.Set.Finite.List
import Mathlib.Logic.Function.Basic
import Mathlib.Order.Nat
import Mathlib.Tactic.Common

/-!
# Orders of operations on several objects

Operations take some time.  An order of the operations keeps the time if nothing comes after what was
called only when it had returned.  Orders for the operations on each object can be merged into an order
of all operations: of the operations that come first on their objects, the one that was called first
may be taken.
-/

namespace ShardedKV.Linearizability

variable {Op Key : Type} [DecidableEq Key] {key : Op → Key} {call ret : Op → Int}

/-- No operation comes after one that was called only when it had returned. -/
def KeepsTime (call ret : Op → Int) (order : List Op) : Prop :=
  order.Pairwise fun earlier later => ¬ ret later < call earlier

/-- An operation that is first on its object, and called no later than any other that is. -/
theorem exists_first (call : Op → Int) {history : List Op} {orders : Key → List Op}
    (perm : ∀ object, (orders object).Perm (history.filter (key · = object))) (nonempty : history ≠ []) :
    ∃ first rest, first ∈ history ∧ orders (key first) = first :: rest ∧
      ∀ object other others, orders object = other :: others → call first ≤ call other := by
  have member : ∀ {object other others}, orders object = other :: others → other ∈ history ∧ key other = object := by
    intro object other others isOrder
    have inOrder := (perm object).subset (isOrder ▸ List.mem_cons_self)
    simpa [List.mem_filter] using inOrder
  have finite : {first | ∃ object others, orders object = first :: others}.Finite :=
    (List.finite_toSet history).subset (by rintro first ⟨object, others, isOrder⟩; exact (member isOrder).1)
  have some : {first | ∃ object others, orders object = first :: others}.Nonempty := by
    obtain ⟨op, history, rfl⟩ := List.exists_cons_of_ne_nil nonempty
    cases isOrder : orders (key op) with
    | nil =>
      have empty := perm (key op)
      rw [isOrder, List.filter_cons_of_pos (by simp)] at empty
      exact absurd empty.length_eq (by simp)
    | cons first rest => exact ⟨first, key op, rest, isOrder⟩
  obtain ⟨first, ⟨object, rest, isOrder⟩, least⟩ := Set.exists_min_image _ call finite some
  obtain ⟨inHistory, rfl⟩ := member isOrder
  exact ⟨first, rest, inHistory, isOrder, fun object other others isOther => least other ⟨object, others, isOther⟩⟩

theorem exists_merge {history : List Op} (timed : ∀ op ∈ history, call op ≤ ret op) {orders : Key → List Op}
    (perm : ∀ object, (orders object).Perm (history.filter (key · = object)))
    (keeps : ∀ object, KeepsTime call ret (orders object)) :
    ∃ order : List Op, order.Perm history ∧ (∀ object, order.filter (key · = object) = orders object) ∧
      KeepsTime call ret order := by
  induction size : history.length generalizing history orders with
  | zero =>
    obtain rfl := List.eq_nil_of_length_eq_zero size
    exact ⟨[], .refl _, fun object => ((perm object).eq_nil).symm, .nil⟩
  | succ count inductionHypothesis =>
    obtain ⟨first, rest, inHistory, isFirst, least⟩ := exists_first call perm (by rintro rfl; cases size)
    obtain ⟨before, after, rfl⟩ := List.append_of_mem inHistory
    have fewer : (before ++ after).length = count := by
      rw [List.length_append, List.length_cons] at size
      rw [List.length_append]
      omega
    have isRest : ∀ object, (Function.update orders (key first) rest object).Perm
        ((before ++ after).filter (key · = object)) := by
      intro object
      have here := perm object
      rw [List.filter_append, List.filter_cons] at here
      rw [List.filter_append]
      by_cases same : object = key first
      · subst same
        rw [isFirst, if_pos (by simp)] at here
        rw [Function.update_self]
        exact (here.trans List.perm_middle).cons_inv
      · rw [if_neg (by simpa using Ne.symm same)] at here
        rwa [Function.update_of_ne same]
    have stillKeeps : ∀ object, KeepsTime call ret (Function.update orders (key first) rest object) := by
      intro object
      by_cases same : object = key first
      · subst same
        rw [Function.update_self]
        exact (isFirst ▸ keeps (key first) : KeepsTime call ret (first :: rest)).of_cons
      · rw [Function.update_of_ne same]
        exact keeps object
    obtain ⟨order, isPerm, filters, inOrder⟩ := inductionHypothesis
      (fun op member => timed op (List.mem_append.mpr ((List.mem_append.mp member).imp_right (List.mem_cons_of_mem _))))
      isRest stillKeeps fewer
    refine ⟨first :: order, (isPerm.cons first).trans List.perm_middle.symm, fun object => ?_,
      List.pairwise_cons.mpr ⟨fun other member returned => ?_, inOrder⟩⟩
    · by_cases same : object = key first
      · subst same
        rw [List.filter_cons_of_pos (by simp), filters, Function.update_self, isFirst]
      · rw [List.filter_cons_of_neg (by simpa using Ne.symm same), filters, Function.update_of_ne same]
    · -- what had returned before the first is called would be on another object, behind one called later
      have onObject : other ∈ Function.update orders (key first) rest (key other) := by
        rw [← filters, List.mem_filter]
        exact ⟨member, by simp⟩
      by_cases same : key other = key first
      · rw [same, Function.update_self] at onObject
        exact (List.pairwise_cons.mp (isFirst ▸ keeps (key first) : KeepsTime call ret (first :: rest))).1 other
          onObject returned
      · rw [Function.update_of_ne same] at onObject
        cases isOther : orders (key other) with
        | nil =>
          rw [isOther] at onObject
          cases onObject
        | cons head others =>
          have notBefore := least _ _ _ isOther
          rw [isOther] at onObject
          rcases List.mem_cons.mp onObject with rfl | later
          · have := timed other (List.mem_append.mpr
              ((List.mem_append.mp (isPerm.subset member)).imp_right (List.mem_cons_of_mem _)))
            omega
          · have inTime : KeepsTime call ret (head :: others) := isOther ▸ keeps (key other)
            have := (List.pairwise_cons.mp inTime).1 other later
            omega

end ShardedKV.Linearizability
