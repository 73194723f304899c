import Mathlib.Data.List.Nodup
import Mathlib.Logic.Function.Basic
import Mathlib.Tactic.Common

/-!
# Doubly linked lists

The links of a list are two partial maps between addresses.  A node that is taken out of the list keeps
its own links, so that it can be put back as long as everything taken out after it has been put back
before.
-/

namespace ShardedKV.Linked

variable {Address : Type} [DecidableEq Address]

structure Links (Address : Type) where
  next : Address → Option Address
  prev : Address → Option Address

namespace Links

def setNext (links : Links Address) (address : Address) (next : Option Address) : Links Address :=
  { links with next := Function.update links.next address next }

def setPrev (links : Links Address) (address : Address) (prev : Option Address) : Links Address :=
  { links with prev := Function.update links.prev address prev }

/-- The neighbours of a node are linked to each other. -/
def unlink (links : Links Address) (node : Address) : Links Address where
  next := match links.prev node with
    | none => links.next
    | some before => Function.update links.next before (links.next node)
  prev := match links.next node with
    | none => links.prev
    | some after => Function.update links.prev after (links.prev node)

/-- The neighbours that a node remembers are linked to it. -/
def relink (links : Links Address) (node : Address) : Links Address where
  next := match links.prev node with
    | none => links.next
    | some before => Function.update links.next before (some node)
  prev := match links.next node with
    | none => links.prev
    | some after => Function.update links.prev after (some node)

@[simp] theorem setNext_prev (links : Links Address) (address : Address) (next : Option Address) :
    (links.setNext address next).prev = links.prev := rfl

theorem setNext_next_of_ne (links : Links Address) {address other : Address} (different : other ≠ address)
    (next : Option Address) : (links.setNext address next).next other = links.next other :=
  Function.update_of_ne different _ _

/-! A node is taken out or put back by one assignment for each of its neighbours. -/

section Assignments

variable {links : Links Address} {node before after : Address} (back : links.prev node = some before)
include back

theorem unlink_last (last : links.next node = none) : links.setNext before none = links.unlink node := by
  simp only [unlink, back, last]
  rfl

theorem unlink_inner (onward : links.next node = some after) :
    (links.setNext before (some after)).setPrev after (some before) = links.unlink node := by
  simp only [unlink, back, onward]
  rfl

theorem relink_last (last : links.next node = none) : links.setNext before (some node) = links.relink node := by
  simp only [relink, back, last]
  rfl

theorem relink_inner (onward : links.next node = some after) :
    (links.setNext before (some node)).setPrev after (some node) = links.relink node := by
  simp only [relink, back, onward]
  rfl

end Assignments

/-- The neighbours of a node, as far as there are any, point back at it and are not the node itself. -/
structure Held (links : Links Address) (node : Address) : Prop where
  before : ∀ before, links.prev node = some before → links.next before = some node ∧ before ≠ node
  after : ∀ after, links.next node = some after → links.prev after = some node ∧ after ≠ node

theorem unlink_prev {links : Links Address} {node : Address} (held : links.Held node) :
    (links.unlink node).prev node = links.prev node := by
  unfold unlink
  cases onward : links.next node with
  | none => rfl
  | some after => exact Function.update_of_ne (held.after after onward).2.symm _ _

theorem unlink_next {links : Links Address} {node : Address} (held : links.Held node) :
    (links.unlink node).next node = links.next node := by
  unfold unlink
  cases back : links.prev node with
  | none => rfl
  | some before => exact Function.update_of_ne (held.before before back).2.symm _ _

theorem relink_unlink {links : Links Address} {node : Address} (held : links.Held node) :
    (links.unlink node).relink node = links := by
  have next : ((links.unlink node).relink node).next = links.next := by
    unfold relink
    rw [unlink_prev held]
    cases back : links.prev node with
    | none => simp [unlink, back]
    | some before =>
      simp only [unlink, back, Function.update_idem]
      rw [← (held.before before back).1, Function.update_eq_self]
  have prev : ((links.unlink node).relink node).prev = links.prev := by
    unfold relink
    rw [unlink_next held]
    cases onward : links.next node with
    | none => simp [unlink, onward]
    | some after =>
      simp only [unlink, onward, Function.update_idem]
      rw [← (held.after after onward).1, Function.update_eq_self]
  cases links
  simp_all [relink, unlink]

end Links

/-! ## The list that links stand for -/

/-- Following the links from a node visits the addresses of a list, each of which points back. -/
def Visits (links : Links Address) : Address → List Address → Prop
  | first, [] => links.next first = none
  | first, second :: rest => links.next first = some second ∧ links.prev second = some first ∧
      Visits links second rest

namespace Visits

variable {links links' : Links Address} {first node : Address} {list before after : List Address}

omit [DecidableEq Address] in
theorem next_eq (visits : Visits links first list) : links.next first = list.head? := by
  cases list with
  | nil => exact visits
  | cons second rest => exact visits.1

omit [DecidableEq Address] in
theorem drop (visits : Visits links first (before ++ node :: after)) : Visits links node after := by
  induction before generalizing first with
  | nil => exact visits.2.2
  | cons second rest inductionHypothesis => exact inductionHypothesis visits.2.2

omit [DecidableEq Address] in
theorem prev_mem (visits : Visits links first (before ++ node :: after)) :
    ∃ previous ∈ first :: before, links.prev node = some previous ∧ links.next previous = some node := by
  induction before generalizing first with
  | nil => exact ⟨first, List.mem_cons_self, visits.2.1, visits.1⟩
  | cons second rest inductionHypothesis =>
    obtain ⟨previous, member, here⟩ := inductionHypothesis visits.2.2
    exact ⟨previous, List.mem_cons_of_mem _ member, here⟩

omit [DecidableEq Address] in
theorem congr (visits : Visits links first list)
    (next : ∀ address ∈ first :: list, links'.next address = links.next address)
    (prev : ∀ address ∈ list, links'.prev address = links.prev address) : Visits links' first list := by
  induction list generalizing first with
  | nil => exact (next first List.mem_cons_self).trans visits
  | cons second rest inductionHypothesis =>
    refine ⟨(next first List.mem_cons_self).trans visits.1, (prev second List.mem_cons_self).trans visits.2.1, ?_⟩
    exact inductionHypothesis visits.2.2 (fun address member => next address (List.mem_cons_of_mem _ member))
      (fun address member => prev address (List.mem_cons_of_mem _ member))

omit [DecidableEq Address] in
theorem held (visits : Visits links first (before ++ node :: after))
    (distinct : (first :: (before ++ node :: after)).Nodup) : links.Held node := by
  obtain ⟨previous, member, pointsBack, pointsOn⟩ := visits.prev_mem
  have different : ∀ address ∈ first :: before, address ≠ node := by
    rw [← List.cons_append, List.nodup_append] at distinct
    exact fun address inBefore => distinct.2.2 address inBefore node List.mem_cons_self
  constructor
  · intro found isFound
    rw [pointsBack, Option.some.injEq] at isFound
    subst isFound
    exact ⟨pointsOn, different _ member⟩
  · intro found isFound
    have rest := visits.drop
    cases after with
    | nil =>
      rw [Visits, isFound] at rest
      cases rest
    | cons second after =>
      rw [rest.1, Option.some.injEq] at isFound
      subst isFound
      refine ⟨rest.2.1, ?_⟩
      rintro rfl
      simp [List.nodup_append] at distinct

theorem unlink (visits : Visits links first (before ++ node :: after))
    (distinct : (first :: (before ++ node :: after)).Nodup) :
    Visits (links.unlink node) first (before ++ after) := by
  induction before generalizing first with
  | nil =>
    obtain ⟨pointsOn, pointsBack, rest⟩ := visits
    simp only [List.nil_append, List.nodup_cons, List.mem_cons, not_or] at distinct
    obtain ⟨⟨-, firstNotAfter⟩, nodeNotAfter, distinctAfter⟩ := distinct
    cases after with
    | nil => simp [Visits, Links.unlink, pointsBack, rest.next_eq]
    | cons second after =>
      simp only [List.mem_cons, not_or, List.nodup_cons] at firstNotAfter distinctAfter
      obtain ⟨onToSecond, backFromSecond, rest⟩ := rest
      refine ⟨by simp [Links.unlink, pointsBack, onToSecond], by simp [Links.unlink, onToSecond, pointsBack], ?_⟩
      refine rest.congr (fun address member => ?_) (fun address member => ?_)
      · simp only [Links.unlink, pointsBack]
        refine Function.update_of_ne ?_ _ _
        rintro rfl
        rcases List.mem_cons.mp member with rfl | inAfter
        · exact firstNotAfter.1 rfl
        · exact firstNotAfter.2 inAfter
      · simp only [Links.unlink, onToSecond]
        refine Function.update_of_ne ?_ _ _
        rintro rfl
        exact distinctAfter.1 member
  | cons second before inductionHypothesis =>
    have inner := inductionHypothesis visits.2.2 distinct.of_cons
    obtain ⟨previous, member, pointsBack, -⟩ := visits.2.2.prev_mem
    rw [List.cons_append, List.nodup_cons, List.nodup_cons] at distinct
    obtain ⟨firstNot, secondNot, -⟩ := distinct
    refine ⟨?_, ?_, inner⟩
    · -- the node before the removed one comes after the first
      have different : first ≠ previous := by
        rintro rfl
        exact firstNot (List.mem_append_left (node :: after) member)
      simp only [Links.unlink, pointsBack, Function.update_of_ne different]
      exact visits.1
    · have rest := visits.2.2.drop
      cases after with
      | nil =>
        simp only [Links.unlink, rest.next_eq]
        exact visits.2.1
      | cons third after =>
        have different : second ≠ third := by
          rintro rfl
          exact secondNot (by simp)
        simp only [Links.unlink, rest.1, Function.update_of_ne different]
        exact visits.2.1

theorem unlink_erase (visits : Visits links first list) (member : node ∈ list) (distinct : (first :: list).Nodup) :
    Visits (links.unlink node) first (list.erase node) := by
  obtain ⟨before, after, isList⟩ := List.append_of_mem member
  subst isList
  have absent : node ∉ before := by
    intro inBefore
    have := (List.nodup_append.mp distinct.of_cons).2.2 node inBefore node List.mem_cons_self
    exact this rfl
  rw [List.erase_append_right _ absent, List.erase_cons_head]
  exact visits.unlink distinct

end Visits

end ShardedKV.Linked
