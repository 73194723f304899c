import Mathlib.Data.List.Basic
import Mathlib.Data.List.Infix
import Mathlib.Tactic.Common

/-!
# State machines over an agreed log

The replicas of a group apply one log that only grows.  A replica at index `k` reflects the
first `k` entries, however it got there, and what an entry produced at its index does not
change when the log grows.
-/

namespace ShardedKV.Services

structure Machine (State Command Output : Type) where
  initial : State
  apply : State → Command → State × Output

namespace Machine

variable {State Command Output : Type} (machine : Machine State Command Output)

def run (log : List Command) : State :=
  log.foldl (fun state command => (machine.apply state command).1) machine.initial

@[simp] theorem run_nil : machine.run [] = machine.initial := rfl

@[simp] theorem run_append (log : List Command) (command : Command) :
    machine.run (log ++ [command]) = (machine.apply (machine.run log) command).1 := by
  simp [run]

/-- What the entry at an index, counted from one, produces. -/
def output (log : List Command) : Nat → Option Output
  | 0 => none
  | index + 1 => log[index]?.map fun command => (machine.apply (machine.run (log.take index)) command).2

theorem output_eq_some {log : List Command} {index : Nat} {produced : Output} :
    machine.output log index = some produced ↔
      ∃ position command, index = position + 1 ∧ log[position]? = some command ∧
        (machine.apply (machine.run (log.take position)) command).2 = produced := by
  cases index with
  | zero => simp [output]
  | succ position =>
    simp only [output, Option.map_eq_some_iff, Nat.add_right_cancel_iff]
    constructor
    · rintro ⟨command, here, same⟩
      exact ⟨position, command, rfl, here, same⟩
    · rintro ⟨_, command, rfl, here, same⟩
      exact ⟨command, here, same⟩

variable {machine}

theorem output_mono {log : List Command} (more : List Command) {index : Nat} {produced : Output}
    (here : machine.output log index = some produced) :
    machine.output (log ++ more) index = some produced := by
  obtain ⟨position, command, rfl, found, same⟩ := (machine.output_eq_some).mp here
  have inside : position < log.length := (List.getElem?_eq_some_iff.mp found).1
  refine (machine.output_eq_some).mpr ⟨position, command, rfl, ?_, ?_⟩
  · rw [List.getElem?_append_left inside, found]
  · rw [List.take_append_of_le_length (Nat.le_of_lt inside), same]

variable (machine) in
/-- The state is the one after the first `index` entries of the log. -/
structure Reflects (log : List Command) (state : State) (index : Nat) : Prop where
  inside : index ≤ log.length
  state_eq : state = machine.run (log.take index)

namespace Reflects

theorem initial (log : List Command) : machine.Reflects log machine.initial 0 :=
  ⟨Nat.zero_le _, by simp⟩

theorem mono {log : List Command} {state : State} {index : Nat}
    (reflects : machine.Reflects log state index) (more : List Command) :
    machine.Reflects (log ++ more) state index := by
  refine ⟨?_, ?_⟩
  · have := reflects.inside
    simp
    omega
  · rw [List.take_append_of_le_length reflects.inside]
    exact reflects.state_eq

theorem advance {log : List Command} {state : State} {index : Nat} {command : Command}
    (reflects : machine.Reflects log state index) (next : log[index]? = some command) :
    machine.Reflects log (machine.apply state command).1 (index + 1) := by
  obtain ⟨inside, value⟩ := List.getElem?_eq_some_iff.mp next
  refine ⟨inside, ?_⟩
  rw [List.take_add_one, next, Option.toList_some, machine.run_append, ← reflects.state_eq]

theorem output {log : List Command} {state : State} {index : Nat} {command : Command}
    (reflects : machine.Reflects log state index) (next : log[index]? = some command) :
    machine.output log (index + 1) = some (machine.apply state command).2 := by
  refine (machine.output_eq_some).mpr ⟨index, command, rfl, next, ?_⟩
  rw [← reflects.state_eq]

end Reflects

end Machine

/-! ## Facts about each element of a growing list -/

variable {Element : Type}

theorem getElem?_take_eq_some {list : List Element} {count position : Nat} {element : Element} :
    (list.take count)[position]? = some element ↔ position < count ∧ list[position]? = some element := by
  rw [List.getElem?_take]
  by_cases inside : position < count <;> simp [inside]

theorem forall_mem_update_append {Index : Type} [DecidableEq Index] {right : Index → Element → Prop}
    {lists : Index → List Element} (all : ∀ index, ∀ element ∈ lists index, right index element) {index : Index}
    {element : Element} (new : right index element) :
    ∀ other, ∀ found ∈ Function.update lists index (lists index ++ [element]) other, right other found := by
  refine (Function.forall_update_iff lists fun other list => ∀ found ∈ list, right other found).mpr
    ⟨?_, fun other _ => all other⟩
  exact List.forall_mem_append.mpr ⟨all index, List.forall_mem_singleton.mpr new⟩

/-- The element at a position of a selection was selected when the selection had the elements before it. -/
theorem exists_selected {Source : Type} {select : Source → Option Element} {list : List Source} {position : Nat}
    {element : Element} (found : (list.filterMap select)[position]? = some element) :
    ∃ (t : Nat) (source : Source), list[t]? = some source ∧ select source = some element ∧
      (list.take t).filterMap select = (list.filterMap select).take position := by
  induction list using List.reverseRecOn with
  | nil => simp at found
  | append_singleton list last inductionHypothesis =>
    have grown : (list ++ [last]).filterMap select = list.filterMap select ++ (select last).toList := by
      cases chosen : select last <;> simp [chosen]
    rw [grown] at found ⊢
    by_cases inside : position < (list.filterMap select).length
    · rw [List.getElem?_append_left inside] at found
      obtain ⟨t, source, here, chosen, before⟩ := inductionHypothesis found
      have early : t < list.length := (List.getElem?_eq_some_iff.mp here).1
      refine ⟨t, source, by rw [List.getElem?_append_left early, here], chosen, ?_⟩
      rw [List.take_append_of_le_length (Nat.le_of_lt early), before,
        List.take_append_of_le_length (Nat.le_of_lt inside)]
    · -- The element is the one selected from the last.
      rw [List.getElem?_append_right (by omega)] at found
      cases chosen : select last with
      | none => simp [chosen] at found
      | some other =>
        simp only [chosen, Option.toList_some, List.getElem?_singleton] at found
        split at found
        · cases found
          refine ⟨list.length, last, by simp, chosen, ?_⟩
          rw [List.take_append_of_le_length (le_refl _), List.take_length,
            show position = (list.filterMap select).length by omega]
          simp
        · cases found

theorem exists_take_selected {Source : Type} (select : Source → Option Element) (list : List Source)
    {count : Nat} (inside : count ≤ (list.filterMap select).length) :
    ∃ t, (list.take t).filterMap select = (list.filterMap select).take count := by
  rcases Nat.lt_or_eq_of_le inside with less | rfl
  · obtain ⟨t, _, _, _, before⟩ := exists_selected (List.getElem?_eq_getElem less)
    exact ⟨t, before⟩
  · exact ⟨list.length, by simp⟩

/-- Every element of the list is explained by the elements before it. -/
def Justified (why : List Element → Element → Prop) (list : List Element) : Prop :=
  ∀ position element, list[position]? = some element → why (list.take position) element

namespace Justified

variable {why : List Element → Element → Prop} {list : List Element}

theorem nil : Justified why [] := by
  intro position element here
  simp at here

theorem append {element : Element} (justified : Justified why list) (reason : why list element) :
    Justified why (list ++ [element]) := by
  intro position found here
  rcases Nat.lt_trichotomy position list.length with inside | rfl | outside
  · rw [List.getElem?_append_left inside] at here
    rw [List.take_append_of_le_length (Nat.le_of_lt inside)]
    exact justified position found here
  · simp only [List.getElem?_append_right (Nat.le_refl _), Nat.sub_self, List.getElem?_cons_zero,
      Option.some.injEq] at here
    subst here
    simpa using reason
  · rw [List.getElem?_eq_none (by simp; omega)] at here
    cases here

theorem of_append {more : List Element} (justified : Justified why (list ++ more)) :
    Justified why list := by
  intro position element here
  have inside : position < list.length := (List.getElem?_eq_some_iff.mp here).1
  have found : (list ++ more)[position]? = some element := by
    rw [List.getElem?_append_left inside, here]
  have reason := justified position element found
  rwa [List.take_append_of_le_length (Nat.le_of_lt inside)] at reason

theorem take (justified : Justified why list) (count : Nat) : Justified why (list.take count) := by
  have whole : Justified why (list.take count ++ list.drop count) := by rwa [List.take_append_drop]
  exact whole.of_append

theorem imp {why' : List Element → Element → Prop} (justified : Justified why list)
    (weaker : ∀ before element, why before element → why' before element) : Justified why' list :=
  fun position element here => weaker _ _ (justified position element here)

theorem last {element : Element} (justified : Justified why (list ++ [element])) :
    why list element := by
  have reason := justified list.length element (by simp)
  simpa using reason

/-- If no element clashes with one before it, then an element clashes with none but itself. -/
theorem unique (justified : Justified why list) {clash : Element → Element → Prop}
    (symmetric : ∀ one other, clash one other → clash other one)
    (excludes : ∀ before element, why before element → ∀ other ∈ before, ¬ clash other element)
    {i j : Nat} {one other : Element} (atOne : list[i]? = some one) (atOther : list[j]? = some other)
    (clashing : clash one other) : i = j := by
  have apart : ∀ {early late : Nat} {first second : Element}, list[early]? = some first →
      list[late]? = some second → clash first second → ¬ early < late := by
    intro early late first second atFirst atSecond clashes before
    have member := List.mem_of_getElem? (getElem?_take_eq_some.mpr ⟨before, atFirst⟩)
    exact excludes _ _ (justified late second atSecond) first member clashes
  have notBefore := apart atOne atOther clashing
  have notAfter := apart atOther atOne (symmetric _ _ clashing)
  omega

end Justified

end ShardedKV.Services
