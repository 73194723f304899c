import Mathlib.Data.List.Permutation
import ShardedKV.Porcupine.SingleCheck

/-!
# The entries of a history

Of every operation there is a call entry and, after it, a return entry; `makeLinkedEntries` links them
in the order of the entries and points from each call to its return.  Whatever order `sort.Sort` chooses
among entries that `Less` does not distinguish, one operation has returned before another is called in
the list exactly if its return time is before the other's call time.
-/

namespace ShardedKV.Porcupine

open Linked (Links Visits)

variable {State Input Output : Type}

/-! ## The links of the list -/

theorem insertBefore_prev_of_ne {links : Links Nat} {n first address : Nat} (back : links.prev first = none)
    (different : address ≠ first) : (insertBefore links n (some first)).prev address = links.prev address := by
  simp [insertBefore, back, Links.setPrev, Links.setNext, Function.update_of_ne different]

theorem insertBefore_next_of_ne {links : Links Nat} {n first address : Nat} (back : links.prev first = none)
    (different : address ≠ n) : (insertBefore links n (some first)).next address = links.next address := by
  simp [insertBefore, back, Links.setPrev, Links.setNext, Function.update_of_ne different]

theorem insertBefore_visits {links : Links Nat} {n first : Nat} {list : List Nat} (visits : Visits links first list)
    (back : links.prev first = none) (fresh : n ∉ first :: list) (distinct : first ∉ list) :
    Visits (insertBefore links n (some first)) n (first :: list) := by
  refine ⟨by simp [insertBefore, back, Links.setPrev, Links.setNext],
    by simp [insertBefore, back, Links.setPrev, Links.setNext], visits.congr ?_ ?_⟩
  · intro address member
    exact insertBefore_next_of_ne back fun same => fresh (same ▸ member)
  · intro address member
    exact insertBefore_prev_of_ne back fun same => distinct (same ▸ member)

/-- The list as it is made, from an address on: nothing below is linked. -/
structure Chained (made : LinkedEntries Input Output) (address length : Nat) : Prop where
  root : made.root = if length = 0 then none else some address
  prev : ∀ below ≤ address, made.links.prev below = none
  next : ∀ below < address, made.links.next below = none
  visits : 0 < length → Visits made.links address (List.range' (address + 1) (length - 1))

theorem Chained.front {made : LinkedEntries Input Output} {address length n : Nat}
    (chained : Chained made address length) (below : n < address) :
    Visits (insertBefore made.links n made.root) n (List.range' address length) ∧
      (∀ other ≤ n, (insertBefore made.links n made.root).prev other = none) ∧
      ∀ other < n, (insertBefore made.links n made.root).next other = none := by
  rw [chained.root]
  cases length with
  | zero =>
    exact ⟨chained.next n below, fun other atMost => chained.prev other (by omega),
      fun other less => chained.next other (by omega)⟩
  | succ length =>
    have back := chained.prev address le_rfl
    rw [if_neg (by omega)]
    refine ⟨?_, fun other atMost => ?_, fun other less => ?_⟩
    · rw [List.range'_succ]
      refine insertBefore_visits (chained.visits (by omega)) back ?_ ?_
      · simp only [List.mem_cons, List.mem_range'_1]
        omega
      · simp only [List.mem_range'_1]
        omega
    · rw [insertBefore_prev_of_ne back (by omega)]
      exact chained.prev other (by omega)
    · rw [insertBefore_next_of_ne back (by omega)]
      exact chained.next other (by omega)

theorem linkedFrom_root (address : Nat) (elem : Entry Input Output) (rest : List (Entry Input Output)) :
    (linkedFrom address (elem :: rest)).root = some address := by
  simp only [linkedFrom]
  split <;> rfl

theorem linkedFrom_links (address : Nat) (elem : Entry Input Output) (rest : List (Entry Input Output)) :
    (linkedFrom address (elem :: rest)).links =
      insertBefore (linkedFrom (address + 1) rest).links address (linkedFrom (address + 1) rest).root := by
  simp only [linkedFrom]
  split <;> rfl

theorem linkedFrom_chained (address : Nat) (entries : List (Entry Input Output)) :
    Chained (linkedFrom address entries) address entries.length := by
  induction entries generalizing address with
  | nil => exact ⟨rfl, fun _ _ => rfl, fun _ _ => rfl, by simp⟩
  | cons elem rest inductionHypothesis =>
    obtain ⟨visits, prev, next⟩ := (inductionHypothesis (address + 1)).front (Nat.lt_succ_self address)
    refine ⟨by simp [linkedFrom_root], ?_, ?_, fun _ => ?_⟩
    · rwa [linkedFrom_links]
    · rwa [linkedFrom_links]
    · rw [linkedFrom_links]
      exact visits

/-- `length` counts the nodes of a list. -/
theorem length_of_visits {links : Links Nat} {first fuel : Nat} {list : List Nat} (visits : Visits links first list)
    (enough : list.length ≤ fuel) : length links fuel (links.next first) = some list.length := by
  induction list generalizing first fuel with
  | nil =>
    rw [visits.next_eq]
    cases fuel <;> rfl
  | cons second rest inductionHypothesis =>
    cases fuel with
    | zero => simp at enough
    | succ fuel =>
      rw [visits.next_eq, List.head?_cons, length, inductionHypothesis visits.2.2 (by simpa using enough)]
      rfl

/-- `length` of the list that has been made. -/
theorem Chained.length_eq {made : LinkedEntries Input Output} {address count : Nat}
    (chained : Chained made address count) : length made.links count made.root = some count := by
  cases count with
  | zero =>
    rw [chained.root]
    rfl
  | succ count =>
    rw [chained.root, if_neg (by omega), length, length_of_visits (chained.visits (by omega)) (by simp)]
    simp

/-! ## The nodes -/

theorem linkedFrom_node_self (address : Nat) (elem : Entry Input Output) (rest : List (Entry Input Output)) :
    (linkedFrom address (elem :: rest)).node address = some {
      value := elem.value
      matching := if elem.kind = .returnEntry then none else (linkedFrom (address + 1) rest).matching elem.id
      id := elem.id } := by
  simp only [linkedFrom]
  split <;> simp

theorem linkedFrom_node_of_ne {address other : Nat} (different : other ≠ address) (elem : Entry Input Output)
    (rest : List (Entry Input Output)) :
    (linkedFrom address (elem :: rest)).node other = (linkedFrom (address + 1) rest).node other := by
  simp only [linkedFrom]
  split <;> simp [Function.update_of_ne different]

theorem linkedFrom_matching (address id : Nat) (elem : Entry Input Output) (rest : List (Entry Input Output)) :
    (linkedFrom address (elem :: rest)).matching id =
      if elem.kind = .returnEntry ∧ elem.id = id then some address
      else (linkedFrom (address + 1) rest).matching id := by
  simp only [linkedFrom]
  by_cases isReturn : elem.kind = .returnEntry
  · by_cases same : elem.id = id
    · simp [isReturn, same]
    · simp [isReturn, same, Function.update_of_ne (Ne.symm same)]
  · simp [isReturn]

theorem linkedFrom_node_append (address : Nat) (before : List (Entry Input Output)) (elem : Entry Input Output)
    (after : List (Entry Input Output)) :
    (linkedFrom address (before ++ elem :: after)).node (address + before.length) = some {
      value := elem.value
      matching := if elem.kind = .returnEntry then none
        else (linkedFrom (address + before.length + 1) after).matching elem.id
      id := elem.id } := by
  induction before generalizing address with
  | nil => exact linkedFrom_node_self address elem after
  | cons first before inductionHypothesis =>
    have here := inductionHypothesis (address + 1)
    rw [Nat.add_right_comm, Nat.add_assoc address before.length 1] at here
    rw [List.cons_append, List.length_cons, linkedFrom_node_of_ne (by omega), here]

theorem linkedFrom_matching_append (address : Nat) {before : List (Entry Input Output)} {elem : Entry Input Output}
    (after : List (Entry Input Output)) (others : ∀ entry ∈ before, entry.id ≠ elem.id)
    (isReturn : elem.kind = .returnEntry) :
    (linkedFrom address (before ++ elem :: after)).matching elem.id = some (address + before.length) := by
  induction before generalizing address with
  | nil => simp [linkedFrom_matching, isReturn]
  | cons first before inductionHypothesis =>
    have other := others first List.mem_cons_self
    rw [List.cons_append, linkedFrom_matching, if_neg (by simp [other]),
      inductionHypothesis (address + 1) fun entry member => others entry (List.mem_cons_of_mem _ member),
      List.length_cons, Nat.add_right_comm, Nat.add_assoc]

/-! ## Where the entries of an operation stand -/

def Operation.callEntry (operation : Operation Input Output) (id : Nat) : Entry Input Output where
  kind := .callEntry
  value := .input operation.input
  id := id
  time := operation.call
  clientId := operation.clientId

def Operation.returnEntry (operation : Operation Input Output) (id : Nat) : Entry Input Output where
  kind := .returnEntry
  value := .output operation.output
  id := id
  time := operation.ret
  clientId := operation.clientId

theorem Entry.less_iff (a b : Entry Input Output) : a.less b = true ↔
    a.time < b.time ∨ a.time = b.time ∧ a.kind = .callEntry ∧ b.kind = .returnEntry := by
  unfold Entry.less
  split
  · rw [decide_eq_true_eq]
    omega
  · rename_i same
    rw [ne_eq, not_not] at same
    simp [same]

/-- A call comes before a return unless it is later. -/
theorem callEntry_less_returnEntry (one other : Operation Input Output) (id otherId : Nat) :
    (one.callEntry id).less (other.returnEntry otherId) = true ↔ one.call ≤ other.ret := by
  rw [Entry.less_iff]
  simp only [Operation.callEntry, Operation.returnEntry, and_self, and_true]
  omega

theorem returnEntry_less_callEntry (one other : Operation Input Output) (id otherId : Nat) :
    (one.returnEntry id).less (other.callEntry otherId) = true ↔ one.ret < other.call := by
  rw [Entry.less_iff]
  simp [Operation.callEntry, Operation.returnEntry]

/-- Of each operation there is a call and then a return, and there is nothing else. -/
structure Placed (history : List (Operation Input Output)) (entries : List (Entry Input Output)) : Prop where
  pair : ∀ id operation, history[id]? = some operation →
    (entries.filter fun entry => entry.id = id) = [operation.callEntry id, operation.returnEntry id]
  bound : ∀ entry ∈ entries, entry.id < history.length
  length : entries.length = 2 * history.length

/-- The positions from 1 on of the entries, and the operations that they are of. -/
def historyOf [Inhabited Input] [Inhabited Output] (history : List (Operation Input Output))
    (entries : List (Entry Input Output)) : History Input Output where
  count := history.length
  callAt := fun id => 1 + entries.findIdx fun entry => entry.id = id
  returnAt := fun id => 1 + entries.findIdx fun entry => entry.id = id ∧ entry.kind = .returnEntry
  input := fun id => (history[id]?.getD default).input
  output := fun id => (history[id]?.getD default).output

section Placed

variable {history : List (Operation Input Output)} {entries : List (Entry Input Output)} {id : Nat}
  {operation : Operation Input Output}

theorem findIdx_append_of_none {test : Entry Input Output → Bool} {before : List (Entry Input Output)}
    {elem : Entry Input Output} (after : List (Entry Input Output)) (none : ∀ entry ∈ before, test entry = false)
    (found : test elem = true) : (before ++ elem :: after).findIdx test = before.length := by
  have length : before.findIdx test = before.length := by
    rw [List.findIdx_eq_length]
    exact none
  simp [List.findIdx_append, length, List.findIdx_cons, found]

/-- The entries of an operation divide the list into three parts without its number. -/
structure Split (entries : List (Entry Input Output)) (operation : Operation Input Output) (id : Nat)
    (before between after : List (Entry Input Output)) : Prop where
  isEntries : entries = before ++ operation.callEntry id :: (between ++ operation.returnEntry id :: after)
  before : ∀ entry ∈ before, entry.id ≠ id
  between : ∀ entry ∈ between, entry.id ≠ id
  after : ∀ entry ∈ after, entry.id ≠ id

theorem Placed.split (placed : Placed history entries) (isOperation : history[id]? = some operation) :
    ∃ before between after, Split entries operation id before between after := by
  have pair := placed.pair id operation isOperation
  obtain ⟨before, rest, isEntries, noneBefore, -, isReturn⟩ := List.filter_eq_cons_iff.mp pair
  obtain ⟨between, after, isRest, noneBetween, -, nothing⟩ := List.filter_eq_cons_iff.mp isReturn
  rw [List.filter_eq_nil_iff] at nothing
  refine ⟨before, between, after, by rw [isEntries, isRest], ?_, ?_, ?_⟩
  · simpa using noneBefore
  · simpa using noneBetween
  · simpa using nothing

section Split

variable {before between after : List (Entry Input Output)} (split : Split entries operation id before between after)
include split

theorem Split.position {position : Nat} {entry : Entry Input Output} (isEntry : entries[position]? = some entry)
    (isId : entry.id = id) :
    position = before.length ∨ position = before.length + 1 + between.length := by
  by_contra elsewhere
  rw [not_or] at elsewhere
  rw [split.isEntries] at isEntry
  rcases Nat.lt_trichotomy position before.length with less | same | more
  · rw [List.getElem?_append_left less] at isEntry
    exact split.before entry (List.mem_of_getElem? isEntry) isId
  · exact elsewhere.1 same
  · rw [List.getElem?_append_right more.le, List.getElem?_cons, if_neg (by omega)] at isEntry
    rcases Nat.lt_trichotomy position (before.length + 1 + between.length) with less | same | later
    · rw [List.getElem?_append_left (by omega)] at isEntry
      exact split.between entry (List.mem_of_getElem? isEntry) isId
    · exact elsewhere.2 same
    · rw [List.getElem?_append_right (by omega), List.getElem?_cons, if_neg (by omega)] at isEntry
      exact split.after entry (List.mem_of_getElem? isEntry) isId

theorem Split.node_call :
    (makeLinkedEntries entries).node (1 + before.length) = some {
      value := .input operation.input
      matching := some (1 + (before.length + 1 + between.length))
      id } := by
  have matching := linkedFrom_matching_append (1 + before.length + 1) after split.between
    (show (operation.returnEntry id).kind = .returnEntry from rfl)
  rw [makeLinkedEntries, split.isEntries, linkedFrom_node_append]
  simp only [Operation.callEntry, reduceCtorEq, if_false, Option.some.injEq, Node.mk.injEq, true_and, and_true]
  exact matching.trans (by rw [Option.some.injEq]; omega)

theorem Split.node_return :
    (makeLinkedEntries entries).node (1 + (before.length + 1 + between.length)) =
      some { value := .output operation.output, matching := none, id } := by
  have whole : entries = (before ++ operation.callEntry id :: between) ++ operation.returnEntry id :: after := by
    simp [split.isEntries]
  have here := linkedFrom_node_append 1 (before ++ operation.callEntry id :: between) (operation.returnEntry id) after
  rw [← whole, List.length_append, List.length_cons, ← Nat.add_assoc before.length,
    Nat.add_right_comm before.length] at here
  simpa [makeLinkedEntries, Operation.returnEntry] using here

theorem Split.getElem_call :
    entries[before.length]? = some (operation.callEntry id) := by
  simp [split.isEntries]

theorem Split.getElem_return :
    entries[before.length + 1 + between.length]? = some (operation.returnEntry id) := by
  rw [split.isEntries, List.getElem?_append_right (by omega), List.getElem?_cons, if_neg (by omega),
    List.getElem?_append_right (by omega), show before.length + 1 + between.length - before.length - 1 - between.length
      = 0 by omega, List.getElem?_cons_zero]

variable [Inhabited Input] [Inhabited Output]

theorem Split.callAt_eq :
    (historyOf history entries).callAt id = 1 + before.length := by
  simp only [historyOf, split.isEntries]
  rw [findIdx_append_of_none _ (by simpa using split.before) (by simp [Operation.callEntry])]

theorem Split.returnAt_eq :
    (historyOf history entries).returnAt id = 1 + (before.length + 1 + between.length) := by
  simp only [historyOf, split.isEntries]
  rw [← List.singleton_append, ← List.append_assoc, ← List.append_assoc,
    findIdx_append_of_none _ ?_ (by simp [Operation.returnEntry])]
  · simp only [List.length_append, List.length_singleton]
  · intro entry member
    simp only [List.mem_append, List.mem_singleton] at member
    rcases member with (inBefore | rfl) | inBetween
    · simp [split.before entry inBefore]
    · simp [Operation.callEntry]
    · simp [split.between entry inBetween]

end Split

/-- The list that `makeLinkedEntries` makes is the one that the search goes through. -/
theorem Placed.fits [Inhabited Input] [Inhabited Output] (placed : Placed history entries) :
    (historyOf history entries).Fits (makeLinkedEntries entries).node entries.length where
  call := by
    intro id inside
    have isOperation : history[id]? = some history[id] := List.getElem?_eq_getElem inside
    obtain ⟨before, between, after, split⟩ := placed.split isOperation
    rw [split.callAt_eq, split.returnAt_eq, split.node_call]
    simp [historyOf, isOperation]
  ret := by
    intro id inside
    have isOperation : history[id]? = some history[id] := List.getElem?_eq_getElem inside
    obtain ⟨before, between, after, split⟩ := placed.split isOperation
    rw [split.returnAt_eq, split.node_return]
    simp [historyOf, isOperation]
  order := by
    intro id inside
    obtain ⟨before, between, after, split⟩ := placed.split (List.getElem?_eq_getElem inside)
    have total := congrArg List.length split.isEntries
    simp only [List.length_append, List.length_cons] at total
    rw [split.callAt_eq, split.returnAt_eq]
    omega
  only := by
    intro address positive bound
    have isEntry : entries[address - 1]? = some entries[address - 1] := List.getElem?_eq_getElem (by omega)
    have isId := placed.bound _ (List.mem_of_getElem? isEntry)
    obtain ⟨before, between, after, split⟩ := placed.split (List.getElem?_eq_getElem isId)
    refine ⟨_, isId, ?_⟩
    rw [split.callAt_eq, split.returnAt_eq]
    have := split.position isEntry rfl
    omega

end Placed

/-! ## `makeEntries` -/

theorem entriesFrom_id {history : List (Operation Input Output)} {first : Nat} {entry : Entry Input Output}
    (member : entry ∈ entriesFrom first history) : first ≤ entry.id ∧ entry.id < first + history.length := by
  induction history generalizing first with
  | nil => cases member
  | cons elem rest inductionHypothesis =>
    simp only [entriesFrom, List.mem_cons] at member
    rw [List.length_cons]
    rcases member with rfl | rfl | later
    · exact ⟨le_rfl, by dsimp only; omega⟩
    · exact ⟨le_rfl, by dsimp only; omega⟩
    · have := inductionHypothesis later
      omega

theorem entriesFrom_length (history : List (Operation Input Output)) (first : Nat) :
    (entriesFrom first history).length = 2 * history.length := by
  induction history generalizing first with
  | nil => rfl
  | cons elem rest inductionHypothesis =>
    simp only [entriesFrom, List.length_cons, inductionHypothesis]
    omega

theorem entriesFrom_filter {history : List (Operation Input Output)} {first index : Nat}
    {operation : Operation Input Output} (isOperation : history[index]? = some operation) :
    ((entriesFrom first history).filter fun entry => entry.id = first + index) =
      [operation.callEntry (first + index), operation.returnEntry (first + index)] := by
  induction history generalizing first index with
  | nil => simp at isOperation
  | cons elem rest inductionHypothesis =>
    cases index with
    | zero =>
      rw [List.getElem?_cons_zero, Option.some.injEq] at isOperation
      subst isOperation
      have nothing : ((entriesFrom (first + 1) rest).filter fun entry => entry.id = first) = [] := by
        refine List.filter_eq_nil_iff.mpr fun entry member => ?_
        have := entriesFrom_id member
        rw [decide_eq_true_eq]
        omega
      simp [entriesFrom, nothing, Operation.callEntry, Operation.returnEntry]
    | succ index =>
      rw [List.getElem?_cons_succ] at isOperation
      have here : ((entriesFrom (first + 1) rest).filter fun entry => entry.id = first + 1 + index) =
          [operation.callEntry (first + 1 + index), operation.returnEntry (first + 1 + index)] :=
        inductionHypothesis isOperation
      rw [show first + 1 + index = first + (index + 1) by omega] at here
      simp [entriesFrom, here]

section MakesEntries

variable {history : List (Operation Input Output)} {entries : List (Entry Input Output)}

theorem MakesEntries.placed (made : MakesEntries history entries)
    (timed : ∀ operation ∈ history, operation.call ≤ operation.ret) : Placed history entries where
  pair := by
    intro id operation isOperation
    have pair := made.perm.filter fun entry => entry.id = id
    rw [show id = 0 + id by omega, entriesFrom_filter isOperation, ← show id = 0 + id by omega,
      List.perm_pair] at pair
    rcases pair with inOrder | swapped
    · exact inOrder
    · -- a return never comes before its call
      have sorted := made.sorted.filter fun entry => entry.id = id
      rw [swapped, List.pairwise_pair] at sorted
      have less := (callEntry_less_returnEntry operation operation id id).mpr
        (timed operation (List.mem_of_getElem? isOperation))
      rw [sorted] at less
      cases less
  bound := by
    intro entry member
    have := entriesFrom_id (made.perm.mem_iff.mp member)
    omega
  length := made.perm.length_eq.trans (entriesFrom_length history 0)

theorem MakesEntries.not_less (made : MakesEntries history entries) {earlier later : Nat} (order : earlier < later)
    {first second : Entry Input Output} (isFirst : entries[earlier]? = some first)
    (isSecond : entries[later]? = some second) : second.less first = false := by
  obtain ⟨inside, rfl⟩ := List.getElem?_eq_some_iff.mp isFirst
  obtain ⟨inside', rfl⟩ := List.getElem?_eq_some_iff.mp isSecond
  exact List.pairwise_iff_getElem.mp made.sorted earlier later inside inside' order

variable [Inhabited Input] [Inhabited Output]

theorem MakesEntries.returned_before_iff (made : MakesEntries history entries)
    (timed : ∀ operation ∈ history, operation.call ≤ operation.ret) {one other : Nat}
    {first second : Operation Input Output} (isFirst : history[one]? = some first)
    (isSecond : history[other]? = some second) :
    (historyOf history entries).returnAt one < (historyOf history entries).callAt other ↔ first.ret < second.call := by
  have placed := made.placed timed
  obtain ⟨before, between, after, split⟩ := placed.split isFirst
  obtain ⟨before', between', after', split'⟩ := placed.split isSecond
  rw [split.returnAt_eq, split'.callAt_eq]
  have differ : before.length + 1 + between.length ≠ before'.length := by
    intro same
    have here := split.getElem_return
    rw [same, split'.getElem_call, Option.some.injEq] at here
    exact absurd (congrArg Entry.kind here) (by simp [Operation.callEntry, Operation.returnEntry])
  constructor
  · intro order
    have notLess := made.not_less (by omega) split.getElem_return split'.getElem_call
    rw [← Bool.not_eq_true, callEntry_less_returnEntry] at notLess
    omega
  · intro order
    by_contra notBefore
    have notLess := made.not_less (by omega) split'.getElem_call split.getElem_return
    rw [← Bool.not_eq_true, returnEntry_less_callEntry] at notLess
    exact notLess order

end MakesEntries

end ShardedKV.Porcupine
