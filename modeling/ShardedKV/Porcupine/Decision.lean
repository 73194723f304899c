import ShardedKV.Porcupine.Entries
import ShardedKV.Porcupine.KvModel

/-!
# What `checkSingle` decides

Within enough iterations the loop returns, it never dereferences nil or indexes out of range, and it
returns true exactly for the histories that have a linearization.  The sequences it records are partial
linearizations, and no partial linearization with an operation is longer than what is recorded for it.
-/

namespace ShardedKV.Porcupine

open Linked (Links Visits)
open Backtracking (Search Frame Invariant Closed Path Solvable turn)

variable {State Input Output : Type}

/-! ## The loop -/

/-- What is true of the result. -/
structure Decided (history : History Input Output) (model : Model State Input Output) (computePartial ok : Bool)
    (longest : List (Option (List Nat))) : Prop where
  ok : ok = true ↔ ∃ order, history.Linearization model order
  recorded : Recorded history model longest
  longest : computePartial = true → ∀ order, history.Partial model ∅ model.init order → ∀ id ∈ order,
    ∃ known, longest[id]? = some (some known) ∧ order.length ≤ known.length

/-- The loop is somewhere in the search, with at most so many iterations to go. -/
def Searching (history : History Input Output) (model : Model State Input Output)
    (node : Nat → Option (Node Input Output)) (total : Nat) (links : Links Nat) (computePartial : Bool) (bound : Nat)
    (check : Check State) : Prop :=
  ∃ search, Simulates history model node total links computePartial check search ∧
    Invariant (space model node total) (∅, model.init) search ∧
    search.measure (fun config => (remaining node total config.1).length) ≤ bound

section Loop

variable {history : History Input Output} {model : Model State Input Output}
  {node : Nat → Option (Node Input Output)} {total : Nat} {links : Links Nat} {computePartial : Bool} {bound : Nat}
  {check : Check State}

theorem History.Partial.length_le {done : Finset Nat} {state : State} {order : List Nat}
    (isPartial : history.Partial model done state order) : order.length ≤ history.count := by
  have inside : order ⊆ List.range history.count :=
    fun id member => List.mem_range.mpr (isPartial.fresh id member).1
  simpa using (isPartial.nodup.subperm inside).length_le

theorem History.Fits.decided_of_linearization (fits : history.Fits node total) {order : List Nat}
    (isLinearization : history.Linearization model order) :
    Decided history model computePartial true (List.replicate history.count (some order)) := by
  obtain ⟨isPartial, all⟩ := fits.completion_iff.mp isLinearization
  have complete : history.count ≤ order.length := by
    have inside : List.range history.count ⊆ order := fun id member =>
      (all id (List.mem_range.mp member)).resolve_left (Finset.notMem_empty id)
    simpa using (List.nodup_range.subperm inside).length_le
  refine ⟨⟨fun _ => ⟨order, isLinearization⟩, fun _ => rfl⟩, ⟨by simp, fun id known isKnown => ?_⟩, ?_⟩
  · obtain ⟨inside, here⟩ := List.getElem?_eq_some_iff.mp isKnown
    rw [List.length_replicate] at inside
    rw [List.getElem_replicate, Option.some.injEq] at here
    subst here
    exact ⟨(all id inside).resolve_left (Finset.notMem_empty id), isPartial⟩
  · intro _ other otherPartial id member
    exact ⟨order, by simp [(otherPartial.fresh id member).1], otherPartial.length_le.trans complete⟩

/-- From what has been left for good, the first operation of an order leads to something that has been
entered, and from there the rest is possible. -/
theorem History.Fits.entered_next (fits : history.Fits node total) (sound : model.EqualSound)
    {cache : List (Finset Nat × State)} {first : Nat} {order : List Nat} {done : Finset Nat} {state : State}
    (closed : Closed (space model node total) cache (done, state))
    (isPartial : history.Partial model done state (first :: order)) :
    ∃ next, (insert first done, next) ∈ cache ∧ history.Partial model (insert first done) next order := by
  obtain ⟨inside, possible, accepted, rest⟩ := fits.partial_cons.mp isPartial
  obtain ⟨⟨enteredDone, enteredState⟩, member, like⟩ := closed.moves _ possible _
    (by rw [fits.apply_callAt inside, if_pos accepted])
  rcases like with same | same
  · rw [Prod.mk.injEq] at same
    exact ⟨enteredState, same.1 ▸ member, same.2 ▸ rest⟩
  · simp only [space, Bool.and_eq_true, decide_eq_true_eq] at same
    exact ⟨enteredState, same.1 ▸ member, { rest with legal := sound _ _ same.2 _ rest.legal }⟩

theorem History.Fits.entered_of_closed (fits : history.Fits node total) (sound : model.EqualSound)
    {cache : List (Finset Nat × State)} (closed : ∀ entered ∈ cache, Closed (space model node total) cache entered)
    {order : List Nat} {done : Finset Nat} {state : State} (known : (done, state) ∈ cache)
    (isPartial : history.Partial model done state order) : ∃ final, (done ∪ order.toFinset, final) ∈ cache := by
  induction order generalizing done state with
  | nil => exact ⟨state, by simpa using known⟩
  | cons first order inductionHypothesis =>
    obtain ⟨next, entered, rest⟩ := fits.entered_next sound (closed _ known) isPartial
    obtain ⟨final, inCache⟩ := inductionHypothesis entered rest
    refine ⟨final, ?_⟩
    rwa [List.toFinset_cons, Finset.union_insert, ← Finset.insert_union]

variable (searching : Searching history model node total links computePartial bound check)
include searching

theorem Searching.iterate (fits : history.Fits node total) (sound : model.EqualSound) :
    (∃ after, ∃ less < bound, Porcupine.iterate model node check computePartial false = .continues after ∧
      Searching history model node total links computePartial less after) ∨
    ∃ ok longest, Porcupine.iterate model node check computePartial false = .returns ok longest ∧
      Decided history model computePartial ok longest := by
  obtain ⟨search, simulates, invariant, atMost⟩ := searching
  have ranked := fits.ranked sound
  cases turned : turn (space model node total) search with
  | panic => exact absurd turned (Backtracking.turn_ne_panic search)
  | next next =>
    obtain ⟨after, iterates, further⟩ := simulates.iterate_continues fits invariant turned
    obtain ⟨kept, smaller⟩ := invariant.turn ranked turned
    exact .inl ⟨after, _, lt_of_lt_of_le smaller atMost, iterates, next, further, kept, le_rfl⟩
  | leave =>
    right
    have decided := invariant.goal_iff ranked turned
    rw [fits.solvable_iff] at decided
    cases reached : (space model node total).goal search.config with
    | true =>
      obtain ⟨order, isLinearization, returns⟩ := simulates.iterate_found fits invariant reached false
      exact ⟨_, _, returns, fits.decided_of_linearization isLinearization⟩
    | false =>
      refine ⟨_, _, simulates.iterate_exhausted fits invariant turned reached, reached ▸ decided, simulates.recorded,
        ?_⟩
      intro computes order isPartial id member
      obtain ⟨-, bottom, closed⟩ := invariant.leave turned reached
      cases order with
      | nil => cases member
      | cons first rest =>
        obtain ⟨next, known, further⟩ := fits.entered_next sound (closed _ List.mem_cons_self) isPartial
        obtain ⟨final, inCache⟩ := fits.entered_of_closed sound
          (fun entered isEntered => closed entered (List.mem_cons_of_mem _ isEntered)) known further
        rw [Finset.insert_union, Finset.empty_union, ← List.toFinset_cons] at inCache
        rcases simulates.covered computes _ inCache with atRoot | ⟨frame, inStack, -⟩ | covered
        · -- the loop is back at the beginning, where nothing has been linearized
          have trail := invariant.trail
          rw [bottom, ← atRoot] at trail
          generalize isSet : (first :: rest).toFinset = set at trail
          cases trail
          simp at isSet
        · rw [bottom] at inStack
          cases inStack
        · obtain ⟨known, isKnown, atLeast⟩ := covered id (List.mem_toFinset.mpr member)
          rw [List.toFinset_card_of_nodup isPartial.nodup] at atLeast
          exact ⟨known, isKnown, atLeast⟩

/-- A loop that finds itself killed has no answer, unless it is done. -/
theorem Searching.iterate_killed (fits : history.Fits node total) :
    ∃ ok longest, Porcupine.iterate model node check computePartial true = .returns ok longest ∧
      Recorded history model longest ∧ (ok = true → Decided history model computePartial ok longest) := by
  obtain ⟨search, simulates, invariant, -⟩ := searching
  cases reached : (space model node total).goal search.config with
  | true =>
    obtain ⟨order, isLinearization, returns⟩ := simulates.iterate_found fits invariant reached true
    have decided : Decided history model computePartial true (List.replicate history.count (some order)) :=
      fits.decided_of_linearization isLinearization
    exact ⟨_, _, returns, decided.recorded, fun _ => decided⟩
  | false =>
    refine ⟨false, check.longest, ?_, simulates.recorded, by simp⟩
    obtain ⟨first, isNext⟩ := simulates.next_head reached
    simp [Porcupine.iterate, isNext]

theorem Searching.loop
    (fits : history.Fits node total) (sound : model.EqualSound) {fuel : Nat} (enough : bound < fuel) :
    ∃ ok longest, Porcupine.loop model node computePartial false fuel check = some (ok, longest) ∧
      Decided history model computePartial ok longest := by
  induction fuel generalizing bound check with
  | zero => omega
  | succ fuel inductionHypothesis =>
    rcases searching.iterate fits sound with
      ⟨after, less, smaller, continues, further⟩ | ⟨ok, longest, returns, decided⟩
    · simp only [Porcupine.loop, continues]
      exact inductionHypothesis further (by omega)
    · exact ⟨ok, longest, by simp only [Porcupine.loop, returns], decided⟩

end Loop

/-! ## The beginning -/

section Start

variable [Inhabited Input] [Inhabited Output] {history : List (Operation Input Output)}
  {entries : List (Entry Input Output)} {model : Model State Input Output}

theorem Placed.remaining_empty (placed : Placed history entries) :
    remaining (makeLinkedEntries entries).node entries.length ∅ = List.range' 1 entries.length := by
  refine List.filter_eq_self.mpr fun address member => ?_
  rw [List.mem_range'_1] at member
  obtain ⟨id, inside, rfl | rfl⟩ := placed.fits.only address (by omega) (by omega)
  · simp [placed.fits.call id inside]
  · simp [placed.fits.ret id inside]

/-- The variables before the first iteration. -/
def firstCheck (model : Model State Input Output) (entries : List (Entry Input Output)) (count : Nat) :
    Check State where
  links := insertBefore (makeLinkedEntries entries).links headEntry (makeLinkedEntries entries).root
  entry := (makeLinkedEntries entries).root
  state := model.init
  linearized := newBitset count
  longest := List.replicate count none

omit [Inhabited Input] [Inhabited Output] in
theorem Placed.startCheck_eq (placed : Placed history entries) :
    startCheck model entries = some (firstCheck model entries history.length) := by
  have half : entries.length / 2 = history.length := by
    rw [placed.length]
    omega
  rw [startCheck, makeLinkedEntries, (linkedFrom_chained 1 entries).length_eq, Option.map_some, half]
  rfl

theorem recorded_start : Recorded (historyOf history entries) model (List.replicate history.length none) where
  length := List.length_replicate
  legal := by
    intro id known isKnown
    obtain ⟨inside, here⟩ := List.getElem?_eq_some_iff.mp isKnown
    rw [List.getElem_replicate] at here
    cases here

theorem Placed.simulates_start (placed : Placed history entries) (computePartial : Bool) :
    Simulates (historyOf history entries) model (makeLinkedEntries entries).node entries.length
      (firstCheck model entries history.length).links computePartial (firstCheck model entries history.length)
      (Backtracking.start (space model (makeLinkedEntries entries).node entries.length) (∅, model.init)) := by
  have chained := linkedFrom_chained 1 entries
  have visits : Visits (firstCheck model entries history.length).links headEntry
      (remaining (makeLinkedEntries entries).node entries.length ∅) := by
    rw [placed.remaining_empty]
    exact (chained.front Nat.zero_lt_one).1
  have isRoot : (firstCheck model entries history.length).entry =
      (firstCheck model entries history.length).links.next headEntry := by
    rw [visits.next_eq, placed.remaining_empty, List.head?_range', firstCheck, makeLinkedEntries, chained.root]
  exact {
    links_eq := rfl
    visits := visits
    stands := isRoot ▸ Stands.start visits
    resumable := trivial
    state := rfl
    linearized := ⟨rfl, fun id => by simpa [Backtracking.start, firstCheck] using Bitset.newBitset_empty _ id⟩
    calls := rfl
    cache := by
      intro hash linearized state
      simp [Backtracking.start, firstCheck]
    recorded := recorded_start
    covered := by simp [Backtracking.start] }

theorem Placed.searching_start (placed : Placed history entries) (sound : model.EqualSound) (computePartial : Bool) :
    Searching (historyOf history entries) model (makeLinkedEntries entries).node entries.length
      (firstCheck model entries history.length).links computePartial (Backtracking.cost (2 * history.length))
      (firstCheck model entries history.length) := by
  refine ⟨_, placed.simulates_start computePartial, Backtracking.invariant_start _, ?_⟩
  refine (Backtracking.measure_start_le (placed.fits.ranked sound) (∅, model.init)).trans_eq ?_
  rw [placed.remaining_empty, List.length_range', placed.length]

/-- With enough iterations `checkSingle` returns, and what it returns is decided. -/
theorem Placed.checkSingle_decided (placed : Placed history entries) (sound : model.EqualSound) (computePartial : Bool)
    {fuel : Nat} (enough : Backtracking.cost (2 * history.length) < fuel) :
    ∃ ok longest, checkSingle model entries computePartial false fuel = some (ok, longest) ∧
      Decided (historyOf history entries) model computePartial ok longest := by
  rw [checkSingle, placed.startCheck_eq, Option.bind_some]
  exact (placed.searching_start sound computePartial).loop placed.fits sound enough

end Start

/-! ## Operations -/

/-- An order of the operations of a history that keeps the order of those that do not overlap, and that
the model can go through. -/
structure Model.Explains (model : Model State Input Output) (history order : List (Operation Input Output)) : Prop where
  perm : order.Perm history
  realTime : order.Pairwise fun earlier later => ¬ later.ret < earlier.call
  legal : model.Legal model.init (order.map fun operation => (operation.input, operation.output))

def Model.Linearizable (model : Model State Input Output) (history : List (Operation Input Output)) : Prop :=
  ∃ order, model.Explains history order

/-- Numbers of some operations, in an order that the model can go through, each after all that had
returned before it was called. -/
structure Model.PartiallyExplains (model : Model State Input Output) (history : List (Operation Input Output))
    (order : List Nat) : Prop where
  nodup : order.Nodup
  inside : ∀ id ∈ order, id < history.length
  realTime : ∀ before id after, order = before ++ id :: after → ∀ other operation earlier,
    history[id]? = some operation → history[other]? = some earlier → earlier.ret < operation.call → other ∈ before
  legal : model.Legal model.init ((order.filterMap (history[·]?)).map fun operation =>
    (operation.input, operation.output))

/-- An order of what some numbers stand for is what an order of the numbers stands for. -/
theorem exists_perm_of_perm_map {Index Value : Type} {value : Index → Value} {indices : List Index} {order : List Value}
    (perm : order.Perm (indices.map value)) :
    ∃ sorted : List Index, sorted.Perm indices ∧ order = sorted.map value := by
  have related : List.Forall₂ (fun one index => one = value index) (indices.map value) indices := by
    rw [List.forall₂_map_left_iff]
    exact List.forall₂_same.mpr fun _ _ => rfl
  obtain ⟨sorted, same, isSorted⟩ := List.perm_comp_forall₂ perm related
  refine ⟨sorted, isSorted, ?_⟩
  rw [← List.forall₂_eq_eq_eq, List.forall₂_map_right_iff]
  exact same

section Operations

variable [Inhabited Input] [Inhabited Output] {history : List (Operation Input Output)}
  {entries : List (Entry Input Output)} {model : Model State Input Output}

/-- The operation with a number. -/
def operationAt (history : List (Operation Input Output)) (id : Nat) : Operation Input Output :=
  history[id]?.getD default

theorem operations_historyOf (order : List Nat) : (historyOf history entries).operations order =
    (order.map (operationAt history)).map fun operation => (operation.input, operation.output) := by
  simp [History.operations, historyOf, operationAt]

theorem map_operationAt_range : (List.range history.length).map (operationAt history) = history := by
  refine List.ext_getElem (by simp) fun index inside inside' => ?_
  simp [operationAt, inside']

/-- The linearizations of the entries are those of the operations, in any order that sorting may leave
the entries in. -/
theorem MakesEntries.linearization_iff (made : MakesEntries history entries)
    (timed : ∀ operation ∈ history, operation.call ≤ operation.ret) :
    (∃ order, (historyOf history entries).Linearization model order) ↔ model.Linearizable history := by
  have keeps : ∀ one other, one < history.length → other < history.length →
      ((historyOf history entries).returnAt one < (historyOf history entries).callAt other ↔
        (operationAt history one).ret < (operationAt history other).call) := by
    intro one other inside inside'
    have := made.returned_before_iff timed (List.getElem?_eq_getElem inside) (List.getElem?_eq_getElem inside')
    simpa [operationAt, inside, inside'] using this
  constructor
  · rintro ⟨order, nodup, mem, realTime, legal⟩
    have inside : ∀ id ∈ order, id < history.length := fun id member => ((mem id).mp member).1
    have perm : order.Perm (List.range history.length) := by
      rw [List.perm_ext_iff_of_nodup nodup List.nodup_range]
      intro id
      simp [mem, historyOf]
    refine ⟨order.map (operationAt history), ?_, ?_, ?_⟩
    · have mapped := perm.map (operationAt history)
      rwa [map_operationAt_range] at mapped
    · rw [List.pairwise_map]
      refine realTime.imp_of_mem fun one other notBefore => ?_
      rwa [← keeps _ _ (inside _ other) (inside _ one)]
    · rwa [operations_historyOf] at legal
  · rintro ⟨order, perm, realTime, legal⟩
    have numbered : order.Perm ((List.range history.length).map (operationAt history)) := by
      rwa [map_operationAt_range]
    obtain ⟨sorted, isSorted, rfl⟩ := exists_perm_of_perm_map numbered
    have inside : ∀ id ∈ sorted, id < history.length := fun id member => List.mem_range.mp (isSorted.mem_iff.mp member)
    rw [List.pairwise_map] at realTime
    refine ⟨sorted, isSorted.nodup_iff.mpr List.nodup_range, fun id => ?_, ?_, ?_⟩
    · rw [isSorted.mem_iff]
      simp [historyOf]
    · refine realTime.imp_of_mem fun one other notBefore => ?_
      rwa [keeps _ _ (inside _ other) (inside _ one)]
    · rw [operations_historyOf]
      exact legal

theorem MakesEntries.partial_iff (made : MakesEntries history entries)
    (timed : ∀ operation ∈ history, operation.call ≤ operation.ret) {order : List Nat} :
    (historyOf history entries).Partial model ∅ model.init order ↔ model.PartiallyExplains history order := by
  have found : (∀ id ∈ order, id < history.length) →
      order.filterMap (history[·]?) = order.map (operationAt history) := by
    intro inside
    rw [← List.filterMap_eq_map]
    refine List.filterMap_congr fun id member => ?_
    simp [operationAt, List.getElem?_eq_getElem (inside id member)]
  constructor
  · rintro ⟨nodup, fresh, realTime, legal⟩
    have inside : ∀ id ∈ order, id < history.length := fun id member => (fresh id member).1
    refine ⟨nodup, inside, ?_, ?_⟩
    · intro before id after isOrder other operation earlier isOperation isEarlier precedes
      have positions := (made.returned_before_iff timed isEarlier isOperation).mpr precedes
      obtain ⟨isOther, -⟩ := List.getElem?_eq_some_iff.mp isEarlier
      exact (realTime before id after isOrder other isOther positions).resolve_left (Finset.notMem_empty other)
    · rw [found inside, ← operations_historyOf]
      exact legal
  · rintro ⟨nodup, inside, realTime, legal⟩
    refine ⟨nodup, fun id member => ⟨inside id member, Finset.notMem_empty id⟩, ?_, ?_⟩
    · intro before id after isOrder other isOther positions
      have isId : id < history.length := inside id (isOrder ▸ by simp)
      have isOperation := List.getElem?_eq_getElem isId
      have isEarlier : history[other]? = some (history.get ⟨other, isOther⟩) := List.getElem?_eq_getElem isOther
      exact .inr (realTime before id after isOrder other _ _ isOperation isEarlier
        ((made.returned_before_iff timed isEarlier isOperation).mp positions))
    · rw [operations_historyOf, ← found inside]
      exact legal

/-- `checkSingle` returns within enough iterations, and returns true exactly if the operations have a
linearization. -/
theorem checkSingle_iff_linearizable (sound : model.EqualSound)
    (timed : ∀ operation ∈ history, operation.call ≤ operation.ret) (made : MakesEntries history entries)
    (computePartial : Bool) {fuel : Nat} (enough : Backtracking.cost (2 * history.length) < fuel) :
    ∃ ok longest, checkSingle model entries computePartial false fuel = some (ok, longest) ∧
      (ok = true ↔ model.Linearizable history) := by
  obtain ⟨ok, longest, returns, decided⟩ := (made.placed timed).checkSingle_decided sound computePartial enough
  exact ⟨ok, longest, returns, decided.ok.trans (made.linearization_iff timed)⟩

/-- What `longest` holds for an operation, as its comment says: a linearizable prefix that includes it,
and none that does is longer. -/
theorem checkSingle_longest (sound : model.EqualSound)
    (timed : ∀ operation ∈ history, operation.call ≤ operation.ret) (made : MakesEntries history entries)
    {fuel : Nat} (enough : Backtracking.cost (2 * history.length) < fuel) :
    ∃ ok longest, checkSingle model entries true false fuel = some (ok, longest) ∧
      longest.length = history.length ∧ ∀ id,
        (∀ known, longest[id]? = some (some known) → id ∈ known ∧ model.PartiallyExplains history known) ∧
        ∀ order, model.PartiallyExplains history order → id ∈ order →
          ∃ known, longest[id]? = some (some known) ∧ order.length ≤ known.length := by
  obtain ⟨ok, longest, returns, decided⟩ := (made.placed timed).checkSingle_decided sound true enough
  refine ⟨ok, longest, returns, decided.recorded.length,
    fun id => ⟨fun known isKnown => ?_, fun order explains member => ?_⟩⟩
  · obtain ⟨member, isPartial⟩ := decided.recorded.legal id known isKnown
    exact ⟨member, (made.partial_iff timed).mp isPartial⟩
  · exact decided.longest rfl order ((made.partial_iff timed).mpr explains) id member

end Operations

theorem kvModel_equalSound : kvModel.EqualSound := by
  intro one other equal operations legal
  have same : one = other := by simpa [kvModel] using equal
  exact same ▸ legal

/-- A put and a get of what it wrote, which overlap. -/
def overlapping : KvHistory := [
  { clientId := 0, input := { op := 1, key := [107], value := [1] }, call := 0, output := {}, ret := 10 },
  { clientId := 1, input := { op := 0, key := [107] }, call := 5, output := { value := [1] }, ret := 15 }]

def overlappingEntries : List (Entry KvInput KvOutput) := [
  { kind := .callEntry, value := .input { op := 1, key := [107], value := [1] }, id := 0, time := 0, clientId := 0 },
  { kind := .callEntry, value := .input { op := 0, key := [107] }, id := 1, time := 5, clientId := 1 },
  { kind := .returnEntry, value := .output {}, id := 0, time := 10, clientId := 0 },
  { kind := .returnEntry, value := .output { value := [1] }, id := 1, time := 15, clientId := 1 }]

theorem overlapping_makesEntries : MakesEntries overlapping overlappingEntries := ⟨by decide, by decide⟩

theorem checkSingle_iff_linearizable_overlapping :
    (∃ longest, checkSingle kvModel overlappingEntries false false 130 = some (true, longest)) ∧
      kvModel.Linearizable overlapping := by
  obtain ⟨ok, longest, returns, correct⟩ :=
    checkSingle_iff_linearizable kvModel_equalSound (by decide) overlapping_makesEntries false
      (show Backtracking.cost (2 * overlapping.length) < 130 by decide)
  have found : (checkSingle kvModel overlappingEntries false false 130).map Prod.fst = some true := by decide +kernel
  rw [returns] at found
  cases found
  exact ⟨⟨longest, returns⟩, correct.mp rfl⟩

theorem checkSingle_longest_overlapping :
    checkSingle kvModel overlappingEntries true false 130 = some (true, [some [0, 1], some [0, 1]]) ∧
      kvModel.PartiallyExplains overlapping [0, 1] := by
  obtain ⟨ok, longest, returns, -, legal⟩ :=
    checkSingle_longest kvModel_equalSound (by decide) overlapping_makesEntries
      (show Backtracking.cost (2 * overlapping.length) < 130 by decide)
  have found : checkSingle kvModel overlappingEntries true false 130 = some (true, [some [0, 1], some [0, 1]]) := by
    decide +kernel
  cases returns.symm.trans found
  exact ⟨found, ((legal 0).1 [0, 1] rfl).2⟩

end ShardedKV.Porcupine
