import Mathlib.Data.Finset.Card
import ShardedKV.Porcupine.Linearizations

/-!
# `checkSingle` is the search

Every iteration of the loop is one turn of the search: the linked list holds what has not been
linearized, the bit set and the cache say which configurations have been entered, and the links that
were overwritten when a call was taken out are all restored when it is put back.
-/

namespace ShardedKV.Porcupine

open Linked (Links Visits)
open Backtracking (Search Frame Invariant Trail Path Solvable turn)

variable {State Input Output : Type}

/-! ## Taking out and putting back -/

/-- The links without a call and its return. -/
def lifted (links : Links Nat) (entry matching : Nat) : Links Nat := (links.unlink entry).unlink matching

section Lift

variable {links : Links Nat} {first entry matching : Nat} {before after : List Nat}

/-- Two nodes of a list, one after the other, as `lift` finds them. -/
structure Liftable (links : Links Nat) (entry matching : Nat) : Prop where
  held : links.Held entry
  matchingHeld : (links.unlink entry).Held matching
  prev : ∃ before, links.prev entry = some before
  next : ∃ after, links.next entry = some after
  matchingPrev : ∃ before, (links.unlink entry).prev matching = some before

theorem liftable (visits : Visits links first (before ++ entry :: after))
    (distinct : (first :: (before ++ entry :: after)).Nodup) (later : matching ∈ after) :
    Liftable links entry matching := by
  have without := visits.unlink distinct
  have distinctWithout : (first :: (before ++ after)).Nodup :=
    distinct.sublist (((List.sublist_cons_self entry after).append_left before).cons_cons first)
  obtain ⟨previous, -, back, -⟩ := visits.prev_mem
  obtain ⟨between, rest, isAfter⟩ := List.append_of_mem later
  rw [isAfter, ← List.append_assoc] at without distinctWithout
  obtain ⟨matchingPrevious, -, matchingBack, -⟩ := without.prev_mem
  refine ⟨visits.held distinct, without.held distinctWithout, ⟨previous, back⟩, ?_, ⟨matchingPrevious, matchingBack⟩⟩
  have onward := visits.drop.next_eq
  cases after with
  | nil => cases later
  | cons second after => exact ⟨second, onward⟩

theorem Liftable.lift_eq (liftable : Liftable links entry matching) :
    lift links entry matching = some (lifted links entry matching) := by
  obtain ⟨held, matchingHeld, ⟨previous, back⟩, ⟨second, onward⟩, matchingPrevious, matchingBack⟩ := liftable
  have different := (held.before previous back).2.symm
  simp only [lift, back, Links.setNext_next_of_ne _ different, onward, Links.setNext_prev,
    Links.unlink_inner back onward, matchingBack, lifted]
  have matchingDifferent := (matchingHeld.before matchingPrevious matchingBack).2.symm
  cases matchingOnward : (links.unlink entry).next matching with
  | none =>
    simp only [matchingOnward, Links.unlink_last matchingBack, (Links.unlink_next matchingHeld).trans matchingOnward]
  | some third =>
    simp only [Links.setNext_next_of_ne _ matchingDifferent, matchingOnward, Links.unlink_inner matchingBack]

theorem Liftable.unlift_lifted (liftable : Liftable links entry matching) :
    unlift (lifted links entry matching) entry matching = some links := by
  obtain ⟨held, matchingHeld, ⟨previous, back⟩, ⟨second, onward⟩, matchingPrevious, matchingBack⟩ := liftable
  have different := (held.before previous back).2.symm
  have matchingDifferent := (matchingHeld.before matchingPrevious matchingBack).2.symm
  have keptBack : (lifted links entry matching).prev matching = some matchingPrevious := by
    rw [lifted, Links.unlink_prev matchingHeld, matchingBack]
  have keptOnward : (lifted links entry matching).next matching = (links.unlink entry).next matching :=
    Links.unlink_next matchingHeld
  -- after the return entry is back, the call entry finds its neighbours as it left them
  have restored : (lifted links entry matching).relink matching = links.unlink entry := Links.relink_unlink matchingHeld
  have entryBack : (links.unlink entry).prev entry = some previous := (Links.unlink_prev held).trans back
  have entryOnward : (links.unlink entry).next entry = some second := (Links.unlink_next held).trans onward
  have whole : ((links.unlink entry).setNext previous (some entry)).setPrev second (some entry) = links := by
    rw [Links.relink_inner entryBack entryOnward, Links.relink_unlink held]
  cases matchingOnward : (links.unlink entry).next matching with
  | none =>
    rw [matchingOnward] at keptOnward
    simp only [unlift, keptBack, Links.relink_last keptBack keptOnward, restored, matchingOnward, entryBack,
      Links.setNext_next_of_ne _ different, entryOnward, whole]
  | some third =>
    rw [matchingOnward] at keptOnward
    simp only [unlift, keptBack, Links.setNext_next_of_ne _ matchingDifferent, keptOnward,
      Links.relink_inner keptBack keptOnward, restored, entryBack, Links.setNext_next_of_ne _ different, entryOnward,
      whole]

end Lift

/-! ## What the variables of the loop stand for -/

def matchingOf (node : Nat → Option (Node Input Output)) (address : Nat) : Nat :=
  ((node address).bind Node.matching).getD 0

/-- The links after the calls on a stack have been taken out. -/
def linksAfter (node : Nat → Option (Node Input Output)) (links : Links Nat) :
    List (Frame (Finset Nat × State) Nat) → Links Nat
  | [] => links
  | frame :: stack => lifted (linksAfter node links stack) frame.move (matchingOf node frame.move)

/-- The loop stands at an entry, with only calls before it; the moves left are the calls from there to
the next return. -/
def Stands (node : Nat → Option (Node Input Output)) (total : Nat) (done : Finset Nat) (left : List Nat)
    (entry : Option Nat) : Prop :=
  ∃ before after, remaining node total done = before ++ after ∧ (∀ address ∈ before, isCall node address = true) ∧
    left = after.takeWhile (isCall node) ∧ entry = after.head?

/-- The loop can go on from every call on the stack. -/
def Resumable (node : Nat → Option (Node Input Output)) (total : Nat) (links : Links Nat) :
    List (Frame (Finset Nat × State) Nat) → Prop
  | [] => True
  | frame :: stack =>
    Visits (linksAfter node links stack) headEntry (remaining node total frame.config.1) ∧
      Stands node total frame.config.1 (frame.move :: frame.left) (some frame.move) ∧
      Resumable node total links stack

/-- The bit set of a set of operations. -/
structure Marks (count : Nat) (linearized : Bitset) (done : Finset Nat) : Prop where
  size : linearized.chunks.length = (newBitset count).chunks.length
  contains : ∀ id, linearized.Contains id ↔ id ∈ done

/-- The cache holds the configurations that have been entered, under the hashes of their bit sets. -/
def Remembers (count : Nat) (cache : BitVec 64 → List (Bitset × State)) (entered : List (Finset Nat × State)) : Prop :=
  ∀ hash linearized state, (linearized, state) ∈ cache hash ↔
    linearized.hash = hash ∧ ∃ done, (done, state) ∈ entered ∧ Marks count linearized done

/-- For each operation of a set there is something recorded that is at least as long as the set. -/
def Covered (longest : List (Option (List Nat))) (done : Finset Nat) : Prop :=
  ∀ id ∈ done, ∃ known, longest[id]? = some (some known) ∧ done.card ≤ known.length

/-- What is recorded for an operation is a partial linearization in which it occurs. -/
structure Recorded (history : History Input Output) (model : Model State Input Output)
    (longest : List (Option (List Nat))) : Prop where
  length : longest.length = history.count
  legal : ∀ id known, longest[id]? = some (some known) → id ∈ known ∧ history.Partial model ∅ model.init known

/-- What the variables of the loop are when the search has come to a point. -/
structure Simulates (history : History Input Output) (model : Model State Input Output)
    (node : Nat → Option (Node Input Output)) (total : Nat) (links : Links Nat) (computePartial : Bool)
    (check : Check State) (search : Search (Finset Nat × State) Nat) : Prop where
  links_eq : check.links = linksAfter node links search.stack
  visits : Visits check.links headEntry (remaining node total search.config.1)
  stands : Stands node total search.config.1 search.left check.entry
  resumable : Resumable node total links search.stack
  state : check.state = search.config.2
  linearized : Marks history.count check.linearized search.config.1
  calls : check.calls = search.stack.map fun frame => (frame.move, frame.config.2)
  cache : Remembers history.count check.cache search.cache
  recorded : Recorded history model check.longest
  covered : computePartial = true → ∀ entered ∈ search.cache, entered = search.config ∨
    (∃ frame ∈ search.stack, frame.config = entered) ∨ Covered check.longest entered.1

/-! ### Bit sets and the cache -/

namespace Marks

variable {count id : Nat} {linearized other : Bitset} {done another : Finset Nat}

theorem bitset_eq (marks : Marks count linearized done) (same : Marks count other done) : linearized = other :=
  Bitset.ext_contains (marks.size.trans same.size.symm) fun pos =>
    (marks.contains pos).trans (same.contains pos).symm

theorem done_eq (marks : Marks count linearized done) (same : Marks count linearized another) : done = another :=
  Finset.ext fun pos => (marks.contains pos).symm.trans (same.contains pos)

theorem covers (marks : Marks count linearized done) (inside : id < count) : linearized.Covers id := by
  rw [Bitset.Covers, marks.size]
  exact Bitset.newBitset_covers inside

theorem set (marks : Marks count linearized done) (inside : id < count) :
    ∃ after, linearized.set id = some after ∧ Marks count after (insert id done) := by
  obtain ⟨after, isSet, size, contains⟩ := Bitset.set_of_covers (marks.covers inside)
  refine ⟨after, isSet, size.trans marks.size, fun pos => ?_⟩
  rw [contains, Finset.mem_insert, marks.contains]

theorem clear (marks : Marks count linearized (insert id done)) (inside : id < count) (undone : id ∉ done) :
    ∃ after, linearized.clear id = some after ∧ Marks count after done := by
  obtain ⟨after, isClear, size, contains⟩ := Bitset.clear_of_covers (marks.covers inside)
  refine ⟨after, isClear, size.trans marks.size, fun pos => ?_⟩
  rw [contains, marks.contains, Finset.mem_insert]
  constructor
  · rintro ⟨different, rfl | member⟩
    · exact absurd rfl different
    · exact member
  · exact fun member => ⟨fun same => undone (same ▸ member), .inr member⟩

end Marks

namespace Remembers

variable {count : Nat} {cache : BitVec 64 → List (Bitset × State)} {entered : List (Finset Nat × State)}
  {linearized : Bitset} {done : Finset Nat}

/-- The cache finds a state exactly if the search has been in a configuration like it. -/
theorem cacheContains_eq (remembers : Remembers count cache entered) (marks : Marks count linearized done)
    (model : Model State Input Output) (node : Nat → Option (Node Input Output)) (total : Nat) (state : State) :
    cacheContains model cache linearized state = entered.any ((space model node total).same (done, state)) := by
  rw [Bool.eq_iff_iff]
  simp only [cacheContains, List.any_eq_true, Bool.and_eq_true, Bitset.equals_iff, space, decide_eq_true_eq]
  constructor
  · rintro ⟨⟨known, knownState⟩, member, rfl, equal⟩
    obtain ⟨-, knownDone, cached, knownMarks⟩ := (remembers _ _ _).mp member
    exact ⟨(knownDone, knownState), cached, marks.done_eq knownMarks, equal⟩
  · rintro ⟨⟨knownDone, knownState⟩, cached, rfl, equal⟩
    exact ⟨(linearized, knownState), (remembers _ _ _).mpr ⟨rfl, done, cached, marks⟩, rfl, equal⟩

theorem enter (remembers : Remembers count cache entered) (marks : Marks count linearized done) (state : State) :
    Remembers count
      (Function.update cache linearized.hash (cache linearized.hash ++ [(linearized, state)]))
      ((done, state) :: entered) := by
  intro hash known knownState
  have old := remembers hash known knownState
  by_cases same : hash = linearized.hash
  · subst same
    rw [Function.update_self, List.mem_append, List.mem_singleton, old]
    constructor
    · rintro (⟨isHash, done, cached, isKnown⟩ | new)
      · exact ⟨isHash, done, List.mem_cons_of_mem _ cached, isKnown⟩
      · cases new
        exact ⟨rfl, _, List.mem_cons_self, marks⟩
    · rintro ⟨isHash, done, cached, isKnown⟩
      rcases List.mem_cons.mp cached with new | earlier
      · cases new
        exact .inr (by rw [isKnown.bitset_eq marks])
      · exact .inl ⟨isHash, done, earlier, isKnown⟩
  · rw [Function.update_of_ne same, old]
    refine and_congr_right fun isHash => ⟨?_, ?_⟩
    · rintro ⟨done, cached, isKnown⟩
      exact ⟨done, List.mem_cons_of_mem _ cached, isKnown⟩
    · rintro ⟨done, cached, isKnown⟩
      rcases List.mem_cons.mp cached with new | earlier
      · cases new
        exact absurd (isKnown.bitset_eq marks ▸ isHash.symm) same
      · exact ⟨done, earlier, isKnown⟩

end Remembers

section Loop

variable {model : Model State Input Output} {history : History Input Output}
  {node : Nat → Option (Node Input Output)} {total : Nat} {links : Links Nat} {check : Check State}
  {search : Search (Finset Nat × State) Nat} {computePartial : Bool}

/-! ### Standing at an entry -/

theorem Stands.advance {done : Finset Nat} {move : Nat} {left : List Nat} {entry : Option Nat}
    (stands : Stands node total done (move :: left) entry)
    (visits : Visits links headEntry (remaining node total done)) :
    entry = some move ∧ Stands node total done left (links.next move) := by
  obtain ⟨before, after, isRemaining, calls, isLeft, rfl⟩ := stands
  cases after with
  | nil => cases isLeft
  | cons first rest =>
    by_cases call : isCall node first = true
    · rw [List.takeWhile_cons_of_pos call, List.cons.injEq] at isLeft
      obtain ⟨rfl, rfl⟩ := isLeft
      rw [isRemaining] at visits
      refine ⟨rfl, before ++ [move], rest, by simp [isRemaining], ?_, rfl, visits.drop.next_eq⟩
      intro address member
      rcases List.mem_append.mp member with old | new
      · exact calls address old
      · rw [List.mem_singleton.mp new]
        exact call
    · rw [List.takeWhile_cons_of_neg call] at isLeft
      cases isLeft

theorem Stands.start {done : Finset Nat} (visits : Visits links headEntry (remaining node total done)) :
    Stands node total done ((remaining node total done).takeWhile (isCall node)) (links.next headEntry) :=
  ⟨[], _, rfl, by simp, rfl, visits.next_eq⟩

theorem History.Fits.stands_at_return (fits : history.Fits node total) {done : Finset Nat} {entry : Option Nat}
    (stands : Stands node total done [] entry) (nonempty : remaining node total done ≠ []) :
    ∃ id < history.count, entry = some (history.returnAt id) := by
  obtain ⟨before, after, isRemaining, calls, isLeft, rfl⟩ := stands
  cases after with
  | nil =>
    -- the list cannot consist of calls only
    obtain ⟨address, rest, isCons⟩ := List.exists_cons_of_ne_nil nonempty
    obtain ⟨id, inside, undone, -⟩ := fits.mem_remaining.mp (isCons ▸ List.mem_cons_self : address ∈ _)
    have member : history.returnAt id ∈ remaining node total done :=
      fits.mem_remaining.mpr ⟨id, inside, undone, .inr rfl⟩
    rw [isRemaining, List.append_nil] at member
    have call := calls _ member
    rw [fits.isCall_returnAt inside] at call
    cases call
  | cons first rest =>
    have member : first ∈ remaining node total done := isRemaining ▸ by simp
    obtain ⟨id, inside, -, rfl | rfl⟩ := fits.mem_remaining.mp member
    · rw [List.takeWhile_cons_of_pos (fits.isCall_callAt inside)] at isLeft
      cases isLeft
    · exact ⟨id, inside, rfl⟩

/-! ### The calls of the moves -/

theorem History.Fits.matchingOf_callAt (fits : history.Fits node total) {id : Nat} (inside : id < history.count) :
    matchingOf node (history.callAt id) = history.returnAt id := by
  rw [matchingOf, fits.call id inside]
  rfl

theorem History.Fits.nodup_from_head (fits : history.Fits node total) {done : Finset Nat} :
    (headEntry :: remaining node total done).Nodup := by
  refine List.nodup_cons.mpr ⟨fun member => ?_, nodup_remaining⟩
  obtain ⟨id, inside, -, isCall | isReturn⟩ := fits.mem_remaining.mp member
  · exact Nat.ne_of_lt (fits.order id inside).1 isCall
  · have := fits.order id inside
    rw [headEntry] at isReturn
    omega

/-- A call that is still in the list can be taken out, and the list is then that of the set with its
operation. -/
theorem History.Fits.liftable (fits : history.Fits node total) {done : Finset Nat} {id : Nat}
    (inside : id < history.count) (undone : id ∉ done) (visits : Visits links headEntry (remaining node total done)) :
    Liftable links (history.callAt id) (history.returnAt id) ∧
      Visits (lifted links (history.callAt id) (history.returnAt id)) headEntry
        (remaining node total (insert id done)) := by
  have distinct : (headEntry :: remaining node total done).Nodup := fits.nodup_from_head
  have callMember := (fits.callAt_mem inside).mpr undone
  have returnMember : history.returnAt id ∈ remaining node total done :=
    fits.mem_remaining.mpr ⟨id, inside, undone, .inr rfl⟩
  constructor
  · have sorted : (remaining node total done).Pairwise (· < ·) := sorted_remaining
    obtain ⟨before, after, isRemaining⟩ := List.append_of_mem callMember
    rw [isRemaining] at visits distinct sorted returnMember
    refine Porcupine.liftable visits distinct ?_
    have order := fits.order id inside
    rcases List.mem_append.mp returnMember with earlier | later
    · have := (List.pairwise_append.mp sorted).2.2 _ earlier _ List.mem_cons_self
      omega
    · rcases List.mem_cons.mp later with same | inAfter
      · omega
      · exact inAfter
  · rw [fits.remaining_insert inside]
    have without := visits.unlink_erase callMember distinct
    refine without.unlink_erase ?_ (distinct.sublist ((List.erase_sublist).cons_cons _))
    exact (List.mem_erase_of_ne (fits.callAt_ne_returnAt inside inside).symm).mpr returnMember

/-- The operations of the calls on a stack are a partial linearization, and make up the set. -/
theorem History.Fits.trail_partial (fits : history.Fits node total) {config : Finset Nat × State}
    {stack : List (Frame (Finset Nat × State) Nat)}
    (trail : Trail (space model node total) (∅, model.init) stack config) :
    ∃ order, seq node (stack.map fun frame => (frame.move, frame.config.2)) = order ∧
      history.Partial model ∅ model.init order ∧ config.1 = order.toFinset := by
  obtain ⟨order, isPartial, isPath, rfl⟩ := fits.path_iff.mp trail.path
  refine ⟨order, ?_, isPartial, by simp⟩
  calc seq node (stack.map fun frame => (frame.move, frame.config.2))
      = (stack.reverse.map Frame.move).filterMap fun address => (node address).map Node.id := by
        simp [seq, ← List.map_reverse, List.filterMap_map]
    _ = order.filterMap some := by
        rw [isPath, List.filterMap_map]
        refine List.filterMap_congr fun id member => ?_
        simp [fits.call id (isPartial.fresh id member).1]
    _ = order := List.filterMap_some

/-! ### Recording the prefixes -/

/-- Some sequences have been replaced by a longer one, and for the given operations none is shorter. -/
structure Improved (seq ids : List Nat) (longest after : List (Option (List Nat))) : Prop where
  length : after.length = longest.length
  either : ∀ (id : Nat) (known : List Nat), after[id]? = some (some known) →
    longest[id]? = some (some known) ∨ known = seq ∧ id ∈ ids
  longer : ∀ (id : Nat) (known : List Nat), longest[id]? = some (some known) →
    ∃ later : List Nat, after[id]? = some (some later) ∧ known.length ≤ later.length
  here : ∀ id ∈ ids, ∃ later : List Nat, after[id]? = some (some later) ∧ seq.length ≤ later.length

theorem Improved.trans {seq ids more : List Nat} {longest between after : List (Option (List Nat))}
    (first : Improved seq ids longest between) (second : Improved seq more between after) :
    Improved seq (ids ++ more) longest after where
  length := second.length.trans first.length
  either := by
    intro id known isKnown
    rw [List.mem_append]
    rcases second.either id known isKnown with earlier | ⟨isSeq, member⟩
    · rcases first.either id known earlier with old | ⟨isSeq, member⟩
      · exact .inl old
      · exact .inr ⟨isSeq, .inl member⟩
    · exact .inr ⟨isSeq, .inr member⟩
  longer := by
    intro id known isKnown
    obtain ⟨later, isLater, atLeast⟩ := first.longer id known isKnown
    obtain ⟨last, isLast, atLeast'⟩ := second.longer id later isLater
    exact ⟨last, isLast, atLeast.trans atLeast'⟩
  here := by
    intro id member
    rcases List.mem_append.mp member with early | late
    · obtain ⟨later, isLater, atLeast⟩ := first.here id early
      obtain ⟨last, isLast, atLeast'⟩ := second.longer id later isLater
      exact ⟨last, isLast, atLeast.trans atLeast'⟩
    · exact second.here id late

theorem Improved.refl (seq : List Nat) (longest : List (Option (List Nat))) : Improved seq [] longest longest where
  length := rfl
  either := fun _ _ isKnown => .inl isKnown
  longer := fun _ known isKnown => ⟨known, isKnown, le_rfl⟩
  here := by simp

theorem Improved.set {seq : List Nat} {longest : List (Option (List Nat))} {first : Nat}
    (inside : first < longest.length)
    (shorter : ∀ known, longest[first]? = some (some known) → known.length ≤ seq.length) :
    Improved seq [first] longest (longest.set first (some seq)) where
  length := List.length_set
  either := by
    intro id known isKnown
    by_cases same : first = id
    · subst same
      rw [List.getElem?_set_self inside, Option.some.injEq, Option.some.injEq] at isKnown
      exact .inr ⟨isKnown.symm, List.mem_cons_self⟩
    · rw [List.getElem?_set_ne same] at isKnown
      exact .inl isKnown
  longer := by
    intro id known isKnown
    by_cases same : first = id
    · subst same
      exact ⟨seq, List.getElem?_set_self inside, shorter known isKnown⟩
    · exact ⟨known, by rwa [List.getElem?_set_ne same], le_rfl⟩
  here := by
    intro id member
    rw [List.mem_singleton.mp member]
    exact ⟨seq, List.getElem?_set_self inside, le_rfl⟩

theorem Improved.keep {seq known : List Nat} {longest : List (Option (List Nat))} {first : Nat}
    (isKnown : longest[first]? = some (some known)) (notShorter : seq.length ≤ known.length) :
    Improved seq [first] longest longest where
  length := rfl
  either := fun _ _ isKnown => .inl isKnown
  longer := fun _ known isKnown => ⟨known, isKnown, le_rfl⟩
  here := by
    intro id member
    rw [List.mem_singleton.mp member]
    exact ⟨known, isKnown, notShorter⟩

theorem recordLongest_improved (seq ids : List Nat) {longest : List (Option (List Nat))}
    (inside : ∀ id ∈ ids, id < longest.length) :
    ∃ after, recordLongest seq ids longest = some after ∧ Improved seq ids longest after := by
  induction ids generalizing longest with
  | nil => exact ⟨longest, rfl, .refl seq longest⟩
  | cons first rest inductionHypothesis =>
    have bound := inside first List.mem_cons_self
    have goOn : ∀ changed, Improved seq [first] longest changed →
        ∃ after, recordLongest seq rest changed = some after ∧ Improved seq (first :: rest) longest after := by
      intro changed improved
      have stillInside : ∀ id ∈ rest, id < changed.length :=
        fun id member => improved.length ▸ inside id (List.mem_cons_of_mem _ member)
      obtain ⟨after, records, further⟩ := inductionHypothesis stillInside
      exact ⟨after, records, improved.trans further⟩
    cases found : longest[first]? with
    | none =>
      rw [List.getElem?_eq_none_iff] at found
      omega
    | some entry =>
      cases entry with
      | none =>
        simp only [recordLongest, found]
        exact goOn _ (.set bound (by simp [found]))
      | some known =>
        simp only [recordLongest, found]
        split
        · rename_i shorter
          refine goOn _ (.set bound fun other isOther => ?_)
          rw [found, Option.some.injEq, Option.some.injEq] at isOther
          exact isOther ▸ shorter.le
        · rename_i notShorter
          exact goOn _ (.keep found (Nat.le_of_not_lt notShorter))

theorem Covered.improved {longest after : List (Option (List Nat))} {done : Finset Nat} {seq ids : List Nat}
    (covered : Covered longest done) (improved : Improved seq ids longest after) : Covered after done := by
  intro id member
  obtain ⟨known, isKnown, atLeast⟩ := covered id member
  obtain ⟨later, isLater, longer⟩ := improved.longer id known isKnown
  exact ⟨later, isLater, atLeast.trans longer⟩

theorem Recorded.record {longest : List (Option (List Nat))} (recorded : Recorded history model longest)
    {order : List Nat} (isPartial : history.Partial model ∅ model.init order) :
    ∃ after, recordLongest order order longest = some after ∧ Improved order order longest after ∧
      Recorded history model after ∧ Covered after order.toFinset := by
  have inside : ∀ id ∈ order, id < longest.length :=
    fun id member => recorded.length ▸ (isPartial.fresh id member).1
  obtain ⟨after, records, improved⟩ := recordLongest_improved order order inside
  refine ⟨after, records, improved, ⟨improved.length.trans recorded.length, fun id known isKnown => ?_⟩, ?_⟩
  · rcases improved.either id known isKnown with old | ⟨rfl, member⟩
    · exact recorded.legal id known old
    · exact ⟨member, isPartial⟩
  · intro id member
    rw [List.toFinset_card_of_nodup isPartial.nodup]
    exact improved.here id (List.mem_toFinset.mp member)

/-! ### One iteration is one turn -/

variable (simulates : Simulates history model node total links computePartial check search)
include simulates

theorem Simulates.next_head_eq_none_iff :
    check.links.next headEntry = none ↔ (space model node total).goal search.config = true := by
  rw [simulates.visits.next_eq, List.head?_eq_none_iff]
  exact List.isEmpty_iff.symm

theorem Simulates.next_head (notGoal : (space model node total).goal search.config = false) :
    ∃ first, check.links.next headEntry = some first := by
  rw [← Option.ne_none_iff_exists', Ne, simulates.next_head_eq_none_iff, notGoal]
  exact Bool.false_ne_true

theorem Simulates.skip {move : Nat} {left : List Nat} (isLeft : search.left = move :: left) :
    Simulates history model node total links computePartial { check with entry := check.links.next move }
      { search with left } := by
  have stands := simulates.stands
  rw [isLeft] at stands
  exact { simulates with stands := (stands.advance simulates.visits).2 }

theorem Simulates.enter (fits : history.Fits node total) {id : Nat} {left : List Nat}
    (isLeft : search.left = history.callAt id :: left) (inside : id < history.count)
    (undone : id ∉ search.config.1) {linearized : Bitset}
    (marks : Marks history.count linearized (insert id search.config.1)) (state : State) :
    Simulates history model node total links computePartial
      { check with
        links := lifted check.links (history.callAt id) (history.returnAt id)
        entry := (lifted check.links (history.callAt id) (history.returnAt id)).next headEntry
        state
        linearized
        cache := Function.update check.cache linearized.hash (check.cache linearized.hash ++ [(linearized, state)])
        calls := (history.callAt id, check.state) :: check.calls }
      { config := (insert id search.config.1, state)
        left := (space model node total).moves (insert id search.config.1, state)
        stack := { config := search.config, move := history.callAt id, left } :: search.stack
        cache := (insert id search.config.1, state) :: search.cache } where
  links_eq := by
    rw [linksAfter, fits.matchingOf_callAt inside, ← simulates.links_eq]
  visits := (fits.liftable inside undone simulates.visits).2
  stands := .start (fits.liftable inside undone simulates.visits).2
  resumable := by
    have stands := simulates.stands
    rw [isLeft] at stands
    refine ⟨simulates.links_eq ▸ simulates.visits, ?_, simulates.resumable⟩
    rwa [(stands.advance simulates.visits).1] at stands
  state := rfl
  linearized := marks
  calls := by
    rw [simulates.calls, simulates.state]
    rfl
  cache := simulates.cache.enter marks state
  recorded := simulates.recorded
  covered := by
    intro isPartial entered member
    rcases List.mem_cons.mp member with rfl | earlier
    · exact .inl rfl
    · rcases simulates.covered isPartial entered earlier with rfl | ⟨frame, inStack, rfl⟩ | covered
      · exact .inr (.inl ⟨_, List.mem_cons_self, rfl⟩)
      · exact .inr (.inl ⟨frame, List.mem_cons_of_mem _ inStack, rfl⟩)
      · exact .inr (.inr covered)

theorem Simulates.record (fits : history.Fits node total)
    (trail : Trail (space model node total) (∅, model.init) search.stack search.config) :
    ∃ longest, (if computePartial then
        recordLongest (seq node check.calls) (seq node check.calls) check.longest else some check.longest) =
      some longest ∧ Recorded history model longest ∧ (computePartial = true → Covered longest search.config.1 ∧
        ∀ done, Covered check.longest done → Covered longest done) := by
  cases computePartial with
  | false => exact ⟨check.longest, rfl, simulates.recorded, by simp⟩
  | true =>
    obtain ⟨order, isSeq, isPartial, isSet⟩ := fits.trail_partial trail
    rw [simulates.calls, isSeq, isSet]
    obtain ⟨after, records, improved, recorded, covered⟩ := simulates.recorded.record isPartial
    exact ⟨after, records, recorded, fun _ => ⟨covered, fun done known => known.improved improved⟩⟩

theorem Simulates.step_back (fits : history.Fits node total) {root : Finset Nat × State}
    {frame : Frame (Finset Nat × State) Nat} {stack : List (Frame (Finset Nat × State) Nat)}
    (isStack : search.stack = frame :: stack)
    (trail : Trail (space model node total) root (frame :: stack) search.config)
    {longest : List (Option (List Nat))} (recorded : Recorded history model longest)
    (covered : computePartial = true → Covered longest search.config.1 ∧
      ∀ done, Covered check.longest done → Covered longest done) :
    ∃ id < history.count, frame.move = history.callAt id ∧ ∃ before linearized,
      check.linearized.clear id = some linearized ∧
      unlift check.links (history.callAt id) (history.returnAt id) = some before ∧
      Simulates history model node total links computePartial
        { check with
          links := before
          entry := before.next (history.callAt id)
          state := frame.config.2
          linearized
          calls := stack.map fun frame => (frame.move, frame.config.2)
          longest }
        { search with config := frame.config, left := frame.left, stack } := by
  have entered := simulates.covered
  rw [isStack] at entered
  obtain ⟨frameConfig, move, left⟩ := frame
  obtain ⟨done, state⟩ := frameConfig
  cases trail with
  | cons _ _ possible _ applied =>
    obtain ⟨id, inside, undone, isMove, -⟩ := fits.mem_moves.mp possible
    dsimp only at isMove possible applied
    subst isMove
    have reached : search.config.1 = insert id done := by
      rw [fits.apply_callAt inside] at applied
      split at applied
      · rw [Option.some.injEq] at applied
        rw [← applied]
      · cases applied
    have resumable := simulates.resumable
    rw [isStack] at resumable
    obtain ⟨visits, stands, below⟩ := resumable
    have isLinks := simulates.links_eq
    rw [isStack, linksAfter, fits.matchingOf_callAt inside] at isLinks
    have marks := simulates.linearized
    rw [reached] at marks
    obtain ⟨linearized, cleared, marksBefore⟩ := marks.clear inside undone
    refine ⟨id, inside, rfl, linksAfter node links stack, linearized, cleared, ?_, ?_⟩
    · rw [isLinks]
      exact (fits.liftable inside undone visits).1.unlift_lifted
    · refine {
        links_eq := rfl
        visits := visits
        stands := (stands.advance visits).2
        resumable := below
        state := rfl
        linearized := marksBefore
        calls := rfl
        cache := simulates.cache
        recorded := recorded
        covered := ?_ }
      intro isPartial config member
      rcases entered isPartial config member with rfl | ⟨frame, inStack, rfl⟩ | known
      · exact .inr (.inr (covered isPartial).1)
      · rcases List.mem_cons.mp inStack with rfl | later
        · exact .inl rfl
        · exact .inr (.inl ⟨frame, later, rfl⟩)
      · exact .inr (.inr ((covered isPartial).2 _ known))

theorem Simulates.returns_true (reached : (space model node total).goal search.config = true) (kill : Bool) :
    iterate model node check computePartial kill =
      .returns true (List.replicate history.count (some (seq node check.calls))) := by
  rw [iterate, simulates.next_head_eq_none_iff.mpr reached, simulates.recorded.length]

variable (fits : history.Fits node total)
include fits

theorem Simulates.iterate_call
    (notGoal : (space model node total).goal search.config = false) {id : Nat} {left : List Nat}
    (isLeft : search.left = history.callAt id :: left) (inside : id < history.count) :
    iterate model node check computePartial false =
      tryCall model node check (history.callAt id)
        { value := .input (history.input id), matching := some (history.returnAt id), id } (history.returnAt id) := by
  have stands := simulates.stands
  rw [isLeft] at stands
  have isEntry := (stands.advance simulates.visits).1
  obtain ⟨first, isNext⟩ := simulates.next_head notGoal
  simp only [iterate, isNext, Bool.false_eq_true, if_false, isEntry, fits.call id inside]

theorem Simulates.iterate_return
    (notGoal : (space model node total).goal search.config = false) (exhausted : search.left = []) :
    iterate model node check computePartial false = backtrack node check computePartial := by
  have stands := simulates.stands
  rw [exhausted] at stands
  have nonempty : remaining node total search.config.1 ≠ [] := by
    rintro empty
    simp [space, empty] at notGoal
  obtain ⟨id, inside, isEntry⟩ := fits.stands_at_return stands nonempty
  obtain ⟨first, isNext⟩ := simulates.next_head notGoal
  simp only [iterate, isNext, Bool.false_eq_true, if_false, isEntry, fits.ret id inside]

theorem Simulates.iterate_continues (invariant : Invariant (space model node total) (∅, model.init) search)
    {next : Search (Finset Nat × State) Nat} (turned : turn (space model node total) search = .next next) :
    ∃ after, iterate model node check computePartial false = .continues after ∧
      Simulates history model node total links computePartial after next := by
  unfold turn at turned
  split at turned
  · cases turned
  rename_i notGoal
  rw [Bool.not_eq_true] at notGoal
  split at turned
  · -- no call is left to try, and the last one that was made is put back
    rename_i exhausted
    split at turned
    · cases turned
    rename_i frame stack isStack
    cases turned
    rw [simulates.iterate_return fits notGoal exhausted]
    obtain ⟨longest, records, recorded, covered⟩ := simulates.record fits invariant.trail
    obtain ⟨id, inside, isMove, before, linearized, cleared, unlifted, after⟩ :=
      simulates.step_back fits isStack (isStack ▸ invariant.trail) recorded covered
    have isCalls := simulates.calls
    rw [isStack, List.map_cons, isMove] at isCalls
    rw [isCalls] at records
    refine ⟨_, ?_, after⟩
    simp only [backtrack, isCalls, records, fits.call id inside, cleared, unlifted]
  · rename_i move left isLeft
    have possible := invariant.left move (isLeft ▸ List.mem_cons_self)
    obtain ⟨id, inside, undone, rfl, -⟩ := fits.mem_moves.mp possible
    rw [simulates.iterate_call fits notGoal isLeft inside]
    simp only [tryCall, fits.ret id inside, Option.map_some]
    rw [fits.apply_callAt inside, ← simulates.state] at turned
    split at turned
    · -- the model does not accept the call
      rename_i rejected
      cases turned
      rw [if_neg (by simpa using rejected)]
      exact ⟨_, rfl, simulates.skip isLeft⟩
    · rename_i config applied
      split at applied
      · rename_i accepted
        rw [Option.some.injEq] at applied
        subst applied
        obtain ⟨linearized, isSet, marks⟩ := simulates.linearized.set inside
        simp only [accepted, if_true, isSet, simulates.cache.cacheContains_eq marks model node total]
        split at turned
        · -- what it leads to has been tried before
          rename_i cached
          cases turned
          rw [if_pos cached]
          exact ⟨_, rfl, simulates.skip isLeft⟩
        · rename_i fresh
          cases turned
          rw [if_neg fresh, (fits.liftable inside undone simulates.visits).1.lift_eq]
          exact ⟨_, rfl, simulates.enter fits isLeft inside undone marks _⟩
      · cases applied

theorem Simulates.iterate_found (invariant : Invariant (space model node total) (∅, model.init) search)
    (reached : (space model node total).goal search.config = true) (kill : Bool) :
    ∃ order, history.Linearization model order ∧
      iterate model node check computePartial kill = .returns true (List.replicate history.count (some order)) := by
  obtain ⟨order, isSeq, isPartial, isSet⟩ := fits.trail_partial invariant.trail
  refine ⟨order, fits.completion_iff.mpr ⟨isPartial, fun id inside => .inr ?_⟩, ?_⟩
  · have member := fits.goal_iff.mp reached id inside
    rwa [isSet, List.mem_toFinset] at member
  · rw [simulates.returns_true reached, simulates.calls, isSeq]

theorem Simulates.iterate_exhausted (invariant : Invariant (space model node total) (∅, model.init) search)
    (left : turn (space model node total) search = .leave)
    (notGoal : (space model node total).goal search.config = false) :
    iterate model node check computePartial false = .returns false check.longest := by
  obtain ⟨exhausted, bottom, -⟩ := invariant.leave left notGoal
  have isCalls := simulates.calls
  rw [bottom, List.map_nil] at isCalls
  rw [simulates.iterate_return fits notGoal exhausted]
  simp only [backtrack, isCalls]

end Loop

end ShardedKV.Porcupine
