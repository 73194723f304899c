import ShardedKV.Replication.Invariant

/-!
# The invariant is kept by every step

The argument for completeness is the one of Paxos rather than the usual induction on
terms: `Choosable` only shrinks as a run goes on, so a fact about choosable entries that
holds when a vote is cast, or when a leader is elected, keeps holding afterwards.
-/

namespace ShardedKV.Replication

variable {Node Entry : Type} {scheme : Scheme Node Entry} {before after state : State Node Entry}

/-! ## Consequences of the invariant in one state -/

/-- Two logs that have entries of one term agree up to the first of them: the entries of a term
follow the same entries in every log. -/
theorem Covered.agree_below {first second : List Entry}
    (firstCovered : Covered scheme state first) (secondCovered : Covered scheme state second)
    {position later : Nat} (ordered : position ≤ later) {firstEntry secondEntry : Entry}
    (inFirst : first[position]? = some firstEntry) (inSecond : second[later]? = some secondEntry)
    (sameTerm : scheme.termOf firstEntry = scheme.termOf secondEntry) :
    first.take (position + 1) = second.take (position + 1) := by
  obtain ⟨leader, leaderLog, leads, firstContained⟩ := firstCovered position firstEntry inFirst
  obtain ⟨leader', leaderLog', leads', secondContained⟩ := secondCovered later secondEntry inSecond
  rw [← sameTerm, leads] at leads'
  obtain ⟨rfl, rfl⟩ := Prod.mk.inj (Option.some.inj leads')
  have firstBound := (List.getElem?_eq_some_iff.mp inFirst).1
  have secondBound := (List.getElem?_eq_some_iff.mp inSecond).1
  have shorter : second.take (position + 1) <+: leaderLog :=
    (List.take_prefix_take_left (by omega)).trans secondContained
  have sameLength : (first.take (position + 1)).length = (second.take (position + 1)).length := by
    simp only [List.length_take]; omega
  exact (List.prefix_of_prefix_length_le firstContained shorter sameLength.le).eq_of_length sameLength

theorem Covered.agree {first second : List Entry}
    (firstCovered : Covered scheme state first) (secondCovered : Covered scheme state second)
    {position : Nat} {firstEntry secondEntry : Entry} (inFirst : first[position]? = some firstEntry)
    (inSecond : second[position]? = some secondEntry)
    (sameTerm : scheme.termOf firstEntry = scheme.termOf secondEntry) :
    first.take (position + 1) = second.take (position + 1) :=
  firstCovered.agree_below secondCovered le_rfl inFirst inSecond sameTerm

/-- An entry of a covered log is at the same place in the log of the leader that created it. -/
theorem Covered.created {log : List Entry} (covered : Covered scheme state log)
    {position : Nat} {entry : Entry} (located : log[position]? = some entry) :
    ∃ leader leaderLog, state.leader (scheme.termOf entry) = some (leader, leaderLog) ∧
      leaderLog[position]? = some entry := by
  obtain ⟨leader, leaderLog, leads, contained⟩ := covered position entry located
  refine ⟨leader, leaderLog, leads, ?_⟩
  rw [← List.getElem?_take_of_lt (Nat.lt_succ_self position)] at located
  obtain ⟨rest, rfl⟩ := contained
  rw [List.getElem?_append_left (List.getElem?_eq_some_iff.mp located).1]
  exact located

theorem Covered.take {log : List Entry}
    (covered : Covered scheme state log) (count : Nat) : Covered scheme state (log.take count) := by
  intro position entry located
  obtain ⟨bound, -⟩ := List.getElem?_eq_some_iff.mp located
  rw [List.length_take] at bound
  rw [List.getElem?_take_of_lt (by omega)] at located
  obtain ⟨leader, leaderLog, leads, contained⟩ := covered position entry located
  exact ⟨leader, leaderLog, leads, by rwa [List.take_take, Nat.min_eq_left (by omega)]⟩

theorem Covered.of_contained {log fewer : List Entry}
    (covered : Covered scheme state log) (contained : fewer <+: log) :
    Covered scheme state fewer := by
  rw [List.prefix_iff_eq_take.mp contained]
  exact covered.take _

section

variable (invariant : Invariant scheme state)
include invariant

theorem Committed.covered {term : Nat} {entries : List Entry} (committed : Committed scheme state term entries) :
    Covered scheme state entries := by
  rcases committed with rfl | ⟨_, count, log, _, ⟨⟨leader, leads⟩, _⟩, contained⟩
  · intro position entry located
    simp at located
  · exact ((invariant.leader_covered _ _ _ leads).take count).of_contained contained

theorem Committed.terms {term : Nat} {entries : List Entry} (committed : Committed scheme state term entries) :
    ∀ entry ∈ entries, scheme.termOf entry ≤ term := by
  rcases committed with rfl | ⟨_, count, log, known, ⟨⟨leader, leads⟩, _⟩, contained⟩
  · simp
  · intro entry member
    exact (invariant.leader_terms _ _ _ leads entry (List.mem_of_mem_take (contained.mem member))).trans
      known

/-- A covered log is sorted by term, because the leader log that covers its last entry is. -/
theorem Covered.term_le {log : List Entry} (covered : Covered scheme state log) {earlier later : Nat}
    {earlierEntry laterEntry : Entry} (ordered : earlier ≤ later)
    (atEarlier : log[earlier]? = some earlierEntry) (atLater : log[later]? = some laterEntry) :
    scheme.termOf earlierEntry ≤ scheme.termOf laterEntry := by
  obtain ⟨leader, leaderLog, leads, contained⟩ := covered later laterEntry atLater
  have sorted := invariant.leader_sorted _ _ _ leads
  have inLeader : ∀ position entry, position ≤ later → log[position]? = some entry →
      leaderLog[position]? = some entry := by
    intro position entry bound located
    rw [← List.getElem?_take_of_lt (show position < later + 1 by omega)] at located
    obtain ⟨rest, rfl⟩ := contained
    rw [List.getElem?_append_left (List.getElem?_eq_some_iff.mp located).1, located]
  have first := inLeader _ _ ordered atEarlier
  have second := inLeader _ _ le_rfl atLater
  rcases Nat.eq_or_lt_of_le ordered with rfl | strict
  · rw [first] at second
    exact (Option.some.inj second) ▸ le_rfl
  · obtain ⟨firstBound, rfl⟩ := List.getElem?_eq_some_iff.mp first
    obtain ⟨secondBound, rfl⟩ := List.getElem?_eq_some_iff.mp second
    exact List.pairwise_iff_getElem.mp sorted _ _ firstBound secondBound strict

theorem choosable_common {firstTerm secondTerm firstCount secondCount : Nat} {first second : Node}
    {firstLog secondLog : List Entry} (firstLeads : state.leader firstTerm = some (first, firstLog))
    (secondLeads : state.leader secondTerm = some (second, secondLog))
    (firstEnds : EndsIn scheme firstLog firstCount firstTerm)
    (secondEnds : EndsIn scheme secondLog secondCount secondTerm)
    (firstChoosable : Choosable scheme state firstTerm firstCount)
    (secondChoosable : Choosable scheme state secondTerm secondCount) :
    ∃ common, firstLog.take firstCount <+: common ∧ secondLog.take secondCount <+: common := by
  rcases Nat.lt_trichotomy firstTerm secondTerm with earlier | rfl | later
  · exact ⟨secondLog, invariant.complete _ _ _ _ _ _ _ earlier firstLeads secondLeads firstEnds
      firstChoosable, List.take_prefix _ _⟩
  · rw [firstLeads] at secondLeads
    obtain ⟨rfl, rfl⟩ := Prod.mk.inj (Option.some.inj secondLeads)
    exact ⟨firstLog, List.take_prefix _ _, List.take_prefix _ _⟩
  · exact ⟨firstLog, List.take_prefix _ _, invariant.complete _ _ _ _ _ _ _ later secondLeads firstLeads
      secondEnds secondChoosable⟩

theorem Committed.comparable {firstTerm secondTerm : Nat} {first second : List Entry}
    (firstCommitted : Committed scheme state firstTerm first)
    (secondCommitted : Committed scheme state secondTerm second) :
    first <+: second ∨ second <+: first := by
  rcases firstCommitted with rfl | ⟨_, _, firstLog, _, firstChosen, firstContained⟩
  · exact .inl ⟨_, rfl⟩
  rcases secondCommitted with rfl | ⟨_, _, secondLog, _, secondChosen, secondContained⟩
  · exact .inr ⟨_, rfl⟩
  obtain ⟨_, firstLeads⟩ := firstChosen.1
  obtain ⟨_, secondLeads⟩ := secondChosen.1
  obtain ⟨common, firstCommon, secondCommon⟩ := choosable_common invariant firstLeads secondLeads
    firstChosen.2.1 secondChosen.2.1 firstChosen.choosable secondChosen.choosable
  exact List.prefix_or_prefix_of_prefix (firstContained.trans firstCommon)
    (secondContained.trans secondCommon)

/-- A committed sequence known at a term is contained in the log of that term's leader. -/
theorem Committed.in_leader {known term : Nat} {entries log : List Entry} {leader : Node} (notLater : known ≤ term)
    (committed : Committed scheme state known entries)
    (leads : state.leader term = some (leader, log)) : entries <+: log := by
  rcases committed with rfl | ⟨chosenTerm, count, chosenLog, bound, chosen, contained⟩
  · exact List.nil_prefix
  obtain ⟨_, chosenLeads⟩ := chosen.1
  rcases Nat.eq_or_lt_of_le (bound.trans notLater) with rfl | earlier
  · rw [leads] at chosenLeads
    obtain ⟨rfl, rfl⟩ := Prod.mk.inj (Option.some.inj chosenLeads)
    exact contained.trans ⟨_, List.take_append_drop _ _⟩
  · exact contained.trans (invariant.complete _ _ _ _ _ _ _ earlier chosenLeads leads chosen.2.1
      chosen.choosable)

end

/-! ## Terms, votes and acknowledgements -/

section

variable (invariant : Invariant scheme before) (step : Step scheme before after)
include invariant step

theorem vote_term_step (node : Node) (term : Nat) (ballot : Node × List Entry)
    (voted : after.vote node term = some ballot) : term ≤ after.currentTerm node := by
  have vote_term := invariant.vote_term
  cases step <;> simp only [Function.update_apply] at voted ⊢ <;> grind

theorem acked_term_step (node : Node) (term : Nat) (acked : 0 < after.acked node term) :
    term ≤ after.currentTerm node := by
  have acked_term := invariant.acked_term
  cases step <;> simp only [Function.update_apply] at acked ⊢ <;> grind

theorem acked_length_step (node : Node) (term : Nat) (acked : 0 < after.acked node term) :
    ∃ leader log, after.leader term = some (leader, log) ∧ after.acked node term ≤ log.length := by
  have acked_length := invariant.acked_length
  cases step <;> simp only [Function.update_apply] at acked ⊢ <;> grind

theorem elected_step (term : Nat) (node : Node) (log : List Entry) (leads : after.leader term = some (node, log)) :
    ∃ quorum, scheme.IsQuorum quorum ∧
      ∀ voter ∈ quorum, ∃ held, after.vote voter term = some (node, held) := by
  have extended := step_extends invariant step
  have old : (∃ log, before.leader term = some (node, log)) ∨ ∃ quorum, scheme.IsQuorum quorum ∧
      ∀ voter ∈ quorum, ∃ held, after.vote voter term = some (node, held) := by
    cases step <;> simp only [Function.update_apply] at leads ⊢ <;> grind
  rcases old with ⟨oldLog, ledBefore⟩ | now
  · obtain ⟨quorum, isQuorum, voted⟩ := invariant.elected _ _ _ ledBefore
    refine ⟨quorum, isQuorum, fun voter member => ?_⟩
    obtain ⟨held, vote⟩ := voted voter member
    exact ⟨held, extended.vote _ _ _ vote⟩
  · exact now

theorem leader_term_step (term : Nat) (node : Node) (log : List Entry) (leads : after.leader term = some (node, log)) :
    term ≤ after.currentTerm node := by
  have leader_term := invariant.leader_term
  cases step <;> simp only [Function.update_apply] at leads ⊢ <;> grind

theorem vote_upToDate_step (node : Node) (term : Nat) (candidate : Node) (held : List Entry)
    (voted : after.vote node term = some (candidate, held)) :
    ∃ start, after.vote candidate term = some (candidate, start) ∧ UpToDate scheme start held := by
  have vote_term := invariant.vote_term
  have vote_upToDate := invariant.vote_upToDate
  cases step <;> simp only [Function.update_apply] at voted ⊢ <;> grind [UpToDate]

end

/-! ## Contents of logs -/

section

variable (step : Step scheme before after)
include step

theorem log_step (node : Node) :
    after.log node = before.log node ∨
    (∃ entry, before.leader (before.currentTerm node) = some (node, before.log node) ∧
      scheme.termOf entry = before.currentTerm node ∧
      after.log node = before.log node ++ [entry] ∧
      after.leader (before.currentTerm node) = some (node, before.log node ++ [entry])) ∨
    (∃ leader log count, before.leader (before.currentTerm node) = some (leader, log) ∧
      count ≤ log.length ∧ after.log node = overlay (before.log node) (log.take count)) ∨
    (∃ entries, Committed scheme before (before.currentTerm node) entries ∧
      after.log node = overlay (before.log node) entries) := by
  cases step <;> simp only [Function.update_apply] <;> grind

theorem leader_step (term : Nat) (node : Node) (log : List Entry) (leads : after.leader term = some (node, log)) :
    before.leader term = some (node, log) ∨
    (before.leader term = none ∧ term = before.currentTerm node ∧ log = before.log node ∧
      after.log = before.log ∧ after.vote = before.vote ∧
      (∃ start, before.vote node term = some (node, start)) ∧
      ∃ quorum, scheme.IsQuorum quorum ∧
        ∀ voter ∈ quorum, ∃ held, before.vote voter term = some (node, held)) ∨
    (∃ entry, before.leader term = some (node, before.log node) ∧ term = before.currentTerm node ∧
      scheme.termOf entry = term ∧ log = before.log node ++ [entry] ∧ after.log node = log ∧
      after.currentTerm = before.currentTerm ∧
      ∀ other, other ≠ node → after.acked other = before.acked other) := by
  cases step <;> simp only [Function.update_apply] at leads ⊢ <;> grind

theorem vote_step (node : Node) (term : Nat) (candidate : Node)
    (held : List Entry) (voted : after.vote node term = some (candidate, held)) :
    before.vote node term = some (candidate, held) ∨
    (held = before.log node ∧ after.log = before.log ∧ after.leader = before.leader ∧
      after.acked = before.acked) := by
  cases step <;> simp only [Function.update_apply] at voted ⊢ <;> grind

theorem acked_step (node : Node) (term : Nat) (more : before.acked node term < after.acked node term) :
    ∃ leader log, after.leader term = some (leader, log) ∧
      log.take (after.acked node term) <+: after.log node := by
  cases step with
  | advance | campaign | grant | install => simp at more
  | elect winner quorum =>
    simp only [Function.update_apply] at more ⊢
    grind
  | append leader entry leads =>
    simp only [Function.update_apply] at more ⊢
    grind
  | accept follower leader log count leads available =>
    simp only [Function.update_apply] at more ⊢
    have contains := overlay_contains (before.log follower) (log.take count)
    grind

end

section

variable (invariant : Invariant scheme before) (step : Step scheme before after)
include invariant step

theorem log_covered_step (node : Node) : Covered scheme after (after.log node) := by
  have extended := step_extends invariant step
  have oldCovered := (invariant.log_covered node).mono extended
  rcases log_step step node with same | ⟨entry, -, own, grown, leads⟩ |
    ⟨leader, log, count, leads, -, overlaid⟩ | ⟨entries, committed, overlaid⟩
  · rw [same]
    exact oldCovered
  · rw [grown]
    intro position found located
    rcases Nat.lt_or_ge position (before.log node).length with old | new
    · rw [List.getElem?_append_left old] at located
      rw [List.take_append_of_le_length (by omega)]
      exact oldCovered position found located
    · have last : position = (before.log node).length ∧ found = entry := by
        rw [List.getElem?_append_right new] at located
        grind
      obtain ⟨rfl, rfl⟩ := last
      exact ⟨node, _, own ▸ leads, List.take_prefix _ _⟩
  · rcases overlay_cases (before.log node) (log.take count) with kept | replaced
    · rw [overlaid, kept]
      exact oldCovered
    · rw [overlaid, replaced]
      exact ((invariant.leader_covered _ _ _ leads).take count).mono extended
  · rcases overlay_cases (before.log node) entries with kept | replaced
    · rw [overlaid, kept]
      exact oldCovered
    · rw [overlaid, replaced]
      exact (committed.covered invariant).mono extended

theorem vote_covered_step (node : Node) (term : Nat) (candidate : Node) (held : List Entry)
    (voted : after.vote node term = some (candidate, held)) : Covered scheme after held := by
  have extended := step_extends invariant step
  have source : before.vote node term = some (candidate, held) ∨ held = before.log node := by
    cases step <;> simp only [Function.update_apply] at voted ⊢ <;> grind
  rcases source with old | rfl
  · exact (invariant.vote_covered _ _ _ _ old).mono extended
  · exact (invariant.log_covered node).mono extended

theorem leader_covered_step
    (term : Nat) (node : Node) (log : List Entry) (leads : after.leader term = some (node, log)) :
    Covered scheme after log := by
  have extended := step_extends invariant step
  rcases leader_step step term node log leads with old | ⟨-, -, rfl, -⟩ | ⟨entry, -, -, -, -, same, -⟩
  · exact (invariant.leader_covered _ _ _ old).mono extended
  · exact (invariant.log_covered node).mono extended
  · rw [← same]
    exact log_covered_step invariant step node

theorem leader_terms_step (term : Nat) (node : Node) (log : List Entry) (leads : after.leader term = some (node, log)) :
    ∀ entry ∈ log, scheme.termOf entry ≤ term := by
  rcases leader_step step term node log leads with old | ⟨-, rfl, rfl, -⟩ |
    ⟨entry, old, -, own, rfl, -⟩
  · exact invariant.leader_terms _ _ _ old
  · exact invariant.log_terms node
  · have oldTerms := invariant.leader_terms _ _ _ old
    grind

theorem leader_sorted_step
    (term : Nat) (node : Node) (log : List Entry) (leads : after.leader term = some (node, log)) :
    log.Pairwise (fun earlier later => scheme.termOf earlier ≤ scheme.termOf later) := by
  rcases leader_step step term node log leads with old | ⟨-, -, rfl, -⟩ |
    ⟨entry, old, -, own, rfl, -⟩
  · exact invariant.leader_sorted _ _ _ old
  · rw [List.pairwise_iff_getElem]
    intro first second firstBound secondBound ordered
    exact (invariant.log_covered node).term_le invariant ordered.le
      (List.getElem?_eq_getElem firstBound) (List.getElem?_eq_getElem secondBound)
  · have oldTerms := invariant.leader_terms _ _ _ old
    rw [List.pairwise_append]
    refine ⟨invariant.leader_sorted _ _ _ old, List.pairwise_singleton _ _, ?_⟩
    grind

theorem log_terms_step (node : Node) : ∀ entry ∈ after.log node, scheme.termOf entry ≤ after.currentTerm node := by
  have later := (step_extends invariant step).currentTerm node
  have oldTerms := invariant.log_terms node
  rcases log_step step node with same | ⟨entry, -, own, grown, -⟩ |
    ⟨leader, log, count, leads, -, overlaid⟩ | ⟨entries, committed, overlaid⟩
  · grind
  · grind
  · have leaderTerms := invariant.leader_terms _ _ _ leads
    have taken : ∀ entry ∈ log.take count, entry ∈ log := fun _ => List.mem_of_mem_take
    grind [overlay]
  · have committedTerms := committed.terms invariant
    grind [overlay]

theorem campaign_terms_step
    (node : Node) (term : Nat) (held : List Entry) (voted : after.vote node term = some (node, held)) :
    ∀ entry ∈ held, scheme.termOf entry < term := by
  have oldTerms := invariant.campaign_terms
  have logTerms := invariant.log_terms
  cases step <;> simp only [Function.update_apply] at voted <;> grind

theorem leader_log_step (node : Node) (log : List Entry)
    (leads : after.leader (after.currentTerm node) = some (node, log)) : after.log node = log := by
  have later := (step_extends invariant step).currentTerm node
  rcases leader_step step _ node log leads with old | ⟨-, -, rfl, same, -⟩ | ⟨-, -, -, -, -, same, -⟩
  · have sameTerm : after.currentTerm node = before.currentTerm node := by
      have bound := invariant.leader_term _ _ _ old
      omega
    rw [sameTerm] at old leads
    have oldLog := invariant.leader_log node log old
    rcases log_step step node with same | ⟨entry, -, -, grown, leadsGrown⟩ |
      ⟨leader, leaderLog, count, leads', -, overlaid⟩ | ⟨entries, committed, overlaid⟩
    · rw [same, oldLog]
    · rw [leadsGrown] at leads
      rw [grown]
      exact (Prod.mk.inj (Option.some.inj leads)).2
    · rw [old] at leads'
      obtain ⟨rfl, rfl⟩ := Prod.mk.inj (Option.some.inj leads')
      rw [overlaid, oldLog, overlay_eq_self ⟨_, List.take_append_drop _ _⟩]
    · rw [overlaid, oldLog, overlay_eq_self (committed.in_leader invariant le_rfl old)]
  · rw [same]
  · exact same

end

/-! ## Completeness -/

theorem lastTerm_eq {log : List Entry} {entry : Entry} (located : log[log.length - 1]? = some entry) :
    lastTerm scheme.termOf log = scheme.termOf entry := by
  rw [lastTerm, List.getLast?_eq_getElem?, located]
  rfl

section

variable (invariant : Invariant scheme state)
include invariant

/-- An up-to-date candidate holds what a voter holds of a choosable sequence, given that the
leaders of the terms in between hold it. -/
theorem upToDate_carries
    {start held sequence : List Entry} {term count : Nat} (startCovered : Covered scheme state start)
    (heldCovered : Covered scheme state held) (upToDate : UpToDate scheme start held)
    (holds : sequence.take count <+: held) (ends : EndsIn scheme sequence count term)
    (between : ∀ later leader log, term < later → state.leader later = some (leader, log) →
      sequence.take count <+: log) :
    sequence.take count <+: start := by
  obtain ⟨positive, entry, located, own⟩ := ends
  have countBound : count - 1 < sequence.length := (List.getElem?_eq_some_iff.mp located).1
  have takeLength : (sequence.take count).length = count := by
    rw [List.length_take]; omega
  -- the voter's last term is at least the term of the sequence
  have heldAt : held[count - 1]? = some entry := by
    obtain ⟨rest, rfl⟩ := holds
    rw [List.getElem?_append_left (by omega), List.getElem?_take_of_lt (by omega), located]
  have heldBound : count - 1 < held.length := (List.getElem?_eq_some_iff.mp heldAt).1
  have heldLast := List.getElem?_eq_getElem (show held.length - 1 < held.length by omega)
  have heldTerm : term ≤ lastTerm scheme.termOf held := by
    rw [lastTerm_eq heldLast, ← own]
    exact heldCovered.term_le invariant (by omega) heldAt heldLast
  have startNonempty : 0 < start.length := by
    by_contra empty
    have : start = [] := List.length_eq_zero_iff.mp (by omega)
    subst this
    rcases upToDate with newer | ⟨-, longer⟩
    · simp [lastTerm] at newer
    · rw [List.length_nil] at longer
      omega
  have startLast := List.getElem?_eq_getElem (show start.length - 1 < start.length by omega)
  obtain ⟨leader, leaderLog, leads, startContained⟩ := startCovered _ _ startLast
  rw [Nat.sub_add_cancel startNonempty, List.take_length] at startContained
  rcases upToDate with newer | ⟨sameTerm, longer⟩
  · -- a later leader created the candidate's last entry, and holds the sequence before it
    rw [lastTerm_eq startLast] at newer
    have contained := between _ leader leaderLog (by omega) leads
    refine List.prefix_of_prefix_length_le contained startContained ?_
    rw [takeLength]
    by_contra shorter
    have inLeader : leaderLog[count - 1]? = some entry := by
      obtain ⟨rest, rfl⟩ := contained
      rw [List.getElem?_append_left (by omega), List.getElem?_take_of_lt (by omega), located]
    have lastInLeader : leaderLog[start.length - 1]? = some start[start.length - 1] := by
      obtain ⟨rest, rfl⟩ := startContained
      rw [List.getElem?_append_left (by omega), startLast]
    have ordered := (invariant.leader_covered _ _ _ leads).term_le invariant (by omega)
      lastInLeader inLeader
    omega
  · -- both logs end in the same term, so the longer one contains the shorter
    rw [lastTerm_eq heldLast, lastTerm_eq startLast] at sameTerm
    obtain ⟨leader', leaderLog', leads', heldContained⟩ := heldCovered _ _ heldLast
    rw [Nat.sub_add_cancel (by omega), List.take_length] at heldContained
    rw [sameTerm, leads] at leads'
    obtain ⟨rfl, rfl⟩ := Prod.mk.inj (Option.some.inj leads')
    exact holds.trans (List.prefix_of_prefix_length_le heldContained startContained longer)

/-- A candidate with a quorum of votes started its campaign with every choosable sequence of
the earlier terms. -/
theorem quorum_complete {node : Node} {voteTerm : Nat} {quorum : Finset Node} (isQuorum : scheme.IsQuorum quorum)
    (voted : ∀ voter ∈ quorum, ∃ held, state.vote voter voteTerm = some (node, held))
    {start : List Entry} (campaigned : state.vote node voteTerm = some (node, start))
    {term count : Nat} {leader : Node} {log : List Entry} (earlier : term < voteTerm)
    (leads : state.leader term = some (leader, log)) (ends : EndsIn scheme log count term)
    (choosable : Choosable scheme state term count) : log.take count <+: start := by
  obtain ⟨choosers, isChoosers, members⟩ := choosable
  obtain ⟨voter, chooser, elector⟩ := scheme.quorums_meet _ _ isChoosers isQuorum
  obtain ⟨held, vote⟩ := voted voter elector
  have voterTerm := invariant.vote_term _ _ _ vote
  have acked : count ≤ state.acked voter term := by
    rcases members voter chooser with acked | stillOpen
    · exact acked
    · omega
  have holds := invariant.voted_held _ _ _ _ _ _ _ _ vote earlier leads ends
    ⟨choosers, isChoosers, members⟩ acked
  obtain ⟨start', campaigned', upToDate⟩ := invariant.vote_upToDate _ _ _ _ vote
  rw [campaigned] at campaigned'
  obtain ⟨-, rfl⟩ := Prod.mk.inj (Option.some.inj campaigned')
  refine upToDate_carries invariant (invariant.vote_covered _ _ _ _ campaigned)
    (invariant.vote_covered _ _ _ _ vote) upToDate holds ends ?_
  intro later laterLeader laterLog notEarlier laterLeads
  exact invariant.complete _ _ _ _ _ _ _ notEarlier leads laterLeads ends
    ⟨choosers, isChoosers, members⟩

theorem winner_log {node : Node} {quorum : Finset Node} (vacant : state.leader (state.currentTerm node) = none)
    (isQuorum : scheme.IsQuorum quorum)
    (voted : ∀ voter ∈ quorum, ∃ held, state.vote voter (state.currentTerm node) = some (node, held))
    {start : List Entry} (campaigned : state.vote node (state.currentTerm node) = some (node, start)) :
    state.log node = start := by
  rcases invariant.candidate_log node start campaigned vacant with same |
    ⟨term, count, log, earlier, chosen, missing⟩
  · exact same
  · obtain ⟨leader, leads⟩ := chosen.1
    exact absurd (quorum_complete invariant isQuorum voted campaigned earlier leads chosen.2.1
      chosen.choosable) missing

end

variable (invariant : Invariant scheme before) (step : Step scheme before after)
include invariant step

/-- A sequence of a leader log that ends in the leader's own term was already there before the
step, or is new and held by no other node. -/
theorem endsIn_step
    {term count : Nat} {leader : Node} {log : List Entry} (leads : after.leader term = some (leader, log))
    (ends : EndsIn scheme log count term) :
    (∃ old, before.leader term = some (leader, old) ∧ EndsIn scheme old count term ∧
      old.take count = log.take count) ∨
    (term = before.currentTerm leader ∧ after.currentTerm leader = term ∧ after.log leader = log ∧
      ∀ node, node ≠ leader → after.acked node term < count) := by
  obtain ⟨positive, entry, located, own⟩ := ends
  have bound : count - 1 < log.length := (List.getElem?_eq_some_iff.mp located).1
  rcases leader_step step term leader log leads with old |
    ⟨vacant, rfl, rfl, -, -, ⟨start, campaigned⟩, quorum, isQuorum, voted⟩ |
    ⟨new, old, sameTerm, newOwn, rfl, grown, sameTerms, sameAcked⟩
  · exact .inl ⟨log, old, ⟨positive, entry, located, own⟩, rfl⟩
  · -- a fresh leader has no entry of its own term yet
    have startLog := winner_log invariant vacant isQuorum voted campaigned
    have oldTerm := invariant.campaign_terms _ _ _ campaigned entry
      (startLog ▸ List.mem_of_getElem? located)
    omega
  · rcases Nat.lt_or_ge (count - 1) (before.log leader).length with inside | last
    · rw [List.getElem?_append_left inside] at located
      exact .inl ⟨_, old, ⟨positive, entry, located, own⟩,
        (List.take_append_of_le_length (by omega)).symm⟩
    · refine .inr ⟨sameTerm, ?_, grown, fun node other => ?_⟩
      · rw [sameTerms, sameTerm]
      · rw [sameAcked node other]
        by_contra acked
        obtain ⟨_, _, leads', length⟩ := invariant.acked_length node term (by omega)
        rw [old] at leads'
        obtain ⟨-, rfl⟩ := Prod.mk.inj (Option.some.inj leads')
        omega

theorem complete_step (earlier later : Nat) (earlierLeader laterLeader : Node) (earlierLog laterLog : List Entry)
    (count : Nat) (ordered : earlier < later)
    (earlierLeads : after.leader earlier = some (earlierLeader, earlierLog))
    (laterLeads : after.leader later = some (laterLeader, laterLog))
    (ends : EndsIn scheme earlierLog count earlier) (choosable : Choosable scheme after earlier count) :
    earlierLog.take count <+: laterLog := by
  have extended := step_extends invariant step
  have choosableBefore := choosable.antitone extended
  rcases endsIn_step invariant step earlierLeads ends with ⟨old, leads, oldEnds, same⟩ |
    ⟨-, sameTerm, -, others⟩
  · rw [← same]
    rcases leader_step step _ _ _ laterLeads with oldLater |
      ⟨vacant, rfl, rfl, -, -, ⟨start, campaigned⟩, quorum, isQuorum, voted⟩ |
      ⟨entry, oldLater, -, -, rfl, -⟩
    · exact invariant.complete _ _ _ _ _ _ _ ordered leads oldLater oldEnds choosableBefore
    · rw [winner_log invariant vacant isQuorum voted campaigned]
      exact quorum_complete invariant isQuorum voted campaigned ordered leads oldEnds choosableBefore
    · exact (invariant.complete _ _ _ _ _ _ _ ordered leads oldLater oldEnds choosableBefore).trans
        (List.prefix_append _ _)
  · -- the entry was created in this step, after the quorum of the later leader had moved on
    obtain ⟨choosers, isChoosers, members⟩ := choosable
    obtain ⟨electors, isElectors, voted⟩ := elected_step invariant step _ _ _ laterLeads
    obtain ⟨node, chooser, elector⟩ := scheme.quorums_meet _ _ isChoosers isElectors
    obtain ⟨held, vote⟩ := voted node elector
    have voteTerm := vote_term_step invariant step _ _ _ vote
    rcases members node chooser with acked | stillOpen
    · by_cases isLeader : node = earlierLeader
      · rw [isLeader] at voteTerm
        omega
      · have fewer := others node isLeader
        omega
    · omega

theorem acked_held_step (node : Node) (term : Nat) (leader : Node) (log : List Entry) (count : Nat)
    (leads : after.leader term = some (leader, log)) (ends : EndsIn scheme log count term)
    (choosable : Choosable scheme after term count) (acked : count ≤ after.acked node term) :
    log.take count <+: after.log node := by
  have extended := step_extends invariant step
  have choosableBefore := choosable.antitone extended
  have positive := ends.1
  rcases endsIn_step invariant step leads ends with ⟨old, oldLeads, oldEnds, same⟩ |
    ⟨-, -, whole, others⟩
  · rcases Nat.lt_or_ge (before.acked node term) count with more | already
    · obtain ⟨leader', log', leads', contained⟩ := acked_step step node term (by omega)
      rw [leads] at leads'
      obtain ⟨-, rfl⟩ := Prod.mk.inj (Option.some.inj leads')
      exact (List.take_prefix_take_left acked).trans contained
    · rw [← same]
      have held := invariant.acked_held node term leader old count oldLeads oldEnds choosableBefore
        already
      have known := invariant.acked_term node term (by omega)
      rcases log_step step node with unchanged | ⟨entry, -, -, grown, -⟩ |
        ⟨leader', log', count', leads', -, overlaid⟩ | ⟨entries, committed, overlaid⟩
      · rw [unchanged]
        exact held
      · rw [grown]
        exact held.trans (List.prefix_append _ _)
      · rw [overlaid]
        refine overlay_keeps held ?_ ⟨_, List.take_append_drop _ _⟩
        rcases Nat.eq_or_lt_of_le known with now | earlier
        · rw [← now, oldLeads] at leads'
          obtain ⟨-, rfl⟩ := Prod.mk.inj (Option.some.inj leads')
          exact List.take_prefix _ _
        · exact invariant.complete _ _ _ _ _ _ _ earlier oldLeads leads' oldEnds choosableBefore
      · rw [overlaid]
        rcases committed with rfl | ⟨_, _, chosenLog, -, chosen, contained⟩
        · rw [overlay_eq_self (by simp)]
          exact held
        · obtain ⟨_, chosenLeads⟩ := chosen.1
          obtain ⟨common, heldCommon, chosenCommon⟩ := choosable_common invariant oldLeads chosenLeads
            oldEnds chosen.2.1 choosableBefore chosen.choosable
          exact overlay_keeps held heldCommon (contained.trans chosenCommon)
  · by_cases isLeader : node = leader
    · rw [isLeader, whole]
      exact List.take_prefix _ _
    · have fewer := others node isLeader
      omega

theorem voted_held_step
    (node : Node) (voteTerm : Nat) (candidate : Node) (held : List Entry) (term : Nat) (leader : Node)
    (log : List Entry) (count : Nat) (voted : after.vote node voteTerm = some (candidate, held))
    (earlier : term < voteTerm) (leads : after.leader term = some (leader, log))
    (ends : EndsIn scheme log count term) (choosable : Choosable scheme after term count)
    (acked : count ≤ after.acked node term) : log.take count <+: held := by
  have extended := step_extends invariant step
  have choosableBefore := choosable.antitone extended
  rcases vote_step step node voteTerm candidate held voted with old | ⟨rfl, -, sameLeader, sameAcked⟩
  · -- an earlier voter has left the term, so it acknowledges nothing more of it
    have moved := invariant.vote_term _ _ _ old
    have frozen : count ≤ before.acked node term := by
      by_contra fewer
      have now := extended.acked_now node term (by omega)
      omega
    rcases endsIn_step invariant step leads ends with ⟨oldLog, oldLeads, oldEnds, same⟩ |
      ⟨sameTerm, -, -, others⟩
    · rw [← same]
      exact invariant.voted_held _ _ _ _ _ _ _ _ old earlier oldLeads oldEnds choosableBefore frozen
    · by_cases isLeader : node = leader
      · rw [isLeader] at moved
        omega
      · have fewer := others node isLeader
        omega
  · rw [sameLeader] at leads
    rw [sameAcked] at acked
    exact invariant.acked_held _ _ _ _ _ leads ends choosableBefore acked

theorem candidate_log_step (node : Node) (start : List Entry)
    (voted : after.vote node (after.currentTerm node) = some (node, start))
    (vacant : after.leader (after.currentTerm node) = none) : after.log node = start ∨
      ∃ term count log, term < after.currentTerm node ∧ Chosen scheme after term count log ∧
        ¬ log.take count <+: start := by
  have extended := step_extends invariant step
  rcases vote_step step node _ node start voted with old | ⟨rfl, sameLog, -, -⟩
  · have sameTerm : after.currentTerm node = before.currentTerm node := by
      have moved := invariant.vote_term _ _ _ old
      have later := extended.currentTerm node
      omega
    rw [sameTerm] at old vacant ⊢
    have vacantBefore : before.leader (before.currentTerm node) = none := by
      cases leads : before.leader (before.currentTerm node) with
      | none => rfl
      | some winner =>
        obtain ⟨longer, stillLeads, -⟩ := extended.leader _ winner.1 winner.2 leads
        rw [vacant] at stillLeads
        cases stillLeads
    rcases invariant.candidate_log node start old vacantBefore with same |
      ⟨term, count, log, earlier, chosen, missing⟩
    · rcases log_step step node with unchanged | ⟨entry, leads, -⟩ | ⟨leader, log, count, leads, -⟩ |
        ⟨entries, committed, overlaid⟩
      · exact .inl (unchanged.trans same)
      · rw [vacantBefore] at leads
        cases leads
      · rw [vacantBefore] at leads
        cases leads
      · rcases committed with rfl | ⟨term, count, log, known, chosen, contained⟩
        · rw [overlaid, overlay_eq_self (by simp)]
          exact .inl same
        · by_cases holds : log.take count <+: start
          · rw [overlaid, overlay_eq_self (same ▸ contained.trans holds)]
            exact .inl same
          · -- a snapshot the campaign log contradicts: the candidate can no longer win
            obtain ⟨leader, leads⟩ := chosen.1
            have earlier : term ≠ before.currentTerm node := by
              rintro rfl
              rw [vacantBefore] at leads
              cases leads
            obtain ⟨longer, stillChosen, sameTake⟩ := chosen.mono extended
            exact .inr ⟨term, count, longer, by omega, stillChosen, sameTake ▸ holds⟩
    · obtain ⟨longer, stillChosen, sameTake⟩ := chosen.mono extended
      exact .inr ⟨term, count, longer, earlier, stillChosen, sameTake ▸ missing⟩
  · exact .inl (congrFun sameLog node)

theorem invariant_step :
    Invariant scheme after where
  vote_term := vote_term_step invariant step
  acked_term := acked_term_step invariant step
  acked_length := acked_length_step invariant step
  elected := elected_step invariant step
  leader_term := leader_term_step invariant step
  log_covered := log_covered_step invariant step
  vote_covered := vote_covered_step invariant step
  leader_covered := leader_covered_step invariant step
  leader_sorted := leader_sorted_step invariant step
  leader_terms := leader_terms_step invariant step
  log_terms := log_terms_step invariant step
  campaign_terms := campaign_terms_step invariant step
  leader_log := leader_log_step invariant step
  complete := complete_step invariant step
  acked_held := acked_held_step invariant step
  voted_held := voted_held_step invariant step
  vote_upToDate := vote_upToDate_step invariant step
  candidate_log := candidate_log_step invariant step

end ShardedKV.Replication
