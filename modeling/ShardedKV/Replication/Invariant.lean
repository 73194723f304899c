import ShardedKV.Replication.Protocol

namespace ShardedKV.Replication

variable {Node Entry : Type} {scheme : Scheme Node Entry}

/-- Every entry of the log sits at the same place, after the same entries, in the log of
the leader that created it. -/
def Covered (scheme : Scheme Node Entry) (state : State Node Entry) (log : List Entry) : Prop :=
  ∀ position entry, log[position]? = some entry →
    ∃ leader leaderLog, state.leader (scheme.termOf entry) = some (leader, leaderLog) ∧
      log.take (position + 1) <+: leaderLog

/-- What a step leaves in place. -/
structure Extends (before after : State Node Entry) : Prop where
  currentTerm : ∀ node, before.currentTerm node ≤ after.currentTerm node
  vote : ∀ node term ballot, before.vote node term = some ballot → after.vote node term = some ballot
  leader : ∀ term node log, before.leader term = some (node, log) →
    ∃ longer, after.leader term = some (node, longer) ∧ log <+: longer
  acked : ∀ node term, before.acked node term ≤ after.acked node term
  acked_now : ∀ node term, before.acked node term < after.acked node term →
    before.currentTerm node ≤ term

structure Invariant (scheme : Scheme Node Entry) (state : State Node Entry) : Prop where
  vote_term : ∀ node term ballot, state.vote node term = some ballot → term ≤ state.currentTerm node
  acked_term : ∀ node term, 0 < state.acked node term → term ≤ state.currentTerm node
  acked_length : ∀ node term, 0 < state.acked node term →
    ∃ leader log, state.leader term = some (leader, log) ∧ state.acked node term ≤ log.length
  elected : ∀ term node log, state.leader term = some (node, log) →
    ∃ quorum, scheme.IsQuorum quorum ∧
      ∀ voter ∈ quorum, ∃ held, state.vote voter term = some (node, held)
  leader_term : ∀ term node log, state.leader term = some (node, log) → term ≤ state.currentTerm node
  log_covered : ∀ node, Covered scheme state (state.log node)
  vote_covered : ∀ node term candidate held, state.vote node term = some (candidate, held) →
    Covered scheme state held
  leader_covered : ∀ term node log, state.leader term = some (node, log) → Covered scheme state log
  leader_sorted : ∀ term node log, state.leader term = some (node, log) →
    log.Pairwise (fun earlier later => scheme.termOf earlier ≤ scheme.termOf later)
  leader_terms : ∀ term node log, state.leader term = some (node, log) →
    ∀ entry ∈ log, scheme.termOf entry ≤ term
  log_terms : ∀ node, ∀ entry ∈ state.log node, scheme.termOf entry ≤ state.currentTerm node
  campaign_terms : ∀ node term held, state.vote node term = some (node, held) →
    ∀ entry ∈ held, scheme.termOf entry < term
  leader_log : ∀ node log, state.leader (state.currentTerm node) = some (node, log) →
    state.log node = log
  complete : ∀ earlier later earlierLeader laterLeader earlierLog laterLog count, earlier < later →
    state.leader earlier = some (earlierLeader, earlierLog) →
    state.leader later = some (laterLeader, laterLog) →
    EndsIn scheme earlierLog count earlier → Choosable scheme state earlier count →
    earlierLog.take count <+: laterLog
  acked_held : ∀ node term leader log count, state.leader term = some (leader, log) →
    EndsIn scheme log count term → Choosable scheme state term count →
    count ≤ state.acked node term → log.take count <+: state.log node
  voted_held : ∀ node voteTerm candidate held term leader log count,
    state.vote node voteTerm = some (candidate, held) → term < voteTerm →
    state.leader term = some (leader, log) → EndsIn scheme log count term →
    Choosable scheme state term count → count ≤ state.acked node term → log.take count <+: held
  vote_upToDate : ∀ node term candidate held, state.vote node term = some (candidate, held) →
    ∃ start, state.vote candidate term = some (candidate, start) ∧ UpToDate scheme start held
  candidate_log : ∀ node start, state.vote node (state.currentTerm node) = some (node, start) →
    state.leader (state.currentTerm node) = none → state.log node = start ∨
      ∃ term count log, term < state.currentTerm node ∧ Chosen scheme state term count log ∧
        ¬ log.take count <+: start

theorem invariant_initial : Invariant scheme (initial : State Node Entry) := by
  constructor <;> simp [initial, Covered]

theorem step_extends {before after : State Node Entry} (invariant : Invariant scheme before)
    (step : Step scheme before after) : Extends before after := by
  have vote_term := invariant.vote_term
  have acked_length := invariant.acked_length
  constructor <;> cases step <;> simp only [Function.update_apply] <;> intros <;> grind

/-! ## What survives an extension -/

theorem Covered.mono {before after : State Node Entry} (extended : Extends before after)
    {log : List Entry} (covered : Covered scheme before log) : Covered scheme after log := by
  intro position entry located
  obtain ⟨leader, leaderLog, leads, contained⟩ := covered position entry located
  obtain ⟨longer, stillLeads, grown⟩ := extended.leader _ _ _ leads
  exact ⟨leader, longer, stillLeads, contained.trans grown⟩

theorem Choosable.antitone {before after : State Node Entry} (extended : Extends before after)
    {term count : Nat} (choosable : Choosable scheme after term count) :
    Choosable scheme before term count := by
  obtain ⟨quorum, isQuorum, members⟩ := choosable
  refine ⟨quorum, isQuorum, fun node member => ?_⟩
  have later := extended.currentTerm node
  have now := extended.acked_now node term
  rcases members node member with acked | stillOpen
  · by_cases old : count ≤ before.acked node term
    · exact .inl old
    · exact .inr (now (by omega))
  · exact .inr (by omega)

theorem EndsIn.of_take {log longer : List Entry} {count term : Nat}
    (ends : EndsIn scheme log count term) (grown : log <+: longer) :
    EndsIn scheme longer count term ∧ longer.take count = log.take count := by
  obtain ⟨positive, entry, located, own⟩ := ends
  obtain ⟨rest, rfl⟩ := grown
  have bound : count - 1 < log.length := (List.getElem?_eq_some_iff.mp located).1
  refine ⟨⟨positive, entry, ?_, own⟩, ?_⟩
  · rw [List.getElem?_append_left bound, located]
  · rw [List.take_append_of_le_length (by omega)]

theorem Chosen.mono {before after : State Node Entry} (extended : Extends before after)
    {term count : Nat} {log : List Entry} (chosen : Chosen scheme before term count log) :
    ∃ longer, Chosen scheme after term count longer ∧ longer.take count = log.take count := by
  obtain ⟨⟨leader, leads⟩, ends, quorum, isQuorum, members⟩ := chosen
  obtain ⟨longer, stillLeads, grown⟩ := extended.leader _ _ _ leads
  obtain ⟨stillEnds, same⟩ := ends.of_take grown
  exact ⟨longer, ⟨⟨leader, stillLeads⟩, stillEnds, quorum, isQuorum,
    fun node member => (members node member).trans (extended.acked node term)⟩, same⟩

theorem Chosen.choosable {state : State Node Entry} {term count : Nat} {log : List Entry}
    (chosen : Chosen scheme state term count log) : Choosable scheme state term count := by
  obtain ⟨-, -, quorum, isQuorum, members⟩ := chosen
  exact ⟨quorum, isQuorum, fun node member => .inl (members node member)⟩

theorem Committed.mono {before after : State Node Entry} (extended : Extends before after)
    {earlier later : Nat} (notEarlier : earlier ≤ later) {entries : List Entry}
    (committed : Committed scheme before earlier entries) : Committed scheme after later entries := by
  rcases committed with empty | ⟨term, count, log, known, chosen, contained⟩
  · exact .inl empty
  · obtain ⟨longer, stillChosen, same⟩ := chosen.mono extended
    exact .inr ⟨term, count, longer, known.trans notEarlier, stillChosen, same ▸ contained⟩

theorem Committed.of_le {state : State Node Entry} {term : Nat} {entries fewer : List Entry}
    (committed : Committed scheme state term entries) (shorter : fewer <+: entries) :
    Committed scheme state term fewer := by
  rcases committed with rfl | ⟨chosenTerm, count, log, known, chosen, contained⟩
  · exact .inl (List.prefix_nil.mp shorter)
  · exact .inr ⟨chosenTerm, count, log, known, chosen, shorter.trans contained⟩

/-! ## Overlaying comparable logs -/

theorem overlay_eq_self {log incoming : List Entry} (contained : incoming <+: log) :
    overlay log incoming = log := by
  simp [overlay, contained]

theorem overlay_contains (log incoming : List Entry) : incoming <+: overlay log incoming := by
  unfold overlay
  split
  · assumption
  · exact List.prefix_rfl

/-- A sequence held by the log survives the overlay if the incoming log does not contradict it. -/
theorem overlay_keeps {log incoming held common : List Entry} (holds : held <+: log)
    (heldCommon : held <+: common) (incomingCommon : incoming <+: common) :
    held <+: overlay log incoming := by
  unfold overlay
  split
  · exact holds
  · rename_i different
    rcases List.prefix_or_prefix_of_prefix heldCommon incomingCommon with shorter | longer
    · exact shorter
    · exact absurd (longer.trans holds) different

theorem overlay_cases (log incoming : List Entry) :
    overlay log incoming = log ∨ overlay log incoming = incoming := by
  unfold overlay
  split <;> simp

end ShardedKV.Replication
