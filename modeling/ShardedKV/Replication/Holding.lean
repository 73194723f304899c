import ShardedKV.Replication.Moves

/-!
# What a node keeps in its log

A step lays entries over the log of a node only if they come from the leader of the node's term
or are committed.  Whatever contradicts neither of the two stays: a committed sequence for ever,
and a part of the leader's log for as long as the node is in the leader's term.
-/

namespace ShardedKV.Replication

variable {Node Entry : Type} {scheme : Scheme Node Entry} {before after : State Node Entry} {node : Node}
  {entries : List Entry}

theorem held_step (step : Step scheme before after) (held : entries <+: before.log node)
    (leading : ∀ leader log, before.leader (before.currentTerm node) = some (leader, log) →
      ∃ common, entries <+: common ∧ log <+: common)
    (committing : ∀ other, Committed scheme before (before.currentTerm node) other →
      ∃ common, entries <+: common ∧ other <+: common) : entries <+: after.log node := by
  rcases log_step step node with same | ⟨entry, -, -, grown, -⟩ |
    ⟨leader, log, count, leads, -, overlaid⟩ | ⟨other, committed, overlaid⟩
  · rw [same]
    exact held
  · rw [grown]
    exact held.trans (List.prefix_append _ _)
  · obtain ⟨common, heldCommon, logCommon⟩ := leading leader log leads
    rw [overlaid]
    exact overlay_keeps held heldCommon (List.IsPrefix.trans ⟨_, List.take_append_drop _ _⟩ logCommon)
  · obtain ⟨common, heldCommon, otherCommon⟩ := committing other committed
    rw [overlaid]
    exact overlay_keeps held heldCommon otherCommon

/-! ## Committed entries -/

theorem Committed.held_step (invariant : Invariant scheme before) (step : Step scheme before after) {known : Nat}
    (committed : Committed scheme before known entries) (notLater : known ≤ before.currentTerm node)
    (held : entries <+: before.log node) : entries <+: after.log node := by
  apply Replication.held_step step held
  · intro leader log leads
    exact ⟨log, committed.in_leader invariant notLater leads, List.prefix_rfl⟩
  · intro other otherCommitted
    rcases committed.comparable invariant otherCommitted with shorter | longer
    · exact ⟨other, shorter, List.prefix_rfl⟩
    · exact ⟨entries, List.prefix_rfl, longer⟩

theorem Committed.held_run (invariant : Invariant scheme before)
    (run : Relation.ReflTransGen (Step scheme) before after) {known : Nat}
    (committed : Committed scheme before known entries) (notLater : known ≤ before.currentTerm node)
    (held : entries <+: before.log node) : entries <+: after.log node := by
  induction run with
  | refl => exact held
  | tail earlier step inductionHypothesis =>
    obtain ⟨stillInvariant, extended⟩ := run_invariant invariant earlier
    exact (committed.mono extended le_rfl).held_step stillInvariant step
      (notLater.trans (extended.currentTerm node)) inductionHypothesis

theorem Committed.take_eq {state : State Node Entry} (invariant : Invariant scheme state) {known other count : Nat}
    {more : List Entry} (committed : Committed scheme state known entries)
    (otherCommitted : Committed scheme state other more) (inEntries : count ≤ entries.length)
    (inMore : count ≤ more.length) : entries.take count = more.take count := by
  rcases committed.comparable invariant otherCommitted with ⟨rest, rfl⟩ | ⟨rest, rfl⟩
  · rw [List.take_append_of_le_length inEntries]
  · rw [List.take_append_of_le_length inMore]

/-! ## The leader's entries -/

theorem leader_held_step (invariant : Invariant scheme before) (step : Step scheme before after) {leader : Node}
    {log : List Entry} (leads : before.leader (before.currentTerm node) = some (leader, log))
    (partOf : entries <+: log) (held : entries <+: before.log node) : entries <+: after.log node := by
  apply held_step step held
  · intro other otherLog otherLeads
    rw [leads] at otherLeads
    cases otherLeads
    exact ⟨log, partOf, List.prefix_rfl⟩
  · intro other committed
    exact ⟨log, partOf, committed.in_leader invariant le_rfl leads⟩

/-- A part of the leader's log stays in the log of a node that stays in the leader's term. -/
theorem leader_held_run (invariant : Invariant scheme before)
    (run : Relation.ReflTransGen (Step scheme) before after) {leader : Node} {log : List Entry}
    (leads : before.leader (before.currentTerm node) = some (leader, log)) (partOf : entries <+: log)
    (held : entries <+: before.log node) (sameTerm : after.currentTerm node = before.currentTerm node) :
    entries <+: after.log node := by
  induction run with
  | refl => exact held
  | tail earlier step inductionHypothesis =>
    rename_i middle last
    obtain ⟨stillInvariant, extended⟩ := run_invariant invariant earlier
    -- terms only grow, so the node has been in the term all along
    have middleTerm : middle.currentTerm node = before.currentTerm node := by
      have reached := extended.currentTerm node
      have passed := (step_extends stillInvariant step).currentTerm node
      omega
    obtain ⟨longer, stillLeads, grown⟩ := extended.leader _ _ _ leads
    rw [← middleTerm] at stillLeads
    exact leader_held_step stillInvariant step stillLeads (partOf.trans grown) (inductionHypothesis middleTerm)

/-- In its own term a node holds what it has acknowledged. -/
def AckedHeld (state : State Node Entry) : Prop :=
  ∀ node leader log, state.leader (state.currentTerm node) = some (leader, log) →
    log.take (state.acked node (state.currentTerm node)) <+: state.log node

theorem ackedHeld_initial : AckedHeld (initial : State Node Entry) := nofun

theorem AckedHeld.step (invariant : Invariant scheme before) (step : Step scheme before after)
    (ackedHeld : AckedHeld before) : AckedHeld after := by
  intro node leader log leads
  have extended := step_extends invariant step
  rcases Nat.lt_or_ge (before.acked node (after.currentTerm node)) (after.acked node (after.currentTerm node))
    with more | notMore
  · obtain ⟨winner, winnerLog, winnerLeads, held⟩ := acked_step step node _ more
    rw [winnerLeads] at leads
    cases leads
    exact held
  have same : after.acked node (after.currentTerm node) = before.acked node (after.currentTerm node) :=
    le_antisymm notMore (extended.acked node _)
  rw [same]
  rcases Nat.eq_zero_or_pos (before.acked node (after.currentTerm node)) with none | some
  · rw [none]
    exact List.nil_prefix
  -- what was acknowledged in this term was acknowledged in the node's own term
  have sameTerm : after.currentTerm node = before.currentTerm node :=
    le_antisymm (invariant.acked_term node _ some) (extended.currentTerm node)
  rw [sameTerm] at leads some ⊢
  obtain ⟨winner, winnerLog, winnerLeads, inLog⟩ := invariant.acked_length node _ some
  obtain ⟨longer, stillLeads, grown⟩ := extended.leader _ _ _ winnerLeads
  rw [leads] at stillLeads
  cases stillLeads
  have sameTake : log.take (before.acked node (before.currentTerm node)) =
      winnerLog.take (before.acked node (before.currentTerm node)) := by
    obtain ⟨rest, rfl⟩ := grown
    exact List.take_append_of_le_length inLog
  rw [sameTake]
  exact leader_held_step invariant step winnerLeads ⟨_, List.take_append_drop _ _⟩ (ackedHeld node _ _ winnerLeads)

theorem AckedHeld.run (invariant : Invariant scheme before)
    (run : Relation.ReflTransGen (Step scheme) before after) (ackedHeld : AckedHeld before) : AckedHeld after := by
  induction run with
  | refl => exact ackedHeld
  | tail earlier step inductionHypothesis =>
    exact inductionHypothesis.step (run_invariant invariant earlier).1 step

theorem Reachable.ackedHeld {state : State Node Entry} (reachable : Reachable scheme state) : AckedHeld state :=
  ackedHeld_initial.run invariant_initial reachable

end ShardedKV.Replication
