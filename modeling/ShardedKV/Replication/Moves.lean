import ShardedKV.Replication.Preservation

/-!
# Runs, and the moves of one node

An implementation matches one of its own steps with a few protocol steps, all taken by the
node that acts.  `Moves` collects what such a sequence says about every other node and about
the logs of the leaders.
-/

namespace ShardedKV.Replication

variable {Node Entry : Type} {scheme : Scheme Node Entry}

theorem Extends.refl (state : State Node Entry) : Extends state state where
  currentTerm := fun _ => le_rfl
  vote := fun _ _ _ voted => voted
  leader := fun _ _ log leads => ⟨log, leads, List.prefix_rfl⟩
  acked := fun _ _ => le_rfl
  acked_now := fun _ _ more => absurd more (lt_irrefl _)

theorem Extends.trans {first second third : State Node Entry} (firstExtends : Extends first second)
    (secondExtends : Extends second third) : Extends first third where
  currentTerm := fun node => (firstExtends.currentTerm node).trans (secondExtends.currentTerm node)
  vote := fun node term ballot voted => secondExtends.vote _ _ _ (firstExtends.vote _ _ _ voted)
  leader := by
    intro term node log leads
    obtain ⟨longer, stillLeads, grown⟩ := firstExtends.leader _ _ _ leads
    obtain ⟨longest, finallyLeads, grownAgain⟩ := secondExtends.leader _ _ _ stillLeads
    exact ⟨longest, finallyLeads, grown.trans grownAgain⟩
  acked := fun node term => (firstExtends.acked node term).trans (secondExtends.acked node term)
  acked_now := by
    intro node term more
    rcases Nat.lt_or_ge (first.acked node term) (second.acked node term) with early | late
    · exact firstExtends.acked_now node term early
    · exact (firstExtends.currentTerm node).trans (secondExtends.acked_now node term (by omega))

theorem run_invariant {before after : State Node Entry} (invariant : Invariant scheme before)
    (run : Relation.ReflTransGen (Step scheme) before after) :
    Invariant scheme after ∧ Extends before after := by
  induction run with
  | refl => exact ⟨invariant, Extends.refl _⟩
  | tail _ step inductionHypothesis =>
    obtain ⟨stillInvariant, extended⟩ := inductionHypothesis
    exact ⟨invariant_step stillInvariant step, extended.trans (step_extends stillInvariant step)⟩

/-- Nothing about the node itself has changed. -/
structure Untouched (node : Node) (before after : State Node Entry) : Prop where
  currentTerm : after.currentTerm node = before.currentTerm node
  log : after.log node = before.log node
  vote : after.vote node = before.vote node
  leader : ∀ term log, after.leader term = some (node, log) ↔ before.leader term = some (node, log)

theorem Untouched.refl (node : Node) (state : State Node Entry) : Untouched node state state :=
  ⟨rfl, rfl, rfl, fun _ _ => Iff.rfl⟩

theorem Untouched.trans {node : Node} {first second third : State Node Entry}
    (firstUntouched : Untouched node first second) (secondUntouched : Untouched node second third) :
    Untouched node first third where
  currentTerm := secondUntouched.currentTerm.trans firstUntouched.currentTerm
  log := secondUntouched.log.trans firstUntouched.log
  vote := secondUntouched.vote.trans firstUntouched.vote
  leader := fun term log => (secondUntouched.leader term log).trans (firstUntouched.leader term log)

/-- Every leader either led with this log before, or has just been elected with an old log. -/
def SameLeaders (scheme : Scheme Node Entry) (before after : State Node Entry) : Prop :=
  ∀ term node log, after.leader term = some (node, log) → before.leader term = some (node, log) ∨
    (Covered scheme before log ∧ ∀ entry ∈ log, scheme.termOf entry < term)

/-- Steps of one node that append nothing to a leader's log. -/
structure Moves (scheme : Scheme Node Entry) (node : Node) (before after : State Node Entry) : Prop where
  run : Relation.ReflTransGen (Step scheme) before after
  untouched : ∀ other, other ≠ node → Untouched other before after
  sameLeaders : SameLeaders scheme before after

theorem Moves.refl (node : Node) (state : State Node Entry) : Moves scheme node state state where
  run := .refl
  untouched := fun other _ => Untouched.refl other state
  sameLeaders := fun _ _ _ leads => .inl leads

theorem Moves.of_step {node : Node} {before after : State Node Entry} (step : Step scheme before after)
    (sameLeader : after.leader = before.leader)
    (sameTerm : ∀ other, other ≠ node → after.currentTerm other = before.currentTerm other)
    (sameLog : ∀ other, other ≠ node → after.log other = before.log other)
    (sameVote : ∀ other, other ≠ node → after.vote other = before.vote other) :
    Moves scheme node before after where
  run := .single step
  untouched := by
    intro other different
    refine ⟨sameTerm other different, sameLog other different, sameVote other different, ?_⟩
    intro term log
    rw [sameLeader]
  sameLeaders := by
    intro term leader log leads
    rw [sameLeader] at leads
    exact .inl leads

theorem Moves.tail {node : Node} {first second third : State Node Entry}
    (moves : Moves scheme node first second) (step : Moves scheme node second third)
    (sameLeader : second.leader = first.leader) : Moves scheme node first third where
  run := moves.run.trans step.run
  untouched := fun other different => (moves.untouched other different).trans (step.untouched other different)
  sameLeaders := by
    intro term leader log leads
    rcases step.sameLeaders term leader log leads with old | ⟨covered, earlier⟩
    · rw [sameLeader] at old
      exact .inl old
    · refine .inr ⟨fun position entry located => ?_, earlier⟩
      obtain ⟨creator, creatorLog, created, contained⟩ := covered position entry located
      rw [sameLeader] at created
      exact ⟨creator, creatorLog, created, contained⟩

/-! ## The single moves, by what they do to the acting node -/

theorem moves_advance (scheme : Scheme Node Entry) {state : State Node Entry} {node : Node} {term : Nat}
    (later : state.currentTerm node ≤ term) : ∃ after, Moves scheme node state after ∧
      after.currentTerm node = term ∧ after.log = state.log ∧ after.vote = state.vote ∧
      after.leader = state.leader ∧ after.acked = state.acked := by
  classical
  refine ⟨_, Moves.of_step (Step.advance state node term later) rfl ?_ ?_ ?_, ?_, rfl, rfl, rfl, rfl⟩
  all_goals simp +contextual [Function.update_of_ne]

theorem moves_campaign (scheme : Scheme Node Entry) {state : State Node Entry} {node : Node} {term : Nat}
    (later : state.currentTerm node < term) : ∃ after, Moves scheme node state after ∧
      after.currentTerm node = term ∧ after.vote node term = some (node, state.log node) ∧
      after.log = state.log ∧ after.leader = state.leader ∧ after.acked = state.acked := by
  classical
  refine ⟨_, Moves.of_step (Step.campaign state node term later) rfl ?_ ?_ ?_, ?_, ?_, rfl, rfl, rfl⟩
  all_goals simp +contextual [Function.update_of_ne]

theorem moves_grant (scheme : Scheme Node Entry) {state : State Node Entry} {node candidate : Node}
    {candidateLog : List Entry} (fresh : state.vote node (state.currentTerm node) = none)
    (campaigned : state.vote candidate (state.currentTerm node) = some (candidate, candidateLog))
    (upToDate : UpToDate scheme candidateLog (state.log node)) :
    ∃ after, Moves scheme node state after ∧
      after.vote node (state.currentTerm node) = some (candidate, state.log node) ∧
      after.currentTerm = state.currentTerm ∧ after.log = state.log ∧ after.leader = state.leader ∧
      after.acked = state.acked := by
  classical
  refine ⟨_, Moves.of_step (Step.grant state node candidate candidateLog fresh campaigned upToDate)
    rfl ?_ ?_ ?_, ?_, rfl, rfl, rfl, rfl⟩
  all_goals simp +contextual [Function.update_of_ne]

theorem moves_accept {state : State Node Entry} {node leader : Node} {log : List Entry} {count : Nat}
    (leads : state.leader (state.currentTerm node) = some (leader, log))
    (available : count ≤ log.length) : ∃ after, Moves scheme node state after ∧
      after.log node = overlay (state.log node) (log.take count) ∧
      count ≤ after.acked node (state.currentTerm node) ∧
      after.currentTerm = state.currentTerm ∧ after.vote = state.vote ∧ after.leader = state.leader := by
  classical
  refine ⟨_, Moves.of_step (Step.accept state node leader log count leads available)
    rfl ?_ ?_ ?_, ?_, ?_, rfl, rfl, rfl⟩
  all_goals simp +contextual [Function.update_of_ne]

theorem moves_install (scheme : Scheme Node Entry) {state : State Node Entry} (node : Node) {entries : List Entry}
    (committed : Committed scheme state (state.currentTerm node) entries) :
    ∃ after, Moves scheme node state after ∧
      after.log node = overlay (state.log node) entries ∧
      after.currentTerm = state.currentTerm ∧ after.vote = state.vote ∧ after.leader = state.leader ∧
      after.acked = state.acked := by
  classical
  refine ⟨_, Moves.of_step (Step.install state node entries committed) rfl ?_ ?_ ?_, ?_, rfl, rfl, rfl, rfl⟩
  all_goals simp +contextual [Function.update_of_ne]

theorem moves_elect {state : State Node Entry} (invariant : Invariant scheme state) {node : Node}
    {quorum : Finset Node} (vacant : state.leader (state.currentTerm node) = none)
    (isQuorum : scheme.IsQuorum quorum)
    (voted : ∀ voter ∈ quorum, ∃ held, state.vote voter (state.currentTerm node) = some (node, held))
    {start : List Entry} (campaigned : state.vote node (state.currentTerm node) = some (node, start)) :
    ∃ after, Moves scheme node state after ∧
      after.leader (state.currentTerm node) = some (node, state.log node) ∧
      (state.log node).length ≤ after.acked node (state.currentTerm node) ∧
      after.currentTerm = state.currentTerm ∧ after.vote = state.vote ∧ after.log = state.log := by
  classical
  refine ⟨_, ⟨.single (Step.elect state node quorum vacant isQuorum voted ⟨start, campaigned⟩), ?_, ?_⟩,
    ?_, ?_, rfl, rfl, rfl⟩
  · intro other different
    refine ⟨rfl, rfl, rfl, ?_⟩
    intro term log
    simp only [Function.update_apply]
    grind
  · intro term leader log leads
    simp only [Function.update_apply] at leads
    split at leads
    · rename_i sameTerm
      simp only [Option.some.injEq, Prod.mk.injEq] at leads
      obtain ⟨rfl, rfl⟩ := leads
      refine .inr ⟨invariant.log_covered node, ?_⟩
      rw [winner_log invariant vacant isQuorum voted campaigned, sameTerm]
      exact invariant.campaign_terms _ _ _ campaigned
    · exact .inl leads
  · simp
  · simp

/-- The leader's own append; it is no move, since the leader's log grows. -/
theorem run_append (scheme : Scheme Node Entry) {state : State Node Entry} {node : Node} {entry : Entry}
    (leads : state.leader (state.currentTerm node) = some (node, state.log node))
    (own : scheme.termOf entry = state.currentTerm node) :
    ∃ after, Relation.ReflTransGen (Step scheme) state after ∧
      (∀ other, other ≠ node → Untouched other state after) ∧
      after.log node = state.log node ++ [entry] ∧
      after.leader (state.currentTerm node) = some (node, state.log node ++ [entry]) ∧
      (∀ term, term ≠ state.currentTerm node → after.leader term = state.leader term) ∧
      (state.log node).length + 1 ≤ after.acked node (state.currentTerm node) ∧
      after.currentTerm = state.currentTerm ∧ after.vote = state.vote := by
  classical
  refine ⟨_, .single (Step.append state node entry leads own), ?_, ?_, ?_, ?_, ?_, rfl, rfl⟩
  · intro other different
    refine ⟨rfl, Function.update_of_ne different .., rfl, ?_⟩
    intro term log
    simp only [Function.update_apply]
    grind
  all_goals simp +contextual [Function.update_of_ne]

end ShardedKV.Replication
