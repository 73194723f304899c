import ShardedKV.Raft.Calls

/-!
# Steps between a server and its service

`Start`, the messages on `applyCh`, snapshots and restarts keep the relation.
-/

namespace ShardedKV.Raft

open Replication (State Extends Moves)

variable {n : Nat} {Command : Type} {cluster next : Cluster n Command}
  {state after : State (Fin n) (LogEntry Command)} {server : Fin n}

/-! ## Starting a command -/

/-- After a leader has appended an entry, an entry of a leader's log was there before or is the new one. -/
theorem entries_of_append {term : Nat} {leader : Fin n} {log : List (LogEntry Command)} {new : LogEntry Command}
    (leads : state.leader term = some (leader, log)) (appended : after.leader term = some (leader, log ++ [new]))
    (others : ∀ other, other ≠ term → after.leader other = state.leader other) {other : Nat} {winner : Fin n}
    {winnerLog : List (LogEntry Command)} (winnerLeads : after.leader other = some (winner, winnerLog))
    {position : Nat} {entry : LogEntry Command} (located : winnerLog[position]? = some entry) :
    (∃ oldLog, state.leader other = some (winner, oldLog) ∧ oldLog[position]? = some entry) ∨
      (other = term ∧ position = log.length ∧ entry = new) := by
  by_cases same : other = term
  · subst same
    rw [appended] at winnerLeads
    simp only [Option.some.injEq, Prod.mk.injEq] at winnerLeads
    obtain ⟨rfl, rfl⟩ := winnerLeads
    rcases Nat.lt_or_ge position log.length with old | late
    · rw [List.getElem?_append_left old] at located
      exact .inl ⟨log, leads, located⟩
    · rw [List.getElem?_append_right late, List.getElem?_singleton] at located
      split at located
      · exact .inr ⟨rfl, by omega, (Option.some.inj located).symm⟩
      · cases located
  · rw [others other same] at winnerLeads
    exact .inl ⟨winnerLog, winnerLeads, located⟩

/-- The list of successful `Start` calls after the leader has appended one entry. -/
theorem Recorded.append {started : List (Nat × Nat × Command)} (recorded : Recorded state started)
    (extended : Extends state after) {term : Nat} {leader : Fin n} {log : List (LogEntry Command)}
    {command : Command} (leads : state.leader term = some (leader, log))
    (appended : after.leader term = some (leader, log ++ [⟨term, command, log.length + 1⟩]))
    (others : ∀ other, other ≠ term → after.leader other = state.leader other) :
    Recorded after (started ++ [(log.length + 1, term, command)]) where
  index := by
    intro other winner winnerLog winnerLeads position entry located
    rcases entries_of_append leads appended others winnerLeads located with ⟨oldLog, oldLeads, old⟩ | ⟨_, isLast, rfl⟩
    · exact recorded.index _ _ _ oldLeads position entry old
    · rw [isLast]
  contains := by
    intro other winner winnerLog winnerLeads position entry located own
    rw [List.mem_append]
    rcases entries_of_append leads appended others winnerLeads located with ⟨oldLog, oldLeads, old⟩ | ⟨rfl, isLast, rfl⟩
    · exact .inl (recorded.contains _ _ _ oldLeads position entry old own)
    · right
      rw [List.mem_singleton, isLast]
  bounded := by
    intro record member
    rcases List.mem_append.mp member with old | new
    · obtain ⟨winner, winnerLog, winnerLeads, bound⟩ := recorded.bounded record old
      obtain ⟨longer, stillLeads, contained⟩ := extended.leader _ _ _ winnerLeads
      exact ⟨winner, longer, stillLeads, bound.trans contained.length_le⟩
    · rw [List.mem_singleton.mp new]
      exact ⟨leader, _, appended, by simp⟩
  unique := by
    rw [List.map_append, List.nodup_append]
    refine ⟨recorded.unique, List.nodup_singleton _, ?_⟩
    -- what was started before in the term is within the leader's old log
    rintro pair old other new rfl
    obtain ⟨record, member, rfl⟩ := List.mem_map.mp old
    simp only [List.map_cons, List.map_nil, List.mem_singleton, Prod.mk.injEq] at new
    obtain ⟨winner, winnerLog, winnerLeads, bound⟩ := recorded.bounded record member
    rw [new.2, leads] at winnerLeads
    simp only [Option.some.injEq, Prod.mk.injEq] at winnerLeads
    rw [← winnerLeads.2] at bound
    omega

variable [Inhabited Command]

section

variable (simulates : Simulates cluster state)
include simulates

theorem Simulates.start {command : Command}
    (step : cluster.start server command = some next) : Followed state next := by
  have node := simulates.node server
  unfold Cluster.start Raft.start at step
  by_cases isLeader : (cluster.node server).raft.state = .leader
  · rw [if_neg (not_not.mpr isLeader)] at step
    simp only [Option.some.injEq] at step
    subst step
    obtain ⟨after, run, untouched, log, role, keeps, leads, others⟩ :=
      node.log.append node.role simulates.invariant isLeader command
    obtain ⟨-, extended⟩ := Replication.run_invariant simulates.invariant run
    rw [← node.log.compacted.fullLog_length, node.log.compacted.getLastLogIndex_eq]
    refine ⟨after, run, simulates.move run untouched ?_ (List.Subset.refl _) ?_ ?_
      (fun call member => .inl member) (fun other term _ => List.Subperm.refl _) ?_ ?_
      (fun record member => .inl member)⟩
    · exact fun other different => Function.update_of_ne different ..
    · simp only [Cluster.setRaft, Cluster.setNode, Function.update_self]
      exact ⟨log, role, node.service.with_raft extended (List.Subset.refl _) keeps⟩
    · exact Cluster.setRaft_included keeps server
    · simp [Cluster.setRaft, Cluster.setNode, persist, isLeader]
    · exact simulates.recorded.append extended (node.role.leads isLeader) leads others
  · simp only [isLeader, ne_eq, not_false_eq_true, if_true, Option.some.injEq] at step
    rw [Cluster.setRaft_self] at step
    subst step
    exact ⟨state, .refl, simulates⟩

/-! ## Messages on `applyCh` -/

theorem Simulates.takeBatch (step : cluster.takeBatch server = some next) : Followed state next := by
  have node := simulates.node server
  unfold Cluster.takeBatch at step
  dsimp only at step
  rw [node.log.compacted.applyBatch_eq node.log.retained] at step
  cases batch : (cluster.node server).batch with
  | some batch => simp [batch] at step
  | none =>
    by_cases idle : (cluster.node server).raft.commitIndex ≤ (cluster.node server).raft.lastApplied
    · simp [batch, idle] at step
    · simp only [batch, if_neg idle, Option.some.injEq] at step
      subst step
      have applied := node.service.idle batch
      have bound := node.log.commitIndex
      refine ⟨state, .refl, simulates.serve ?_ ?_ fun record member => .inl member⟩
      rotate_left
      · rfl
      refine { node.service with idle := nofun, sending := ?_ }
      intro rest commitIndex isBatch
      simp only [Option.some.injEq, Prod.mk.injEq] at isBatch
      obtain ⟨rfl, rfl⟩ := isBatch
      refine ⟨le_rfl, (cluster.node server).raft.lastApplied, ?_, rfl, .inl applied⟩
      rw [List.length_drop, List.length_take, Nat.min_eq_left bound]
      omega

theorem Simulates.entry_index {position : Nat} {entry : LogEntry Command}
    (located : (cluster.node server).raft.fullLog[position]? = some entry) : entry.index = position + 1 := by
  have covered := simulates.invariant.log_covered server
  rw [(simulates.node server).log.log] at covered
  obtain ⟨creator, creatorLog, created, inCreator⟩ := covered.created located
  exact simulates.recorded.index _ _ _ created position entry inCreator

/-- The next entry of a batch is the one after `first` in the committed part of the log. -/
theorem Simulates.batch_entry {entry : LogEntry Command} {entries : List (LogEntry Command)} {commitIndex : Nat}
    (batch : (cluster.node server).batch = some (entry :: entries, commitIndex)) :
    commitIndex ≤ (cluster.node server).raft.commitIndex ∧
    ∃ first, first + 1 + entries.length = commitIndex ∧
      (cluster.node server).raft.fullLog[first]? = some entry ∧ entry.index = first + 1 ∧
      entries = ((cluster.node server).raft.fullLog.take commitIndex).drop (first + 1) ∧
      (first = (cluster.node server).service.applied.length ∨
        (commitIndex < (cluster.node server).service.lastIncludedIndex ∧
          (cluster.node server).raft.lastApplied = (cluster.node server).service.applied.length)) := by
  obtain ⟨bound, first, total, rest, position⟩ := (simulates.node server).service.sending _ _ batch
  rw [List.length_cons] at total
  have located : (cluster.node server).raft.fullLog[first]? = some entry := by
    have head := congrArg (fun list => list[0]?) rest
    simp only [List.getElem?_cons_zero, List.getElem?_drop, Nat.add_zero] at head
    rw [List.getElem?_take_of_lt (by omega)] at head
    exact head.symm
  have remaining : entries = ((cluster.node server).raft.fullLog.take commitIndex).drop (first + 1) := by
    have tail := congrArg List.tail rest
    rwa [List.tail_cons, List.tail_drop] at tail
  exact ⟨bound, first, by omega, located, simulates.entry_index located, remaining, position⟩

/-- The next command of a batch is the next one the service needs, or one that its snapshot covers. -/
theorem Simulates.sendCommand (step : cluster.sendCommand server = some next) : Followed state next := by
  have node := simulates.node server
  unfold Cluster.sendCommand at step
  dsimp only at step
  split at step
  · rename_i entry entries commitIndex isBatch notInstalling
    rw [Option.some.injEq] at step
    subst step
    obtain ⟨bound, first, total, located, index, remaining, position⟩ := simulates.batch_entry isBatch
    have commit := node.log.commitIndex
    refine ⟨state, .refl, simulates.serve ?_ ?_ ?_⟩
    · have appliedLength := node.service.included
      have receive : (cluster.node server).service.receive (.command entry.command entry.index) =
          if first + 1 ≤ (cluster.node server).service.lastIncludedIndex then (cluster.node server).service
          else { (cluster.node server).service with
            applied := (cluster.node server).service.applied ++ [entry.command] } := by
        rw [Service.receive, index]
      rw [receive]
      rcases position with isNext | ⟨behind, caughtUp⟩
      · -- the service has applied everything before this entry, and no snapshot covers it
        rw [if_neg (by omega)]
        refine ⟨?_, ?_, ?_, ?_, nofun, ?_, node.service.sends, ?_⟩
        · rw [List.length_append, List.length_singleton, ← isNext, List.take_add_one, located, Option.toList_some,
            List.map_append, isNext, ← node.service.applied]
          rfl
        · rw [List.length_append, List.length_singleton]
          change _ ≤ (cluster.node server).raft.commitIndex
          omega
        · rw [List.length_append]
          exact appliedLength.trans (Nat.le_add_right _ _)
        · rw [List.length_append]
          exact node.service.lastApplied.trans (Nat.le_add_right _ _)
        · intro others last isBatch
          simp only [Option.some.injEq, Prod.mk.injEq] at isBatch
          obtain ⟨rfl, rfl⟩ := isBatch
          refine ⟨bound, first + 1, by omega, remaining, .inl ?_⟩
          rw [List.length_append, List.length_singleton, isNext]
        · intro snapshot snapshotTerm snapshotIndex isInstalling
          exact node.service.installing _ _ _ isInstalling
      · -- the rest of a batch from before the snapshot
        rw [if_pos (by omega)]
        refine { node.service with idle := nofun, sending := ?_ }
        intro others last isBatch
        simp only [Option.some.injEq, Prod.mk.injEq] at isBatch
        obtain ⟨rfl, rfl⟩ := isBatch
        exact ⟨bound, first + 1, by omega, remaining, .inr ⟨behind, caughtUp⟩⟩
    · rfl
    · intro record member
      rcases List.mem_append.mp member with old | new
      · exact .inl old
      · rw [List.mem_singleton.mp new]
        refine .inr ⟨_, _, entry, node.log.committed, by omega, ?_, rfl⟩
        rw [index, Nat.add_sub_cancel, List.getElem?_take_of_lt (by omega)]
        exact located
  · cases step

theorem Simulates.sendSnapshot {position : Nat}
    (step : cluster.sendSnapshot server position = some next) : Followed state next := by
  have node := simulates.node server
  unfold Cluster.sendSnapshot at step
  dsimp only at step
  split at step
  · rename_i message located notInstalling
    rw [Option.some.injEq] at step
    subst step
    obtain ⟨snapshot, snapshotTerm, snapshotIndex, rfl, positive, snapshotted⟩ :=
      node.service.sends message (List.mem_of_getElem? located)
    refine ⟨state, .refl, simulates.serve ?_ ?_ ?_⟩
    · refine { node.service with sends := ?_, installing := ?_ }
      · exact fun other member => node.service.sends other (List.mem_of_mem_eraseIdx member)
      · intro other otherTerm otherIndex isInstalling
        simp only [Service.receive, Option.some.injEq, Prod.mk.injEq] at isInstalling
        obtain ⟨rfl, rfl, rfl⟩ := isInstalling
        exact snapshotted
    · rfl
    · intro record member
      rcases List.mem_append.mp member with old | new
      · exact .inl old
      · rw [List.mem_singleton.mp new]
        exact .inr ⟨positive, _, snapshotted⟩
  · cases step

/-! ## Steps that replace the whole node -/

theorem Simulates.become (moves : Moves (scheme n Command) server state after) {node : Node n Command}
    {taken : List (Fin n × Nat × List Command)} (grown : cluster.taken ⊆ taken)
    (related : NodeRel after taken server node)
    (included : (cluster.node server).raft.lastIncludedIndex ≤ node.raft.lastIncludedIndex)
    (ballot : SameBallot (cluster.node server).raft node.raft) :
    Simulates { cluster.setNode server node with taken := taken } after := by
  obtain ⟨-, extended⟩ := Replication.run_invariant simulates.invariant moves.run
  have isNode : (cluster.setNode server node).node server = node := Function.update_self ..
  refine simulates.move moves.run moves.untouched ?_ grown ?_ ?_ (fun call member => .inl member)
    (fun other term _ => List.Subperm.refl _) ?_ (simulates.recorded.of_sameLeaders extended moves.sameLeaders)
    (fun record member => .inl member)
  · exact fun other different => Function.update_of_ne different ..
  · rw [isNode]
    exact related
  · rw [isNode]
    exact included
  · simp only [isNode]
    exact Tally.of_sameBallot extended (fun _ => List.Subperm.refl _) ballot (simulates.tally server)

theorem Simulates.finishBatch (step : cluster.finishBatch server = some next) : Followed state next := by
  have node := simulates.node server
  unfold Cluster.finishBatch at step
  dsimp only at step
  split at step
  · rename_i commitIndex isBatch
    rw [Option.some.injEq] at step
    subst step
    obtain ⟨bound, first, total, -, position⟩ := node.service.sending _ _ isBatch
    rw [List.length_nil, Nat.add_zero] at total
    have applied := node.service.lastApplied
    have finished : (cluster.node server).raft.finishApply commitIndex = { (cluster.node server).raft with
        lastApplied := (cluster.node server).service.applied.length } := by
      have included := node.service.included
      unfold finishApply
      -- the service is at the end of the batch, or a snapshot has taken it further
      split
      · have isNext : commitIndex = (cluster.node server).service.applied.length := by omega
        rw [isNext]
      · have same : (cluster.node server).raft.lastApplied = (cluster.node server).service.applied.length := by
          omega
        rw [← same]
    rw [finished]
    refine ⟨state, .refl, simulates.become (Moves.refl server state) (List.Subset.refl _) ?_ ?_ ?_⟩
    · refine ⟨{ node.log with compacted := ?_, retained := ?_, applied := node.service.committed },
        { node.role with }, { node.service with lastApplied := le_rfl, idle := fun _ => rfl, sending := nofun }⟩
      · exact node.log.compacted.congr rfl rfl rfl rfl
      · exact node.log.retained.trans applied
    · exact le_rfl
    · exact fun isCandidate => ⟨isCandidate, rfl, rfl⟩
  · cases step

/-- A snapshot is installed only beyond the commit index, so beyond every batch in flight. -/
theorem Simulates.install (step : cluster.install server = some next) : Followed state next := by
  have node := simulates.node server
  unfold Cluster.install at step
  dsimp only at step
  split at step
  · cases step
  rename_i snapshot snapshotTerm snapshotIndex isInstalling
  rw [Option.some.injEq] at step
  have snapshotted := node.service.installing _ _ _ isInstalling
  by_cases newer : (cluster.node server).raft.commitIndex < snapshotIndex
  · obtain ⟨after, moves, installed, result, log, role, entries, kept, commitIndex, lastApplied, included, term,
      sameState, sameVotes⟩ := node.log.install node.role simulates.invariant snapshotted newer
    obtain ⟨-, extended⟩ := Replication.run_invariant simulates.invariant moves.run
    rw [result] at step
    subst step
    have dataLength : snapshot.data.length = snapshotIndex := by
      rw [snapshotted.data, List.length_map, snapshotted.length]
    refine ⟨after, moves.run, simulates.become moves (List.Subset.refl _) ⟨log, role, ?_⟩ ?_ ?_⟩
    · refine ⟨?_, ?_, ?_, ?_, ?_, ?_, ?_, nofun⟩
      · change snapshot.data = (installed.fullLog.take snapshot.data.length).map LogEntry.command
        rw [dataLength, entries]
        exact snapshotted.data
      · exact (dataLength.trans commitIndex.symm).le
      · exact dataLength.ge
      · exact (lastApplied.trans dataLength.symm).le
      · exact fun _ => lastApplied.trans dataLength.symm
      · -- a batch in flight ends at an old commit index, which the snapshot covers
        intro rest last isBatch
        obtain ⟨bound, first, total, remaining, -⟩ := node.service.sending rest last isBatch
        refine ⟨?_, first, total, ?_, .inr ⟨bound.trans_lt newer, lastApplied.trans dataLength.symm⟩⟩
        · change last ≤ installed.commitIndex
          omega
        · have shortened := congrArg (List.take last) kept
          rw [List.take_take, List.take_take, Nat.min_eq_left bound] at shortened
          exact remaining.trans (by rw [← shortened])
      · intro message member
        obtain ⟨other, otherTerm, otherIndex, isSnapshot, positive, sent⟩ := node.service.sends message member
        exact ⟨other, otherTerm, otherIndex, isSnapshot, positive,
          sent.mono extended (List.Subset.refl _) term.ge⟩
    · have retained := node.log.retained.trans node.log.applied
      change _ ≤ installed.lastIncludedIndex
      omega
    · exact fun isCandidate => ⟨sameState ▸ isCandidate, term, sameVotes⟩
  · have refused : (cluster.node server).raft.condInstallSnapshot snapshotTerm snapshotIndex snapshot =
        (false, (cluster.node server).raft) := condInstallSnapshot_of_le (by omega)
    rw [refused] at step
    subst step
    refine ⟨state, .refl, simulates.serve ?_ ?_ fun record member => .inl member⟩
    · exact { node.service with installing := nofun }
    · rfl

theorem Simulates.snapshot {index : Nat} (step : cluster.snapshot server index = some next) : Followed state next := by
  have node := simulates.node server
  unfold Cluster.snapshot at step
  dsimp only at step
  split at step
  · rename_i applied
    rw [Option.some.injEq] at step
    subst step
    set data := (cluster.node server).service.applied.take index with isData
    have grown : cluster.taken ⊆ cluster.taken ++ [(server, index, data)] := List.subset_append_left _ _
    by_cases newer : (cluster.node server).raft.lastIncludedIndex < index
    · have commands : data = ((cluster.node server).raft.fullLog.take index).map LogEntry.command := by
        rw [isData, node.service.applied, ← List.map_take, List.take_take, Nat.min_eq_left applied]
      obtain ⟨log, role, fullLog, lastApplied, commitIndex, included, term, sameState, sameVotes⟩ :=
        node.log.compact node.role newer (applied.trans node.service.committed) commands
          (List.mem_append_right cluster.taken (List.mem_singleton_self (server, index, data)))
      have progress := node.service.lastApplied
      refine ⟨state, .refl, simulates.become (Moves.refl server state) grown ⟨log, role, ?_⟩
        (included.symm ▸ newer.le) fun isCandidate => ⟨sameState ▸ isCandidate, term, sameVotes⟩⟩
      refine ⟨?_, ?_, node.service.included, ?_, ?_, ?_, ?_, ?_⟩
      · simp only [fullLog]
        exact node.service.applied
      · simp only [commitIndex]
        exact node.service.committed
      · simp only [lastApplied]
        omega
      · intro idle
        have caughtUp := node.service.idle idle
        simp only [lastApplied]
        omega
      · intro rest last isBatch
        obtain ⟨bound, first, total, remaining, position⟩ := node.service.sending rest last isBatch
        refine ⟨?_, first, total, ?_, ?_⟩
        · simp only [commitIndex]
          exact bound
        · simp only [fullLog]
          exact remaining
        · simp only [lastApplied]
          omega
      · intro message member
        obtain ⟨other, otherTerm, otherIndex, isSnapshot, positive, sent⟩ := node.service.sends message member
        exact ⟨other, otherTerm, otherIndex, isSnapshot, positive, sent.mono (Extends.refl state) grown term.ge⟩
      · intro other otherTerm otherIndex isInstalling
        exact (node.service.installing other otherTerm otherIndex isInstalling).mono (Extends.refl state) grown
          term.ge
    · rw [snapshot_of_le (by omega)]
      refine ⟨state, .refl, simulates.become (Moves.refl server state) grown
        (node.mono (Extends.refl state) (Replication.Untouched.refl server state) grown) le_rfl
        (SameBallot.refl _)⟩
  · cases step

theorem Simulates.restart (server : Fin n) :
    Followed state (cluster.restart server) := by
  have node := simulates.node server
  obtain ⟨log, role, included, lastApplied, commitIndex, fullLog⟩ := node.log.reboot node.role
  have snapshot := node.log.snapshot
  have retained := node.log.retained.trans node.log.applied
  have dataLength : (cluster.node server).raft.persister.snapshot.data.length =
      (cluster.node server).raft.lastIncludedIndex := by
    rw [snapshot.data, List.length_map, snapshot.length]
  refine ⟨state, .refl, simulates.become (Moves.refl server state) (List.Subset.refl _) ⟨log, role, ?_⟩ ?_ ?_⟩
  · refine ⟨?_, ?_, Nat.zero_le _, ?_, ?_, nofun, nofun, nofun⟩
    · change (cluster.node server).raft.persister.snapshot.data =
        ((make server (cluster.node server).raft.persister).fullLog.take
          (cluster.node server).raft.persister.snapshot.data.length).map LogEntry.command
      rw [dataLength, fullLog, Raft.fullLog, ← snapshot.length, List.take_left]
      exact snapshot.data
    · exact (dataLength.trans commitIndex.symm).le
    · exact (lastApplied.trans dataLength.symm).le
    · exact fun _ => lastApplied.trans dataLength.symm
  · exact included.ge
  · refine SameBallot.of_not_candidate ?_
    simp only [Node.boot, make]
    cases (cluster.node server).raft.persister.raftState <;> simp [readPersist]

end

/-! ## Runs -/

theorem simulates_initial : Simulates (Cluster.initial : Cluster n Command) Replication.initial := by
  refine ⟨Replication.invariant_initial, ?_, nofun, nofun, ?_, nofun⟩
  · intro server
    refine ⟨⟨rfl, ⟨rfl, rfl, rfl⟩, rfl, rfl, rfl, le_rfl, le_rfl, le_rfl, .inl rfl, ?_⟩,
      RoleRel.of_follower rfl nofun fun _ => .inl rfl,
      ⟨rfl, le_rfl, le_rfl, le_rfl, fun _ => rfl, nofun, nofun, nofun⟩⟩
    exact ⟨.inl rfl, rfl, rfl, rfl, nofun⟩
  · exact ⟨nofun, nofun, nofun, List.nodup_nil⟩

theorem Simulates.step (simulates : Simulates cluster state) {action : Cluster.Action n Command}
    (step : cluster.step action = some next) : Followed state next := by
  cases action with
  | electionTimeout server => exact simulates.electionTimeout step
  | replicate server peer => exact simulates.replicate step
  | handle id => exact simulates.handle step
  | deliver id => exact simulates.deliver step
  | fail id => exact simulates.fail step
  | start server command => exact simulates.start step
  | takeBatch server => exact simulates.takeBatch step
  | sendCommand server => exact simulates.sendCommand step
  | finishBatch server => exact simulates.finishBatch step
  | sendSnapshot server position => exact simulates.sendSnapshot step
  | install server => exact simulates.install step
  | snapshot server index => exact simulates.snapshot step
  | restart server =>
    rw [Cluster.step, Option.some.injEq] at step
    subst step
    exact simulates.restart server

theorem Simulates.run (simulates : Simulates cluster state) (steps : Cluster.Steps cluster next) :
    Followed state next := by
  obtain ⟨actions, run⟩ := steps
  induction actions generalizing cluster state with
  | nil =>
    rw [Cluster.run, Option.some.injEq] at run
    subst run
    exact ⟨state, .refl, simulates⟩
  | cons action actions inductionHypothesis =>
    obtain ⟨middle, step, rest⟩ := Option.bind_eq_some_iff.mp run
    obtain ⟨between, first, middleSimulates⟩ := simulates.step step
    obtain ⟨after, second, nextSimulates⟩ := inductionHypothesis middleSimulates rest
    exact ⟨after, first.trans second, nextSimulates⟩

/-- Every reachable cluster stands for a reachable state of the replication protocol. -/
theorem reachable_simulates (reachable : Cluster.Reachable cluster) :
    ∃ state, Replication.Reachable (scheme n Command) state ∧ Simulates cluster state :=
  simulates_initial.run reachable

end ShardedKV.Raft
