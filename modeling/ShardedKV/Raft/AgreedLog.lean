import ShardedKV.Raft.Delivery
import ShardedKV.Raft.Order

/-!
# One log for all services

What the services of a cluster have applied, and every snapshot they have taken, are initial
segments of one list of commands.  The list grows by one command when the first service receives it,
never otherwise, and each of its commands was given to `Start`.  A system built on a cluster may
treat this list as the log that Raft has agreed on.
-/

namespace ShardedKV.Raft

open Cluster (Action)
open Replication (State Committed Extends)

variable {n : Nat} {Command : Type} [Inhabited Command] {cluster next : Cluster n Command}
  {state after : State (Fin n) (LogEntry Command)} {server : Fin n} {action : Action n Command}
  {log : List Command}

/-- The log that covers what the services have seen. -/
structure Agreed (state : State (Fin n) (LogEntry Command)) (cluster : Cluster n Command)
    (log : List Command) : Prop where
  committed : ∃ term entries, Committed (scheme n Command) state term entries ∧
    entries.map LogEntry.command = log
  applied : ∀ server, (cluster.node server).service.applied <+: log
  taken : ∀ server index data, (server, index, data) ∈ cluster.taken → data <+: log

theorem agreed_initial : Agreed Replication.initial (Cluster.initial : Cluster n Command) [] where
  committed := ⟨0, [], .inl rfl, rfl⟩
  applied := fun _ => List.prefix_rfl
  taken := by simp [Cluster.initial]

namespace Agreed

theorem comparable (agreed : Agreed state cluster log) (simulates : Simulates cluster state) {term : Nat}
    {entries : List (LogEntry Command)} (committed : Committed (scheme n Command) state term entries) :
    entries.map LogEntry.command <+: log ∨ log <+: entries.map LogEntry.command := by
  obtain ⟨_, known, knownCommitted, rfl⟩ := agreed.committed
  rcases committed.comparable simulates.invariant knownCommitted with shorter | longer
  · exact .inl (shorter.map _)
  · exact .inr (longer.map _)

/-- Every agreed command was given to `Start`. -/
theorem started (agreed : Agreed state cluster log) (simulates : Simulates cluster state) {command : Command}
    (member : command ∈ log) : ∃ index term, (index, term, command) ∈ cluster.started := by
  obtain ⟨_, entries, committed, rfl⟩ := agreed.committed
  obtain ⟨entry, inEntries, rfl⟩ := List.mem_map.mp member
  obtain ⟨position, located⟩ := List.getElem?_of_mem inEntries
  obtain ⟨creator, creatorLog, created, inCreator⟩ := (committed.covered simulates.invariant).created located
  exact ⟨_, _, simulates.recorded.contains _ _ _ created position entry inCreator rfl⟩

omit [Inhabited Command] in
/-- A snapshot that stands for committed entries is an initial segment of the agreed log. -/
theorem snapshotted (agreed : Agreed state cluster log) {term lastIncludedTerm lastIncludedIndex : Nat}
    {snapshot : Snapshot Command}
    (snapshotted : Snapshotted state cluster.taken term snapshot lastIncludedTerm lastIncludedIndex) :
    snapshot.data <+: log := by
  rcases Nat.eq_zero_or_pos lastIncludedIndex with zero | positive
  · rw [snapshotted.data, List.eq_nil_of_length_eq_zero (snapshotted.length.trans zero)]
    exact List.nil_prefix
  · obtain ⟨taker, taken⟩ := snapshotted.taken positive
    exact agreed.taken _ _ _ taken

end Agreed

/-! ## The stored snapshot -/

omit [Inhabited Command] in
theorem requestVote_lastIncludedIndex (rf : Raft n Command) (args : RequestVoteArgs n) :
    (rf.requestVote args).1.lastIncludedIndex = rf.lastIncludedIndex := by
  have observed := (observeCandidate_sameLog rf args.term).lastIncludedIndex
  rcases requestVote_cases rf args with ⟨reply, -, result | result⟩ | ⟨-, -, -, result⟩ <;>
  · rw [result]
    exact observed

omit [Inhabited Command] in
theorem appendEntries_lastIncludedIndex (rf : Raft n Command) (args : AppendEntriesArgs n Command) :
    (rf.appendEntries args).1.lastIncludedIndex = rf.lastIncludedIndex := by
  have observed := (observeLeader_sameLog rf args.term).lastIncludedIndex
  rcases appendEntries_outcome rf args with ⟨-, reply, result, -⟩ | ⟨-, -, result⟩
  · rw [result, observed]
  · rw [result, storeEntries_eq]
    exact observed

omit [Inhabited Command] in
theorem handleAppendEntriesReply_lastIncludedIndex (rf : Raft n Command) (peer : Fin n)
    (args : AppendEntriesArgs n Command) (reply : AppendEntriesReply) :
    (rf.handleAppendEntriesReply peer args reply).lastIncludedIndex = rf.lastIncludedIndex := by
  simp only [handleAppendEntriesReply, handleLogInconsistency]
  repeat' split
  all_goals rfl

/-- Only the service's own `Snapshot` and `CondInstallSnapshot` change what the persister starts from. -/
theorem Simulates.lastIncludedIndex_eq (simulates : Simulates cluster state)
    (step : cluster.step action = some next) (notInstall : action ≠ .install server)
    (notSnapshot : ∀ index, action ≠ .snapshot server index) :
    (next.node server).raft.lastIncludedIndex = (cluster.node server).raft.lastIncludedIndex := by
  have node := simulates.node server
  have acts := Cluster.step_section step server
  generalize (next.node server).raft = rf at acts
  cases acts with
  | none | candidateState => rfl
  | leaderAppendEntries peer =>
    obtain ⟨⟨_, _, -, result⟩, -⟩ := node.log.compacted.leaderAppendEntries_cases peer
    rw [result]
  | requestVote id call args => exact requestVote_lastIncludedIndex _ args
  | appendEntries id call args => exact appendEntries_lastIncludedIndex _ args
  | installSnapshot id call args =>
    rcases installSnapshot_cases (cluster.node server).raft args with ⟨_, result⟩ | ⟨-, _, _, result, -⟩
    · rw [result]
    · rw [result]
      exact (observeCandidate_sameLog _ _).lastIncludedIndex
  | requestVoteReply id call args reply =>
    rcases handleRequestVoteReply_cases (cluster.node server).raft args reply with
      ⟨-, result⟩ | result | ⟨_, _, _, ⟨_, result⟩ | result⟩
    all_goals simp only [result, followerState, leaderState, persist]
  | appendEntriesReply id call args reply => exact handleAppendEntriesReply_lastIncludedIndex _ _ args reply
  | installSnapshotReply id call args reply =>
    simp only [handleInstallSnapshotReply]
    repeat' split
    all_goals rfl
  | start command =>
    unfold Raft.start
    split <;> rfl
  | finishApply commitIndex =>
    unfold finishApply
    split <;> rfl
  | condInstallSnapshot => exact absurd rfl notInstall
  | snapshot index => exact absurd rfl (notSnapshot index)
  | restart =>
    obtain ⟨-, -, included, -⟩ := node.log.reboot node.role
    exact included

/-! ## What a service sees of a step -/

namespace Cluster

omit [Inhabited Command] in
/-- Steps that neither the service above a server nor a caller of `Start` takes part in, but for
taking note of a snapshot message. -/
def Action.unseen : Action n Command → Bool
  | .electionTimeout _ | .replicate .. | .handle _ | .deliver _ | .fail _ | .takeBatch _ | .finishBatch _
  | .sendSnapshot .. => true
  | .start .. | .sendCommand _ | .install _ | .snapshot .. | .restart _ => false

theorem delivery_command {commandIndex : Nat}
    (delivered : cluster.delivery server action = some (.command commandIndex)) : action = .sendCommand server := by
  cases action with
  | sendCommand actor =>
    by_cases same : actor = server
    · rw [same]
    · simp [Cluster.delivery, same] at delivered
  | install actor =>
    simp only [Cluster.delivery] at delivered
    repeat' split at delivered
    all_goals simp at delivered
  | restart actor =>
    simp only [Cluster.delivery] at delivered
    split at delivered <;> simp at delivered
  | _ => simp [Cluster.delivery] at delivered

/-- Only `Start` and `Snapshot` are recorded. -/
theorem step_recorded (step : cluster.step action = some next) :
    ((∀ server command, action ≠ .start server command) → next.started = cluster.started) ∧
      ((∀ server index, action ≠ .snapshot server index) → next.taken = cluster.taken) := by
  cases action with
  | start actor command =>
    refine ⟨fun notStart => absurd rfl (notStart actor command), fun _ => ?_⟩
    simp only [Cluster.step, Cluster.start] at step
    split at step <;> cases step <;> rfl
  | snapshot actor index =>
    refine ⟨fun _ => ?_, fun notSnapshot => absurd rfl (notSnapshot actor index)⟩
    simp only [Cluster.step, Cluster.snapshot] at step
    split at step <;> cases step
    rfl
  | _ =>
    simp only [Cluster.step, Cluster.electionTimeout, Cluster.replicate, Cluster.handle, Cluster.deliver,
      Cluster.fail, Cluster.takeBatch, Cluster.sendCommand, Cluster.finishBatch, Cluster.sendSnapshot,
      Cluster.install, Cluster.restart] at step
    repeat' split at step
    all_goals cases step <;> exact ⟨fun _ => rfl, fun _ => rfl⟩

end Cluster

/-- What a service and its persister see of a server is the same. -/
structure Unseen (before after : Node n Command) : Prop where
  applied : after.service.applied = before.service.applied
  included : after.service.lastIncludedIndex = before.service.lastIncludedIndex
  stored : after.raft.lastIncludedIndex = before.raft.lastIncludedIndex

theorem Served.of_none {service : Service Command} (served : Served cluster server none service) :
    service.applied = (cluster.node server).service.applied ∧
      service.lastIncludedIndex = (cluster.node server).service.lastIncludedIndex := by
  cases served with
  | nothing _ applied included => exact ⟨applied, included⟩

section Steps

variable (simulates : Simulates cluster state)
include simulates

/-- A step changes what the service of a server sees only if it delivers something there or the
service itself takes it. -/
theorem Simulates.step_unseen (step : cluster.step action = some next)
    (undelivered : cluster.delivery server action = none) (notInstall : action ≠ .install server)
    (notSnapshot : ∀ index, action ≠ .snapshot server index) : Unseen (cluster.node server) (next.node server) := by
  have served := simulates.step_served step server
  rw [undelivered] at served
  obtain ⟨applied, included⟩ := served.of_none
  exact ⟨applied, included, simulates.lastIncludedIndex_eq step notInstall notSnapshot⟩

theorem Simulates.unseen_step (unseen : action.unseen = true) (step : cluster.step action = some next) :
    (∀ server, Unseen (cluster.node server) (next.node server)) ∧ next.started = cluster.started ∧
      next.taken = cluster.taken := by
  obtain ⟨started, taken⟩ := Cluster.step_recorded step
  refine ⟨fun server => ?_, started ?_, taken ?_⟩
  · apply simulates.step_unseen step
    · cases action <;> first | rfl | cases unseen
    · rintro rfl
      cases unseen
    · rintro index rfl
      cases unseen
  · rintro _ _ rfl
    cases unseen
  · rintro _ _ rfl
    cases unseen

/-! ## The steps of a service -/

theorem Simulates.sendCommand_received {entry : LogEntry Command}
    {entries : List (LogEntry Command)} {commitIndex : Nat}
    (batch : (cluster.node server).batch = some (entry :: entries, commitIndex))
    (step : cluster.sendCommand server = some next) :
    (next.node server).service.lastIncludedIndex = (cluster.node server).service.lastIncludedIndex ∧
    ((cluster.node server).service.lastIncludedIndex < entry.index ∧
      entry.index = (cluster.node server).service.applied.length + 1 ∧
      (next.node server).service.applied = (cluster.node server).service.applied ++ [entry.command] ∨
    entry.index ≤ (cluster.node server).service.lastIncludedIndex ∧
      (next.node server).service.applied = (cluster.node server).service.applied) := by
  have received : (next.node server).service =
      (cluster.node server).service.receive (.command entry.command entry.index) := by
    simp only [Cluster.sendCommand, batch] at step
    split at step
    · rename_i isBatch _
      cases isBatch
      cases step
      simp only [Cluster.setNode, Function.update_self]
    · cases step
  have included := (simulates.node server).service.included
  rw [received, Service.receive]
  rcases simulates.batch_head batch with isNext | covered
  · rw [if_neg (by omega)]
    exact ⟨rfl, .inl ⟨by omega, isNext, rfl⟩⟩
  · rw [if_pos (by omega)]
    exact ⟨rfl, .inr ⟨covered.le, rfl⟩⟩

theorem Simulates.snapshot_stored {index : Nat} (newer : (cluster.node server).raft.lastIncludedIndex < index)
    (step : cluster.snapshot server index = some next) :
    (next.node server).service = (cluster.node server).service ∧
      (next.node server).raft.lastIncludedIndex = index ∧
      next.taken = cluster.taken ++ [(server, index, (cluster.node server).service.applied.take index)] := by
  have node := simulates.node server
  simp only [Cluster.snapshot] at step
  split at step
  · rename_i applied
    cases step
    have inLog := (applied.trans node.service.committed).trans node.log.commitIndex
    simp only [Cluster.setRaft, Cluster.setNode, Function.update_self, true_and, and_true]
    rw [node.log.compacted.snapshot_eq _ newer inLog]
    rfl
  · cases step

/-- An accepted snapshot is ahead of what the service has applied, and replaces it; a refused one
leaves everything as it was. -/
theorem Simulates.install_outcome {snapshot : Snapshot Command} {snapshotTerm snapshotIndex : Nat}
    (installing : (cluster.node server).service.installing = some (snapshot, snapshotTerm, snapshotIndex))
    (step : cluster.install server = some next) :
    if ((cluster.node server).raft.condInstallSnapshot snapshotTerm snapshotIndex snapshot).1 then
      (next.node server).service = { applied := snapshot.data, lastIncludedIndex := snapshotIndex } ∧
        snapshot.data.length = snapshotIndex ∧ (cluster.node server).service.applied.length < snapshotIndex ∧
        (next.node server).raft.lastIncludedIndex = snapshotIndex
    else Unseen (cluster.node server) (next.node server) := by
  have node := simulates.node server
  have snapshotted := node.service.installing _ _ _ installing
  simp only [Cluster.install, installing, Option.some.injEq] at step
  subst step
  simp only [Cluster.setNode, Function.update_self]
  by_cases newer : (cluster.node server).raft.commitIndex < snapshotIndex
  · have length : snapshot.data.length = snapshotIndex := by
      rw [snapshotted.data, List.length_map, snapshotted.length]
    have committed := node.service.committed
    simp only [condInstallSnapshot, if_neg (Nat.not_le.mpr newer), if_true]
    exact ⟨trivial, length, by omega, rfl⟩
  · rw [condInstallSnapshot_of_le (by omega)]
    exact ⟨rfl, rfl, rfl⟩

theorem Simulates.restart_restored (server : Fin n) :
    ((cluster.restart server).node server).service.applied.length = (cluster.node server).raft.lastIncludedIndex ∧
      ((cluster.restart server).node server).service.lastIncludedIndex = 0 ∧
      ((cluster.restart server).node server).raft.lastIncludedIndex =
        (cluster.node server).raft.lastIncludedIndex := by
  have node := simulates.node server
  obtain ⟨-, -, included, -⟩ := node.log.reboot node.role
  simp only [Cluster.restart, Cluster.setNode, Function.update_self, Node.boot, included, and_true]
  rw [node.log.snapshot.data, List.length_map, node.log.snapshot.length]

/-! ## The log over a step -/

theorem Simulates.next_committed {entry : LogEntry Command} {entries : List (LogEntry Command)} {commitIndex : Nat}
    (batch : (cluster.node server).batch = some (entry :: entries, commitIndex))
    (isNext : entry.index = (cluster.node server).service.applied.length + 1) :
    ∃ through, Committed (scheme n Command) state (cluster.node server).raft.currentTerm through ∧
      through.map LogEntry.command = (cluster.node server).service.applied ++ [entry.command] := by
  have node := simulates.node server
  obtain ⟨bound, first, total, located, index, -⟩ := simulates.batch_entry batch
  have isFirst : first = (cluster.node server).service.applied.length := by omega
  subst isFirst
  refine ⟨(cluster.node server).raft.fullLog.take ((cluster.node server).service.applied.length + 1),
    node.log.committed.of_le (List.take_prefix_take_left (by omega)), ?_⟩
  rw [List.take_add_one, located, List.map_append, ← node.service.applied]
  rfl

end Steps

namespace Agreed

theorem service_step (agreed : Agreed state cluster log) (simulates : Simulates cluster state)
    (step : cluster.step action = some next) (server : Fin n) :
    (next.node server).service.applied <+: log ∨
      ∃ entry entries commitIndex, action = .sendCommand server ∧
        (cluster.node server).batch = some (entry :: entries, commitIndex) ∧
        log = (cluster.node server).service.applied ∧
        (next.node server).service.applied = log ++ [entry.command] ∧
        ∃ term through, Committed (scheme n Command) state term through ∧
          through.map LogEntry.command = log ++ [entry.command] := by
  have node := simulates.node server
  have served := simulates.step_served step server
  generalize given : cluster.delivery server action = delivery at served
  generalize after : (next.node server).service = service at served
  cases served with
  | nothing _ applied _ =>
    rw [applied]
    exact .inl (agreed.applied server)
  | accepted snapshot _ _ installing _ =>
    exact .inl (agreed.snapshotted (node.service.installing _ _ _ installing))
  | started => exact .inl (agreed.snapshotted node.log.snapshot)
  | command entry entries commitIndex batch =>
    have included := node.service.included
    rcases simulates.batch_head batch with isNext | covered
    · rw [Service.receive, if_neg (by omega)]
      obtain ⟨through, committed, commands⟩ := simulates.next_committed batch isNext
      have comparable := agreed.comparable simulates committed
      rw [commands] at comparable
      rcases comparable with onLog | beyond
      · exact .inl onLog
      · -- nothing lies between what the service has and the command it receives
        obtain ⟨rest, isLog⟩ := agreed.applied server
        subst isLog
        rcases List.prefix_concat_iff.mp beyond with reached | within
        · exact .inl (reached ▸ List.prefix_rfl)
        · have empty : rest = [] := by
            have length := within.length_le
            rw [List.length_append] at length
            exact List.eq_nil_of_length_eq_zero (by omega)
          subst empty
          rw [List.append_nil]
          exact .inr ⟨entry, entries, commitIndex, Cluster.delivery_command given, batch, rfl, rfl, _, through,
            committed, commands⟩
    · rw [Service.receive, if_pos (by omega)]
      exact .inl (agreed.applied server)

theorem step (agreed : Agreed state cluster log) (simulates : Simulates cluster state)
    (step : cluster.step action = some next) (extended : Extends state after) :
    Agreed after next log ∨
      ∃ server entry entries commitIndex, action = .sendCommand server ∧
        (cluster.node server).batch = some (entry :: entries, commitIndex) ∧
        log = (cluster.node server).service.applied ∧
        (next.node server).service.applied = log ++ [entry.command] ∧
        Agreed after next (log ++ [entry.command]) := by
  have taken : ∀ server index data, (server, index, data) ∈ next.taken → data <+: log := by
    intro server index data member
    rcases Cluster.step_taken step with same | ⟨taker, position, -, -, grown⟩
    · exact agreed.taken _ _ _ (same ▸ member)
    · rw [grown, List.mem_append, List.mem_singleton] at member
      rcases member with old | new
      · exact agreed.taken _ _ _ old
      · cases new
        exact List.IsPrefix.trans ⟨_, List.take_append_drop _ _⟩ (agreed.applied _)
  by_cases first : ∃ server, ¬ (next.node server).service.applied <+: log
  · obtain ⟨server, beyond⟩ := first
    obtain onLog | ⟨entry, entries, commitIndex, isSend, batch, isLog, received, term, through, committed,
      commands⟩ := agreed.service_step simulates step server
    · exact absurd onLog beyond
    refine .inr ⟨server, entry, entries, commitIndex, isSend, batch, isLog, received,
      ⟨term, through, committed.mono extended le_rfl, commands⟩, ?_, ?_⟩
    · intro other
      rcases agreed.service_step simulates step other with onLog | ⟨_, _, _, isOther, otherBatch, -, otherReceived, -⟩
      · exact onLog.trans (List.prefix_append _ _)
      · rw [isSend, Action.sendCommand.injEq] at isOther
        subst isOther
        exact received ▸ List.prefix_rfl
    · exact fun taker index data member => (taken taker index data member).trans (List.prefix_append _ _)
  · obtain ⟨term, entries, committed, commands⟩ := agreed.committed
    refine .inl ⟨⟨term, entries, committed.mono extended le_rfl, commands⟩, ?_, taken⟩
    intro server
    by_contra beyond
    exact first ⟨server, beyond⟩

theorem step_unsent (agreed : Agreed state cluster log) (simulates : Simulates cluster state)
    (step : cluster.step action = some next) (extended : Extends state after)
    (notSend : ∀ server, action ≠ .sendCommand server) : Agreed after next log := by
  rcases agreed.step simulates step extended with same | ⟨server, _, _, _, isSend, -⟩
  · exact same
  · exact absurd isSend (notSend server)

end Agreed

end ShardedKV.Raft
