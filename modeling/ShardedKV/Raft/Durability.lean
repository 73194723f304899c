import ShardedKV.Raft.Transitions

/-!
# What a crash leaves

Whenever `rf.mu` is free, the persister holds the persistent fields as they are, together with the
snapshot that was saved with the current `lastIncludedIndex`.
-/

namespace ShardedKV.Raft

open Cluster (Action)

variable {n : Nat} {Command : Type}

/-- Decoding the raft state gives the current fields, or there is none and the fields are the ones
`Make` starts with. -/
def Persisted [Inhabited Command] (rf : Raft n Command) : Prop :=
  rf.persister.raftState = some rf.getStatePersistData ∨
    rf.persister.raftState = none ∧ rf.currentTerm = 0 ∧ rf.votedFor = none ∧ rf.log = [default] ∧
      rf.lastIncludedIndex = 0 ∧ rf.lastIncludedTerm = 0

/-- The index and the data with which an action makes the server call `SaveStateAndSnapshot`. -/
def Cluster.saves (cluster : Cluster n Command) (server : Fin n) : Action n Command → Option (Nat × List Command)
  | .install actor =>
    match (cluster.node actor).service.installing with
    | some (snapshot, _, snapshotIndex) =>
      if actor = server ∧ (cluster.node actor).raft.commitIndex < snapshotIndex then
        some (snapshotIndex, snapshot.data)
      else none
    | none => none
  | .snapshot actor index =>
    if actor = server ∧ (cluster.node actor).raft.lastIncludedIndex < index then
      some (index, (cluster.node actor).service.applied.take index)
    else none
  | _ => none

/-- The index and the data that the server saved last in a run. -/
def Cluster.lastSaved [Inhabited Command] (cluster : Cluster n Command) (server : Fin n)
    (actions : List (Action n Command)) : Nat × List Command :=
  cluster.observe (fun cluster action saved => (cluster.saves server action).getD saved) actions (0, [])

/-! ## Snapshots are saved with their index -/

/-- The snapshot and its place in the log are the same. -/
structure SameSnapshot (rf other : Raft n Command) : Prop where
  lastIncludedIndex : other.lastIncludedIndex = rf.lastIncludedIndex
  snapshot : other.persister.snapshot = rf.persister.snapshot

theorem SameSnapshot.refl (rf : Raft n Command) : SameSnapshot rf rf := ⟨rfl, rfl⟩

/-- The index of the stored snapshot with its data. -/
def stored (rf : Raft n Command) : Nat × List Command := (rf.lastIncludedIndex, rf.persister.snapshot.data)

theorem SameSnapshot.stored {rf other : Raft n Command} (same : SameSnapshot rf other) :
    other.stored = rf.stored := by
  rw [Raft.stored, Raft.stored, same.lastIncludedIndex, same.snapshot]

theorem requestVote_sameSnapshot (rf : Raft n Command) (args : RequestVoteArgs n) :
    SameSnapshot rf (rf.requestVote args).1 := by
  unfold requestVote
  dsimp only
  split_ifs <;> exact ⟨rfl, rfl⟩

theorem appendEntries_sameSnapshot (rf : Raft n Command) (args : AppendEntriesArgs n Command) :
    SameSnapshot rf (rf.appendEntries args).1 := by
  unfold appendEntries
  dsimp only
  split_ifs <;> exact ⟨rfl, rfl⟩

theorem installSnapshot_sameSnapshot (rf : Raft n Command) (args : InstallSnapshotArgs n Command) :
    SameSnapshot rf (rf.installSnapshot args).1 := by
  unfold installSnapshot
  dsimp only
  split_ifs <;> exact ⟨rfl, rfl⟩

theorem handleRequestVoteReply_sameSnapshot (rf : Raft n Command) (args : RequestVoteArgs n)
    (reply : RequestVoteReply) : SameSnapshot rf (rf.handleRequestVoteReply args reply) := by
  rcases handleRequestVoteReply_cases rf args reply with ⟨_, result⟩ | result | ⟨_, _, _, ⟨_, result⟩ | result⟩
  all_goals
    rw [result]
    exact ⟨rfl, rfl⟩

theorem handleAppendEntriesReply_sameSnapshot (rf : Raft n Command) (peer : Fin n)
    (args : AppendEntriesArgs n Command) (reply : AppendEntriesReply) :
    SameSnapshot rf (rf.handleAppendEntriesReply peer args reply) := by
  unfold handleAppendEntriesReply handleLogInconsistency
  dsimp only
  split_ifs <;> exact ⟨rfl, rfl⟩

theorem handleInstallSnapshotReply_sameSnapshot (rf : Raft n Command) (peer : Fin n)
    (args : InstallSnapshotArgs n Command) (reply : InstallSnapshotReply) :
    SameSnapshot rf (rf.handleInstallSnapshotReply peer args reply) := by
  unfold handleInstallSnapshotReply
  dsimp only
  split_ifs <;> exact ⟨rfl, rfl⟩

variable [Inhabited Command]

theorem Durable.persisted {rf : Raft n Command} (durable : Durable rf) : Persisted rf := by
  unfold Durable make at durable
  cases stored : rf.persister.raftState with
  | some data =>
    rw [stored] at durable
    left
    rw [stored, ← durable]
    rfl
  | none =>
    rw [stored] at durable
    simp only [readPersist, getStatePersistData, PersistData.mk.injEq] at durable
    obtain ⟨term, votedFor, log, index, includedTerm⟩ := durable
    exact .inr ⟨stored, term.symm, votedFor.symm, log.symm, index.symm, includedTerm.symm⟩

theorem Section.sameSnapshot {cluster : Cluster n Command} {server : Fin n} {action : Action n Command}
    {rf : Raft n Command} (durable : Durable (cluster.node server).raft)
    (me : (cluster.node server).raft.me = server) (acts : Section cluster server action rf)
    (notInstall : action ≠ .install server) (notSnapshot : ∀ index, action ≠ .snapshot server index) :
    SameSnapshot (cluster.node server).raft rf := by
  cases acts with
  | none => exact .refl _
  | candidateState => exact ⟨rfl, rfl⟩
  | leaderAppendEntries peer =>
    unfold Raft.leaderAppendEntries
    dsimp only
    split_ifs <;> exact ⟨rfl, rfl⟩
  | requestVote id call args => exact requestVote_sameSnapshot _ args
  | appendEntries id call args => exact appendEntries_sameSnapshot _ args
  | installSnapshot id call args => exact installSnapshot_sameSnapshot _ args
  | requestVoteReply id call args reply => exact handleRequestVoteReply_sameSnapshot _ args reply
  | appendEntriesReply id call args reply => exact handleAppendEntriesReply_sameSnapshot _ call.callee args reply
  | installSnapshotReply id call args reply =>
    exact handleInstallSnapshotReply_sameSnapshot _ call.callee args reply
  | start command =>
    unfold Raft.start
    split_ifs <;> exact ⟨rfl, rfl⟩
  | finishApply commitIndex =>
    unfold Raft.finishApply
    split_ifs <;> exact ⟨rfl, rfl⟩
  | condInstallSnapshot => exact absurd rfl notInstall
  | snapshot index => exact absurd rfl (notSnapshot index)
  | restart =>
    -- what was read back is what was there
    rw [Durable, me] at durable
    refine ⟨congrArg PersistData.lastIncludedIndex durable, ?_⟩
    unfold make
    cases (cluster.node server).raft.persister.raftState <;> rfl

theorem Simulates.stored_step {cluster next : Cluster n Command}
    {state : Replication.State (Fin n) (LogEntry Command)} (simulates : Simulates cluster state)
    {action : Action n Command} (step : cluster.step action = some next) (server : Fin n) :
    (next.node server).raft.stored = (cluster.saves server action).getD (cluster.node server).raft.stored := by
  have node := simulates.node server
  have acts := Cluster.step_section step server
  cases action with
  | install actor =>
    simp only [Cluster.step, Cluster.install] at step
    split at step
    · cases step
    rename_i snapshot snapshotTerm snapshotIndex installing
    rw [Option.some.injEq] at step
    subst step
    simp only [Cluster.saves, installing]
    by_cases here : actor = server
    · subst here
      by_cases newer : (cluster.node actor).raft.commitIndex < snapshotIndex
      · rw [if_pos ⟨rfl, newer⟩]
        simp [Cluster.setNode, condInstallSnapshot, Nat.not_le.mpr newer, Raft.stored, saveStateAndSnapshot]
      · rw [if_neg (fun both => newer both.2)]
        simp [Cluster.setNode, condInstallSnapshot, Nat.not_lt.mp newer]
    · rw [if_neg (fun both => here both.1)]
      simp [Cluster.setNode, Function.update_of_ne (Ne.symm here)]
  | snapshot actor index =>
    simp only [Cluster.step, Cluster.snapshot] at step
    split at step
    · rename_i applied
      rw [Option.some.injEq] at step
      subst step
      simp only [Cluster.saves]
      by_cases here : actor = server
      · subst here
        by_cases newer : (cluster.node actor).raft.lastIncludedIndex < index
        · have inLog := (applied.trans node.service.committed).trans node.log.commitIndex
          rw [if_pos ⟨rfl, newer⟩]
          simp [Cluster.setRaft, Cluster.setNode, node.log.compacted.snapshot_eq _ newer inLog, Raft.stored,
            saveStateAndSnapshot]
        · rw [if_neg (fun both => newer both.2)]
          simp [Cluster.setRaft, Cluster.setNode, Raft.snapshot, Nat.not_lt.mp newer]
      · rw [if_neg (fun both => here both.1)]
        simp [Cluster.setRaft, Cluster.setNode, Function.update_of_ne (Ne.symm here)]
    · cases step
  | _ =>
    have same := acts.sameSnapshot node.log.durable node.log.me (by simp) (by simp)
    exact same.stored

/-! ## Durability -/

theorem durability {actions : List (Action n Command)} {cluster : Cluster n Command}
    (run : Cluster.initial.run actions = some cluster) (server : Fin n) :
    let rf := (cluster.node server).raft
    let rebooted := ((cluster.restart server).node server).raft
    Persisted rf ∧
    (rf.lastIncludedIndex, rf.persister.snapshot.data) = Cluster.initial.lastSaved server actions ∧
    rebooted.currentTerm = rf.currentTerm ∧ rebooted.votedFor = rf.votedFor ∧ rebooted.log = rf.log ∧
    rebooted.lastIncludedIndex = rf.lastIncludedIndex ∧ rebooted.lastIncludedTerm = rf.lastIncludedTerm ∧
    rebooted.commitIndex = rf.lastIncludedIndex ∧ rebooted.lastApplied = rf.lastIncludedIndex := by
  intro rf rebooted
  obtain ⟨state, -, simulates⟩ := reachable_simulates ⟨actions, run⟩
  have node := simulates.node server
  have isRebooted : rebooted = make server rf.persister := by
    simp [rebooted, rf, Cluster.restart, Cluster.setNode, Node.boot]
  have restored : rebooted.getStatePersistData = rf.getStatePersistData := by
    have durable := node.log.durable
    rwa [Durable, node.log.me, ← isRebooted] at durable
  simp only [getStatePersistData, PersistData.mk.injEq] at restored
  obtain ⟨term, votedFor, log, index, includedTerm⟩ := restored
  obtain ⟨-, -, -, lastApplied, commitIndex, -⟩ := node.log.reboot node.role
  rw [← isRebooted] at lastApplied commitIndex
  refine ⟨node.log.durable.persisted, ?_, term, votedFor, log, index, includedTerm, commitIndex, lastApplied⟩
  -- every step of the run saves both or neither
  change (cluster.node server).raft.stored = Cluster.initial.lastSaved server actions
  refine Cluster.run_induction run ?_ ?_
  · rfl
  · intro earlier middle next action ran same step
    obtain ⟨_, -, middleSimulates⟩ := reachable_simulates ⟨earlier, ran⟩
    rw [Cluster.lastSaved, Cluster.observe_append _ _ ran step, middleSimulates.stored_step step server, same]
    rfl

/-- Server 0 commits its first entry, applies it and takes a snapshot. -/
def compacting : List (Action 2 Nat) :=
  [.electionTimeout 0, .handle 0, .deliver 0, .start 0 7, .replicate 0 1, .handle 1, .deliver 1, .takeBatch 0,
    .sendCommand 0, .snapshot 0 1]

theorem durability_compacting :
    let cluster : Cluster 2 Nat := Cluster.initial.after compacting
    Persisted (cluster.node 0).raft ∧ Cluster.initial.lastSaved 0 compacting = (1, [7]) ∧
    (cluster.node 0).raft.lastIncludedIndex = 1 ∧ ((cluster.restart 0).node 0).raft.currentTerm = 1 ∧
    ((cluster.restart 0).node 0).raft.commitIndex = 1 := by
  intro cluster
  have run : Cluster.initial.run compacting = some cluster := Cluster.run_eq_some_after (by decide)
  obtain ⟨persisted, saved, term, -, -, -, -, commitIndex, -⟩ := durability run 0
  have isSaved : Cluster.initial.lastSaved 0 compacting = (1, [7]) := by decide
  have index : (cluster.node 0).raft.lastIncludedIndex = 1 := congrArg Prod.fst (saved.trans isSaved)
  have isTerm : (cluster.node 0).raft.currentTerm = 1 := by decide
  exact ⟨persisted, isSaved, index, term.trans isTerm, commitIndex.trans index⟩

end ShardedKV.Raft
