import ShardedKV.Raft.Transitions

/-!
# The leader's log only grows

A server that is the leader after a step was elected in that step or was the leader of the same term
before, and then nothing but its own `Start` has changed its log.  An `AppendEntries` request of its
term would come from itself, and a snapshot that it installs is part of its log, because the log of a
leader contains everything committed.
-/

namespace ShardedKV.Raft

open Cluster (Action)
open Replication (State Moves)

variable {n : Nat} {Command : Type}

/-- The commands a service starts on its own server, in the order of the run. -/
def Cluster.startedOn (server : Fin n) (actions : List (Action n Command)) : List Command :=
  actions.filterMap fun
    | .start actor command => if actor = server then some command else none
    | _ => none

theorem Cluster.startedOn_append (server : Fin n) (actions more : List (Action n Command)) :
    Cluster.startedOn server (actions ++ more) = Cluster.startedOn server actions ++ Cluster.startedOn server more :=
  List.filterMap_append

theorem Cluster.startedOn_self (server : Fin n) (command : Command) :
    Cluster.startedOn server [.start server command] = [command] := by
  simp [Cluster.startedOn]

theorem Cluster.startedOn_other {server : Fin n} {action : Action n Command}
    (notStart : ∀ command, action ≠ .start server command) : Cluster.startedOn server [action] = [] := by
  cases action with
  | start actor command =>
    have different : actor ≠ server := by
      rintro rfl
      exact notStart command rfl
    simp [Cluster.startedOn, different]
  | _ => rfl

/-- The entries a leader makes of commands, when its log has `length` entries. -/
def madeEntries (term length : Nat) (commands : List Command) : List (LogEntry Command) :=
  commands.mapIdx fun position command => { term, command, index := length + position + 1 }

@[simp] theorem madeEntries_length (term length : Nat) (commands : List Command) :
    (madeEntries term length commands).length = commands.length := by
  simp [madeEntries]

@[simp] theorem madeEntries_command (term length : Nat) (commands : List Command) :
    (madeEntries term length commands).map LogEntry.command = commands := by
  refine List.ext_getElem? fun position => ?_
  rw [madeEntries, List.getElem?_map, List.getElem?_mapIdx, Option.map_map]
  exact Option.map_id'

theorem madeEntries_append (term length : Nat) (commands more : List Command) :
    madeEntries term length (commands ++ more) =
      madeEntries term length commands ++ madeEntries term (length + commands.length) more := by
  simp only [madeEntries, List.mapIdx_append, Nat.add_assoc, Nat.add_comm, Nat.add_left_comm]

/-! ## Where a leader comes from -/

/-- A leader that was elected just now. -/
structure Elected (rf other : Raft n Command) : Prop where
  candidate : rf.state = .candidate
  currentTerm : other.currentTerm = rf.currentTerm
  matchIndex : other.matchIndex = fun _ => -1

/-- A leader that stays in its term with its log. -/
structure StaysLeader (rf other : Raft n Command) : Prop where
  leader : rf.state = .leader
  currentTerm : other.currentTerm = rf.currentTerm
  fullLog : other.fullLog = rf.fullLog

/-- Every peer is to be tried from the end of the log. -/
def StartsAtEnd (rf : Raft n Command) : Prop := ∀ peer, rf.nextIndex peer = rf.getLastLogIndex + 1

theorem StaysLeader.refl {rf : Raft n Command} (isLeader : rf.state = .leader) : StaysLeader rf rf :=
  ⟨isLeader, rfl, rfl⟩

theorem observeCandidate_leader {rf : Raft n Command} {term : Nat}
    (isLeader : (rf.observeCandidate term).state = .leader) : rf.observeCandidate term = rf := by
  rcases observeCandidate_cases rf term with ⟨_, follows⟩ | ⟨_, stays⟩
  · rw [follows] at isLeader
    cases isLeader
  · exact stays

theorem observeLeader_leader {rf : Raft n Command} {term : Nat}
    (isLeader : (rf.observeLeader term).state = .leader) : rf.observeLeader term = rf := by
  rcases observeLeader_cases rf term with ⟨_, follows⟩ | ⟨_, _, stays⟩
  · rw [follows] at isLeader
    cases isLeader
  · exact stays

theorem requestVote_leader {rf : Raft n Command} {args : RequestVoteArgs n}
    (isLeader : (rf.requestVote args).1.state = .leader) : StaysLeader rf (rf.requestVote args).1 := by
  rcases requestVote_cases rf args with ⟨reply, -, result | result⟩ | ⟨-, -, -, result⟩
  all_goals
    rw [result] at isLeader ⊢
    have same : rf.observeCandidate args.term = rf := observeCandidate_leader isLeader
    rw [same] at isLeader ⊢
    exact ⟨isLeader, rfl, rfl⟩

theorem handleRequestVoteReply_leader {rf : Raft n Command} {args : RequestVoteArgs n} {reply : RequestVoteReply}
    (isLeader : (rf.handleRequestVoteReply args reply).state = .leader) :
    Elected rf (rf.handleRequestVoteReply args reply) ∧ StartsAtEnd (rf.handleRequestVoteReply args reply) ∨
      StaysLeader rf (rf.handleRequestVoteReply args reply) := by
  rcases handleRequestVoteReply_cases rf args reply with
    ⟨_, result⟩ | result | ⟨isCandidate, _, _, ⟨_, result⟩ | result⟩
  · rw [result] at isLeader
    cases isLeader
  · rw [result] at isLeader ⊢
    exact .inr (StaysLeader.refl isLeader)
  · rw [result]
    exact .inl ⟨⟨isCandidate, rfl, rfl⟩, fun _ => rfl⟩
  · rw [result] at isLeader
    cases isCandidate.symm.trans isLeader

/-- The index that `handleLogInconsistency` lets the leader try next. -/
def retryIndex (rf : Raft n Command) (peer : Fin n) (reply : AppendEntriesReply) : Int :=
  if reply.xTerm = -1 then
    if reply.xIndex ≤ rf.matchIndex peer then rf.matchIndex peer + 1 else reply.xIndex
  else rf.conflictTarget reply.xTerm reply.xIndex (rf.log.length - 1)

theorem handleLogInconsistency_eq (rf : Raft n Command) (peer : Fin n) (reply : AppendEntriesReply) :
    rf.handleLogInconsistency peer reply =
      { rf with nextIndex := Function.update rf.nextIndex peer (rf.retryIndex peer reply) } := by
  unfold handleLogInconsistency retryIndex
  split <;> rfl

/-- A reply to `AppendEntries` makes the server step down, or moves its indices: those of the peer
to the last entry that was sent, or only the next one to try. -/
theorem handleAppendEntriesReply_cases (rf : Raft n Command) (peer : Fin n) (args : AppendEntriesArgs n Command)
    (reply : AppendEntriesReply) :
    (rf.currentTerm < reply.term ∧ rf.handleAppendEntriesReply peer args reply = rf.followerState reply.term) ∨
    ∃ nextIndex matchIndex commitIndex,
      rf.handleAppendEntriesReply peer args reply = { rf with nextIndex, matchIndex, commitIndex } ∧
      (∀ j, j ≠ peer → matchIndex j = rf.matchIndex j ∧ nextIndex j = rf.nextIndex j) ∧
      ((matchIndex peer = rf.matchIndex peer ∧ nextIndex peer = rf.nextIndex peer) ∨
        rf.state = .leader ∧ rf.currentTerm = args.term ∧ reply.term ≤ rf.currentTerm ∧
          (reply.success = true ∧ matchIndex peer = args.prevLogIndex + args.entries.length ∧
              nextIndex peer = matchIndex peer + 1 ∨
            reply.success = false ∧ reply.logInconsistency = true ∧ matchIndex peer = rf.matchIndex peer ∧
              nextIndex peer = rf.retryIndex peer reply)) := by
  unfold handleAppendEntriesReply
  split
  · exact .inl ⟨‹_›, rfl⟩
  rename_i notLater
  right
  split
  · exact ⟨_, _, _, rfl, fun _ _ => ⟨rfl, rfl⟩, .inl ⟨rfl, rfl⟩⟩
  rename_i leading
  obtain ⟨isLeader, sameTerm⟩ := not_or.mp leading
  rw [not_not] at isLeader sameTerm
  dsimp only
  split
  · rename_i success
    exact ⟨_, _, _, rfl, fun j different => ⟨Function.update_of_ne different .., Function.update_of_ne different ..⟩,
      .inr ⟨isLeader, sameTerm, Nat.not_lt.mp notLater, .inl ⟨success, Function.update_self .., by simp⟩⟩⟩
  rename_i refused
  split
  · rename_i inconsistent
    rw [handleLogInconsistency_eq]
    exact ⟨_, _, _, rfl, fun j different => ⟨rfl, Function.update_of_ne different ..⟩, .inr ⟨isLeader, sameTerm,
      Nat.not_lt.mp notLater, .inr ⟨by simpa using refused, inconsistent, rfl, Function.update_self ..⟩⟩⟩
  · exact ⟨_, _, _, rfl, fun _ _ => ⟨rfl, rfl⟩, .inl ⟨rfl, rfl⟩⟩

/-- A reply to `InstallSnapshot` makes the server step down, or moves its indices. -/
theorem handleInstallSnapshotReply_cases (rf : Raft n Command) (peer : Fin n) (args : InstallSnapshotArgs n Command)
    (reply : InstallSnapshotReply) :
    (rf.currentTerm < reply.term ∧ rf.handleInstallSnapshotReply peer args reply = rf.followerState reply.term) ∨
    ∃ nextIndex matchIndex commitIndex,
      rf.handleInstallSnapshotReply peer args reply = { rf with nextIndex, matchIndex, commitIndex } ∧
      (∀ j, j ≠ peer → matchIndex j = rf.matchIndex j ∧ nextIndex j = rf.nextIndex j) ∧
      ((matchIndex peer = rf.matchIndex peer ∧ nextIndex peer = rf.nextIndex peer) ∨
        (rf.state = .leader ∧ reply.term = rf.currentTerm ∧ rf.matchIndex peer ≤ args.lastIncludedIndex ∧
          matchIndex peer = args.lastIncludedIndex ∧ nextIndex peer = matchIndex peer + 1)) := by
  unfold handleInstallSnapshotReply
  split
  · exact .inl ⟨‹_›, rfl⟩
  right
  split
  · exact ⟨_, _, _, rfl, fun _ _ => ⟨rfl, rfl⟩, .inl ⟨rfl, rfl⟩⟩
  rename_i leading
  have isLeader : rf.state = .leader := not_not.mp leading
  dsimp only
  split
  · rename_i taken
    exact ⟨_, _, _, rfl, fun j different => ⟨Function.update_of_ne different .., Function.update_of_ne different ..⟩,
      .inr ⟨isLeader, taken.1, taken.2, Function.update_self .., by simp⟩⟩
  · exact ⟨_, _, _, rfl, fun _ _ => ⟨rfl, rfl⟩, .inl ⟨rfl, rfl⟩⟩

variable [Inhabited Command] {cluster next : Cluster n Command} {state : State (Fin n) (LogEntry Command)}
  {server : Fin n} {action : Action n Command}

/-- An `AppendEntries` request of the leader's own term would be its own. -/
theorem Simulates.appendEntries_leader (simulates : Simulates cluster state) {args : AppendEntriesArgs n Command}
    {caller : Fin n} {log : List (LogEntry Command)} (leads : state.leader args.term = some (caller, log))
    (different : caller ≠ server) (isLeader : ((cluster.node server).raft.appendEntries args).1.state = .leader) :
    StaysLeader (cluster.node server).raft ((cluster.node server).raft.appendEntries args).1 := by
  have node := simulates.node server
  have observed := (observeLeader_sameLog (cluster.node server).raft args.term).compacted node.log.compacted
  rcases appendEntries_cases _ args observed with ⟨reply, result, -⟩ | ⟨notLater, prev, -, -, -, -, result⟩
  · rw [result] at isLeader ⊢
    have same : (cluster.node server).raft.observeLeader args.term = (cluster.node server).raft :=
      observeLeader_leader isLeader
    rw [same] at isLeader ⊢
    exact StaysLeader.refl isLeader
  · rw [result, storeEntries_eq] at isLeader
    have same : (cluster.node server).raft.observeLeader args.term = (cluster.node server).raft :=
      observeLeader_leader isLeader
    rw [same] at isLeader notLater
    have atLeast := observeLeader_term (cluster.node server).raft args.term
    rw [same] at atLeast
    have own := node.role.leads isLeader
    rw [le_antisymm notLater atLeast, leads] at own
    cases own
    exact absurd rfl different

theorem Simulates.condInstallSnapshot_leader (simulates : Simulates cluster state) {snapshot : Snapshot Command}
    {snapshotTerm snapshotIndex : Nat}
    (installing : (cluster.node server).service.installing = some (snapshot, snapshotTerm, snapshotIndex))
    (isLeader : (cluster.node server).raft.state = .leader) :
    StaysLeader (cluster.node server).raft
      ((cluster.node server).raft.condInstallSnapshot snapshotTerm snapshotIndex snapshot).2 := by
  have node := simulates.node server
  by_cases newer : (cluster.node server).raft.commitIndex < snapshotIndex
  · have snapshotted := node.service.installing _ _ _ installing
    have covered := simulates.invariant.log_covered server
    rw [node.log.log] at covered
    obtain ⟨log, result, -, newFull⟩ := node.log.compacted.condInstallSnapshot_eq covered
      (snapshotted.committed.covered simulates.invariant) snapshotted.length snapshotted.lastTerm
      (node.log.retained.trans node.log.applied) newer
    have contained := snapshotted.committed.in_leader simulates.invariant le_rfl (node.role.leads isLeader)
    rw [result]
    refine ⟨isLeader, rfl, ?_⟩
    rw [Replication.overlay_eq_self contained] at newFull
    exact newFull
  · rw [condInstallSnapshot_of_le (by omega)]
    exact StaysLeader.refl isLeader

theorem Simulates.section_leader (simulates : Simulates cluster state) {rf : Raft n Command}
    (acts : Section cluster server action rf) (notStart : ∀ command, action ≠ .start server command)
    (isLeader : rf.state = .leader) :
    Elected (cluster.node server).raft rf ∧ StartsAtEnd rf ∨ StaysLeader (cluster.node server).raft rf := by
  have node := simulates.node server
  cases acts with
  | none => exact .inr (StaysLeader.refl isLeader)
  | candidateState => cases isLeader
  | leaderAppendEntries peer =>
    obtain ⟨⟨nextIndex, matchIndex, -, result⟩, -⟩ := node.log.compacted.leaderAppendEntries_cases peer
    rw [result] at isLeader ⊢
    exact .inr ⟨isLeader, rfl, rfl⟩
  | requestVote id call args => exact .inr (requestVote_leader isLeader)
  | appendEntries id call args located callee request =>
    obtain ⟨different, content⟩ := simulates.call _ (List.mem_of_getElem? located)
    simp only [request] at content
    obtain ⟨⟨leaderLog, leads, -⟩, -⟩ := content
    exact .inr (simulates.appendEntries_leader leads (callee ▸ different) isLeader)
  | installSnapshot id call args =>
    rcases installSnapshot_cases (cluster.node server).raft args with ⟨reply, result⟩ | ⟨-, reply, message, result, -⟩
    · rw [result] at isLeader ⊢
      exact .inr (StaysLeader.refl isLeader)
    · rw [result] at isLeader ⊢
      have same : (cluster.node server).raft.observeCandidate args.term = (cluster.node server).raft :=
        observeCandidate_leader isLeader
      simp only [same] at isLeader ⊢
      exact .inr (StaysLeader.refl isLeader)
  | requestVoteReply id call args reply => exact handleRequestVoteReply_leader isLeader
  | appendEntriesReply id call args reply =>
    rcases handleAppendEntriesReply_cases (cluster.node server).raft call.callee args reply with
      ⟨-, result⟩ | ⟨nextIndex, matchIndex, commitIndex, result, -⟩
    · rw [result] at isLeader
      cases isLeader
    · rw [result] at isLeader ⊢
      exact .inr ⟨isLeader, rfl, rfl⟩
  | installSnapshotReply id call args reply =>
    rcases handleInstallSnapshotReply_cases (cluster.node server).raft call.callee args reply with
      ⟨-, result⟩ | ⟨nextIndex, matchIndex, commitIndex, result, -⟩
    · rw [result] at isLeader
      cases isLeader
    · rw [result] at isLeader ⊢
      exact .inr ⟨isLeader, rfl, rfl⟩
  | start command => exact absurd rfl (notStart command)
  | finishApply commitIndex =>
    unfold finishApply at isLeader ⊢
    split at isLeader <;> rename_i later
    · rw [if_pos later]
      exact .inr ⟨isLeader, rfl, rfl⟩
    · rw [if_neg later]
      exact .inr (StaysLeader.refl isLeader)
  | condInstallSnapshot snapshot snapshotTerm snapshotIndex installing =>
    refine .inr (simulates.condInstallSnapshot_leader installing ?_)
    unfold condInstallSnapshot at isLeader
    split at isLeader <;> exact isLeader
  | snapshot index applied =>
    by_cases newer : (cluster.node server).raft.lastIncludedIndex < index
    · have inLog := (applied.trans node.service.committed).trans node.log.commitIndex
      rw [node.log.compacted.snapshot_eq _ newer inLog] at isLeader ⊢
      exact .inr ⟨isLeader, rfl, List.take_append_drop _ _⟩
    · rw [snapshot_of_le (by omega)] at isLeader ⊢
      exact .inr (StaysLeader.refl isLeader)
  | restart =>
    rw [make_state] at isLeader
    cases isLeader

/-- `Start` on a leader appends its command under the leader's term. -/
theorem Compacted.start_fullLog {rf : Raft n Command} (compacted : Compacted rf) (isLeader : rf.state = .leader)
    (command : Command) :
    (rf.start command).2.fullLog = rf.fullLog ++ madeEntries rf.currentTerm rf.fullLog.length [command] := by
  have length := compacted.fullLog_length
  have tail : ∀ entry, (rf.log ++ [entry]).tail = rf.log.tail ++ [entry] := by
    intro entry
    rw [compacted.log_eq]
    rfl
  unfold Raft.start
  rw [if_neg (not_not.mpr isLeader), ← length]
  simp only [fullLog, persist, tail, List.append_assoc]
  rfl

/-- A leader after a step: elected just now, or its log has grown by what it has started itself. -/
theorem Simulates.leader_step (simulates : Simulates cluster state) (step : cluster.step action = some next)
    (isLeader : (next.node server).raft.state = .leader) :
    (Elected (cluster.node server).raft (next.node server).raft ∧ StartsAtEnd (next.node server).raft) ∨
    ((cluster.node server).raft.state = .leader ∧
      (next.node server).raft.currentTerm = (cluster.node server).raft.currentTerm ∧
      (next.node server).raft.fullLog = (cluster.node server).raft.fullLog ++
        madeEntries (cluster.node server).raft.currentTerm (cluster.node server).raft.fullLog.length
          (Cluster.startedOn server [action])) := by
  by_cases starts : ∃ command, action = .start server command
  · obtain ⟨command, rfl⟩ := starts
    have started : (next.node server).raft = ((cluster.node server).raft.start command).2 := by
      simp only [Cluster.step, Cluster.start] at step
      split at step <;> rename_i result <;> cases step <;> simp [Cluster.setRaft, Cluster.setNode, result]
    rw [started] at isLeader ⊢
    have leads : (cluster.node server).raft.state = .leader := by
      unfold Raft.start at isLeader
      split at isLeader <;> exact isLeader
    rw [(simulates.node server).log.compacted.start_fullLog leads, Cluster.startedOn_self]
    refine .inr ⟨leads, ?_, rfl⟩
    simp [Raft.start, leads, persist]
  · have notStart : ∀ command, action ≠ .start server command := fun command same => starts ⟨command, same⟩
    rw [Cluster.startedOn_other notStart]
    rcases simulates.section_leader (Cluster.step_section step server) notStart isLeader with elected | stays
    · exact .inl elected
    · exact .inr ⟨stays.leader, stays.currentTerm, by simp [stays.fullLog, madeEntries]⟩

/-! ## Leader append-only -/

/-- Between two moments at which a server leads the same term, its full log grows by its own
`Start` calls in between and does not change otherwise. -/
theorem leader_append_only {earlier later : Cluster n Command} {actions : List (Action n Command)}
    (reachable : Cluster.Reachable earlier) (run : earlier.run actions = some later) {server : Fin n}
    (leads : (earlier.node server).raft.state = .leader) (stillLeads : (later.node server).raft.state = .leader)
    (sameTerm : (later.node server).raft.currentTerm = (earlier.node server).raft.currentTerm) :
    let before := (earlier.node server).raft
    let after := (later.node server).raft
    after.fullLog = before.fullLog ++
      madeEntries before.currentTerm before.fullLog.length (Cluster.startedOn server actions) ∧
    -- the commands, as the snapshot's data and the retained entries show them
    after.persister.snapshot.data ++ after.log.tail.map LogEntry.command =
      before.persister.snapshot.data ++ before.log.tail.map LogEntry.command ++
        Cluster.startedOn server actions := by
  intro before after
  obtain ⟨state, -, simulates⟩ := reachable_simulates reachable
  have grown : (later.node server).raft.state = .leader →
      (later.node server).raft.currentTerm = before.currentTerm →
      (later.node server).raft.fullLog = before.fullLog ++
        madeEntries before.currentTerm before.fullLog.length (Cluster.startedOn server actions) := by
    refine Cluster.run_induction run ?_ ?_
    · intro _ _
      simp [before, Cluster.startedOn, madeEntries]
    · intro actions middle next action ran grown step nextLeads nextTerm
      obtain ⟨middleState, moves, middleSimulates⟩ := simulates.run ⟨actions, ran⟩
      rcases middleSimulates.leader_step step nextLeads with ⟨elected, -⟩ | ⟨middleLeads, middleTerm, appended⟩
      · -- the server already leads the term, so it cannot be elected in it again
        obtain ⟨-, extended⟩ := Replication.run_invariant simulates.invariant moves
        obtain ⟨longer, leadsStill, -⟩ := extended.leader _ _ _ ((simulates.node server).role.leads leads)
        have term : (middle.node server).raft.currentTerm = before.currentTerm :=
          elected.currentTerm.symm.trans nextTerm
        rw [← term] at leadsStill
        exact absurd leadsStill ((middleSimulates.node server).role.notElected elected.candidate longer)
      · have term : (middle.node server).raft.currentTerm = before.currentTerm := middleTerm.symm.trans nextTerm
        rw [appended, term, grown middleLeads term, Cluster.startedOn_append, madeEntries_append,
          List.append_assoc, List.length_append, madeEntries_length]
  refine ⟨grown stillLeads sameTerm, ?_⟩
  obtain ⟨laterState, -, laterSimulates⟩ := reachable_simulates (reachable.trans ⟨actions, run⟩)
  have commands := congrArg (List.map LogEntry.command) (grown stillLeads sameTerm)
  rw [List.map_append, madeEntries_command, fullLog, fullLog, List.map_append, List.map_append,
    ← (simulates.node server).log.snapshot.data, ← (laterSimulates.node server).log.snapshot.data] at commands
  exact commands

/-- The leader of term 1 starts two commands and takes a snapshot of the first. -/
theorem leader_append_only_elected :
    let actions : List (Action 2 Nat) := [.start 0 7, .replicate 0 1, .handle 1, .deliver 1, .takeBatch 0,
      .sendCommand 0, .snapshot 0 1, .start 0 8]
    ((elected.after actions).node 0).raft.lastIncludedIndex = 1 ∧
    ((elected.after actions).node 0).raft.fullLog = [⟨1, 7, 1⟩, ⟨1, 8, 2⟩] := by
  intro actions
  have run : elected.run actions = some (elected.after actions) := Cluster.run_eq_some_after (by decide)
  have leads : (elected.node 0).raft.state = .leader := by decide
  have grown := (leader_append_only reachable_elected run leads (by decide) (by decide)).1
  refine ⟨by decide, grown.trans ?_⟩
  decide

end ShardedKV.Raft
