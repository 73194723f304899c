import ShardedKV.Raft.Safety

/-!
# What one step does to one server

Every step of a cluster is, for the Raft object of each server, one critical section of `rf.mu`,
a restart, or nothing.  The properties of whole runs in the following modules are proved by cases
on the section, so that none of them unfolds the steps of a cluster again.
-/

namespace ShardedKV.Raft

open Cluster (Action)

variable {n : Nat} {Command : Type} [Inhabited Command] {cluster next : Cluster n Command} {server : Fin n}
  {action : Action n Command}

/-- What a handler makes of the server and what it replies. -/
def handleRequest (rf : Raft n Command) : Request n Command → Raft n Command × Reply
  | .requestVote args => ((rf.requestVote args).1, .requestVote (rf.requestVote args).2)
  | .appendEntries args => ((rf.appendEntries args).1, .appendEntries (rf.appendEntries args).2)
  | .installSnapshot args => ((rf.installSnapshot args).1, .installSnapshot (rf.installSnapshot args).2.1)

theorem Cluster.step_handle {id : Nat} (step : cluster.step (.handle id) = some next) :
    ∃ call, cluster.calls[id]? = some call ∧
      (next.node call.callee).raft = ((cluster.node call.callee).raft.handleRequest call.request).1 ∧
      (∀ server, server ≠ call.callee → next.node server = cluster.node server) ∧
      next.calls = cluster.calls.set id
        { call with reply := some ((cluster.node call.callee).raft.handleRequest call.request).2 } := by
  simp only [Cluster.step, Cluster.handle] at step
  split at step
  · cases step
  rename_i call located
  split at step
  · cases step
  refine ⟨call, located, ?_⟩
  split at step <;> rename_i request <;> cases step
  all_goals
    simp only [request, handleRequest, Cluster.setRaft, Cluster.setNode, Function.update_self, true_and, and_true]
    exact fun server different => Function.update_of_ne different ..

/-- The Raft object of a server after an action, by the critical section that made it. -/
inductive Section (cluster : Cluster n Command) (server : Fin n) : Action n Command → Raft n Command → Prop where
  | none (action : Action n Command) : Section cluster server action (cluster.node server).raft
  | candidateState (notLeader : (cluster.node server).raft.state ≠ .leader) :
      Section cluster server (.electionTimeout server) (cluster.node server).raft.candidateState
  | leaderAppendEntries (peer : Fin n) (different : server ≠ peer) :
      Section cluster server (.replicate server peer) ((cluster.node server).raft.leaderAppendEntries peer).1
  | requestVote (id : Nat) (call : Call n Command) (args : RequestVoteArgs n)
      (located : cluster.calls[id]? = some call) (callee : call.callee = server)
      (request : call.request = .requestVote args) :
      Section cluster server (.handle id) ((cluster.node server).raft.requestVote args).1
  | appendEntries (id : Nat) (call : Call n Command) (args : AppendEntriesArgs n Command)
      (located : cluster.calls[id]? = some call) (callee : call.callee = server)
      (request : call.request = .appendEntries args) :
      Section cluster server (.handle id) ((cluster.node server).raft.appendEntries args).1
  | installSnapshot (id : Nat) (call : Call n Command) (args : InstallSnapshotArgs n Command)
      (located : cluster.calls[id]? = some call) (callee : call.callee = server)
      (request : call.request = .installSnapshot args) :
      Section cluster server (.handle id) ((cluster.node server).raft.installSnapshot args).1
  | requestVoteReply (id : Nat) (call : Call n Command) (args : RequestVoteArgs n) (reply : RequestVoteReply)
      (located : cluster.calls[id]? = some call) (caller : call.caller = server)
      (request : call.request = .requestVote args) (replied : call.reply = some (.requestVote reply)) :
      Section cluster server (.deliver id) ((cluster.node server).raft.handleRequestVoteReply args reply)
  | appendEntriesReply (id : Nat) (call : Call n Command) (args : AppendEntriesArgs n Command)
      (reply : AppendEntriesReply)
      (located : cluster.calls[id]? = some call) (caller : call.caller = server)
      (request : call.request = .appendEntries args) (replied : call.reply = some (.appendEntries reply)) :
      Section cluster server (.deliver id)
        ((cluster.node server).raft.handleAppendEntriesReply call.callee args reply)
  | installSnapshotReply (id : Nat) (call : Call n Command) (args : InstallSnapshotArgs n Command)
      (reply : InstallSnapshotReply)
      (located : cluster.calls[id]? = some call) (caller : call.caller = server)
      (request : call.request = .installSnapshot args) (replied : call.reply = some (.installSnapshot reply)) :
      Section cluster server (.deliver id)
        ((cluster.node server).raft.handleInstallSnapshotReply call.callee args reply)
  | start (command : Command) :
      Section cluster server (.start server command) ((cluster.node server).raft.start command).2
  | finishApply (commitIndex : Nat) (sent : (cluster.node server).batch = some ([], commitIndex)) :
      Section cluster server (.finishBatch server) ((cluster.node server).raft.finishApply commitIndex)
  | condInstallSnapshot (snapshot : Snapshot Command) (snapshotTerm snapshotIndex : Nat)
      (installing : (cluster.node server).service.installing = some (snapshot, snapshotTerm, snapshotIndex)) :
      Section cluster server (.install server)
        ((cluster.node server).raft.condInstallSnapshot snapshotTerm snapshotIndex snapshot).2
  | snapshot (index : Nat) (applied : index ≤ (cluster.node server).service.applied.length) :
      Section cluster server (.snapshot server index)
        ((cluster.node server).raft.snapshot index ((cluster.node server).service.applied.take index))
  | restart :
      Section cluster server (.restart server) (make server (cluster.node server).raft.persister)

namespace Section

theorem of_setNode {actor : Fin n} {node : Node n Command} (acts : Section cluster actor action node.raft) :
    Section cluster server action ((cluster.setNode actor node).node server).raft := by
  by_cases same : server = actor
  · subst same
    simpa only [Cluster.setNode, Function.update_self] using acts
  · simpa only [Cluster.setNode, Function.update_of_ne same] using Section.none action

theorem of_setRaft {actor : Fin n} {rf : Raft n Command} (acts : Section cluster actor action rf) :
    Section cluster server action ((cluster.setRaft actor rf).node server).raft := by
  unfold Cluster.setRaft
  exact of_setNode acts

end Section

theorem Cluster.step_section (step : cluster.step action = some next) (server : Fin n) :
    Section cluster server action (next.node server).raft := by
  cases action with
  | electionTimeout actor =>
    simp only [Cluster.step, Cluster.electionTimeout] at step
    split at step
    · cases step
    · rename_i notLeader
      cases step
      exact Section.of_setRaft (.candidateState notLeader)
  | replicate actor peer =>
    simp only [Cluster.step, Cluster.replicate] at step
    split at step
    · cases step
    · rename_i different
      have acts : Section cluster actor (.replicate actor peer)
          ((cluster.node actor).raft.leaderAppendEntries peer).1 := .leaderAppendEntries peer different
      revert acts
      split at step <;> rename_i result <;> rw [result] <;> cases step <;> exact Section.of_setRaft
  | handle id =>
    obtain ⟨call, located, handled, others, -⟩ := Cluster.step_handle step
    by_cases same : server = call.callee
    · subst same
      rw [handled]
      cases request : call.request with
      | requestVote args => exact .requestVote id call args located rfl request
      | appendEntries args => exact .appendEntries id call args located rfl request
      | installSnapshot args => exact .installSnapshot id call args located rfl request
    · rw [others server same]
      exact .none _
  | deliver id =>
    simp only [Cluster.step, Cluster.deliver] at step
    split at step
    · cases step
    rename_i call located
    split at step
    · cases step
    split at step
    · rename_i args reply request replied
      cases step
      exact Section.of_setRaft (.requestVoteReply id call args reply located rfl request replied)
    · rename_i args reply request replied
      cases step
      exact Section.of_setRaft (.appendEntriesReply id call args reply located rfl request replied)
    · rename_i args reply request replied
      cases step
      exact Section.of_setRaft (.installSnapshotReply id call args reply located rfl request replied)
    · cases step
  | fail id =>
    simp only [Cluster.step, Cluster.fail] at step
    repeat' split at step
    all_goals cases step <;> exact .none _
  | start actor command =>
    simp only [Cluster.step, Cluster.start] at step
    have acts : Section cluster actor (.start actor command) ((cluster.node actor).raft.start command).2 :=
      .start command
    revert acts
    split at step <;> rename_i result <;> rw [result] <;> cases step <;> exact Section.of_setRaft
  | takeBatch actor =>
    simp only [Cluster.step, Cluster.takeBatch] at step
    split at step
    · cases step
      exact Section.of_setNode (.none _)
    · cases step
  | sendCommand actor =>
    simp only [Cluster.step, Cluster.sendCommand] at step
    split at step
    · cases step
      exact Section.of_setNode (.none _)
    · cases step
  | finishBatch actor =>
    simp only [Cluster.step, Cluster.finishBatch] at step
    split at step
    · rename_i commitIndex sent
      cases step
      exact Section.of_setNode (.finishApply commitIndex sent)
    · cases step
  | sendSnapshot actor position =>
    simp only [Cluster.step, Cluster.sendSnapshot] at step
    split at step
    · cases step
      exact Section.of_setNode (.none _)
    · cases step
  | install actor =>
    simp only [Cluster.step, Cluster.install] at step
    split at step
    · cases step
    · rename_i snapshot snapshotTerm snapshotIndex installing
      cases step
      exact Section.of_setNode (.condInstallSnapshot snapshot snapshotTerm snapshotIndex installing)
  | snapshot actor index =>
    simp only [Cluster.step, Cluster.snapshot] at step
    split at step
    · rename_i applied
      cases step
      exact Section.of_setRaft (.snapshot index applied)
    · cases step
  | restart actor =>
    simp only [Cluster.step, Option.some.injEq] at step
    subst step
    exact Section.of_setNode .restart

theorem Cluster.step_incarnation (step : cluster.step action = some next) (server : Fin n) :
    ((next.node server).incarnation = (cluster.node server).incarnation) ∨
      action = .restart server ∧ (next.node server).incarnation = (cluster.node server).incarnation + 1 := by
  have others : ∀ {actor : Fin n} {node : Node n Command},
      node.incarnation = (cluster.node actor).incarnation →
      ((cluster.setNode actor node).node server).incarnation = (cluster.node server).incarnation := by
    intro actor node same
    by_cases equal : server = actor
    · subst equal
      simpa only [Cluster.setNode, Function.update_self] using same
    · simp only [Cluster.setNode, Function.update_of_ne equal]
  cases action with
  | restart actor =>
    simp only [Cluster.step, Option.some.injEq] at step
    subst step
    by_cases equal : server = actor
    · subst equal
      right
      simp [Cluster.restart, Cluster.setNode, Node.boot]
    · left
      simp [Cluster.restart, Cluster.setNode, Function.update_of_ne equal]
  | _ =>
    left
    simp only [Cluster.step, Cluster.electionTimeout, Cluster.replicate, Cluster.handle, Cluster.deliver,
      Cluster.fail, Cluster.start, Cluster.takeBatch, Cluster.sendCommand, Cluster.finishBatch,
      Cluster.sendSnapshot, Cluster.install, Cluster.snapshot] at step
    repeat' split at step
    all_goals cases step <;> first | rfl | exact others rfl

/-! ## Where calls come from -/

/-- A call, by the step after which it is there in this form. -/
inductive CallSource (cluster next : Cluster n Command) (call : Call n Command) : Prop where
  | kept (old : Call n Command) (member : old ∈ cluster.calls) (caller : call.caller = old.caller)
      (callee : call.callee = old.callee) (request : call.request = old.request) (reply : call.reply = old.reply)
  | votes (args : RequestVoteArgs n) (request : call.request = .requestVote args) (unanswered : call.reply = none)
  | entries (args : AppendEntriesArgs n Command) (request : call.request = .appendEntries args)
      (unanswered : call.reply = none)
      (sent : ((cluster.node call.caller).raft.leaderAppendEntries call.callee).2 = .appendEntries args)
  | snapshot (args : InstallSnapshotArgs n Command) (request : call.request = .installSnapshot args)
      (unanswered : call.reply = none)
      (sent : ((cluster.node call.caller).raft.leaderAppendEntries call.callee).2 = .installSnapshot args)
  | answered (old : Call n Command) (member : old ∈ cluster.calls) (caller : call.caller = old.caller)
      (callee : call.callee = old.callee) (request : call.request = old.request)
      (reply : call.reply = some ((cluster.node call.callee).raft.handleRequest call.request).2)
      (raft : (next.node call.callee).raft = ((cluster.node call.callee).raft.handleRequest call.request).1)

theorem Cluster.step_calls (step : cluster.step action = some next) {call : Call n Command}
    (member : call ∈ next.calls) : CallSource cluster next call := by
  have unchanged : call ∈ cluster.calls → CallSource cluster next call :=
    fun old => .kept call old rfl rfl rfl rfl
  -- a call that returns keeps its reply
  have returns : ∀ {id : Nat} {old : Call n Command}, cluster.calls[id]? = some old →
      call ∈ cluster.calls.set id { old with returned := true } → CallSource cluster next call := by
    intro id old located inCalls
    rcases List.mem_or_eq_of_mem_set inCalls with other | rfl
    · exact unchanged other
    · exact .kept old (List.mem_of_getElem? located) rfl rfl rfl rfl
  cases action with
  | electionTimeout actor =>
    simp only [Cluster.step, Cluster.electionTimeout] at step
    split at step
    · cases step
    cases step
    rcases List.mem_append.mp member with old | new
    · exact unchanged old
    · obtain ⟨peer, -, rfl⟩ := List.mem_map.mp new
      exact .votes _ rfl rfl
  | replicate actor peer =>
    simp only [Cluster.step, Cluster.replicate] at step
    split at step
    · cases step
    split at step <;> rename_i result <;> cases step
    · rcases List.mem_append.mp member with old | new
      · exact unchanged old
      · cases List.mem_singleton.mp new
        exact .entries _ rfl rfl (by simp [Cluster.call, result])
    · rcases List.mem_append.mp member with old | new
      · exact unchanged old
      · cases List.mem_singleton.mp new
        exact .snapshot _ rfl rfl (by simp [Cluster.call, result])
    · exact unchanged member
  | handle id =>
    obtain ⟨old, located, handled, -, calls⟩ := Cluster.step_handle step
    rw [calls] at member
    rcases List.mem_or_eq_of_mem_set member with other | rfl
    · exact unchanged other
    · exact .answered old (List.mem_of_getElem? located) rfl rfl rfl rfl handled
  | deliver id =>
    simp only [Cluster.step, Cluster.deliver] at step
    split at step
    · cases step
    rename_i old located
    split at step
    · cases step
    split at step <;> cases step <;> exact returns located member
  | fail id =>
    simp only [Cluster.step, Cluster.fail] at step
    split at step
    · cases step
    rename_i old located
    split at step
    · cases step
    split at step
    · rename_i args request
      split at step <;> cases step
      · rcases List.mem_append.mp member with before | new
        · exact returns located before
        · cases List.mem_singleton.mp new
          exact .votes args request rfl
      · exact returns located member
    · cases step
      exact returns located member
  | _ =>
    simp only [Cluster.step, Cluster.start, Cluster.takeBatch, Cluster.sendCommand, Cluster.finishBatch,
      Cluster.sendSnapshot, Cluster.install, Cluster.snapshot] at step
    repeat' split at step
    all_goals cases step <;> exact unchanged member

/-! ## Runs, one step at a time -/

theorem Cluster.initial_state (server : Fin n) :
    ((Cluster.initial : Cluster n Command).node server).raft.state = .follower := rfl

/-- What holds at the start of a run and is kept by each of its steps holds at its end. -/
@[elab_as_elim]
theorem Cluster.run_induction {kept : List (Action n Command) → Cluster n Command → Prop}
    {before after : Cluster n Command} {actions : List (Action n Command)} (run : before.run actions = some after)
    (start : kept [] before)
    (step : ∀ actions middle next action, before.run actions = some middle → kept actions middle →
      middle.step action = some next → kept (actions ++ [action]) next) : kept actions after := by
  induction actions using List.reverseRecOn generalizing after with
  | nil =>
    cases run
    exact start
  | append_singleton actions action inductionHypothesis =>
    rw [Cluster.run_append, Option.bind_eq_some_iff] at run
    obtain ⟨middle, earlier, last⟩ := run
    rw [Cluster.run, Option.bind_eq_some_iff] at last
    obtain ⟨next, stepped, ending⟩ := last
    cases ending
    exact step actions middle _ action earlier (inductionHypothesis earlier) stepped

@[elab_as_elim]
theorem Cluster.Steps.invariant {kept : Cluster n Command → Prop} {before after : Cluster n Command}
    (steps : Steps before after) (start : kept before)
    (step : ∀ middle next action, Steps before middle → kept middle → middle.step action = some next → kept next) :
    kept after := by
  obtain ⟨actions, run⟩ := steps
  exact Cluster.run_induction run start
    fun actions middle next action ran => step middle next action ⟨actions, ran⟩

/-- What an observer makes of a run, who sees each action with the state it is taken in. -/
def Cluster.observe {Value : Type} (see : Cluster n Command → Action n Command → Value → Value) :
    Cluster n Command → List (Action n Command) → Value → Value
  | _, [], value => value
  | cluster, action :: actions, value =>
    match cluster.step action with
    | none => value
    | some next => next.observe see actions (see cluster action value)

theorem Cluster.observe_append {Value : Type} (see : Cluster n Command → Action n Command → Value → Value)
    {before middle : Cluster n Command} {actions : List (Action n Command)} (value : Value)
    (run : before.run actions = some middle) (step : middle.step action = some next) :
    before.observe see (actions ++ [action]) value = see middle action (before.observe see actions value) := by
  induction actions generalizing before value with
  | nil =>
    cases run
    simp only [List.nil_append, Cluster.observe, step]
  | cons first actions inductionHypothesis =>
    rw [Cluster.run, Option.bind_eq_some_iff] at run
    obtain ⟨second, stepped, rest⟩ := run
    simp only [List.cons_append, Cluster.observe, stepped]
    exact inductionHypothesis _ rest

theorem Cluster.run_eq_some_after {cluster : Cluster n Command} {actions : List (Action n Command)}
    (possible : (cluster.run actions).isSome) : cluster.run actions = some (cluster.after actions) := by
  unfold Cluster.after
  cases ending : cluster.run actions with
  | none => simp [ending] at possible
  | some final => rfl

end ShardedKV.Raft
