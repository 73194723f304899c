import ShardedKV.Raft.AgreedLog

/-!
# Apply loops over a cluster

Above each server of a cluster a loop reads one message after the other from `applyCh` and handles it.
Between reading a command and handling it other goroutines run, so that a loop may be one command behind
what its server has handed out.  What the loops of a cluster read is one log, in order; a service keeps
of Raft no more than this.
-/

namespace ShardedKV.Raft

open Cluster (Action)
open Replication (State Extends)

variable {n : Nat} {Command : Type} [Inhabited Command] {cluster next : Cluster n Command}
  {state : State (Fin n) (LogEntry Command)} {server : Fin n} {action : Action n Command}
  {log : List Command}

/-- How far a loop is: the last command it has applied, the snapshot it has installed since it started
and the snapshot its persister holds. -/
structure Position where
  applied : Nat := 0
  included : Nat := 0
  stored : Nat := 0
deriving DecidableEq, Repr

/-- A loop and the server below it; `received` is the command the loop has read and not handled. -/
structure Following (node : Node n Command) (position : Position) (received : Option (Nat × Command)) : Prop where
  included : position.included = node.service.lastIncludedIndex
  stored : position.stored = node.raft.lastIncludedIndex
  kept : position.included ≤ position.stored
  retained : position.stored ≤ position.applied
  idle : received = none → position.applied = node.service.applied.length
  reading : ∀ commandIndex command, received = some (commandIndex, command) →
    (position.included < commandIndex ∧ commandIndex = position.applied + 1 ∧
      commandIndex = node.service.applied.length ∧ node.service.applied[position.applied]? = some command) ∨
    (0 < commandIndex ∧ commandIndex ≤ position.included ∧ position.applied = node.service.applied.length ∧
      node.service.applied[commandIndex - 1]? = some command)

/-- The loops of a cluster, and the log they read. -/
structure Feeds (state : State (Fin n) (LogEntry Command)) (cluster : Cluster n Command) (log : List Command)
    (position : Fin n → Position) (received : Fin n → Option (Nat × Command)) : Prop where
  simulates : Simulates cluster state
  agreed : Agreed state cluster log
  server : ∀ server, Following (cluster.node server) (position server) (received server)

omit [Inhabited Command] in
theorem Following.unseen {node after : Node n Command} {position : Position} {received : Option (Nat × Command)}
    (following : Following node position received) (unseen : Unseen node after) :
    Following after position received := by
  obtain ⟨included, stored, kept, retained, idle, reading⟩ := following
  constructor
  · rw [unseen.included, included]
  · rw [unseen.stored, stored]
  · exact kept
  · exact retained
  · rwa [unseen.applied]
  · rwa [unseen.applied]

theorem feeds_initial : Feeds Replication.initial (Cluster.initial : Cluster n Command) [] (fun _ => {})
    (fun _ => none) where
  simulates := simulates_initial
  agreed := agreed_initial
  server := fun _ => ⟨rfl, rfl, le_rfl, le_rfl, fun _ => rfl, by simp⟩

namespace Feeds

variable {position : Fin n → Position} {received : Fin n → Option (Nat × Command)}

variable (feeds : Feeds state cluster log position received)
include feeds

theorem follow (step : cluster.step action = some next) :
    ∃ after, Simulates next after ∧ Extends state after := by
  obtain ⟨after, ran, simulates⟩ := feeds.simulates.step step
  exact ⟨after, simulates, (Replication.run_invariant feeds.simulates.invariant ran).2⟩

theorem update {moved : Position} {message : Option (Nat × Command)} (self : Following (next.node server) moved message)
    (others : ∀ other, other ≠ server → Unseen (cluster.node other) (next.node other)) (other : Fin n) :
    Following (next.node other) (Function.update position server moved other)
      (Function.update received server message other) := by
  by_cases same : other = server
  · subst same
    simpa only [Function.update_self] using self
  · simpa only [Function.update_of_ne same] using (feeds.server other).unseen (others other same)

/-! ## Steps that the loops do not see -/

theorem unseen (unseen : action.unseen = true) (step : cluster.step action = some next) :
    (∃ after, Feeds after next log position received) ∧ next.started = cluster.started ∧
      next.taken = cluster.taken := by
  obtain ⟨after, simulates, extended⟩ := feeds.follow step
  obtain ⟨kept, started, taken⟩ := feeds.simulates.unseen_step unseen step
  refine ⟨⟨after, simulates, ?_, fun server => (feeds.server server).unseen (kept server)⟩, started, taken⟩
  refine feeds.agreed.step_unsent feeds.simulates step extended ?_
  rintro server rfl
  cases unseen

/-- `Start` records its command if it is called at a leader. -/
theorem start {command : Command} (started : cluster.start server command = some next) :
    (∃ after, Feeds after next log position received) ∧ next.taken = cluster.taken ∧
      ∀ index term other, (index, term, other) ∈ next.started →
        (index, term, other) ∈ cluster.started ∨
          other = command ∧ ((cluster.node server).raft.start command).1.isSome = true := by
  have step : cluster.step (.start server command) = some next := started
  obtain ⟨after, simulates, extended⟩ := feeds.follow step
  obtain ⟨-, taken⟩ := Cluster.step_recorded step
  have kept : ∀ server, Unseen (cluster.node server) (next.node server) := fun server =>
    feeds.simulates.step_unseen step rfl (by simp) (by simp)
  refine ⟨⟨after, simulates, feeds.agreed.step_unsent feeds.simulates step extended (by simp),
    fun server => (feeds.server server).unseen (kept server)⟩, taken (by simp), ?_⟩
  intro index term other member
  unfold Cluster.start at started
  split at started
  · rename_i outcome
    cases started
    rcases List.mem_append.mp member with old | new
    · exact .inl old
    · cases List.mem_singleton.mp new
      exact .inr ⟨rfl, by rw [outcome]; rfl⟩
  · cases started
    exact .inl member

/-! ## Commands -/

theorem receive (free : received server = none)
    {entry : LogEntry Command} {entries : List (LogEntry Command)} {commitIndex : Nat}
    (batch : (cluster.node server).batch = some (entry :: entries, commitIndex))
    (sent : cluster.sendCommand server = some next) :
    next.started = cluster.started ∧ next.taken = cluster.taken ∧
      (entry.index = log.length + 1 → ∃ index term, (index, term, entry.command) ∈ cluster.started) ∧ ∃ after,
      Feeds after next (if entry.index = log.length + 1 then log ++ [entry.command] else log) position
        (Function.update received server (some (entry.index, entry.command))) := by
  have step : cluster.step (.sendCommand server) = some next := sent
  obtain ⟨after, simulates, extended⟩ := feeds.follow step
  obtain ⟨started, taken⟩ := Cluster.step_recorded step
  have started := started (by simp)
  have following := feeds.server server
  have node := feeds.simulates.node server
  have within := node.service.included
  have caughtUp := following.idle free
  have stored : (next.node server).raft.lastIncludedIndex = (cluster.node server).raft.lastIncludedIndex :=
    feeds.simulates.lastIncludedIndex_eq step (by simp) (by simp)
  obtain ⟨included, outcome⟩ := feeds.simulates.sendCommand_received batch sent
  have self : Following (next.node server) (position server) (some (entry.index, entry.command)) := by
    refine ⟨following.included.trans included.symm, following.stored.trans stored.symm, following.kept,
      following.retained, by simp, ?_⟩
    rintro _ _ ⟨⟩
    rw [following.included, caughtUp]
    rcases outcome with ⟨uncovered, isNext, grown⟩ | ⟨covered, same⟩
    · rw [grown]
      exact .inl ⟨uncovered, isNext, by simp [isNext], List.getElem?_concat_length⟩
    · -- the entry was applied with the snapshot
      obtain ⟨-, first, -, located, isIndex, -⟩ := feeds.simulates.batch_entry batch
      rw [same]
      refine .inr ⟨by omega, covered, rfl, ?_⟩
      rw [node.service.applied, List.getElem?_map, List.getElem?_take_of_lt (by omega), isIndex, Nat.add_sub_cancel,
        located]
      rfl
  have servers := feeds.update self fun other different => feeds.simulates.step_unseen step
    (by simp [Cluster.delivery, Ne.symm different]) (by simp) (by simp)
  simp only [Function.update_eq_self] at servers
  rcases feeds.agreed.step feeds.simulates step extended with
    agreed | ⟨_, _, _, _, isSend, otherBatch, isLog, grown, agreed⟩
  · have onLog : entry.index ≠ log.length + 1 := by
      have applied := (agreed.applied server).length_le
      rcases outcome with ⟨-, isNext, grown⟩ | ⟨covered, same⟩
      · rw [grown, List.length_append, List.length_singleton] at applied
        omega
      · rw [same] at applied
        omega
    rw [if_neg onLog]
    exact ⟨started, taken (by simp), fun beyond => absurd beyond onLog, after, simulates, agreed, servers⟩
  · cases isSend
    rw [batch] at otherBatch
    cases otherBatch
    have beyond : entry.index = log.length + 1 := by
      rcases outcome with ⟨-, isNext, -⟩ | ⟨-, same⟩
      · rw [isNext, isLog]
      · rw [grown, isLog] at same
        exact absurd (congrArg List.length same) (by simp)
    rw [if_pos beyond]
    obtain ⟨index, term, known⟩ := agreed.started simulates (List.mem_append_right _ (List.mem_singleton_self _))
    exact ⟨started, taken (by simp), fun _ => ⟨index, term, started ▸ known⟩, after, simulates, agreed, servers⟩

theorem on_log {index : Nat} {command : Command}
    (located : (cluster.node server).service.applied[index]? = some command) : log[index]? = some command := by
  obtain ⟨rest, isLog⟩ := feeds.agreed.applied server
  rw [← isLog, List.getElem?_append_left (List.getElem?_eq_some_iff.mp located).1, located]

/-- A command that a loop has read is the next one of the log, or one that the installed snapshot covers. -/
theorem reading {commandIndex : Nat} {command : Command} (isReading : received server = some (commandIndex, command)) :
    ((position server).included < commandIndex ∧ commandIndex = (position server).applied + 1 ∧
      log[(position server).applied]? = some command) ∨
    (0 < commandIndex ∧ commandIndex ≤ (position server).included ∧ log[commandIndex - 1]? = some command) := by
  rcases (feeds.server server).reading _ _ isReading with
    ⟨uncovered, isNext, -, located⟩ | ⟨positive, covered, -, located⟩
  · exact .inl ⟨uncovered, isNext, feeds.on_log located⟩
  · exact .inr ⟨positive, covered, feeds.on_log located⟩

theorem handle {commandIndex : Nat} {command : Command} (isReading : received server = some (commandIndex, command))
    (uncovered : (position server).included < commandIndex) :
    Feeds state cluster log
      (Function.update position server { position server with applied := (position server).applied + 1 })
      (Function.update received server none) := by
  have following := feeds.server server
  refine ⟨feeds.simulates, feeds.agreed, feeds.update ?_ fun _ _ => ⟨rfl, rfl, rfl⟩⟩
  rcases following.reading _ _ isReading with ⟨-, isNext, reached, -⟩ | ⟨-, covered, -⟩
  · exact ⟨following.included, following.stored, following.kept, following.retained.trans (Nat.le_succ _),
      fun _ => isNext.symm.trans reached, by simp⟩
  · exact absurd covered (Nat.not_le.mpr uncovered)

theorem skip {commandIndex : Nat} {command : Command} (isReading : received server = some (commandIndex, command))
    (covered : commandIndex ≤ (position server).included) :
    Feeds state cluster log position (Function.update received server none) := by
  have following := feeds.server server
  have self : Following (cluster.node server) (position server) none := by
    rcases following.reading _ _ isReading with ⟨uncovered, -⟩ | ⟨-, -, caughtUp, -⟩
    · exact absurd covered (Nat.not_le.mpr uncovered)
    · exact ⟨following.included, following.stored, following.kept, following.retained, fun _ => caughtUp, by simp⟩
  have servers := feeds.update self fun _ _ => ⟨rfl, rfl, rfl⟩
  simp only [Function.update_eq_self] at servers
  exact ⟨feeds.simulates, feeds.agreed, servers⟩

/-! ## Snapshots -/

theorem snapshot (free : received server = none) (newer : (position server).stored < (position server).applied)
    (taken : cluster.snapshot server (position server).applied = some next) :
    next.started = cluster.started ∧
      (∃ data, next.taken = cluster.taken ++ [(server, (position server).applied, data)]) ∧
      ∃ after, Feeds after next log
        (Function.update position server { position server with stored := (position server).applied }) received := by
  have step : cluster.step (.snapshot server (position server).applied) = some next := taken
  have following := feeds.server server
  obtain ⟨after, simulates, extended⟩ := feeds.follow step
  obtain ⟨started, -⟩ := Cluster.step_recorded step
  obtain ⟨sameService, stored, isTaken⟩ := feeds.simulates.snapshot_stored (following.stored ▸ newer) taken
  have self : Following (next.node server) { position server with stored := (position server).applied }
      (received server) := by
    refine ⟨?_, stored.symm, following.kept.trans following.retained, le_rfl, fun isFree => ?_, by simp [free]⟩
    · rw [sameService]
      exact following.included
    · rw [sameService]
      exact following.idle isFree
  have servers := feeds.update self fun other different => feeds.simulates.step_unseen step rfl (by simp)
    (by simp [Ne.symm different])
  rw [Function.update_eq_self] at servers
  exact ⟨started (by simp), ⟨_, isTaken⟩, after, simulates,
    feeds.agreed.step_unsent feeds.simulates step extended (by simp), servers⟩

/-- A loop passes a snapshot to `CondInstallSnapshot`, which accepts what is ahead of the loop. -/
theorem install (free : received server = none) {snapshot : Snapshot Command} {snapshotTerm snapshotIndex : Nat}
    (installing : (cluster.node server).service.installing = some (snapshot, snapshotTerm, snapshotIndex))
    (installed : cluster.install server = some next) :
    next.started = cluster.started ∧ next.taken = cluster.taken ∧ ∃ after,
      if ((cluster.node server).raft.condInstallSnapshot snapshotTerm snapshotIndex snapshot).1 then
        (position server).applied < snapshotIndex ∧
          Feeds after next log (Function.update position server ⟨snapshotIndex, snapshotIndex, snapshotIndex⟩) received
      else Feeds after next log position received := by
  have step : cluster.step (.install server) = some next := installed
  have following := feeds.server server
  obtain ⟨after, simulates, extended⟩ := feeds.follow step
  obtain ⟨started, taken⟩ := Cluster.step_recorded step
  have agreed := feeds.agreed.step_unsent feeds.simulates step extended (by simp)
  have others : ∀ other, other ≠ server → Unseen (cluster.node other) (next.node other) :=
    fun other different => feeds.simulates.step_unseen step (by simp [Cluster.delivery, Ne.symm different])
      (by simp [Ne.symm different]) (by simp)
  have outcome := feeds.simulates.install_outcome installing installed
  refine ⟨started (by simp), taken (by simp), after, ?_⟩
  split
  · rename_i accepted
    rw [if_pos accepted] at outcome
    obtain ⟨service, length, ahead, stored⟩ := outcome
    rw [following.idle free]
    refine ⟨ahead, simulates, agreed, ?_⟩
    have self : Following (next.node server) ⟨snapshotIndex, snapshotIndex, snapshotIndex⟩ (received server) := by
      refine ⟨?_, stored.symm, le_rfl, le_rfl, fun _ => ?_, by simp [free]⟩
      · rw [service]
      · rw [service]
        exact length.symm
    have servers := feeds.update self others
    rwa [Function.update_eq_self] at servers
  · rename_i refused
    rw [if_neg refused] at outcome
    refine ⟨simulates, agreed, fun other => ?_⟩
    by_cases same : other = server
    · subst same
      exact following.unseen outcome
    · exact (feeds.server other).unseen (others other same)

theorem restart (server : Fin n) :
    (cluster.restart server).started = cluster.started ∧ (cluster.restart server).taken = cluster.taken ∧
      ∃ after, Feeds after (cluster.restart server) log
        (Function.update position server ⟨(position server).stored, 0, (position server).stored⟩)
        (Function.update received server none) := by
  have step : cluster.step (.restart server) = some (cluster.restart server) := rfl
  have following := feeds.server server
  obtain ⟨after, simulates, extended⟩ := feeds.follow step
  obtain ⟨length, included, stored⟩ := feeds.simulates.restart_restored server
  refine ⟨rfl, rfl, after, simulates, feeds.agreed.step_unsent feeds.simulates step extended (by simp),
    feeds.update ?_ fun other different => feeds.simulates.step_unseen step
      (by simp [Cluster.delivery, Ne.symm different]) (by simp) (by simp)⟩
  exact ⟨included.symm, following.stored.trans stored.symm, Nat.zero_le _, le_rfl,
    fun _ => following.stored.trans length.symm, by simp⟩

end Feeds

end ShardedKV.Raft
