import ShardedKV.KvRaft.Stack
import ShardedKV.Raft.ApplyLoop

/-!
# The service on Raft refines the service over one log

What the apply loops read from the Raft servers is one log, so every run of the stack is a run of the
clerks, handlers and apply loops over an agreed log, and what is known of the latter holds from the
clerks down to the messages of Raft.
-/

namespace ShardedKV.KvRaft

open Services
open Raft (Cluster Feeds)
open Replication (State)
open Linearizability (Linearizable)

variable {n : Nat} {stack next : Stack n} {server : Fin n}

/-! ## The service -/

/-- How far the apply loop of a server is. -/
def Replica.position (replica : Replica) : Raft.Position where
  applied := replica.applied
  included := replica.server.lastIncludedIndex
  stored := (replica.persisted.map Prod.fst).getD 0

/-- Nothing has happened to the log or to the apply loops. -/
structure LogFree (system next : System n) : Prop where
  log : next.log = system.log
  proposed : next.proposed = system.proposed
  snapshots : next.snapshots = system.snapshots
  position : ∀ server, (next.replica server).position = (system.replica server).position

theorem LogFree.setReplica (system : System n) {changed : Replica}
    (same : changed.position = (system.replica server).position) (id : Nat) (call : Call n) :
    LogFree system ((system.setReplica server changed).setCall id call) := by
  refine ⟨rfl, rfl, rfl, fun other => ?_⟩
  change (Function.update system.replica server changed other).position = _
  by_cases equal : other = server
  · subst equal
    rw [Function.update_self, same]
  · rw [Function.update_of_ne equal]

theorem System.step_logFree {system next : System n} {action : System.Action n} (aboveRaft : action.aboveRaft = true)
    (stepped : system.step action = some next) : LogFree system next := by
  cases action with
  | invoke client operation =>
    simp only [System.step, System.invoke] at stepped
    split at stepped <;> cases stepped
    exact ⟨Trace.committed_invoke, rfl, rfl, fun _ => rfl⟩
  | receive client =>
    simp only [System.step, System.receive] at stepped
    repeat' split at stepped
    all_goals cases stepped
    · exact ⟨rfl, rfl, rfl, fun _ => rfl⟩
    · exact ⟨Trace.committed_respond, rfl, rfl, fun _ => rfl⟩
  | answer id =>
    simp only [System.step, System.answer] at stepped
    repeat' split at stepped
    all_goals cases stepped
    rename_i received
    obtain ⟨result, -, isResult⟩ := Option.map_eq_some_iff.mp received
    cases isResult
    exact LogFree.setReplica system (by rfl) ..
  | cleanup id =>
    simp only [System.step, System.cleanup] at stepped
    repeat' split at stepped
    all_goals cases stepped
    · exact LogFree.setReplica system (by rfl) ..
    · rename_i closed
      obtain ⟨result, -, isResult⟩ := Option.map_eq_some_iff.mp closed
      cases isResult
      exact LogFree.setReplica system (by rfl) ..
  | send | giveUp | register | timeout =>
    simp only [System.step, System.send, System.giveUp, System.register, System.timeout] at stepped
    repeat' split at stepped
    all_goals cases stepped
    all_goals first | exact ⟨rfl, rfl, rfl, fun _ => rfl⟩ | exact LogFree.setReplica system (by rfl) ..
  | start | commit | deliver | redeliver | install | restart => cases aboveRaft

theorem System.start_eq {system next : System n} {id index : Nat} {isLeader : Bool} {call : Call n}
    (located : system.calls[id]? = some call) (stepped : system.start id isLeader index = some next) :
    ∃ calls, next = { system with
      calls, proposed := if isLeader then system.proposed ++ [call.request.op] else system.proposed } := by
  simp only [System.start, located] at stepped
  split at stepped
  · cases stepped
  split at stepped
  · rename_i leads
    cases stepped
    exact ⟨_, by rw [if_pos leads]; rfl⟩
  · rename_i leads
    cases stepped
    exact ⟨_, by rw [if_neg leads]; rfl⟩

/-- A command that no snapshot covers is applied; a snapshot taken with it is recorded and stored. -/
theorem System.handle_uncovered (system : System n) (server : Fin n) {commandIndex : Nat} (op : Op)
    (takeSnapshot : Bool) {replica : Replica} (applied : Nat)
    (uncovered : replica.server.lastIncludedIndex < commandIndex) :
    ∃ changed store, changed.position = ⟨applied, replica.position.included,
        if takeSnapshot then commandIndex else replica.position.stored⟩ ∧
      system.handle server commandIndex op takeSnapshot { replica with applied } =
        { system with
          replica := Function.update system.replica server changed
          snapshots := if takeSnapshot then system.snapshots ++ [(commandIndex, store)] else system.snapshots } := by
  simp only [System.handle, KVServer.applyHandler, if_neg (Nat.not_le.mpr uncovered)]
  generalize replica.server.store.applyCommand op = result
  obtain ⟨store, appliedOp⟩ := result
  cases sent : ({ replica.server with store } : KVServer).sendApplied commandIndex appliedOp with
  | none =>
    refine ⟨{ replica with
      applied, panicked := true, persisted := if takeSnapshot then some (commandIndex, store) else replica.persisted },
      store, ?_, ?_⟩ <;> cases takeSnapshot <;> rfl
  | some kv =>
    have unchanged : kv.lastIncludedIndex = replica.server.lastIncludedIndex := by
      unfold KVServer.sendApplied at sent
      split at sent
      · cases sent
        rfl
      · obtain ⟨waitChan, -, rfl⟩ := Option.map_eq_some_iff.mp sent
        rfl
    refine ⟨{ replica with
      applied, server := kv, persisted := if takeSnapshot then some (commandIndex, store) else replica.persisted },
      store, ?_, by cases takeSnapshot <;> rfl⟩
    simp only [Replica.position, unchanged]
    cases takeSnapshot <;> rfl

theorem System.log_agree (system : System n) (commandIndex : Nat) (op : Op) :
    (system.agree commandIndex op).log =
      if commandIndex = system.log.length + 1 then system.log ++ [op] else system.log := by
  unfold System.agree
  split
  · exact Trace.committed_commit
  · rfl

theorem System.Reachable.step {system next : System n} {action : System.Action n} (reached : system.Reachable)
    (stepped : system.step action = some next) : next.Reachable := by
  obtain ⟨actions, ran⟩ := reached
  refine ⟨actions ++ [action], ?_⟩
  rw [System.run_eq] at ran ⊢
  rw [Transitions.run_append, ran, Option.bind_some, Transitions.run, stepped]
  rfl

/-! ## The relation -/

structure Refines (stack : Stack n) (state : State (Fin n) (Raft.LogEntry Op)) : Prop where
  reachable : stack.system.Reachable
  feeds : Feeds state stack.cluster stack.system.log (fun server => (stack.system.replica server).position)
    stack.received
  started : ∀ index term op, (index, term, op) ∈ stack.cluster.started → op ∈ stack.system.proposed
  archived : ∀ taker index data, (taker, index, data) ∈ stack.cluster.taken →
    ∃ store, (index, store) ∈ stack.system.snapshots

theorem refines_initial : Refines ({} : Stack n) Replication.initial where
  reachable := ⟨[], rfl⟩
  feeds := Raft.feeds_initial
  started := by simp [Cluster.initial]
  archived := by simp [Cluster.initial]

namespace Refines

variable {state : State (Fin n) (Raft.LogEntry Op)}

theorem positions {log : List Op} {cluster : Cluster n Op} {received : Fin n → Option (Nat × Op)}
    {replica : Fin n → Replica} {changed : Replica} {moved : Raft.Position} (isMoved : changed.position = moved)
    (feeds : Feeds state cluster log (Function.update (fun other => (replica other).position) server moved) received) :
    Feeds state cluster log (fun other => (Function.update replica server changed other).position) received := by
  have same : (fun other => (Function.update replica server changed other).position) =
      Function.update (fun server => (replica server).position) server moved := by
    subst isMoved
    funext other
    exact Function.apply_update (fun _ => Replica.position) replica server changed other
  rw [same]
  exact feeds

/-! ## Steps in which the log is not involved -/

variable (refines : Refines stack state)
include refines

theorem service {action : System.Action n} (stepped : stack.service action = some next) : Refines next state := by
  unfold Stack.service at stepped
  split at stepped
  · rename_i aboveRaft
    obtain ⟨system, step, rfl⟩ := Option.map_eq_some_iff.mp stepped
    have logFree := System.step_logFree aboveRaft step
    refine ⟨refines.reachable.step step, ?_, logFree.proposed ▸ refines.started, logFree.snapshots ▸ refines.archived⟩
    dsimp only
    rw [logFree.log, funext logFree.position]
    exact refines.feeds
  · cases stepped

theorem unseen {action : Cluster.Action n Op} {cluster : Cluster n Op}
    (unseen : action.unseen = true) (step : stack.cluster.step action = some cluster) :
    ∃ after, Refines { stack with cluster } after := by
  obtain ⟨⟨after, feeds⟩, started, taken⟩ := refines.feeds.unseen unseen step
  exact ⟨after, refines.reachable, feeds, started ▸ refines.started, taken ▸ refines.archived⟩

theorem raft {action : Cluster.Action n Op}
    (stepped : stack.raft action = some next) : ∃ after, Refines next after := by
  unfold Stack.raft at stepped
  split at stepped
  · cases stepped
  rename_i actor isActor
  split at stepped
  · obtain ⟨cluster, step, rfl⟩ := Option.map_eq_some_iff.mp stepped
    refine refines.unseen ?_ step
    cases action <;> first | rfl | cases isActor
  · cases stepped

theorem sendSnapshot {position : Nat}
    (stepped : stack.sendSnapshot server position = some next) : ∃ after, Refines next after := by
  unfold Stack.sendSnapshot at stepped
  split at stepped
  · cases stepped
  · obtain ⟨cluster, step, rfl⟩ := Option.map_eq_some_iff.mp stepped
    have asAction : stack.cluster.step (.sendSnapshot server position) = some cluster := step
    exact refines.unseen rfl asAction

/-! ## Proposing -/

theorem start {id : Nat} (stepped : stack.start id = some next) :
    ∃ after, Refines next after := by
  unfold Stack.start at stepped
  split at stepped
  · cases stepped
  rename_i call located
  dsimp only at stepped
  split at stepped
  · rename_i system cluster systemStep clusterStep
    cases stepped
    obtain ⟨⟨after, feeds⟩, taken, started⟩ := refines.feeds.start clusterStep
    have stepAbove : stack.system.step (.start id _ _) = some system := systemStep
    have reachable := refines.reachable.step stepAbove
    obtain ⟨calls, rfl⟩ := System.start_eq located systemStep
    refine ⟨after, reachable, feeds, ?_, taken ▸ refines.archived⟩
    intro index term op member
    dsimp only
    rcases started _ _ _ member with old | ⟨rfl, leads⟩
    · have known := refines.started _ _ _ old
      split
      · exact List.mem_append_left _ known
      · exact known
    · rw [if_pos leads]
      exact List.mem_append_right _ (List.mem_singleton_self _)
  · cases stepped

/-! ## The apply loop -/

theorem receive (stepped : stack.receive server = some next) :
    ∃ after, Refines next after := by
  unfold Stack.receive at stepped
  split at stepped
  · cases stepped
  rename_i ready
  split at stepped
  · rename_i entry entries commitIndex cluster batch clusterStep
    cases stepped
    have free : stack.received server = none := by simpa using fun reading => ready (.inl reading)
    obtain ⟨started, taken, known, after, feeds⟩ := refines.feeds.receive free batch clusterStep
    rw [← System.log_agree] at feeds
    unfold System.agree at feeds ⊢
    split
    · -- the first apply loop that reads the command commits it
      rename_i isNext
      rw [if_pos isNext] at feeds
      obtain ⟨index, term, isStarted⟩ := known isNext
      have commits : stack.system.step (.commit entry.command) =
          some { stack.system with records := stack.system.records ++ [.commit entry.command] } :=
        if_pos (refines.started _ _ _ isStarted)
      exact ⟨after, refines.reachable.step commits, feeds, started ▸ refines.started, taken ▸ refines.archived⟩
    · rename_i known
      rw [if_neg known] at feeds
      exact ⟨after, refines.reachable, feeds, started ▸ refines.started, taken ▸ refines.archived⟩
  · cases stepped

theorem handle {takeSnapshot : Bool}
    (stepped : stack.handle server takeSnapshot = some next) : ∃ after, Refines next after := by
  unfold Stack.handle at stepped
  dsimp only at stepped
  split at stepped
  · cases stepped
  rename_i commandIndex op isReading
  split at stepped
  · cases stepped
  rename_i running
  rcases refines.feeds.reading isReading with ⟨uncovered, isNext, located⟩ | ⟨-, covered, -⟩
  · -- the command is the next one of the agreed log
    have feeds := refines.feeds.handle isReading uncovered
    have isNext : commandIndex = (stack.system.replica server).applied + 1 := isNext
    have uncovered : (stack.system.replica server).server.lastIncludedIndex < commandIndex := uncovered
    have here : stack.system.log[(stack.system.replica server).applied]? = some op := located
    subst isNext
    rw [max_eq_right (Nat.le_succ _)] at stepped
    have delivers : stack.system.step (.deliver server takeSnapshot) = some (stack.system.handle server
        ((stack.system.replica server).applied + 1) op takeSnapshot
        { stack.system.replica server with applied := (stack.system.replica server).applied + 1 }) := by
      simp only [System.step, System.deliver, here]
      exact if_neg (by simpa [Stack.running] using running)
    have reachable := refines.reachable.step delivers
    obtain ⟨changed, store, position, handled⟩ := System.handle_uncovered stack.system server op
      takeSnapshot ((stack.system.replica server).applied + 1) uncovered
    rw [handled] at stepped reachable
    split at stepped
    · rename_i taking
      obtain ⟨cluster, clusterStep, rfl⟩ := Option.map_eq_some_iff.mp stepped
      have retained := (refines.feeds.server server).retained
      obtain ⟨started, ⟨data, taken⟩, after, feeds⟩ := feeds.snapshot (Function.update_self ..)
        (by rw [Function.update_self]; exact Nat.lt_succ_of_le retained)
        (by rw [Function.update_self]; exact clusterStep)
      simp only [Function.update_self, Function.update_idem] at taken feeds
      simp only [taking.1, if_true] at position reachable ⊢
      refine ⟨after, reachable, positions position feeds, started ▸ refines.started, ?_⟩
      intro taker index data member
      rw [taken, List.mem_append, List.mem_singleton] at member
      rcases member with old | new
      · obtain ⟨known, isKnown⟩ := refines.archived _ _ _ old
        exact ⟨known, List.mem_append_left _ isKnown⟩
      · cases new
        exact ⟨store, List.mem_append_right _ (List.mem_singleton_self _)⟩
    · rename_i notTaking
      have notTaking : takeSnapshot = false := by
        by_contra taking
        exact notTaking ⟨by simpa using taking, uncovered⟩
      cases stepped
      subst notTaking
      exact ⟨state, reachable, positions position feeds, refines.started, refines.archived⟩
  · -- nothing happens to a command that the installed snapshot covers
    have covered : commandIndex ≤ (stack.system.replica server).server.lastIncludedIndex := covered
    have applied : commandIndex ≤ (stack.system.replica server).applied :=
      covered.trans ((refines.feeds.server server).kept.trans (refines.feeds.server server).retained)
    have skipped : stack.system.handle server commandIndex op takeSnapshot (stack.system.replica server) =
        stack.system := by
      simp [System.handle, KVServer.applyHandler, covered, System.setReplica]
    rw [if_neg (by omega), max_eq_left applied, skipped] at stepped
    cases stepped
    exact ⟨state, refines.reachable, refines.feeds.skip isReading covered, refines.started, refines.archived⟩

theorem install {position : Nat}
    (stepped : stack.install server position = some next) : ∃ after, Refines next after := by
  unfold Stack.install at stepped
  dsimp only at stepped
  split at stepped
  · cases stepped
  rename_i ready
  rw [not_or] at ready
  have free : stack.received server = none := by simpa using ready.1
  split at stepped
  · rename_i snapshot snapshotTerm snapshotIndex cluster installing clusterStep
    obtain ⟨started, taken, after, outcome⟩ := refines.feeds.install free installing clusterStep
    split at stepped
    · rename_i accepted
      rw [if_pos accepted] at outcome
      obtain ⟨ahead, feeds⟩ := outcome
      split at stepped
      · cases stepped
      rename_i index store archived
      split at stepped
      · rename_i isIndex
        subst isIndex
        cases stepped
        have ahead : (stack.system.replica server).applied < index := ahead
        have installs : stack.system.step (.install server position) =
            some (stack.system.setReplica server { stack.system.replica server with
              server := (stack.system.replica server).server.installSnapshot index store
              applied := index
              persisted := some (index, store) }) := by
          simp only [System.step, System.install, archived]
          exact if_neg (by simpa [Stack.running, ahead] using ready.2)
        exact ⟨after, refines.reachable.step installs, positions rfl feeds, started ▸ refines.started,
          taken ▸ refines.archived⟩
      · cases stepped
    · rename_i refused
      rw [if_neg refused] at outcome
      cases stepped
      exact ⟨after, refines.reachable, outcome, started ▸ refines.started, taken ▸ refines.archived⟩
  · cases stepped

theorem restart (server : Fin n) : ∃ after, Refines (stack.restart server) after := by
  obtain ⟨started, taken, after, feeds⟩ := refines.feeds.restart server
  have restarts : stack.system.step (.restart server) = some (stack.system.restart server) := rfl
  refine ⟨after, refines.reachable.step restarts, positions ?_ feeds, started ▸ refines.started,
    taken ▸ refines.archived⟩
  simp only [Replica.position]
  cases (stack.system.replica server).persisted <;> rfl

theorem step {action : Stack.Action n} (stepped : stack.step action = some next) :
    ∃ after, Refines next after := by
  cases action with
  | raft action => exact refines.raft stepped
  | service action => exact ⟨state, refines.service stepped⟩
  | start id => exact refines.start stepped
  | receive server => exact refines.receive stepped
  | sendSnapshot server position => exact refines.sendSnapshot stepped
  | handle server takeSnapshot => exact refines.handle stepped
  | install server position => exact refines.install stepped
  | restart server =>
    cases stepped
    exact refines.restart server

end Refines

theorem Stack.Reachable.refines (reached : stack.Reachable) : ∃ state, Refines stack state := by
  obtain ⟨actions, ran⟩ := reached
  have keeps : ∀ (stack : Stack n) action next, (∃ state, Refines stack state) → stack.step action = some next →
      ∃ state, Refines next state := by
    rintro stack action next ⟨state, refines⟩ stepped
    exact refines.step stepped
  exact Transitions.run_keeps keeps ⟨_, refines_initial⟩ ran

/-! ## What holds of the whole stack -/

namespace Refines

variable {state : State (Fin n) (Raft.LogEntry Op)}

/-- A server that is not in the middle of a command has the state that its commands produce. -/
theorem store_eq (refines : Refines stack state) (running : stack.running server = true)
    (idle : stack.received server = none) :
    (stack.system.replica server).server.store = machine.run (stack.cluster.node server).service.applied := by
  have reflects := (refines.reachable.consistent.replicas server).reflects (by simpa [Stack.running] using running)
  have applied : (stack.system.replica server).applied = (stack.cluster.node server).service.applied.length :=
    (refines.feeds.server server).idle idle
  obtain ⟨rest, isLog⟩ := refines.feeds.agreed.applied server
  have stateEq := reflects.state_eq
  rwa [applied, ← isLog, List.take_left] at stateEq

/-- The bytes of a snapshot message are those of a recorded snapshot, and stand for its commands. -/
theorem snapshot_eq (refines : Refines stack state) {snapshot : Raft.Snapshot Op}
    {snapshotTerm snapshotIndex : Nat}
    (installing : (stack.cluster.node server).service.installing = some (snapshot, snapshotTerm, snapshotIndex))
    (positive : 0 < snapshotIndex) :
    (∃ store, (snapshotIndex, store) ∈ stack.system.snapshots) ∧
      ∀ store, (snapshotIndex, store) ∈ stack.system.snapshots → store = machine.run snapshot.data := by
  have snapshotted := (refines.feeds.simulates.node server).service.installing _ _ _ installing
  have length : snapshot.data.length = snapshotIndex := by
    rw [snapshotted.data, List.length_map, snapshotted.length]
  obtain ⟨taker, taken⟩ := snapshotted.taken positive
  refine ⟨refines.archived _ _ _ taken, fun store member => ?_⟩
  obtain ⟨rest, isLog⟩ := refines.feeds.agreed.taken _ _ _ taken
  have stateEq := (refines.reachable.consistent.snapshots (snapshotIndex, store) member).state_eq
  rwa [← isLog, ← length, List.take_left] at stateEq

end Refines

/-- The clerks, handlers and apply loops of the servers on Raft behave as over one log: every server has
been given a part of it and has the state this part produces, and a snapshot that is about to be
installed is the state of the commands it stands for. -/
theorem stack_refines_agreed_log (stack : Stack n) (reached : stack.Reachable) :
    stack.system.Reachable ∧
      ∀ server, (stack.cluster.node server).service.applied <+: stack.system.log ∧
        (stack.running server = true → stack.received server = none →
          (stack.system.replica server).server.store = machine.run (stack.cluster.node server).service.applied) ∧
        ∀ snapshot snapshotTerm snapshotIndex,
          (stack.cluster.node server).service.installing = some (snapshot, snapshotTerm, snapshotIndex) →
          0 < snapshotIndex → (∃ store, (snapshotIndex, store) ∈ stack.system.snapshots) ∧
            ∀ store, (snapshotIndex, store) ∈ stack.system.snapshots → store = machine.run snapshot.data := by
  obtain ⟨state, refines⟩ := reached.refines
  refine ⟨refines.reachable, fun server => ?_⟩
  exact ⟨refines.feeds.agreed.applied server, refines.store_eq, fun _ _ _ => refines.snapshot_eq⟩

/-- The clerks of the servers on Raft see a linearizable store, and what they were told the result of
was executed once in the log whose parts the servers have applied. -/
theorem stack_linearizable (stack : Stack n) (reached : stack.Reachable) :
    Linearizable sequential stack.system.records.history ∧
      (∀ server, (stack.cluster.node server).service.applied <+: stack.system.log) ∧
      ∀ client seqNum ret, Record.respond client seqNum ret ∈ stack.system.records →
        ∃! position, ExecutedAt stack.system.log position client seqNum := by
  obtain ⟨state, refines⟩ := reached.refines
  have consistent := refines.reachable.consistent
  exact ⟨(retried consistent.explained).linearizable sequential_kinds, refines.feeds.agreed.applied,
    fun _ _ _ responded => consistent.answered_once responded⟩

/-- Server 0 is elected, commits an `Append` with server 1, takes a snapshot with it and answers; then
it crashes and comes back. -/
def snapshottedAppend : List (Stack.Action 3) := [
  .raft (.electionTimeout 0), .raft (.handle 0), .raft (.deliver 0),
  .service (.invoke 5 (.append [107] [1])), .service (.send 5 0), .start 0, .service (.register 0),
  .raft (.replicate 0 1), .raft (.handle 2), .raft (.deliver 2), .raft (.takeBatch 0), .receive 0,
  .handle 0 true, .service (.answer 0), .service (.receive 5), .restart 0]

def afterSnapshottedAppend : Stack 3 := (Transitions.run Stack.step {} snapshottedAppend).get (by decide +kernel)

theorem reachable_afterSnapshottedAppend : afterSnapshottedAppend.Reachable :=
  ⟨snapshottedAppend, (Option.some_get _).symm⟩

theorem stack_refines_agreed_log_afterSnapshottedAppend :
    afterSnapshottedAppend.system.log = [⟨5, 1, [107], [1], .append⟩] ∧
      (afterSnapshottedAppend.system.replica 0).server.store = machine.run [⟨5, 1, [107], [1], .append⟩] := by
  obtain ⟨-, servers⟩ := stack_refines_agreed_log afterSnapshottedAppend reachable_afterSnapshottedAppend
  have applied : (afterSnapshottedAppend.cluster.node 0).service.applied = [⟨5, 1, [107], [1], .append⟩] := by
    decide +kernel
  exact ⟨by decide +kernel, applied ▸ (servers 0).2.1 (by decide +kernel) (by decide +kernel)⟩

theorem stack_linearizable_afterSnapshottedAppend :
    Linearizable sequential afterSnapshottedAppend.system.records.history ∧
      ∃! position, ExecutedAt afterSnapshottedAppend.system.log position 5 1 := by
  obtain ⟨linearizable, -, once⟩ := stack_linearizable afterSnapshottedAppend reachable_afterSnapshottedAppend
  exact ⟨linearizable, once 5 1 none (by decide +kernel)⟩

end ShardedKV.KvRaft
