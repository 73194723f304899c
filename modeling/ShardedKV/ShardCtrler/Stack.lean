import ShardedKV.ShardCtrler.Reads
import ShardedKV.Raft.ApplyLoop

/-!
# The controller on its Raft servers

The clerks, handlers and apply loops of the controller, with a Raft server below each process.  A
command is recorded as committed when the first apply loop reads it.  The controller takes no
snapshots, so its servers never send any.
-/

namespace ShardedKV.ShardCtrler

open Services
open Raft (Cluster Feeds)

/-- What a log slot without a command holds. -/
instance : Inhabited Op := ⟨{ args := .query 0, seqNum := 0, clientID := 0 }⟩

/-- The steps of the controller that do not involve its Raft servers. -/
def System.Action.aboveRaft {n : Nat} : System.Action n → Bool
  | .invoke .. | .send .. | .giveUp _ | .receive _ | .proceed .. => true
  | .start .. | .commit _ | .deliver _ | .restart _ => false

/-- The first apply loop that reads a command records it. -/
def System.agree {n : Nat} (system : System n) (commandIndex : Nat) (op : Op) : System n :=
  if commandIndex = system.log.length + 1 then { system with records := system.records ++ [.commit op] }
  else system

/-- The clerks and processes, and the Raft servers they run on. -/
structure Stack (n : Nat) where
  cluster : Cluster n Op := .initial
  system : System n := {}
  /-- The command message the apply loop has read from `applyCh` and not handled yet. -/
  received : Fin n → Option (Nat × Op) := fun _ => none

namespace Stack

variable {n : Nat}

def running (stack : Stack n) (server : Fin n) : Bool := !(stack.system.replica server).panicked

/-- The process that takes a step of Raft in which the controller has no part. -/
def actor (stack : Stack n) : Cluster.Action n Op → Option (Fin n)
  | .electionTimeout server | .replicate server _ | .takeBatch server | .finishBatch server => some server
  | .handle id => stack.cluster.calls[id]?.map (·.callee)
  | .deliver id | .fail id => stack.cluster.calls[id]?.map (·.caller)
  | .start .. | .sendCommand _ | .sendSnapshot .. | .install _ | .snapshot .. | .restart _ => none

/-- A goroutine of Raft. -/
def raft (stack : Stack n) (action : Cluster.Action n Op) : Option (Stack n) :=
  match stack.actor action with
  | none => none
  | some server =>
    if stack.running server then (stack.cluster.step action).map fun cluster => { stack with cluster }
    else none

/-- A clerk, or a handler after `Start`. -/
def service (stack : Stack n) (action : System.Action n) : Option (Stack n) :=
  if action.aboveRaft then (stack.system.step action).map fun system => { stack with system } else none

/-- `RequestHandler` up to `Start`, whose index and leadership are what the Raft server says. -/
def start (stack : Stack n) (id : Nat) : Option (Stack n) :=
  match stack.system.calls[id]? with
  | none => none
  | some call =>
    let (outcome, _) := (stack.cluster.node call.server).raft.start call.args
    match stack.system.start id outcome.isSome ((outcome.map Prod.fst).getD 0),
      stack.cluster.start call.server call.args with
    | some system, some cluster => some { stack with system, cluster }
    | _, _ => none

/-- The apply loop reads a command from `applyCh`. -/
def receive (stack : Stack n) (server : Fin n) : Option (Stack n) :=
  if (stack.received server).isSome ∨ !stack.running server then none
  else
    match (stack.cluster.node server).batch, stack.cluster.sendCommand server with
    | some (entry :: _, _), some cluster =>
      some {
        cluster
        system := stack.system.agree entry.index entry.command
        received := Function.update stack.received server (some (entry.index, entry.command)) }
    | _, _ => none

/-- The apply loop handles the command it has read. -/
def handle (stack : Stack n) (server : Fin n) : Option (Stack n) :=
  match stack.received server with
  | none => none
  | some (_, op) =>
    if !stack.running server then none
    else some { stack with
      system := stack.system.setReplica server ((stack.system.replica server).applyHandler op)
      received := Function.update stack.received server none }

/-- A crash of the process with its Raft server, and `StartServer` with the same persister. -/
def restart (stack : Stack n) (server : Fin n) : Stack n where
  cluster := stack.cluster.restart server
  system := stack.system.restart server
  received := Function.update stack.received server none

inductive Action (n : Nat) where
  | raft (action : Cluster.Action n Op)
  | service (action : System.Action n)
  | start (id : Nat)
  | receive (server : Fin n)
  | handle (server : Fin n)
  | restart (server : Fin n)
deriving DecidableEq, Repr

def step (stack : Stack n) : Action n → Option (Stack n)
  | .raft action => stack.raft action
  | .service action => stack.service action
  | .start id => stack.start id
  | .receive server => stack.receive server
  | .handle server => stack.handle server
  | .restart server => some (stack.restart server)

def Reachable (stack : Stack n) : Prop := ∃ actions, Transitions.run step {} actions = some stack

end Stack

variable {n : Nat} {stack next : Stack n} {server : Fin n}

/-! ## The controller -/

/-- Nothing has happened to the log or to the apply loops. -/
structure LogFree (system next : System n) : Prop where
  records : system.records <+: next.records
  log : next.log = system.log
  proposed : next.proposed = system.proposed
  applied : ∀ server, (next.replica server).applied = (system.replica server).applied
  panicked : ∀ server, (next.replica server).panicked = false → (system.replica server).panicked = false

theorem Call.proceed_applied {call continued : Call n} {part : Call.Part} {replica changed : Replica}
    (proceeds : call.proceed part replica = some (changed, continued)) : changed.applied = replica.applied := by
  cases part with
  | register =>
    simp only [Call.proceed, Call.register] at proceeds
    split at proceeds <;> cases proceeds
    rfl
  | timeout =>
    simp only [Call.proceed, Call.timeout] at proceeds
    split at proceeds <;> cases proceeds
    rfl
  | answer =>
    simp only [Call.proceed, Call.answer] at proceeds
    split at proceeds
    · obtain ⟨_, -, isResult⟩ := Option.map_eq_some_iff.mp proceeds
      cases isResult
      rfl
    · cases proceeds
  | readConfig =>
    simp only [Call.proceed, Call.readConfig] at proceeds
    split at proceeds
    · split at proceeds <;> cases proceeds <;> rfl
    · cases proceeds
  | cleanup =>
    simp only [Call.proceed, Call.cleanup] at proceeds
    split at proceeds
    · split at proceeds <;> cases proceeds <;> rfl
    · cases proceeds

theorem System.step_logFree {system next : System n} {action : System.Action n} (aboveRaft : action.aboveRaft = true)
    (stepped : system.step action = some next) : LogFree system next := by
  cases action with
  | invoke client args =>
    simp only [System.step, System.invoke] at stepped
    split at stepped <;> cases stepped
    exact ⟨(List.prefix_append _ _), Trace.committed_invoke, rfl, fun _ => rfl, fun _ => id⟩
  | send client server =>
    simp only [System.step, System.send] at stepped
    split at stepped <;> cases stepped
    exact ⟨List.prefix_rfl, rfl, rfl, fun _ => rfl, fun _ => id⟩
  | giveUp client =>
    cases stepped
    exact ⟨List.prefix_rfl, rfl, rfl, fun _ => rfl, fun _ => id⟩
  | receive client =>
    simp only [System.step, System.receive] at stepped
    repeat' split at stepped
    all_goals cases stepped
    · exact ⟨List.prefix_rfl, rfl, rfl, fun _ => rfl, fun _ => id⟩
    · exact ⟨(List.prefix_append _ _), Trace.committed_respond, rfl, fun _ => rfl, fun _ => id⟩
  | proceed id part =>
    simp only [System.step, System.proceed] at stepped
    split at stepped
    · cases stepped
    rename_i call located
    split at stepped
    · cases stepped
    rename_i alive
    obtain ⟨⟨changed, continued⟩, proceeds, rfl⟩ := Option.map_eq_some_iff.mp stepped
    refine ⟨List.prefix_rfl, rfl, rfl, fun server => ?_, fun server running => ?_⟩
    · by_cases same : server = call.server
      · subst same
        simpa [System.setReplica, System.setCall] using Call.proceed_applied proceeds
      · simp [System.setReplica, System.setCall, Function.update_of_ne same]
    · by_cases same : server = call.server
      · subst same
        have isAlive : system.alive call = true := by simpa using alive
        simp only [System.alive, Bool.decide_and, Bool.and_eq_true, decide_eq_true_eq] at isAlive
        simpa using isAlive.2
      · simpa [System.setReplica, System.setCall, Function.update_of_ne same] using running
  | start | commit | deliver | restart => cases aboveRaft

theorem System.start_eq {system next : System n} {id index : Nat} {isLeader : Bool} {call : Call n}
    (located : system.calls[id]? = some call) (stepped : system.start id isLeader index = some next) :
    ∃ calls, next = { system with
      calls, proposed := if isLeader then system.proposed ++ [call.args] else system.proposed } := by
  simp only [System.start, located] at stepped
  split at stepped
  · cases stepped
  split at stepped
  · rename_i leads
    cases stepped
    exact ⟨_, by rw [if_pos leads]; rfl⟩
  · rename_i leads
    cases stepped
    exact ⟨_, by rw [if_neg leads]; rfl⟩

theorem System.log_agree (system : System n) (commandIndex : Nat) (op : Op) :
    (system.agree commandIndex op).log =
      if commandIndex = system.log.length + 1 then system.log ++ [op] else system.log := by
  unfold System.agree
  split
  · exact Trace.committed_commit
  · rfl

theorem Replica.applied_applyHandler {replica : Replica} {op : Op}
    (survives : (replica.applyHandler op).panicked = false) :
    (replica.applyHandler op).applied = replica.applied + 1 := by
  unfold Replica.applyHandler at survives ⊢
  dsimp only at survives ⊢
  cases handled : replica.sc.applyHandler op with
  | none => simp [handled] at survives
  | some sc =>
    simp only [handled] at survives ⊢
    split
    · rfl
    · split <;> rfl

theorem System.Reachable.step {system next : System n} {action : System.Action n} (reached : system.Reachable)
    (stepped : system.step action = some next) : next.Reachable := by
  obtain ⟨actions, ran⟩ := reached
  refine ⟨actions ++ [action], ?_⟩
  rw [System.run_eq] at ran ⊢
  rw [Transitions.run_append, ran, Option.bind_some, Transitions.run, stepped]
  rfl

/-! ## The relation -/

/-- Where a process is that has not panicked. -/
structure Placed (position : Raft.Position) (replica : Replica) : Prop where
  stored : position.stored = 0
  applied : replica.panicked = false → position.applied = replica.applied

structure Refines (stack : Stack n) (state : Replication.State (Fin n) (Raft.LogEntry Op))
    (position : Fin n → Raft.Position) : Prop where
  reachable : stack.system.Reachable
  feeds : Feeds state stack.cluster stack.system.log position stack.received
  placed : ∀ server, Placed (position server) (stack.system.replica server)
  started : ∀ index term op, (index, term, op) ∈ stack.cluster.started → op ∈ stack.system.proposed
  taken : stack.cluster.taken = []

theorem refines_initial : Refines ({} : Stack n) Replication.initial (fun _ => {}) where
  reachable := ⟨[], rfl⟩
  feeds := Raft.feeds_initial
  placed := fun _ => ⟨rfl, fun _ => rfl⟩
  started := by simp [Cluster.initial]
  taken := rfl

namespace Refines

variable {state : Replication.State (Fin n) (Raft.LogEntry Op)} {position : Fin n → Raft.Position}

variable (refines : Refines stack state position)
include refines

theorem service {action : System.Action n}
    (stepped : stack.service action = some next) : Refines next state position := by
  unfold Stack.service at stepped
  split at stepped
  · rename_i aboveRaft
    obtain ⟨system, step, rfl⟩ := Option.map_eq_some_iff.mp stepped
    have logFree := System.step_logFree aboveRaft step
    refine ⟨refines.reachable.step step, ?_, fun server => ?_, logFree.proposed ▸ refines.started, refines.taken⟩
    · dsimp only
      rw [logFree.log]
      exact refines.feeds
    · refine ⟨(refines.placed server).stored, fun running => ?_⟩
      rw [(refines.placed server).applied (logFree.panicked server running)]
      exact (logFree.applied server).symm
  · cases stepped

theorem raft {action : Cluster.Action n Op}
    (stepped : stack.raft action = some next) : ∃ after, Refines next after position := by
  unfold Stack.raft at stepped
  split at stepped
  · cases stepped
  rename_i actor isActor
  split at stepped
  · obtain ⟨cluster, step, rfl⟩ := Option.map_eq_some_iff.mp stepped
    have unseen : action.unseen = true := by cases action <;> first | rfl | cases isActor
    obtain ⟨⟨after, feeds⟩, started, taken⟩ := refines.feeds.unseen unseen step
    exact ⟨after, refines.reachable, feeds, refines.placed, started ▸ refines.started, taken.trans refines.taken⟩
  · cases stepped

theorem start {id : Nat} (stepped : stack.start id = some next) :
    ∃ after, Refines next after position := by
  unfold Stack.start at stepped
  split at stepped
  · cases stepped
  rename_i call located
  dsimp only at stepped
  split at stepped
  · rename_i system cluster systemStep clusterStep
    cases stepped
    obtain ⟨⟨after, feeds⟩, taken, started⟩ := refines.feeds.start clusterStep
    have stepAbove : stack.system.step (.start id _ _) = some system := systemStep
    have reachable := refines.reachable.step stepAbove
    obtain ⟨calls, rfl⟩ := System.start_eq located systemStep
    refine ⟨after, reachable, feeds, refines.placed, ?_, taken.trans refines.taken⟩
    intro index term op member
    dsimp only
    rcases started _ _ _ member with old | ⟨rfl, leads⟩
    · have known := refines.started _ _ _ old
      split
      · exact List.mem_append_left _ known
      · exact known
    · rw [if_pos leads]
      exact List.mem_append_right _ (List.mem_singleton_self _)
  · cases stepped

theorem receive (stepped : stack.receive server = some next) :
    ∃ after, Refines next after position := by
  unfold Stack.receive at stepped
  split at stepped
  · cases stepped
  rename_i ready
  split at stepped
  · rename_i entry entries commitIndex cluster batch clusterStep
    cases stepped
    have free : stack.received server = none := by simpa using fun reading => ready (.inl reading)
    obtain ⟨started, taken, known, after, feeds⟩ := refines.feeds.receive free batch clusterStep
    rw [← System.log_agree] at feeds
    unfold System.agree at feeds ⊢
    split
    · -- the first apply loop that reads the command commits it
      rename_i isNext
      rw [if_pos isNext] at feeds
      obtain ⟨index, term, isStarted⟩ := known isNext
      have commits : stack.system.step (.commit entry.command) =
          some { stack.system with records := stack.system.records ++ [.commit entry.command] } :=
        if_pos (refines.started _ _ _ isStarted)
      exact ⟨after, refines.reachable.step commits, feeds, refines.placed, started ▸ refines.started,
        taken.trans refines.taken⟩
    · rename_i known
      rw [if_neg known] at feeds
      exact ⟨after, refines.reachable, feeds, refines.placed, started ▸ refines.started, taken.trans refines.taken⟩
  · cases stepped

theorem handle (stepped : stack.handle server = some next) :
    ∃ moved, Refines next state moved := by
  unfold Stack.handle at stepped
  split at stepped
  · cases stepped
  rename_i commandIndex op isReading
  split at stepped
  · cases stepped
  rename_i running
  cases stepped
  have running : (stack.system.replica server).panicked = false := by simpa [Stack.running] using running
  have placed := refines.placed server
  have kept := (refines.feeds.server server).kept
  rw [placed.stored] at kept
  rcases refines.feeds.reading isReading with ⟨uncovered, -, located⟩ | ⟨positive, covered, -⟩
  · have feeds := refines.feeds.handle isReading uncovered
    rw [placed.applied running] at located
    have delivers : stack.system.step (.deliver server) =
        some (stack.system.setReplica server ((stack.system.replica server).applyHandler op)) := by
      simp only [System.step, System.deliver, located, running]
      rfl
    refine ⟨_, refines.reachable.step delivers, feeds, fun other => ?_, refines.started, refines.taken⟩
    by_cases same : other = server
    · subst same
      simp only [System.setReplica, Function.update_self]
      refine ⟨placed.stored, fun survives => ?_⟩
      rw [Replica.applied_applyHandler survives, placed.applied running]
    · simpa only [System.setReplica, Function.update_of_ne same] using refines.placed other
  · omega

theorem restart (server : Fin n) :
    ∃ after moved, Refines (stack.restart server) after moved := by
  obtain ⟨started, taken, after, feeds⟩ := refines.feeds.restart server
  have restarts : stack.system.step (.restart server) = some (stack.system.restart server) := rfl
  have placed := refines.placed server
  refine ⟨after, _, refines.reachable.step restarts, feeds, fun other => ?_, started ▸ refines.started,
    taken.trans refines.taken⟩
  by_cases same : other = server
  · subst same
    simp only [Stack.restart, System.restart, System.setReplica, Function.update_self, placed.stored]
    exact ⟨rfl, fun _ => rfl⟩
  · simpa only [Stack.restart, System.restart, System.setReplica, Function.update_of_ne same] using
      refines.placed other

theorem step {action : Stack.Action n}
    (stepped : stack.step action = some next) : ∃ after moved, Refines next after moved := by
  cases action with
  | raft action =>
    obtain ⟨after, follows⟩ := refines.raft stepped
    exact ⟨after, position, follows⟩
  | service action => exact ⟨state, position, refines.service stepped⟩
  | start id =>
    obtain ⟨after, follows⟩ := refines.start stepped
    exact ⟨after, position, follows⟩
  | receive server =>
    obtain ⟨after, follows⟩ := refines.receive stepped
    exact ⟨after, position, follows⟩
  | handle server =>
    obtain ⟨moved, follows⟩ := refines.handle stepped
    exact ⟨state, moved, follows⟩
  | restart server =>
    cases stepped
    exact refines.restart server

end Refines

theorem Stack.Reachable.refines (reached : stack.Reachable) : ∃ state position, Refines stack state position := by
  obtain ⟨actions, ran⟩ := reached
  have keeps : ∀ (stack : Stack n) action next, (∃ state position, Refines stack state position) →
      stack.step action = some next → ∃ state position, Refines next state position := by
    rintro stack action next ⟨state, position, refines⟩ stepped
    exact refines.step stepped
  exact Transitions.run_keeps keeps ⟨_, _, refines_initial⟩ ran

theorem Stack.step_records {action : Stack.Action n} (stepped : stack.step action = some next) :
    stack.system.records <+: next.system.records := by
  cases action with
  | service action =>
    simp only [Stack.step, Stack.service] at stepped
    split at stepped
    · rename_i aboveRaft
      obtain ⟨system, taken, rfl⟩ := Option.map_eq_some_iff.mp stepped
      exact (System.step_logFree aboveRaft taken).records
    · cases stepped
  | start id =>
    simp only [Stack.step, Stack.start] at stepped
    repeat' split at stepped
    all_goals cases stepped
    rename_i located _ _ _ _ started _
    obtain ⟨calls, rfl⟩ := System.start_eq located started
    exact List.prefix_rfl
  | receive server =>
    simp only [Stack.step, Stack.receive, System.agree] at stepped
    repeat' split at stepped
    all_goals cases stepped
    · exact (List.prefix_append _ _)
    · exact List.prefix_rfl
  | raft action =>
    simp only [Stack.step, Stack.raft] at stepped
    repeat' split at stepped
    · cases stepped
    · obtain ⟨cluster, -, rfl⟩ := Option.map_eq_some_iff.mp stepped
      exact List.prefix_rfl
    · cases stepped
  | handle server =>
    simp only [Stack.step, Stack.handle] at stepped
    repeat' split at stepped
    all_goals cases stepped
    exact List.prefix_rfl
  | restart server =>
    cases stepped
    exact List.prefix_rfl

/-! ## What holds of the whole stack -/

namespace Refines

variable {state : Replication.State (Fin n) (Raft.LogEntry Op)} {position : Fin n → Raft.Position}

/-- A process that is not in the middle of a command has the configurations of its commands. -/
theorem state_eq (refines : Refines stack state position) (running : stack.running server = true)
    (idle : stack.received server = none) :
    replay (stack.cluster.node server).service.applied = some (stack.system.replica server).sc := by
  have running : (stack.system.replica server).panicked = false := by simpa [Stack.running] using running
  have reflects := (refines.reachable.consistent.replicas server running).reflects
  have applied := (refines.feeds.server server).idle idle
  rw [(refines.placed server).applied running] at applied
  obtain ⟨rest, isLog⟩ := refines.feeds.agreed.applied server
  have stateEq := reflects.state_eq
  rw [applied, ← isLog, List.take_left, machine_run] at stateEq
  exact stateEq.symm

theorem snapshotSends_eq (refines : Refines stack state position) (server : Fin n) :
    (stack.cluster.node server).snapshotSends = [] := by
  refine List.eq_nil_iff_forall_not_mem.mpr fun message member => ?_
  obtain ⟨_, _, _, -, positive, snapshotted⟩ := (refines.feeds.simulates.node server).service.sends message member
  obtain ⟨taker, taken⟩ := snapshotted.taken positive
  rw [refines.taken] at taken
  cases taken

end Refines

/-- The clerks, handlers and apply loops of the controller on Raft behave as over one log: every process
has been given a part of it and has the configurations that this part makes, and no snapshot is ever
sent. -/
theorem controller_refines_agreed_log (stack : Stack n) (reached : stack.Reachable) :
    stack.system.Reachable ∧
      ∀ server, (stack.cluster.node server).service.applied <+: stack.system.log ∧
        (stack.running server = true → stack.received server = none →
          replay (stack.cluster.node server).service.applied = some (stack.system.replica server).sc) ∧
        (stack.cluster.node server).snapshotSends = [] := by
  obtain ⟨state, position, refines⟩ := reached.refines
  refine ⟨refines.reachable, fun server => ?_⟩
  exact ⟨refines.feeds.agreed.applied server, refines.state_eq, refines.snapshotSends_eq server⟩

/-- Server 0 is elected, a shard is moved, a clerk reads the new configuration, and server 1 crashes. -/
def movedOnRaft : List (Stack.Action 3) := [
  .raft (.electionTimeout 0), .raft (.handle 0), .raft (.deliver 0),
  .service (.invoke 5 (.move 3 7)), .service (.send 5 0), .start 0, .service (.proceed 0 .register),
  .raft (.replicate 0 1), .raft (.handle 2), .raft (.deliver 2), .raft (.takeBatch 0), .receive 0, .handle 0,
  .raft (.finishBatch 0), .service (.proceed 0 .answer), .service (.receive 5),
  .service (.invoke 5 (.query (-1))), .service (.send 5 0), .start 1, .service (.proceed 1 .register),
  .raft (.replicate 0 1), .raft (.handle 3), .raft (.deliver 3), .raft (.takeBatch 0), .receive 0, .handle 0,
  .service (.proceed 1 .answer), .service (.proceed 1 .readConfig), .service (.receive 5), .restart 1]

def afterMovedOnRaft : Stack 3 := (Transitions.run Stack.step {} movedOnRaft).get (by decide +kernel)

theorem reachable_afterMovedOnRaft : afterMovedOnRaft.Reachable := ⟨movedOnRaft, (Option.some_get _).symm⟩

theorem controller_refines_agreed_log_afterMovedOnRaft :
    afterMovedOnRaft.system.log = [⟨.move 3 7, 1, 5⟩, ⟨.query (-1), 2, 5⟩] ∧
      replay [⟨.move 3 7, 1, 5⟩, ⟨.query (-1), 2, 5⟩] = some (afterMovedOnRaft.system.replica 0).sc := by
  obtain ⟨-, servers⟩ := controller_refines_agreed_log afterMovedOnRaft reachable_afterMovedOnRaft
  have applied : (afterMovedOnRaft.cluster.node 0).service.applied = [⟨.move 3 7, 1, 5⟩, ⟨.query (-1), 2, 5⟩] := by
    decide +kernel
  exact ⟨by decide +kernel, applied ▸ (servers 0).2.1 (by decide +kernel) (by decide +kernel)⟩

end ShardedKV.ShardCtrler
