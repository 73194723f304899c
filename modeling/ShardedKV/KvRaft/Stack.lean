import ShardedKV.KvRaft.Linearizability
import ShardedKV.Raft.AgreedLog

/-!
# The service on its Raft servers

Clerks, the handlers and the apply loop of every key/value server, and below each of them its Raft
server with everything that happens between the servers of the cluster.  Nothing is assumed about
what Raft delivers: what the apply loop reads is what `applyChecker` or a goroutine of
`InstallSnapshot` sends.  A command is recorded as committed when the first apply loop reads it; no
step looks at these records.
-/

namespace ShardedKV.KvRaft

open Services (Record Trace)
open Raft (Cluster)

/-- What a log slot without a command holds. -/
instance : Inhabited Op := ⟨{ clientID := 0, seqNum := 0, key := [], value := [], optype := .get }⟩

/-- The steps of the service that do not involve its Raft servers. -/
def System.Action.aboveRaft {n : Nat} : System.Action n → Bool
  | .invoke .. | .send .. | .giveUp _ | .receive _ | .register _ | .timeout _ | .answer _ | .cleanup _ => true
  | .start .. | .commit _ | .deliver .. | .redeliver .. | .install .. | .restart _ => false

/-- The first apply loop that reads a command records it. -/
def System.agree {n : Nat} (system : System n) (commandIndex : Nat) (op : Op) : System n :=
  if commandIndex = system.log.length + 1 then { system with records := system.records ++ [.commit op] }
  else system

/-- The clerks and key/value servers, and the Raft servers they run on. -/
structure Stack (n : Nat) where
  cluster : Cluster n Op := .initial
  system : System n := {}
  /-- The command message the apply loop has read from `applyCh` and not handled yet. -/
  received : Fin n → Option (Nat × Op) := fun _ => none

namespace Stack

variable {n : Nat}

def running (stack : Stack n) (server : Fin n) : Bool := !(stack.system.replica server).panicked

/-- The process that takes a step of Raft in which its service has no part. -/
def actor (stack : Stack n) : Cluster.Action n Op → Option (Fin n)
  | .electionTimeout server | .replicate server _ | .takeBatch server | .finishBatch server => some server
  | .handle id => stack.cluster.calls[id]?.map (·.callee)
  | .deliver id | .fail id => stack.cluster.calls[id]?.map (·.caller)
  | .start .. | .sendCommand _ | .sendSnapshot .. | .install _ | .snapshot .. | .restart _ => none

/-- A goroutine of Raft. -/
def raft (stack : Stack n) (action : Cluster.Action n Op) : Option (Stack n) :=
  match stack.actor action with
  | none => none
  | some server =>
    if stack.running server then (stack.cluster.step action).map fun cluster => { stack with cluster }
    else none

/-- A clerk, or a handler after `Start`. -/
def service (stack : Stack n) (action : System.Action n) : Option (Stack n) :=
  if action.aboveRaft then (stack.system.step action).map fun system => { stack with system } else none

/-- A handler up to `Start`, whose index and leadership are what the Raft server says. -/
def start (stack : Stack n) (id : Nat) : Option (Stack n) :=
  match stack.system.calls[id]? with
  | none => none
  | some call =>
    let (outcome, _) := (stack.cluster.node call.server).raft.start call.request.op
    match stack.system.start id outcome.isSome ((outcome.map Prod.fst).getD 0),
      stack.cluster.start call.server call.request.op with
    | some system, some cluster => some { stack with system, cluster }
    | _, _ => none

/-- The apply loop reads a command from `applyCh`. -/
def receive (stack : Stack n) (server : Fin n) : Option (Stack n) :=
  if (stack.received server).isSome ∨ !stack.running server then none
  else
    match (stack.cluster.node server).batch, stack.cluster.sendCommand server with
    | some (entry :: _, _), some cluster =>
      some {
        cluster
        system := stack.system.agree entry.index entry.command
        received := Function.update stack.received server (some (entry.index, entry.command)) }
    | _, _ => none

/-- The apply loop reads a snapshot from `applyCh`. -/
def sendSnapshot (stack : Stack n) (server : Fin n) (position : Nat) : Option (Stack n) :=
  if (stack.received server).isSome ∨ !stack.running server then none
  else (stack.cluster.sendSnapshot server position).map fun cluster => { stack with cluster }

/-- The apply loop handles the command it has read; when `takeSnapshot`, the Raft state has grown
past `maxraftstate`, and `Snapshot` is called unless the command was covered. -/
def handle (stack : Stack n) (server : Fin n) (takeSnapshot : Bool) : Option (Stack n) :=
  let replica := stack.system.replica server
  match stack.received server with
  | none => none
  | some (commandIndex, op) =>
    if !stack.running server then none
    else
      let system := stack.system.handle server commandIndex op takeSnapshot
        { replica with applied := max replica.applied commandIndex }
      let received := Function.update stack.received server none
      if takeSnapshot ∧ replica.server.lastIncludedIndex < commandIndex then
        (stack.cluster.snapshot server commandIndex).map fun cluster => { cluster, system, received }
      else some { stack with system, received }

/-- The apply loop passes the snapshot it has read to `CondInstallSnapshot`.  The bytes of the
message are those of a snapshot some server has taken at its index. -/
def install (stack : Stack n) (server : Fin n) (position : Nat) : Option (Stack n) :=
  let replica := stack.system.replica server
  if (stack.received server).isSome ∨ !stack.running server then none
  else
    match (stack.cluster.node server).service.installing, stack.cluster.install server with
    | some (snapshot, snapshotTerm, snapshotIndex), some cluster =>
      if ((stack.cluster.node server).raft.condInstallSnapshot snapshotTerm snapshotIndex snapshot).1 then
        match stack.system.snapshots[position]? with
        | none => none
        | some (index, store) =>
          if index = snapshotIndex then
            some { stack with
              cluster
              system := stack.system.setReplica server { replica with
                server := replica.server.installSnapshot snapshotIndex store
                applied := snapshotIndex
                persisted := some (snapshotIndex, store) } }
          else none
      else some { stack with cluster }
    | _, _ => none

/-- A crash of the process with its Raft server, and `StartKVServer` with the same persister. -/
def restart (stack : Stack n) (server : Fin n) : Stack n where
  cluster := stack.cluster.restart server
  system := stack.system.restart server
  received := Function.update stack.received server none

inductive Action (n : Nat) where
  | raft (action : Cluster.Action n Op)
  | service (action : System.Action n)
  | start (id : Nat)
  | receive (server : Fin n)
  | sendSnapshot (server : Fin n) (position : Nat)
  | handle (server : Fin n) (takeSnapshot : Bool)
  | install (server : Fin n) (position : Nat)
  | restart (server : Fin n)
deriving DecidableEq, Repr

def step (stack : Stack n) : Action n → Option (Stack n)
  | .raft action => stack.raft action
  | .service action => stack.service action
  | .start id => stack.start id
  | .receive server => stack.receive server
  | .sendSnapshot server position => stack.sendSnapshot server position
  | .handle server takeSnapshot => stack.handle server takeSnapshot
  | .install server position => stack.install server position
  | .restart server => some (stack.restart server)

def Reachable (stack : Stack n) : Prop := ∃ actions, Transitions.run step {} actions = some stack

end Stack

end ShardedKV.KvRaft
