import ShardedKV.Raft.Server

/-!
# A cluster of Raft servers

Servers, the remote calls between them, and the service above each server.  Every step is
one critical section of `rf.mu`, one message on an `applyCh`, or a crash.  A call runs its
handler at most once and returns at most once; that it is lost or late is the absence of
the corresponding step.
-/

namespace ShardedKV.Raft

/-! The servers of a cluster of two or three are written as numerals. -/

instance twoServers : @NeZero Nat Zero.ofOfNat0 2 := Nat.instNeZeroSucc

instance threeServers : @NeZero Nat Zero.ofOfNat0 3 := Nat.instNeZeroSucc

inductive Request (n : Nat) (Command : Type) where
  | requestVote (args : RequestVoteArgs n)
  | appendEntries (args : AppendEntriesArgs n Command)
  | installSnapshot (args : InstallSnapshotArgs n Command)
deriving DecidableEq, Repr

inductive Reply where
  | requestVote (reply : RequestVoteReply)
  | appendEntries (reply : AppendEntriesReply)
  | installSnapshot (reply : InstallSnapshotReply)
deriving DecidableEq, Repr

/-- One `Call` of labrpc, from sending the request until it returns to its caller. -/
structure Call (n : Nat) (Command : Type) where
  caller : Fin n
  /-- The process that made the call; a restarted server never sees its reply. -/
  incarnation : Nat
  callee : Fin n
  request : Request n Command
  /-- How often the goroutine of `candidateRequestVote` has already failed. -/
  retry : Nat := 0
  /-- The reply, once the handler has run. -/
  reply : Option Reply := none
  returned : Bool := false
deriving DecidableEq, Repr

/-- The service that reads `applyCh`: it skips commands that a snapshot it installed covers. -/
structure Service (Command : Type) where
  applied : List Command
  lastIncludedIndex : Nat := 0
  /-- A snapshot message it has received and not yet passed to `CondInstallSnapshot`. -/
  installing : Option (Snapshot Command × Nat × Nat) := none
deriving DecidableEq, Repr

def Service.receive {Command : Type} (service : Service Command) : ApplyMsg Command → Service Command
  | .command command commandIndex =>
    if commandIndex ≤ service.lastIncludedIndex then service
    else { service with applied := service.applied ++ [command] }
  | .snapshot snapshot snapshotTerm snapshotIndex =>
    { service with installing := some (snapshot, snapshotTerm, snapshotIndex) }

/-- One process: the Raft object, what its goroutines are sending on `applyCh`, its service. -/
structure Node (n : Nat) (Command : Type) where
  raft : Raft n Command
  incarnation : Nat
  /-- The batch `applyChecker` is sending, with the commit index it will record. -/
  batch : Option (List (LogEntry Command) × Nat) := none
  /-- The messages of the goroutines started by `InstallSnapshot`. -/
  snapshotSends : List (ApplyMsg Command) := []
  service : Service Command

/-- `sent`, `started` and `taken` record every message on an `applyCh`, every successful
`Start` and every snapshot taken by a service, from the beginning of the run. -/
structure Cluster (n : Nat) (Command : Type) where
  node : Fin n → Node n Command
  calls : List (Call n Command) := []
  sent : List (Fin n × ApplyMsg Command) := []
  started : List (Nat × Nat × Command) := []
  taken : List (Fin n × Nat × List Command) := []

variable {n : Nat} {Command : Type}

def Node.boot [Inhabited Command] (me : Fin n) (persister : Persister n Command) (incarnation : Nat) :
    Node n Command where
  raft := make me persister
  incarnation := incarnation
  -- the service starts from the snapshot, and does not know its index
  service := { applied := persister.snapshot.data }

namespace Cluster

def initial [Inhabited Command] : Cluster n Command where
  node := fun me => Node.boot me {} 0

def setNode (cluster : Cluster n Command) (server : Fin n) (node : Node n Command) :
    Cluster n Command :=
  { cluster with node := Function.update cluster.node server node }

def setRaft (cluster : Cluster n Command) (server : Fin n) (raft : Raft n Command) :
    Cluster n Command :=
  cluster.setNode server { cluster.node server with raft := raft }

def call (cluster : Cluster n Command) (caller callee : Fin n) (request : Request n Command) :
    Call n Command where
  caller := caller
  incarnation := (cluster.node caller).incarnation
  callee := callee
  request := request

/-- `ticker`, when the election timeout has passed. -/
def electionTimeout (cluster : Cluster n Command) (server : Fin n) : Option (Cluster n Command) :=
  let rf := (cluster.node server).raft
  if rf.state = .leader then none
  else
    let rf := rf.candidateState
    let requests := ((List.finRange n).filter (· ≠ server)).map
      fun peer => cluster.call server peer (.requestVote rf.candidateRequestVote)
    some { cluster.setRaft server rf with calls := cluster.calls ++ requests }

/-- A goroutine of `leaderAppendEntries`, started by `heartBeat` or `Start`. -/
def replicate (cluster : Cluster n Command) (server peer : Fin n) : Option (Cluster n Command) :=
  if server = peer then none
  else
    match (cluster.node server).raft.leaderAppendEntries peer with
    | (rf, .appendEntries args) =>
      some { cluster.setRaft server rf with
        calls := cluster.calls ++ [cluster.call server peer (.appendEntries args)] }
    | (rf, .installSnapshot args) =>
      some { cluster.setRaft server rf with
        calls := cluster.calls ++ [cluster.call server peer (.installSnapshot args)] }
    | (rf, .nothing) => some (cluster.setRaft server rf)

/-- The callee runs the handler of a call. -/
def handle (cluster : Cluster n Command) (id : Nat) : Option (Cluster n Command) :=
  match cluster.calls[id]? with
  | none => none
  | some call =>
    if call.reply.isSome then none
    else
      let node := cluster.node call.callee
      match call.request with
      | .requestVote args =>
        let (rf, reply) := node.raft.requestVote args
        some { cluster.setRaft call.callee rf with
          calls := cluster.calls.set id { call with reply := some (.requestVote reply) } }
      | .appendEntries args =>
        let (rf, reply) := node.raft.appendEntries args
        some { cluster.setRaft call.callee rf with
          calls := cluster.calls.set id { call with reply := some (.appendEntries reply) } }
      | .installSnapshot args =>
        let (rf, reply, message) := node.raft.installSnapshot args
        some { cluster.setNode call.callee { node with
            raft := rf, snapshotSends := node.snapshotSends ++ message.toList } with
          calls := cluster.calls.set id { call with reply := some (.installSnapshot reply) } }

/-- The caller's goroutine continues with the reply. -/
def deliver (cluster : Cluster n Command) (id : Nat) : Option (Cluster n Command) :=
  match cluster.calls[id]? with
  | none => none
  | some call =>
    let node := cluster.node call.caller
    -- the goroutines of a crashed process are gone
    if call.returned ∨ call.incarnation ≠ node.incarnation then none
    else
      let calls := cluster.calls.set id { call with returned := true }
      match call.request, call.reply with
      | .requestVote args, some (.requestVote reply) =>
        some { cluster.setRaft call.caller (node.raft.handleRequestVoteReply args reply) with
          calls := calls }
      | .appendEntries args, some (.appendEntries reply) =>
        some { cluster.setRaft call.caller
            (node.raft.handleAppendEntriesReply call.callee args reply) with calls := calls }
      | .installSnapshot args, some (.installSnapshot reply) =>
        some { cluster.setRaft call.caller
            (node.raft.handleInstallSnapshotReply call.callee args reply) with calls := calls }
      | _, _ => none

/-- `Call` returns false; `candidateRequestVote` sends its request again, up to three times. -/
def fail (cluster : Cluster n Command) (id : Nat) : Option (Cluster n Command) :=
  match cluster.calls[id]? with
  | none => none
  | some call =>
    if call.returned ∨ call.incarnation ≠ (cluster.node call.caller).incarnation then none
    else
      let calls := cluster.calls.set id { call with returned := true }
      match call.request with
      | .requestVote _ =>
        -- the handler may have run: only the reply is lost
        if call.retry + 1 ≤ 3 then
          some { cluster with
            calls := calls ++ [{ call with retry := call.retry + 1, reply := none }] }
        else some { cluster with calls := calls }
      | _ => some { cluster with calls := calls }

def start (cluster : Cluster n Command) (server : Fin n) (command : Command) :
    Option (Cluster n Command) :=
  match (cluster.node server).raft.start command with
  | (some (index, term), rf) =>
    some { cluster.setRaft server rf with
      started := cluster.started ++ [(index, term, command)] }
  | (none, rf) => some (cluster.setRaft server rf)

/-- `applyChecker` copies a batch. -/
def takeBatch (cluster : Cluster n Command) (server : Fin n) : Option (Cluster n Command) :=
  let node := cluster.node server
  match node.batch, node.raft.applyBatch with
  | none, some batch => some (cluster.setNode server { node with batch := some batch })
  | _, _ => none

/-- `applyChecker` sends the next entry of its batch and the service receives it. -/
def sendCommand (cluster : Cluster n Command) (server : Fin n) : Option (Cluster n Command) :=
  let node := cluster.node server
  match node.batch, node.service.installing with
  -- a service that is about to install a snapshot does not read its channel
  | some (entry :: entries, commitIndex), none =>
    let message := ApplyMsg.command entry.command entry.index
    some { cluster.setNode server { node with
        batch := some (entries, commitIndex), service := node.service.receive message } with
      sent := cluster.sent ++ [(server, message)] }
  | _, _ => none

/-- `applyChecker` has sent its batch and records the new `lastApplied`. -/
def finishBatch (cluster : Cluster n Command) (server : Fin n) : Option (Cluster n Command) :=
  let node := cluster.node server
  match node.batch with
  | some ([], commitIndex) =>
    some (cluster.setNode server { node with raft := node.raft.finishApply commitIndex, batch := none })
  | _ => none

/-- A goroutine of `InstallSnapshot` sends its message and the service receives it. -/
def sendSnapshot (cluster : Cluster n Command) (server : Fin n) (position : Nat) :
    Option (Cluster n Command) :=
  let node := cluster.node server
  match node.snapshotSends[position]?, node.service.installing with
  | some message, none =>
    some { cluster.setNode server { node with
        snapshotSends := node.snapshotSends.eraseIdx position
        service := node.service.receive message } with
      sent := cluster.sent ++ [(server, message)] }
  | _, _ => none

/-- The service calls `CondInstallSnapshot` and, if told so, switches to the snapshot. -/
def install [Inhabited Command] (cluster : Cluster n Command) (server : Fin n) :
    Option (Cluster n Command) :=
  let node := cluster.node server
  match node.service.installing with
  | none => none
  | some (snapshot, snapshotTerm, snapshotIndex) =>
    let service :=
      match node.raft.condInstallSnapshot snapshotTerm snapshotIndex snapshot with
      | (true, _) => { applied := snapshot.data, lastIncludedIndex := snapshotIndex }
      | (false, _) => { node.service with installing := none }
    some (cluster.setNode server { node with
      raft := (node.raft.condInstallSnapshot snapshotTerm snapshotIndex snapshot).2
      service := service })

/-- The service calls `Snapshot` with an index it has applied and its state at that index. -/
def snapshot [Inhabited Command] (cluster : Cluster n Command) (server : Fin n) (index : Nat) :
    Option (Cluster n Command) :=
  let node := cluster.node server
  if index ≤ node.service.applied.length then
    let data := node.service.applied.take index
    some { cluster.setRaft server (node.raft.snapshot index data) with
      taken := cluster.taken ++ [(server, index, data)] }
  else none

/-- A crash, and the restart through `Make` from what the persister holds. -/
def restart [Inhabited Command] (cluster : Cluster n Command) (server : Fin n) : Cluster n Command :=
  let node := cluster.node server
  cluster.setNode server (Node.boot server node.raft.persister (node.incarnation + 1))

inductive Action (n : Nat) (Command : Type) where
  | electionTimeout (server : Fin n)
  | replicate (server peer : Fin n)
  | handle (id : Nat)
  | deliver (id : Nat)
  | fail (id : Nat)
  | start (server : Fin n) (command : Command)
  | takeBatch (server : Fin n)
  | sendCommand (server : Fin n)
  | finishBatch (server : Fin n)
  | sendSnapshot (server : Fin n) (position : Nat)
  | install (server : Fin n)
  | snapshot (server : Fin n) (index : Nat)
  | restart (server : Fin n)
deriving DecidableEq, Repr

def step [Inhabited Command] (cluster : Cluster n Command) : Action n Command → Option (Cluster n Command)
  | .electionTimeout server => cluster.electionTimeout server
  | .replicate server peer => cluster.replicate server peer
  | .handle id => cluster.handle id
  | .deliver id => cluster.deliver id
  | .fail id => cluster.fail id
  | .start server command => cluster.start server command
  | .takeBatch server => cluster.takeBatch server
  | .sendCommand server => cluster.sendCommand server
  | .finishBatch server => cluster.finishBatch server
  | .sendSnapshot server position => cluster.sendSnapshot server position
  | .install server => cluster.install server
  | .snapshot server index => cluster.snapshot server index
  | .restart server => some (cluster.restart server)

/-- Every step of a run starts in the state the one before ended in. -/
def run [Inhabited Command] (cluster : Cluster n Command) : List (Action n Command) → Option (Cluster n Command)
  | [] => some cluster
  | action :: actions => (cluster.step action).bind (fun next => next.run actions)

def Steps [Inhabited Command] (before after : Cluster n Command) : Prop :=
  ∃ actions, before.run actions = some after

def Reachable [Inhabited Command] (cluster : Cluster n Command) : Prop := Steps initial cluster

end Cluster

end ShardedKV.Raft
