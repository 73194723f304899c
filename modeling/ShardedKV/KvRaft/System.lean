import ShardedKV.KvRaft.Server
import ShardedKV.Linearizability.Retries
import ShardedKV.Services.Sessions

/-!
# Clerks and servers over one agreed log

Raft appears as what it delivers: any command given to `Start` may be committed, once, never or
several times, at whatever index; each process receives the committed commands in order, a
snapshot that another server took, or commands that an installed snapshot covers.  `Start`
may return any index, since the entry it placed there can be overwritten.
-/

namespace ShardedKV.KvRaft

open Services (Record Trace Clerk)
open Linearizability (Sequential)

/-! ## The map from keys to strings -/

/-- A method of a clerk with its arguments. -/
inductive Operation where
  | get (key : GoString)
  | put (key value : GoString)
  | append (key value : GoString)
deriving DecidableEq, Repr

namespace Operation

def isRead : Operation → Bool
  | get _ => true
  | _ => false

/-- The arguments a clerk sends. -/
def request (clientID seqNum : Nat) : Operation → Request
  | get key => .get { key, clientID, seqNum }
  | put key value => .putAppend { key, value, op := .put, clientID, seqNum }
  | append key value => .putAppend { key, value, op := .append, clientID, seqNum }

/-- What the loop of `Get` or `PutAppend` returns after a reply; `none` when it goes on. -/
def result (reply : Reply) : Operation → Option (Option GoString)
  | get _ =>
    match reply.err with
    | .ok => some (some reply.value)
    | .errNoKey => some (some [])
    | .errWrongLeader => none
  | _ =>
    match reply.err with
    | .ok => some none
    | _ => none

end Operation

def Op.operation (op : Op) : Operation :=
  match op.optype with
  | .get => .get op.key
  | .put => .put op.key op.value
  | .append => .append op.key op.value

/-- The sequential store: a key that was never written reads as the empty string. -/
def sequential : Sequential (GoString → GoString) Operation (Option GoString) where
  initial := fun _ => []
  step := fun contents operation =>
    match operation with
    | .get key => (contents, some (contents key))
    | .put key value => (Function.update contents key value, none)
    | .append key value => (Function.update contents key (contents key ++ value), none)

/-! ## The system -/

/-- The servers of a pair are written as numerals. -/
instance twoServers : @NeZero Nat Zero.ofOfNat0 2 := Nat.instNeZeroSucc

/-- How far the handler of a call has come. -/
inductive Phase where
  | sent
  | started (index : Nat)
  | waiting (index channel : Nat)
  | cleaning (index channel : Nat)
  | finished
deriving DecidableEq, Repr

structure Call (n : Nat) where
  server : Fin n
  request : Request
  phase : Phase := .sent
  /-- The process that runs the handler. -/
  incarnation : Nat := 0
  reply : Option Reply := none
deriving DecidableEq, Repr

structure Replica where
  server : KVServer := {}
  /-- The index up to which commands were delivered or are covered by the snapshot it started
  from or installed. -/
  applied : Nat := 0
  /-- The snapshot of the persister with its index. -/
  persisted : Option (Nat × Store) := none
  incarnation : Nat := 0
  panicked : Bool := false

structure System (n : Nat) where
  replica : Fin n → Replica := fun _ => {}
  clerk : Nat → Clerk Operation := fun _ => {}
  calls : List (Call n) := []
  /-- The commands given to `Start`. -/
  proposed : List Op := []
  /-- Every snapshot a server has given to its Raft. -/
  snapshots : List (Nat × Store) := []
  records : Trace Operation (Option GoString) Op := []

namespace System

variable {n : Nat}

/-- The agreed command sequence. -/
def log (system : System n) : List Op := system.records.committed

def setReplica (system : System n) (server : Fin n) (replica : Replica) : System n :=
  { system with replica := Function.update system.replica server replica }

def setClerk (system : System n) (client : Nat) (clerk : Clerk Operation) : System n :=
  { system with clerk := Function.update system.clerk client clerk }

def setCall (system : System n) (id : Nat) (call : Call n) : System n :=
  { system with calls := system.calls.set id call }

/-! ### The clerks -/

def invoke (system : System n) (client : Nat) (operation : Operation) : Option (System n) :=
  let clerk := system.clerk client
  if clerk.pending.isSome then none
  else some { system.setClerk client { clerk with pending := some operation } with
    records := system.records ++ [.invoke client clerk.seqNum operation] }

/-- The next round of the loop: a `Call` to some server. -/
def send (system : System n) (client : Nat) (server : Fin n) : Option (System n) :=
  let clerk := system.clerk client
  match clerk.pending, clerk.calling with
  | some operation, none =>
    some { system.setClerk client { clerk with calling := some system.calls.length } with
      calls := system.calls ++ [{ server, request := operation.request client clerk.seqNum }] }
  | _, _ => none

/-- The `Call` returns false. -/
def giveUp (system : System n) (client : Nat) : Option (System n) :=
  some (system.setClerk client { system.clerk client with calling := none })

/-- The `Call` returns the reply of the handler. -/
def receive (system : System n) (client : Nat) : Option (System n) :=
  let clerk := system.clerk client
  match clerk.pending, clerk.calling.bind (system.calls[·]?) with
  | some operation, some call =>
    match call.reply with
    | none => none
    | some reply =>
      match operation.result reply with
      | none => some (system.setClerk client { clerk with calling := none })
      | some ret => some { system.setClerk client { seqNum := clerk.seqNum + 1 } with
          records := system.records ++ [.respond client clerk.seqNum ret] }
  | _, _ => none

/-! ### The handlers -/

/-- The handler up to and including `Start`; `index` is what `Start` returns. -/
def start (system : System n) (id : Nat) (isLeader : Bool) (index : Nat) : Option (System n) :=
  match system.calls[id]? with
  | none => none
  | some call =>
    let replica := system.replica call.server
    if call.phase ≠ .sent ∨ replica.panicked then none
    else if isLeader then
      some { system.setCall id { call with phase := .started index, incarnation := replica.incarnation } with
        proposed := system.proposed ++ [call.request.op] }
    else some (system.setCall id { call with phase := .finished, reply := some { err := .errWrongLeader } })

/-- The process that runs the handler is still there. -/
def alive (system : System n) (call : Call n) : Bool :=
  (system.replica call.server).incarnation = call.incarnation ∧ !(system.replica call.server).panicked

/-- The critical section around `getWaitCh`. -/
def register (system : System n) (id : Nat) : Option (System n) :=
  match system.calls[id]? with
  | none => none
  | some call =>
    match call.phase with
    | .started index =>
      if !system.alive call then none
      else
        let replica := system.replica call.server
        let (server, channel) := replica.server.getWaitCh index
        some ((system.setReplica call.server { replica with server }).setCall id
          { call with phase := .waiting index channel })
    | _ => none

/-- The `select` of the handler ends with a timeout. -/
def timeout (system : System n) (id : Nat) : Option (System n) :=
  match system.calls[id]? with
  | none => none
  | some call =>
    match call.phase with
    | .waiting index channel =>
      if !system.alive call then none
      else some (system.setCall id
        { call with phase := .cleaning index channel, reply := some { err := .errWrongLeader } })
    | _ => none

/-- The `select` of the handler ends with a receive. -/
def answer (system : System n) (id : Nat) : Option (System n) :=
  match system.calls[id]? with
  | none => none
  | some call =>
    match call.phase with
    | .waiting index channel =>
      if !system.alive call then none
      else
        let replica := system.replica call.server
        match replica.server.receive channel with
        | none => none
        | some (server, received) =>
          some ((system.setReplica call.server { replica with server }).setCall id
            { call with phase := .cleaning index channel, reply := some (call.request.reply received) })
    | _ => none

def cleanup (system : System n) (id : Nat) : Option (System n) :=
  match system.calls[id]? with
  | none => none
  | some call =>
    match call.phase with
    | .cleaning index channel =>
      if !system.alive call then none
      else
        let replica := system.replica call.server
        let call := { call with phase := .finished }
        match replica.server.cleanup index channel with
        | none => some ((system.setReplica call.server { replica with panicked := true }).setCall id call)
        | some server => some ((system.setReplica call.server { replica with server }).setCall id call)
    | _ => none

/-! ### Raft and the apply loop -/

def commit (system : System n) (op : Op) : Option (System n) :=
  if op ∈ system.proposed then some { system with records := system.records ++ [.commit op] }
  else none

/-- The apply loop handles the command at an index.  When `takeSnapshot`, the Raft state has
grown past `maxraftstate`. -/
def handle (system : System n) (server : Fin n) (commandIndex : Nat) (op : Op) (takeSnapshot : Bool)
    (replica : Replica) : System n :=
  match replica.server.applyHandler commandIndex op with
  | none => system.setReplica server replica
  | some (kv, appliedOp) =>
    let replica := if takeSnapshot then { replica with persisted := some (commandIndex, kv.store) } else replica
    let system := if takeSnapshot then
        { system with snapshots := system.snapshots ++ [(commandIndex, kv.store)] } else system
    match kv.sendApplied commandIndex appliedOp with
    | none => system.setReplica server { replica with panicked := true }
    | some kv => system.setReplica server { replica with server := kv }

/-- The next committed command arrives. -/
def deliver (system : System n) (server : Fin n) (takeSnapshot : Bool) : Option (System n) :=
  let replica := system.replica server
  match system.log[replica.applied]? with
  | none => none
  | some op =>
    if replica.panicked then none
    else some (system.handle server (replica.applied + 1) op takeSnapshot
      { replica with applied := replica.applied + 1 })

/-- A command that the installed snapshot covers arrives from an older batch. -/
def redeliver (system : System n) (server : Fin n) (commandIndex : Nat) (takeSnapshot : Bool) :
    Option (System n) :=
  let replica := system.replica server
  match system.log[commandIndex - 1]? with
  | none => none
  | some op =>
    if replica.panicked ∨ commandIndex = 0 ∨ replica.server.lastIncludedIndex < commandIndex then none
    else some (system.handle server commandIndex op takeSnapshot replica)

/-- A snapshot message that `CondInstallSnapshot` accepts: it is ahead of what was delivered.
A refused one changes nothing. -/
def install (system : System n) (server : Fin n) (position : Nat) : Option (System n) :=
  let replica := system.replica server
  match system.snapshots[position]? with
  | none => none
  | some (snapshotIndex, snapshot) =>
    if replica.panicked ∨ snapshotIndex ≤ replica.applied then none
    else some (system.setReplica server { replica with
      server := replica.server.installSnapshot snapshotIndex snapshot,
      applied := snapshotIndex,
      persisted := some (snapshotIndex, snapshot) })

/-- A crash, or the end of a process that panicked, and `StartKVServer` with the same persister. -/
def restart (system : System n) (server : Fin n) : System n :=
  let replica := system.replica server
  system.setReplica server {
    server := .startKVServer (replica.persisted.map Prod.snd),
    applied := (replica.persisted.map Prod.fst).getD 0,
    persisted := replica.persisted,
    incarnation := replica.incarnation + 1 }

inductive Action (n : Nat) where
  | invoke (client : Nat) (operation : Operation)
  | send (client : Nat) (server : Fin n)
  | giveUp (client : Nat)
  | receive (client : Nat)
  | start (id : Nat) (isLeader : Bool) (index : Nat)
  | register (id : Nat)
  | timeout (id : Nat)
  | answer (id : Nat)
  | cleanup (id : Nat)
  | commit (op : Op)
  | deliver (server : Fin n) (takeSnapshot : Bool)
  | redeliver (server : Fin n) (commandIndex : Nat) (takeSnapshot : Bool)
  | install (server : Fin n) (position : Nat)
  | restart (server : Fin n)
deriving DecidableEq, Repr

def step (system : System n) : Action n → Option (System n)
  | .invoke client operation => system.invoke client operation
  | .send client server => system.send client server
  | .giveUp client => system.giveUp client
  | .receive client => system.receive client
  | .start id isLeader index => system.start id isLeader index
  | .register id => system.register id
  | .timeout id => system.timeout id
  | .answer id => system.answer id
  | .cleanup id => system.cleanup id
  | .commit op => system.commit op
  | .deliver server takeSnapshot => system.deliver server takeSnapshot
  | .redeliver server commandIndex takeSnapshot => system.redeliver server commandIndex takeSnapshot
  | .install server position => system.install server position
  | .restart server => some (system.restart server)

def run (system : System n) : List (Action n) → Option (System n)
  | [] => some system
  | action :: actions => (system.step action).bind (fun next => next.run actions)

def Reachable (system : System n) : Prop := ∃ actions, run {} actions = some system

/-- The end of a run from the initial system, if each of its steps can be taken. -/
def after (actions : List (Action n)) : System n := (run {} actions).getD {}

theorem reachable_after (actions : List (Action n)) : Reachable (after actions) := by
  unfold after
  cases ran : run {} actions with
  | none => exact ⟨[], rfl⟩
  | some system => exact ⟨actions, ran⟩

end System

end ShardedKV.KvRaft
