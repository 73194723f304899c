import ShardedKV.ShardCtrler.Server
import ShardedKV.Services.Sessions
import ShardedKV.Services.WaitChannels

/-!
# Clerks and replicas of the controller

`RequestHandler` and `applyHandler` of `shardctrler/server.go` with the loop of `shardctrler/client.go`,
over one agreed log: any command given to `Start` may be committed, once, never or several times, and
every process receives the committed commands in order from the first, since the controller takes no
snapshots.  `Start` may return any index.
-/

namespace ShardedKV.ShardCtrler

open Services (Record Trace Clerk WaitChannels)

/-- The arguments of a request are those of the `Op` the handler makes of them. -/
abbrev CommandArgs := Op

inductive Err where
  | ok
  | errWrongLeader
deriving DecidableEq, Repr

structure CommandReply where
  wrongLeader : Bool := false
  err : Err
  config : Config := {}
deriving DecidableEq

def CommandReply.notLeader : CommandReply := { wrongLeader := true, err := .errWrongLeader }

/-- `Num`, which only a `Query` sets. -/
def Args.num : Args → Int
  | .query num => num
  | _ => 0

/-- What the loop of `Request` and the method of the clerk around it return after a reply; `none` when
the loop goes on. -/
def Args.result (reply : CommandReply) (args : Args) : Option (Option Config) :=
  if reply.wrongLeader then none
  else
    match args with
    | .query _ => some (some reply.config)
    | _ => some none

/-! ## Processes and calls -/

structure Replica where
  sc : State := {}
  waitChan : WaitChannels Op := {}
  /-- How many committed commands were delivered to this process. -/
  applied : Nat := 0
  incarnation : Nat := 0
  panicked : Bool := false

/-- The next committed command.  The channel of its index gets the command while the lock is held. -/
def Replica.applyHandler (replica : Replica) (op : Op) : Replica :=
  let commandIndex := replica.applied + 1
  match replica.sc.applyHandler op with
  | none => { replica with panicked := true }
  | some sc =>
    let replica := { replica with sc, applied := commandIndex }
    match replica.waitChan.waitChan commandIndex with
    | none => replica
    | some channel =>
      match replica.waitChan.send channel op with
      | none => { replica with panicked := true }
      | some waitChan => { replica with waitChan }

/-- How far the handler of a call has come. -/
inductive Phase where
  | sent
  | started (index : Nat)
  | waiting (index channel : Nat)
  /-- It has received the command of a `Query` and has yet to lock the mutex. -/
  | reading (index channel : Nat)
  | cleaning (index channel : Nat)
  | finished
deriving DecidableEq, Repr

structure Call (n : Nat) where
  server : Fin n
  args : CommandArgs
  phase : Phase := .sent
  /-- The process that runs the handler. -/
  incarnation : Nat := 0
  reply : Option CommandReply := none
deriving DecidableEq

/-! ## `RequestHandler` after `Start` -/

namespace Call

variable {n : Nat}

/-- The critical section around `getWaitCh`. -/
def register (call : Call n) (replica : Replica) : Option (Replica × Call n) :=
  match call.phase with
  | .started index =>
    let (waitChan, channel) := replica.waitChan.getWaitCh index
    some ({ replica with waitChan }, { call with phase := .waiting index channel })
  | _ => none

/-- The `select` ends with the timer. -/
def timeout (call : Call n) (replica : Replica) : Option (Replica × Call n) :=
  match call.phase with
  | .waiting index channel =>
    some (replica, { call with phase := .cleaning index channel, reply := some .notLeader })
  | _ => none

/-- What the handler does with what it has received. -/
def received (call : Call n) (index channel : Nat) : WaitChannels.Received Op → Call n
  | .closed => { call with phase := .cleaning index channel, reply := some .notLeader }
  | .message applyOp =>
    if applyOp.seqNum = call.args.seqNum ∧ applyOp.clientID = call.args.clientID then
      match applyOp.args with
      | .query _ => { call with phase := .reading index channel }
      | _ => { call with phase := .cleaning index channel, reply := some { err := .ok } }
    else { call with phase := .cleaning index channel, reply := some .notLeader }

/-- The `select` ends with a receive. -/
def answer (call : Call n) (replica : Replica) : Option (Replica × Call n) :=
  match call.phase with
  | .waiting index channel =>
    (replica.waitChan.receive channel).map fun (waitChan, message) =>
      ({ replica with waitChan }, call.received index channel message)
  | _ => none

/-- The critical section around `getConfig`: it reads the configurations the process has by now. -/
def readConfig (call : Call n) (replica : Replica) : Option (Replica × Call n) :=
  match call.phase with
  | .reading index channel =>
    match replica.sc.configs.getConfig call.args.args.num with
    | none => some ({ replica with panicked := true }, { call with phase := .finished })
    | some config =>
      some (replica, { call with phase := .cleaning index channel, reply := some { err := .ok, config } })
  | _ => none

/-- The goroutine that closes the channel and deletes the index. -/
def cleanup (call : Call n) (replica : Replica) : Option (Replica × Call n) :=
  match call.phase with
  | .cleaning index channel =>
    let call := { call with phase := .finished }
    match replica.waitChan.close index channel with
    | none => some ({ replica with panicked := true }, call)
    | some waitChan => some ({ replica with waitChan }, call)
  | _ => none

/-- A part of the handler that other goroutines see as one step. -/
inductive Part where
  | register
  | timeout
  | answer
  | readConfig
  | cleanup
deriving DecidableEq, Repr

def proceed (call : Call n) : Part → Replica → Option (Replica × Call n)
  | .register => call.register
  | .timeout => call.timeout
  | .answer => call.answer
  | .readConfig => call.readConfig
  | .cleanup => call.cleanup

end Call

/-! ## The system -/

structure System (n : Nat) where
  replica : Fin n → Replica := fun _ => {}
  clerk : Nat → Clerk Args := fun _ => {}
  calls : List (Call n) := []
  /-- The commands given to `Start`. -/
  proposed : List Op := []
  records : Trace Args (Option Config) Op := []

namespace System

variable {n : Nat}

/-- The agreed command sequence. -/
def log (system : System n) : List Op := system.records.committed

def setReplica (system : System n) (server : Fin n) (replica : Replica) : System n :=
  { system with replica := Function.update system.replica server replica }

def setClerk (system : System n) (client : Nat) (clerk : Clerk Args) : System n :=
  { system with clerk := Function.update system.clerk client clerk }

def setCall (system : System n) (id : Nat) (call : Call n) : System n :=
  { system with calls := system.calls.set id call }

/-! ### The clerks -/

def invoke (system : System n) (client : Nat) (args : Args) : Option (System n) :=
  let clerk := system.clerk client
  if clerk.pending.isSome then none
  else some { system.setClerk client { clerk with pending := some args } with
    records := system.records ++ [.invoke client clerk.seqNum args] }

/-- The next round of the loop: a `Call` to some server. -/
def send (system : System n) (client : Nat) (server : Fin n) : Option (System n) :=
  let clerk := system.clerk client
  match clerk.pending, clerk.calling with
  | some args, none =>
    some { system.setClerk client { clerk with calling := some system.calls.length } with
      calls := system.calls ++ [{ server, args := { args, seqNum := clerk.seqNum, clientID := client } }] }
  | _, _ => none

/-- The `Call` returns false. -/
def giveUp (system : System n) (client : Nat) : Option (System n) :=
  some (system.setClerk client { system.clerk client with calling := none })

/-- The `Call` returns the reply of the handler. -/
def receive (system : System n) (client : Nat) : Option (System n) :=
  let clerk := system.clerk client
  match clerk.pending, clerk.calling.bind (system.calls[·]?) with
  | some args, some call =>
    match call.reply with
    | none => none
    | some reply =>
      match args.result reply with
      | none => some (system.setClerk client { clerk with calling := none })
      | some ret => some { system.setClerk client { seqNum := clerk.seqNum + 1 } with
          records := system.records ++ [.respond client clerk.seqNum ret] }
  | _, _ => none

/-! ### The handlers -/

/-- The handler up to and including `Start`; `index` is what `Start` returns. -/
def start (system : System n) (id : Nat) (isLeader : Bool) (index : Nat) : Option (System n) :=
  match system.calls[id]? with
  | none => none
  | some call =>
    let replica := system.replica call.server
    if call.phase ≠ .sent ∨ replica.panicked then none
    else if isLeader then
      some { system.setCall id { call with phase := .started index, incarnation := replica.incarnation } with
        proposed := system.proposed ++ [call.args] }
    else some (system.setCall id { call with phase := .finished, reply := some .notLeader })

/-- The process that runs the handler is still there. -/
def alive (system : System n) (call : Call n) : Bool :=
  (system.replica call.server).incarnation = call.incarnation ∧ !(system.replica call.server).panicked

def proceed (system : System n) (id : Nat) (part : Call.Part) : Option (System n) :=
  match system.calls[id]? with
  | none => none
  | some call =>
    if !system.alive call then none
    else (call.proceed part (system.replica call.server)).map fun (replica, continued) =>
      (system.setReplica call.server replica).setCall id continued

/-! ### Raft and the apply loop -/

def commit (system : System n) (op : Op) : Option (System n) :=
  if op ∈ system.proposed then some { system with records := system.records ++ [.commit op] }
  else none

def deliver (system : System n) (server : Fin n) : Option (System n) :=
  let replica := system.replica server
  match system.log[replica.applied]? with
  | none => none
  | some op =>
    if replica.panicked then none
    else some (system.setReplica server (replica.applyHandler op))

/-- A crash, or the end of a process that panicked, and `StartServer`: the log is replayed from its start. -/
def restart (system : System n) (server : Fin n) : System n :=
  system.setReplica server { incarnation := (system.replica server).incarnation + 1 }

inductive Action (n : Nat) where
  | invoke (client : Nat) (args : Args)
  | send (client : Nat) (server : Fin n)
  | giveUp (client : Nat)
  | receive (client : Nat)
  | start (id : Nat) (isLeader : Bool) (index : Nat)
  | proceed (id : Nat) (part : Call.Part)
  | commit (op : Op)
  | deliver (server : Fin n)
  | restart (server : Fin n)
deriving DecidableEq, Repr

def step (system : System n) : Action n → Option (System n)
  | .invoke client args => system.invoke client args
  | .send client server => system.send client server
  | .giveUp client => system.giveUp client
  | .receive client => system.receive client
  | .start id isLeader index => system.start id isLeader index
  | .proceed id part => system.proceed id part
  | .commit op => system.commit op
  | .deliver server => system.deliver server
  | .restart server => some (system.restart server)

def run (system : System n) : List (Action n) → Option (System n)
  | [] => some system
  | action :: actions => (system.step action).bind (fun next => next.run actions)

def Reachable (system : System n) : Prop := ∃ actions, run {} actions = some system

/-- The end of a run from the initial system, if each of its steps can be taken. -/
def after (actions : List (Action n)) : System n := (run {} actions).getD {}

theorem reachable_after (actions : List (Action n)) : Reachable (after actions) := by
  unfold after
  cases ran : run {} actions with
  | none => exact ⟨[], rfl⟩
  | some system => exact ⟨actions, ran⟩

end System

end ShardedKV.ShardCtrler
