import ShardedKV.ShardKV.Server

/-!
# Clerks, groups and the controller

Each group's Raft appears as what it delivers to the replicas of the group, as in `kvraft`.  The
loops that pull and confirm shards read what they need under `kv.mu`, release it, and read
`kv.config.Num` again when they build the arguments of a call; each of these is a step of its own.
The controller is the sequence of configurations it hands out.
-/

namespace ShardedKV.ShardKV

open Services (Record Trace Clerk WaitChannels)
open ShardCtrler (Shard Config ServerName NShards)
open KvRaft (Op Request Operation)

/-- The configurations by number, as `Query` returns them. -/
structure Controller where
  config : Nat → Config
  num_eq : ∀ number, (config number).num = number

/-- What the loop of `Get` or `PutAppend` returns after a reply; `none` when it goes on. -/
def result (reply : Reply) : Operation → Option (Option GoString)
  | .get _ => if reply.err = .ok ∨ reply.err = .errNoKey then some (some reply.value) else none
  | _ => if reply.err = .ok then some none else none

/-! ## The system -/

/-- How far the handler of a client's call has come. -/
inductive Phase where
  | sent
  | started (index : Nat)
  | checked (index : Nat)
  | waiting (index channel : Nat)
  | cleaning (index channel : Nat)
  | finished
deriving DecidableEq, Repr

structure Call where
  gid : Int
  server : ServerName
  request : Request
  phase : Phase := .sent
  /-- The process that runs the handler. -/
  incarnation : Nat := 0
  reply : Option Reply := none
deriving DecidableEq, Repr

/-- One round of `ShardsRequester` or `ShardsConfirm`: the shards still to be handled, and the
configuration whose owners and servers were copied. -/
structure Round where
  gid : Int
  server : ServerName
  incarnation : Nat
  confirming : Bool
  shards : List Shard
  config : Config

/-- A goroutine of a round, with the servers it has not tried and the reply of the first. -/
structure Exchange (Reply : Type) where
  gid : Int
  server : ServerName
  incarnation : Nat
  configNum : Nat
  shardIndex : Shard
  targetGID : Int
  servers : List ServerName
  reply : Option Reply := none

structure Replica where
  server : Server := {}
  /-- The channel and the message that the apply loop is sending. -/
  sending : Option (Nat × Command) := none
  /-- The index up to which commands were delivered or are covered by the snapshot it started
  from or installed. -/
  applied : Nat := 0
  /-- The snapshot of the persister with its index. -/
  persisted : Option (Nat × GroupState) := none
  incarnation : Nat := 0
  /-- The process has panicked, or holds `kv.mu` for ever. -/
  stopped : Bool := false

structure System where
  replica : Int → ServerName → Replica := fun _ _ => {}
  clerk : Nat → Clerk Operation := fun _ => {}
  calls : List Call := []
  rounds : List Round := []
  pulls : List (Exchange ShardRequestReply) := []
  confirms : List (Exchange ShardConfirmReply) := []
  /-- The commands given to `Start` in each group. -/
  proposed : Int → List Command := fun _ => []
  /-- Every snapshot a server of the group has given to its Raft. -/
  snapshots : Int → List (Nat × GroupState) := fun _ => []
  records : Trace Operation (Option GoString) (Int × Command) := []

/-- The entries of one group among those of all groups. -/
def entriesOf (gid : Int) (entries : List (Int × Command)) : List Command :=
  entries.filterMap fun entry => if entry.1 = gid then some entry.2 else none

namespace System

/-- The agreed command sequence of a group. -/
def log (system : System) (gid : Int) : List Command := entriesOf gid system.records.committed

def setReplica (system : System) (gid : Int) (server : ServerName) (replica : Replica) : System :=
  { system with
    replica := Function.update system.replica gid (Function.update (system.replica gid) server replica) }

def setClerk (system : System) (client : Nat) (clerk : Clerk Operation) : System :=
  { system with clerk := Function.update system.clerk client clerk }

def setCall (system : System) (id : Nat) (call : Call) : System :=
  { system with calls := system.calls.set id call }

def setRound (system : System) (id : Nat) (round : Round) : System :=
  { system with rounds := system.rounds.set id round }

def setPull (system : System) (id : Nat) (pull : Exchange ShardRequestReply) : System :=
  { system with pulls := system.pulls.set id pull }

def setConfirm (system : System) (id : Nat) (confirm : Exchange ShardConfirmReply) : System :=
  { system with confirms := system.confirms.set id confirm }

/-- `Start` in a group. -/
def propose (system : System) (gid : Int) (command : Command) : System :=
  { system with proposed := Function.update system.proposed gid (system.proposed gid ++ [command]) }

/-- The process is still there. -/
def alive (system : System) (gid : Int) (server : ServerName) (incarnation : Nat) : Bool :=
  (system.replica gid server).incarnation = incarnation ∧ !(system.replica gid server).stopped

/-! ### The clerks -/

def invoke (system : System) (client : Nat) (operation : Operation) : Option System :=
  let clerk := system.clerk client
  if clerk.pending.isSome then none
  else some { system.setClerk client { clerk with pending := some operation } with
    records := system.records ++ [.invoke client clerk.seqNum operation] }

/-- A `Call` to a server of the group that some configuration names. -/
def send (system : System) (client : Nat) (gid : Int) (server : ServerName) : Option System :=
  let clerk := system.clerk client
  match clerk.pending, clerk.calling with
  | some operation, none =>
    some { system.setClerk client { clerk with calling := some system.calls.length } with
      calls := system.calls ++ [{ gid, server, request := operation.request client clerk.seqNum }] }
  | _, _ => none

/-- The `Call` returns false. -/
def giveUp (system : System) (client : Nat) : Option System :=
  some (system.setClerk client { system.clerk client with calling := none })

/-- The `Call` returns the reply of the handler. -/
def receive (system : System) (client : Nat) : Option System :=
  let clerk := system.clerk client
  match clerk.pending, clerk.calling.bind (system.calls[·]?) with
  | some operation, some call =>
    match call.reply with
    | none => none
    | some reply =>
      match result reply operation with
      -- the clerk tries the next server, or another group
      | none => some (system.setClerk client { clerk with calling := none })
      | some ret => some { system.setClerk client { seqNum := clerk.seqNum + 1 } with
          records := system.records ++ [.respond client clerk.seqNum ret] }
  | _, _ => none

/-! ### The handlers of clients' calls -/

/-- The handler up to and including `Start`; `index` is what `Start` returns. -/
def start (system : System) (id : Nat) (isLeader : Bool) (index : Nat) : Option System :=
  match system.calls[id]? with
  | none => none
  | some call =>
    let replica := system.replica call.gid call.server
    if call.phase ≠ .sent ∨ replica.stopped then none
    else if !isLeader then
      some (system.setCall id { call with phase := .finished, reply := some { err := .errWrongLeader } })
    else if replica.server.kv.isWrongGroup call.gid (key2shard call.request.op.key) then
      some (system.setCall id { call with phase := .finished, reply := some { err := .errWrongGroup } })
    else
      some ((system.setCall id
        { call with phase := .started index, incarnation := replica.incarnation }).propose call.gid
          (.kvOperation call.request.op))

/-- The second `isWrongGroup`. -/
def recheck (system : System) (id : Nat) : Option System :=
  match system.calls[id]? with
  | none => none
  | some call =>
    match call.phase with
    | .started index =>
      if !system.alive call.gid call.server call.incarnation then none
      else if (system.replica call.gid call.server).server.kv.isWrongGroup call.gid
          (key2shard call.request.op.key) then
        some (system.setCall id { call with phase := .finished, reply := some { err := .errWrongGroup } })
      else some (system.setCall id { call with phase := .checked index })
    | _ => none

/-- The critical section around `getWaitCh`. -/
def register (system : System) (id : Nat) : Option System :=
  match system.calls[id]? with
  | none => none
  | some call =>
    match call.phase with
    | .checked index =>
      if !system.alive call.gid call.server call.incarnation then none
      else
        let replica := system.replica call.gid call.server
        let (server, channel) := replica.server.getWaitCh index
        some ((system.setReplica call.gid call.server { replica with server }).setCall id
          { call with phase := .waiting index channel })
    | _ => none

/-- The `select` of the handler ends with a timeout; the channel stays in the map. -/
def timeout (system : System) (id : Nat) : Option System :=
  match system.calls[id]? with
  | none => none
  | some call =>
    match call.phase with
    | .waiting _ _ =>
      if !system.alive call.gid call.server call.incarnation then none
      else some (system.setCall id
        { call with phase := .finished, reply := some { err := .errWrongLeader } })
    | _ => none

/-- The `select` of the handler ends with a receive. -/
def answer (system : System) (id : Nat) : Option System :=
  match system.calls[id]? with
  | none => none
  | some call =>
    match call.phase with
    | .waiting index channel =>
      if !system.alive call.gid call.server call.incarnation then none
      else
        let replica := system.replica call.gid call.server
        match replica.server.waitChan.receive channel with
        | none => none
        | some (waitChan, received) =>
          some ((system.setReplica call.gid call.server
            { replica with server := { replica.server with waitChan } }).setCall id
            { call with phase := .cleaning index channel, reply := some (replyTo call.request received) })
    | _ => none

/-- The goroutine that closes the channel and deletes the index. -/
def cleanup (system : System) (id : Nat) : Option System :=
  match system.calls[id]? with
  | none => none
  | some call =>
    match call.phase with
    | .cleaning index channel =>
      if !system.alive call.gid call.server call.incarnation then none
      else
        let replica := system.replica call.gid call.server
        let call := { call with phase := .finished }
        match replica.server.waitChan.close index channel with
        -- another handler of the index has closed the channel, and `close` panics
        | none => some ((system.setReplica call.gid call.server { replica with stopped := true }).setCall id call)
        | some waitChan => some ((system.setReplica call.gid call.server
            { replica with server := { replica.server with waitChan } }).setCall id call)
    | _ => none

/-! ### Raft and the apply loop -/

def commit (system : System) (gid : Int) (position : Nat) : Option System :=
  match (system.proposed gid)[position]? with
  | none => none
  | some command => some { system with records := system.records ++ [.commit (gid, command)] }

/-- The next committed command arrives.  When `takeSnapshot`, the Raft state has grown past
`maxraftstate`; the cases that `continue` do not look at it. -/
def deliver (system : System) (gid : Int) (server : ServerName) (takeSnapshot : Bool) : Option System :=
  let replica := system.replica gid server
  match (system.log gid)[replica.applied]? with
  | none => none
  | some command =>
    if replica.stopped ∨ replica.sending.isSome then none
    else
      let commandIndex := replica.applied + 1
      match replica.server.applyHandler gid commandIndex command with
      | (next, none) =>
        some (system.setReplica gid server { replica with server := next, applied := commandIndex })
      | (next, some message) =>
        let sending := (next.waitChan.waitChan commandIndex).map fun channel => (channel, message)
        if takeSnapshot then
          some { system.setReplica gid server { replica with
              server := next, sending, applied := commandIndex, persisted := some (commandIndex, next.kv) } with
            snapshots := Function.update system.snapshots gid
              (system.snapshots gid ++ [(commandIndex, next.kv)]) }
        else some (system.setReplica gid server { replica with server := next, sending, applied := commandIndex })

/-- A command that the installed snapshot covers arrives from an older batch.  `rf.Snapshot`
ignores an index that its snapshot covers. -/
def redeliver (system : System) (gid : Int) (server : ServerName) (commandIndex : Nat) : Option System :=
  let replica := system.replica gid server
  match (system.log gid)[commandIndex - 1]? with
  | none => none
  | some command =>
    if replica.stopped ∨ replica.sending.isSome ∨ commandIndex = 0 ∨
        replica.server.lastIncludedIndex < commandIndex then none
    else
      let (next, message) := replica.server.applyHandler gid commandIndex command
      let sending := (next.waitChan.waitChan commandIndex).bind fun channel => message.map fun m => (channel, m)
      some (system.setReplica gid server { replica with server := next, sending })

/-- The send on the channel, after `kv.mu` was released; a full channel keeps its message. -/
def push (system : System) (gid : Int) (server : ServerName) : Option System :=
  let replica := system.replica gid server
  match replica.sending with
  | none => none
  | some (channel, message) =>
    if replica.stopped then none
    else
      match replica.server.waitChan.send channel message with
      | none => some (system.setReplica gid server { replica with stopped := true })
      | some waitChan => some (system.setReplica gid server
          { replica with server := { replica.server with waitChan }, sending := none })

/-- A snapshot message that `CondInstallSnapshot` accepts: it is ahead of what was delivered.
A refused one changes nothing. -/
def install (system : System) (gid : Int) (server : ServerName) (position : Nat) : Option System :=
  let replica := system.replica gid server
  match (system.snapshots gid)[position]? with
  | none => none
  | some (snapshotIndex, snapshot) =>
    if replica.stopped ∨ replica.sending.isSome ∨ snapshotIndex ≤ replica.applied then none
    else some (system.setReplica gid server { replica with
      server := replica.server.installSnapshot snapshotIndex snapshot,
      applied := snapshotIndex,
      persisted := some (snapshotIndex, snapshot) })

/-- A crash, or the end of a process that has stopped, and `StartServer` with the same persister. -/
def restart (system : System) (gid : Int) (server : ServerName) : System :=
  let replica := system.replica gid server
  system.setReplica gid server {
    server := .startServer (replica.persisted.map Prod.snd),
    applied := (replica.persisted.map Prod.fst).getD 0,
    persisted := replica.persisted,
    incarnation := replica.incarnation + 1 }

/-! ### The loops of a leader -/

/-- `getLastConfig`, when `Query(-1)` has returned configuration `latest`. -/
def getLastConfig (controller : Controller) (system : System) (gid : Int) (server : ServerName)
    (latest : Nat) : Option System :=
  let kv := (system.replica gid server).server.kv
  let needToUpdate := kv.config.num < (controller.config latest).num
  let target := kv.config.num + 1
  if (system.replica gid server).stopped then none
  else if needToUpdate ∧ (kv.config.num = 0 ∨ kv.shardsStateReady) then
    -- the second `Query` asks for the next configuration, not the latest
    some (system.propose gid (.configOperation (controller.config target)))
  else none

def raftLogChecker (system : System) (gid : Int) : System := system.propose gid .noOperation

/-- The loop of the process has shards of its last round left. -/
def looping (system : System) (gid : Int) (server : ServerName) (confirming : Bool) : Bool :=
  system.rounds.any fun round =>
    round.gid = gid ∧ round.server = server ∧ round.confirming = confirming ∧ round.shards ≠ [] ∧
      round.incarnation = (system.replica gid server).incarnation

/-- The critical section at the head of `ShardsRequester` and `ShardsConfirm`. -/
def collect (system : System) (gid : Int) (server : ServerName) (confirming : Bool) : Option System :=
  let replica := system.replica gid server
  let kv := replica.server.kv
  if replica.stopped ∨ system.looping gid server confirming then none
  else some { system with rounds := system.rounds ++ [{
    gid, server, incarnation := replica.incarnation, confirming,
    shards := (List.finRange NShards).filter fun index =>
      kv.shardsState index = if confirming then .bePulled else .pulling
    config := if confirming then kv.config else kv.prevConfig }] }

/-- The loop body of a round up to the `go` statement: `kv.config.Num` is read without the lock. -/
def spawn (system : System) (id : Nat) : Option System :=
  match system.rounds[id]? with
  | none => none
  | some round =>
    match round.shards with
    | [] => none
    | shardIndex :: rest =>
      if !system.alive round.gid round.server round.incarnation then none
      else
        let targetGID := round.config.shards shardIndex
        let configNum := (system.replica round.gid round.server).server.kv.config.num
        let system := system.setRound id { round with shards := rest }
        match round.config.groups.lookup targetGID with
        -- the shard waits for the next round
        | none => some system
        | some servers =>
          let gid := round.gid
          let server := round.server
          let incarnation := round.incarnation
          if round.confirming then
            some { system with confirms := system.confirms ++ [{
              gid, server, incarnation, configNum, shardIndex, targetGID, servers }] }
          else
            some { system with pulls := system.pulls ++ [{
              gid, server, incarnation, configNum, shardIndex, targetGID, servers }] }

/-- `ShardsRequestHandler` runs at the server that is called. -/
def servePull (system : System) (id : Nat) : Option System :=
  match system.pulls[id]? with
  | none => none
  | some pull =>
    match pull.servers, pull.reply with
    | server :: _, none =>
      let replica := system.replica pull.targetGID server
      if replica.stopped then none
      else some (system.setPull id { pull with reply := some (replica.server.kv.shardsRequestHandler
        { configNum := pull.configNum, shardIndex := pull.shardIndex, gid := pull.gid }) })
    | _, _ => none

/-- The call of a pulling goroutine returns. -/
def finishPull (system : System) (id : Nat) : Option System :=
  match system.pulls[id]? with
  | none => none
  | some pull =>
    match pull.reply with
    | none => none
    | some reply =>
      if !system.alive pull.gid pull.server pull.incarnation then none
      else
        let replica := system.replica pull.gid pull.server
        if reply.err = .ok ∧ reply.configNum = replica.server.kv.config.num then
          -- The goroutine returns with `kv.mu` locked.
          if reply.shardIndex ≠ pull.shardIndex then
            some ((system.setReplica pull.gid pull.server { replica with stopped := true }).setPull id
              { pull with servers := [], reply := none })
          else
            some ((system.setPull id { pull with servers := [], reply := none }).propose pull.gid
              (.shardRequestOperation {
                configNum := pull.configNum, shardIndex := pull.shardIndex, gid := pull.gid,
                shardData := reply.shardData, clientSeqNum := reply.clientSeqNum }))
        else some (system.setPull id { pull with servers := pull.servers.tail, reply := none })

/-- The call of a pulling goroutine fails. -/
def losePull (system : System) (id : Nat) : Option System :=
  match system.pulls[id]? with
  | none => none
  | some pull => some (system.setPull id { pull with servers := pull.servers.tail, reply := none })

/-- `ShardsConfirmHandler` runs at the server that is called. -/
def serveConfirm (system : System) (id : Nat) (isLeader : Bool) : Option System :=
  match system.confirms[id]? with
  | none => none
  | some confirm =>
    match confirm.servers, confirm.reply with
    | server :: _, none =>
      let replica := system.replica confirm.targetGID server
      if replica.stopped then none
      else some (system.setConfirm id { confirm with reply := some (replica.server.kv.shardsConfirmHandler
        isLeader { configNum := confirm.configNum, shardIndex := confirm.shardIndex }) })
    | _, _ => none

/-- The call of a confirming goroutine returns. -/
def finishConfirm (system : System) (id : Nat) : Option System :=
  match system.confirms[id]? with
  | none => none
  | some confirm =>
    match confirm.reply with
    | none => none
    | some reply =>
      if !system.alive confirm.gid confirm.server confirm.incarnation then none
      else
        let replica := system.replica confirm.gid confirm.server
        -- the group may be in a later configuration than the one it asked about
        if reply.err = .ok ∧ replica.server.kv.config.num ≤ reply.configNum then
          some ((system.setConfirm id { confirm with servers := [], reply := none }).propose confirm.gid
            (.shardConfirmOperation {
              configNum := confirm.configNum, shardIndex := confirm.shardIndex,
              shardState := reply.shardState.getD .noServing }))
        else some (system.setConfirm id { confirm with servers := confirm.servers.tail, reply := none })

/-- The call of a confirming goroutine fails. -/
def loseConfirm (system : System) (id : Nat) : Option System :=
  match system.confirms[id]? with
  | none => none
  | some confirm =>
    some (system.setConfirm id { confirm with servers := confirm.servers.tail, reply := none })

/-! ### Runs -/

inductive Action where
  | invoke (client : Nat) (operation : Operation)
  | send (client : Nat) (gid : Int) (server : ServerName)
  | giveUp (client : Nat)
  | receive (client : Nat)
  | start (id : Nat) (isLeader : Bool) (index : Nat)
  | recheck (id : Nat)
  | register (id : Nat)
  | timeout (id : Nat)
  | answer (id : Nat)
  | cleanup (id : Nat)
  | commit (gid : Int) (position : Nat)
  | deliver (gid : Int) (server : ServerName) (takeSnapshot : Bool)
  | redeliver (gid : Int) (server : ServerName) (commandIndex : Nat)
  | push (gid : Int) (server : ServerName)
  | install (gid : Int) (server : ServerName) (position : Nat)
  | restart (gid : Int) (server : ServerName)
  | getLastConfig (gid : Int) (server : ServerName) (latest : Nat)
  | raftLogChecker (gid : Int)
  | collect (gid : Int) (server : ServerName) (confirming : Bool)
  | spawn (id : Nat)
  | servePull (id : Nat)
  | finishPull (id : Nat)
  | losePull (id : Nat)
  | serveConfirm (id : Nat) (isLeader : Bool)
  | finishConfirm (id : Nat)
  | loseConfirm (id : Nat)
deriving DecidableEq, Repr

def step (controller : Controller) (system : System) : Action → Option System
  | .invoke client operation => system.invoke client operation
  | .send client gid server => system.send client gid server
  | .giveUp client => system.giveUp client
  | .receive client => system.receive client
  | .start id isLeader index => system.start id isLeader index
  | .recheck id => system.recheck id
  | .register id => system.register id
  | .timeout id => system.timeout id
  | .answer id => system.answer id
  | .cleanup id => system.cleanup id
  | .commit gid position => system.commit gid position
  | .deliver gid server takeSnapshot => system.deliver gid server takeSnapshot
  | .redeliver gid server commandIndex => system.redeliver gid server commandIndex
  | .push gid server => system.push gid server
  | .install gid server position => system.install gid server position
  | .restart gid server => some (system.restart gid server)
  | .getLastConfig gid server latest => system.getLastConfig controller gid server latest
  | .raftLogChecker gid => some (system.raftLogChecker gid)
  | .collect gid server confirming => system.collect gid server confirming
  | .spawn id => system.spawn id
  | .servePull id => system.servePull id
  | .finishPull id => system.finishPull id
  | .losePull id => system.losePull id
  | .serveConfirm id isLeader => system.serveConfirm id isLeader
  | .finishConfirm id => system.finishConfirm id
  | .loseConfirm id => system.loseConfirm id

def run (controller : Controller) (system : System) : List Action → Option System
  | [] => some system
  | action :: actions => (system.step controller action).bind fun next => next.run controller actions

def Reachable (controller : Controller) (system : System) : Prop :=
  ∃ actions, run controller {} actions = some system

/-- The end of a run from the initial system, if each of its steps can be taken. -/
def after (controller : Controller) (actions : List Action) : System :=
  (run controller {} actions).getD {}

/-- A goroutine of `ShardsConfirm` asks the right group: if the shard is still `BEPULLED` when
`kv.config.Num` is read, then it still moves to the group that was copied under the lock. -/
def asksOwner (system : System) : Action → Bool
  | .spawn id =>
    match system.rounds[id]? with
    | some round =>
      match round.confirming, round.shards with
      | true, shardIndex :: _ =>
        let kv := (system.replica round.gid round.server).server.kv
        kv.shardsState shardIndex = .bePulled → kv.config.shards shardIndex = round.config.shards shardIndex
      | _, _ => true
    | none => true
  | _ => true

/-- A run in which every goroutine of `ShardsConfirm` asks the right group. -/
def runAttentively (controller : Controller) (system : System) : List Action → Option System
  | [] => some system
  | action :: actions =>
    if system.asksOwner action then
      (system.step controller action).bind fun next => next.runAttentively controller actions
    else none

def ReachableAttentively (controller : Controller) (system : System) : Prop :=
  ∃ actions, runAttentively controller {} actions = some system

/-- The end of such a run from the initial system, if each of its steps can be taken. -/
def afterAttentively (controller : Controller) (actions : List Action) : System :=
  (runAttentively controller {} actions).getD {}

theorem reachable_after (controller : Controller) (actions : List Action) :
    Reachable controller (after controller actions) := by
  unfold after
  cases ran : run controller {} actions with
  | none => exact ⟨[], rfl⟩
  | some system => exact ⟨actions, ran⟩

theorem reachable_afterAttentively (controller : Controller) (actions : List Action) :
    ReachableAttentively controller (afterAttentively controller actions) := by
  unfold afterAttentively
  cases ran : runAttentively controller {} actions with
  | none => exact ⟨[], rfl⟩
  | some system => exact ⟨actions, ran⟩

end System

end ShardedKV.ShardKV
