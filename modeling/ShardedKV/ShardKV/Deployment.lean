import ShardedKV.ShardCtrler.Stack
import ShardedKV.ShardKV.Frames

/-!
# The groups and the controller on their Raft servers

All processes of a deployment: the servers of the controller, the servers of every group, and below
each of them its Raft server.  Nothing is assumed about what Raft delivers or in which order the
controller makes its configurations.  A group learns of a configuration from a `Query` of one of its
servers, and `getLastConfig` makes two of them, with a critical section in between.

The records and the proposals of `system` are kept for the proofs; no step looks at them.  A command is
recorded as committed when the first apply loop of its group reads it, and a configuration as proposed
when `getLastConfig` has decided to fetch it.
-/

namespace ShardedKV.ShardKV

open Services (Record)
open ShardCtrler (Config ServerName replay)
open Raft (Cluster)

/-- What a log slot without a command holds. -/
instance : Inhabited Command := ⟨.noOperation⟩

/-- How far the apply loop of a server is. -/
def Replica.position (replica : Replica) : Raft.Position where
  applied := replica.applied
  included := replica.server.lastIncludedIndex
  stored := (replica.persisted.map Prod.fst).getD 0

namespace System

/-- The apply loop handles a command.  When `takes`, the Raft state has grown past `maxraftstate` and
`Snapshot` does not ignore the index. -/
def handle (system : System) (gid : Int) (server : ServerName) (commandIndex : Nat) (command : Command)
    (takes : Bool) : System :=
  let replica := system.replica gid server
  let (next, message) := replica.server.applyHandler gid commandIndex command
  let replica := { replica with
    server := next
    applied := max replica.applied commandIndex
    sending := (next.waitChan.waitChan commandIndex).bind fun channel => message.map fun m => (channel, m) }
  if takes then
    { system.setReplica gid server { replica with persisted := some (commandIndex, next.kv) } with
      snapshots := Function.update system.snapshots gid (system.snapshots gid ++ [(commandIndex, next.kv)]) }
  else system.setReplica gid server replica

/-- The first apply loop of a group that reads a command records it. -/
def agree (system : System) (gid : Int) (commandIndex : Nat) (command : Command) : System :=
  if commandIndex = (system.log gid).length + 1 then
    { system with records := system.records ++ [.commit (gid, command)] }
  else system

/-- The steps of the groups that need neither their Raft servers nor the controller, but for a command
that is to be given to `Start`.  What `GetState` says to a handler is left open. -/
def Action.aboveRaft : Action → Bool
  | .invoke .. | .send .. | .giveUp _ | .receive _ | .recheck _ | .register _ | .timeout _ | .answer _
  | .cleanup _ | .push .. | .collect .. | .spawn _ | .servePull _ | .finishPull _ | .losePull _
  | .serveConfirm .. | .finishConfirm _ | .loseConfirm _ => true
  | .start .. | .commit .. | .deliver .. | .redeliver .. | .install .. | .restart .. | .getLastConfig ..
  | .raftLogChecker _ => false

end System

/-- A goroutine of `getLastConfig` between its critical section and the answer to its second `Query`. -/
structure Fetch (n : Int → Nat) where
  gid : Int
  server : Fin (n gid)
  incarnation : Nat
  target : Nat
  /-- How much the clerks of the controller had done before. -/
  since : Nat

/-- A goroutine that is about to give a command to `Start`. -/
structure Proposal (n : Int → Nat) where
  gid : Int
  server : Fin (n gid)
  incarnation : Nat
  command : Command

/-- The configuration with the number that a process of the controller has after some part of the log. -/
def configOf (log : List ShardCtrler.Op) (number : Nat) : Option Config :=
  (List.range (log.length + 1)).findSome? fun count =>
    (replay (log.take count)).bind fun sc => sc.configs.list[number]?

/-- A group has `n gid` servers, with the names `0` to `n gid - 1`, and the controller `m`. -/
structure Deployment (n : Int → Nat) (m : Nat) where
  ctrler : ShardCtrler.Stack m := {}
  cluster : (gid : Int) → Cluster (n gid) Command := fun _ => .initial
  system : System := {}
  /-- The command message an apply loop has read from `applyCh` and not handled yet. -/
  received : (gid : Int) → Fin (n gid) → Option (Nat × Command) := fun _ _ => none
  fetching : List (Fetch n) := []
  starting : List (Proposal n) := []

/-- No step above Raft asks the controller. -/
def Controller.unasked : Controller where
  config := fun number => { num := number }
  num_eq := fun _ => rfl

namespace Deployment

variable {n : Int → Nat} {m : Nat}

def setCluster (deployment : Deployment n m) (gid : Int) (cluster : Cluster (n gid) Command) : Deployment n m :=
  { deployment with cluster := Function.update deployment.cluster gid cluster }

def setReceived (deployment : Deployment n m) (gid : Int) (server : Fin (n gid)) (message : Option (Nat × Command)) :
    Deployment n m :=
  { deployment with
    received := Function.update deployment.received gid
      (Function.update (deployment.received gid) server message) }

/-- The apply loop waits for `applyCh`. -/
def idle (deployment : Deployment n m) (gid : Int) (server : Fin (n gid)) : Bool :=
  (deployment.received gid server).isNone ∧ (deployment.system.replica gid server).sending.isNone ∧
    !(deployment.system.replica gid server).stopped

/-- A goroutine of Raft.  It does not need `kv.mu`, so that it runs on when the process around it has
stopped. -/
def raft (deployment : Deployment n m) (gid : Int) (action : Cluster.Action (n gid) Command) :
    Option (Deployment n m) :=
  match action with
  | .electionTimeout _ | .replicate .. | .takeBatch _ | .finishBatch _ | .handle _ | .deliver _ | .fail _ =>
    ((deployment.cluster gid).step action).map (deployment.setCluster gid)
  | .start .. | .sendCommand _ | .sendSnapshot .. | .install _ | .snapshot .. | .restart _ => none

/-- The server whose goroutine has a command for `Start` after the step. -/
def proposer (deployment : Deployment n m) : System.Action → Option (Int × ServerName)
  | .finishPull id => deployment.system.pulls[id]?.map fun pull => (pull.gid, pull.server)
  | .finishConfirm id => deployment.system.confirms[id]?.map fun confirm => (confirm.gid, confirm.server)
  | _ => none

/-- The goroutines that have a command for `Start` after the step. -/
def proposals (deployment : Deployment n m) (action : System.Action) (system : System) : List (Proposal n) :=
  match deployment.proposer action with
  | none => []
  | some (gid, name) =>
    if hosted : name < n gid then
      ((system.proposed gid).drop (deployment.system.proposed gid).length).map fun command =>
        { gid, server := ⟨name, hosted⟩, incarnation := (system.replica gid name).incarnation, command }
    else []

/-- A clerk, a handler after `Start`, or a goroutine of a migration. -/
def service (deployment : Deployment n m) (action : System.Action) : Option (Deployment n m) :=
  if action.aboveRaft then
    (deployment.system.step .unasked action).map fun system => { deployment with
      system, starting := deployment.starting ++ deployment.proposals action system }
  else none

/-- `RaftLogChecker` finds that a leader has no entry of its term. -/
def raftLogChecker (deployment : Deployment n m) (gid : Int) (server : Fin (n gid)) : Deployment n m :=
  { deployment with
    system := deployment.system.raftLogChecker gid
    starting := deployment.starting ++ [{
      gid, server, incarnation := (deployment.system.replica gid server).incarnation, command := .noOperation }] }

/-- A handler up to `Start`, which it calls only at a leader that has the shard. -/
def start (deployment : Deployment n m) (id : Nat) : Option (Deployment n m) :=
  match deployment.system.calls[id]? with
  | none => none
  | some call =>
    if hosted : call.server < n call.gid then
      let command := Command.kvOperation call.request.op
      let cluster := deployment.cluster call.gid
      let (outcome, _) := (cluster.node ⟨call.server, hosted⟩).raft.start command
      let kv := (deployment.system.replica call.gid call.server).server.kv
      match deployment.system.start id outcome.isSome ((outcome.map Prod.fst).getD 0) with
      | none => none
      | some system =>
        if outcome.isSome ∧ !kv.isWrongGroup call.gid (key2shard call.request.op.key) then
          (cluster.start ⟨call.server, hosted⟩ command).map fun cluster =>
            { deployment.setCluster call.gid cluster with system }
        else some { deployment with system }
    else none

/-- The critical section of `getLastConfig`, after the clerk of the server was told `newConfig` as the
latest configuration. -/
def getLastConfig (deployment : Deployment n m) (gid : Int) (server : Fin (n gid)) (client seqNum : Nat)
    (newConfig : Config) : Option (Deployment n m) :=
  let replica := deployment.system.replica gid server
  let kv := replica.server.kv
  let target := kv.config.num + 1
  let records := deployment.ctrler.system.records
  if replica.stopped then none
  else if Record.invoke client seqNum (.query (-1)) ∈ records ∧
      Record.respond client seqNum (some newConfig) ∈ records ∧
      kv.config.num < newConfig.num ∧ (kv.config.num = 0 ∨ kv.shardsStateReady) then
    some { deployment with
      system := (configOf deployment.ctrler.system.log target).elim deployment.system fun config =>
        deployment.system.propose gid (.configOperation config)
      fetching := deployment.fetching ++ [{
        gid, server, incarnation := replica.incarnation, target, since := records.length }] }
  else none

/-- The second `Query` of `getLastConfig` returns. -/
def fetchConfig (deployment : Deployment n m) (position client seqNum : Nat) (config : Config) :
    Option (Deployment n m) :=
  match deployment.fetching[position]? with
  | none => none
  | some fetch =>
    let later := deployment.ctrler.system.records.drop fetch.since
    if !deployment.system.alive fetch.gid fetch.server fetch.incarnation then none
    else if Record.invoke client seqNum (.query fetch.target) ∈ later ∧
        Record.respond client seqNum (some config) ∈ later then
      some { deployment with
        fetching := deployment.fetching.eraseIdx position
        starting := deployment.starting ++ [{
          gid := fetch.gid, server := fetch.server, incarnation := fetch.incarnation,
          command := .configOperation config }] }
    else none

/-- `Start` of a goroutine that is neither a handler's nor holds a lock. -/
def propose (deployment : Deployment n m) (position : Nat) : Option (Deployment n m) :=
  match deployment.starting[position]? with
  | none => none
  | some proposal =>
    if !deployment.system.alive proposal.gid proposal.server proposal.incarnation then none
    else ((deployment.cluster proposal.gid).start proposal.server proposal.command).map fun cluster =>
      { deployment.setCluster proposal.gid cluster with starting := deployment.starting.eraseIdx position }

/-- The apply loop reads a command from `applyCh`. -/
def receive (deployment : Deployment n m) (gid : Int) (server : Fin (n gid)) : Option (Deployment n m) :=
  if !deployment.idle gid server then none
  else
    match ((deployment.cluster gid).node server).batch, (deployment.cluster gid).sendCommand server with
    | some (entry :: _, _), some cluster =>
      some { (deployment.setCluster gid cluster).setReceived gid server (some (entry.index, entry.command)) with
        system := deployment.system.agree gid entry.index entry.command }
    | _, _ => none

/-- The apply loop reads a snapshot from `applyCh`. -/
def sendSnapshot (deployment : Deployment n m) (gid : Int) (server : Fin (n gid)) (position : Nat) :
    Option (Deployment n m) :=
  if !deployment.idle gid server then none
  else ((deployment.cluster gid).sendSnapshot server position).map (deployment.setCluster gid)

/-- The apply loop handles the command it has read; when `takeSnapshot`, the Raft state has grown past
`maxraftstate`. -/
def handle (deployment : Deployment n m) (gid : Int) (server : Fin (n gid)) (takeSnapshot : Bool) :
    Option (Deployment n m) :=
  let replica := deployment.system.replica gid server
  let cluster := deployment.cluster gid
  match deployment.received gid server with
  | none => none
  | some (commandIndex, command) =>
    if replica.stopped ∨ replica.sending.isSome then none
    else
      -- the cases that `continue` do not come to `Snapshot`
      let takes := takeSnapshot && (replica.server.applyHandler gid commandIndex command).2.isSome &&
        decide ((cluster.node server).raft.lastIncludedIndex < commandIndex)
      let handled := { deployment.setReceived gid server none with
        system := deployment.system.handle gid server commandIndex command takes }
      if takes then (cluster.snapshot server commandIndex).map (handled.setCluster gid) else some handled

/-- The apply loop passes the snapshot it has read to `CondInstallSnapshot`.  The bytes of the message
are those of a snapshot some server of the group has taken at its index. -/
def install (deployment : Deployment n m) (gid : Int) (server : Fin (n gid)) (position : Nat) :
    Option (Deployment n m) :=
  let replica := deployment.system.replica gid server
  let cluster := deployment.cluster gid
  if !deployment.idle gid server then none
  else
    match (cluster.node server).service.installing, cluster.install server with
    | some (snapshot, snapshotTerm, snapshotIndex), some installed =>
      if ((cluster.node server).raft.condInstallSnapshot snapshotTerm snapshotIndex snapshot).1 then
        match (deployment.system.snapshots gid)[position]? with
        | none => none
        | some (index, kv) =>
          if index = snapshotIndex then
            some { deployment.setCluster gid installed with
              system := deployment.system.setReplica gid server { replica with
                server := replica.server.installSnapshot snapshotIndex kv
                applied := snapshotIndex
                persisted := some (snapshotIndex, kv) } }
          else none
      else some (deployment.setCluster gid installed)
    | _, _ => none

/-- A crash of a process with its Raft server, and `StartServer` with the same persister. -/
def restart (deployment : Deployment n m) (gid : Int) (server : Fin (n gid)) : Deployment n m :=
  { (deployment.setCluster gid ((deployment.cluster gid).restart server)).setReceived gid server none with
    system := deployment.system.restart gid server }

inductive Action (n : Int → Nat) (m : Nat) where
  | ctrler (action : ShardCtrler.Stack.Action m)
  | raft (gid : Int) (action : Cluster.Action (n gid) Command)
  | service (action : System.Action)
  | raftLogChecker (gid : Int) (server : Fin (n gid))
  | start (id : Nat)
  | getLastConfig (gid : Int) (server : Fin (n gid)) (client seqNum : Nat) (newConfig : Config)
  | fetchConfig (position client seqNum : Nat) (config : Config)
  | propose (position : Nat)
  | receive (gid : Int) (server : Fin (n gid))
  | sendSnapshot (gid : Int) (server : Fin (n gid)) (position : Nat)
  | handle (gid : Int) (server : Fin (n gid)) (takeSnapshot : Bool)
  | install (gid : Int) (server : Fin (n gid)) (position : Nat)
  | restart (gid : Int) (server : Fin (n gid))

def step (deployment : Deployment n m) : Action n m → Option (Deployment n m)
  | .ctrler action => (deployment.ctrler.step action).map fun ctrler => { deployment with ctrler }
  | .raft gid action => deployment.raft gid action
  | .service action => deployment.service action
  | .raftLogChecker gid server => some (deployment.raftLogChecker gid server)
  | .start id => deployment.start id
  | .getLastConfig gid server client seqNum newConfig => deployment.getLastConfig gid server client seqNum newConfig
  | .fetchConfig position client seqNum config => deployment.fetchConfig position client seqNum config
  | .propose position => deployment.propose position
  | .receive gid server => deployment.receive gid server
  | .sendSnapshot gid server position => deployment.sendSnapshot gid server position
  | .handle gid server takeSnapshot => deployment.handle gid server takeSnapshot
  | .install gid server position => deployment.install gid server position
  | .restart gid server => some (deployment.restart gid server)

/-- How far the apply loops of a group are. -/
def position (deployment : Deployment n m) (gid : Int) (server : Fin (n gid)) : Raft.Position :=
  (deployment.system.replica gid server).position

def Reachable (deployment : Deployment n m) : Prop :=
  ∃ actions, Transitions.run step {} actions = some deployment

end Deployment

end ShardedKV.ShardKV
