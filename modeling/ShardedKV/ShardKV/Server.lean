import ShardedKV.KvRaft.System
import ShardedKV.ShardCtrler.Config

/-!
# The server of a replica group

`shardkv/server.go`: what the entries of a group's log do to its state, the replies of one group
to another, and the process around the state.  The map, the sessions and the requests of clients
are declared as in `kvraft`.
-/

namespace ShardedKV.ShardKV

open Services (Machine WaitChannels)
open ShardCtrler (Shard Config NShards)
open KvRaft (Op Store Request)

def key2shard : GoString → Shard
  | [] => 0
  | byte :: _ => Fin.ofNat NShards byte.toNat

inductive ShardState where
  | serving
  | noServing
  | pulling
  | bePulled
deriving DecidableEq, Repr

structure ShardRequestMsg where
  configNum : Nat
  shardIndex : Shard
  gid : Int
  shardData : GoString → Option GoString
  clientSeqNum : Nat → Option Nat

structure ShardConfirmMsg where
  configNum : Nat
  shardIndex : Shard
  shardState : ShardState

/-- `CommandMsg`, by its `CommandType`. -/
inductive Command where
  | kvOperation (op : Op)
  | configOperation (config : Config)
  | shardRequestOperation (message : ShardRequestMsg)
  | shardConfirmOperation (message : ShardConfirmMsg)
  | noOperation

/-! ## The replicated state -/

/-- What `getServerPersistData` encodes. -/
structure GroupState where
  store : Store := .empty
  shardsState : Shard → ShardState := fun _ => .noServing
  config : Config := {}
  prevConfig : Config := {}

namespace GroupState

def updateShardsState (gid : Int) (kv : GroupState) : GroupState :=
  if kv.prevConfig.num = 0 then
    -- nobody has had the shards before, so there is nothing to pull
    { kv with shardsState := fun i => if kv.config.shards i = gid then .serving else kv.shardsState i }
  else
    { kv with shardsState := fun i =>
        if kv.prevConfig.shards i = gid ∧ kv.config.shards i = gid then .serving
        else if kv.prevConfig.shards i ≠ gid ∧ kv.config.shards i = gid then .pulling
        else if kv.prevConfig.shards i = gid ∧ kv.config.shards i ≠ gid then .bePulled
        else .noServing }

def setShardState (kv : GroupState) (shardIndex : Shard) (shardState : ShardState) : GroupState :=
  { kv with shardsState := Function.update kv.shardsState shardIndex shardState }

def mergeShardData (kv : GroupState) (shardIndex : Shard) (shardData : GoString → Option GoString) :
    GroupState :=
  { kv with store := { kv.store with
      currentState := fun key => (shardData key).or (kv.store.currentState key) } }.setShardState shardIndex .serving

def mergeClientSeqNum (kv : GroupState) (clientSeqNum : Nat → Option Nat) : GroupState :=
  { kv with store := { kv.store with
      clientSeq := fun client =>
        match clientSeqNum client with
        -- the larger number of the two; a client without one counts as 0
        | some value => if kv.store.lastSeq client < value then some value else kv.store.clientSeq client
        | none => kv.store.clientSeq client } }

def deleteShard (kv : GroupState) (shardIndex : Shard) : GroupState :=
  { kv with store := { kv.store with
      currentState := fun key => if key2shard key = shardIndex then none else kv.store.currentState key } }

/-- The command case of `applyHandler`: the new state, and the message for a waiting handler
unless the case ends with `continue`. -/
def apply (gid : Int) (kv : GroupState) : Command → GroupState × Option Command
  | .kvOperation op =>
    -- the handler that waits for this index is left to its timeout
    if kv.shardsState (key2shard op.key) ≠ .serving then (kv, none)
    else
      let (store, appliedOp) := kv.store.applyCommand op
      ({ kv with store }, some (.kvOperation appliedOp))
  | .configOperation applyConfig =>
    -- a group without a configuration takes any
    if kv.config.num = 0 ∨ applyConfig.num = kv.config.num + 1 then
      ({ kv with prevConfig := kv.config, config := applyConfig }.updateShardsState gid,
        some (.configOperation applyConfig))
    else (kv, some (.configOperation applyConfig))
  | .shardRequestOperation message =>
    if message.configNum ≠ kv.config.num then (kv, none)
    else if kv.shardsState message.shardIndex = .pulling then
      ((kv.mergeShardData message.shardIndex message.shardData).mergeClientSeqNum message.clientSeqNum,
        some (.shardRequestOperation message))
    else (kv, some (.shardRequestOperation message))
  | .shardConfirmOperation message =>
    if message.configNum ≠ kv.config.num then (kv, none)
    else if kv.shardsState message.shardIndex = .bePulled then
      ((kv.setShardState message.shardIndex .noServing).deleteShard message.shardIndex,
        some (.shardConfirmOperation message))
    else (kv, some (.shardConfirmOperation message))
  | .noOperation => (kv, none)

def shardsStateReady (kv : GroupState) : Prop :=
  ∀ i, kv.shardsState i = .noServing ∨ kv.shardsState i = .serving

instance (kv : GroupState) : Decidable kv.shardsStateReady := by
  unfold shardsStateReady
  infer_instance

def isWrongGroup (gid : Int) (kv : GroupState) (shardIndex : Shard) : Bool :=
  kv.config.shards shardIndex ≠ gid

end GroupState

def machine (gid : Int) : Machine GroupState Command (Option Command) where
  initial := {}
  apply := GroupState.apply gid

/-! ## Messages between groups -/

inductive Err where
  | ok
  | errNoKey
  | errWrongGroup
  | errWrongLeader
  | errConfig
deriving DecidableEq, Repr

structure ShardRequestArgs where
  configNum : Nat
  shardIndex : Shard
  gid : Int

structure ShardRequestReply where
  err : Err
  configNum : Nat := 0
  shardIndex : Shard := 0
  shardData : GoString → Option GoString := fun _ => none
  clientSeqNum : Nat → Option Nat := fun _ => none

structure ShardConfirmArgs where
  configNum : Nat
  shardIndex : Shard

structure ShardConfirmReply where
  err : Err
  configNum : Nat := 0
  shardIndex : Shard := 0
  shardState : Option ShardState := none

namespace GroupState

/-- The handler notes that it is not the leader and goes on, so its answer does not depend on it. -/
def shardsRequestHandler (kv : GroupState) (args : ShardRequestArgs) : ShardRequestReply :=
  if args.configNum ≠ kv.config.num then { err := .errConfig }
  else if kv.shardsState args.shardIndex = .bePulled then
    { err := .ok, configNum := args.configNum, shardIndex := args.shardIndex,
      shardData := fun key =>
        if key2shard key = args.shardIndex then kv.store.currentState key else none
      -- the numbers of all clients, not only of those that used the shard
      clientSeqNum := kv.store.clientSeq }
  else { err := .errWrongGroup }

def shardsConfirmHandler (kv : GroupState) (isLeader : Bool) (args : ShardConfirmArgs) : ShardConfirmReply :=
  if !isLeader then { err := .errWrongLeader }
  else if kv.config.num < args.configNum then { err := .errConfig }
  -- a group in a later configuration says so of any shard
  else if (kv.config.num = args.configNum ∧ kv.shardsState args.shardIndex = .serving) ∨
      args.configNum < kv.config.num then
    { err := .ok, configNum := kv.config.num, shardIndex := args.shardIndex, shardState := some .serving }
  else { err := .errWrongLeader }

end GroupState

/-- `GetReply`; a `PutAppendReply` is one without a value. -/
structure Reply where
  err : Err
  value : GoString := []
deriving DecidableEq, Repr

/-- What a handler replies to what it receives from its channel.  A closed channel gives
`PutAppend` a message of no type. -/
def replyTo (request : Request) : WaitChannels.Received Command → Reply
  | .closed => { err := .errWrongLeader }
  | .message (.kvOperation applyOp) =>
    if applyOp.seqNum = request.seqNum ∧ applyOp.clientID = request.clientID then
      match request with
      | .get _ => { err := .ok, value := applyOp.value }
      | .putAppend _ => { err := .ok }
    else { err := .errWrongLeader }
  | .message _ => { err := .errWrongLeader }

/-! ## The process -/

/-- The fields of the struct `ShardKV` that a process loses when it ends, around those it keeps. -/
structure Server where
  kv : GroupState := {}
  waitChan : WaitChannels Command := {}
  /-- The index of the snapshot this process has installed. -/
  lastIncludedIndex : Nat := 0

namespace Server

/-- The cases that compare the index with the installed snapshot. -/
def checksIndex : Command → Bool
  | .kvOperation _ | .configOperation _ => true
  | _ => false

def applyHandler (gid : Int) (server : Server) (commandIndex : Nat) (command : Command) :
    Server × Option Command :=
  if checksIndex command ∧ commandIndex ≤ server.lastIncludedIndex then (server, none)
  else
    let (kv, message) := server.kv.apply gid command
    ({ server with kv }, message)

def installSnapshot (server : Server) (snapshotIndex : Nat) (snapshot : GroupState) : Server :=
  { server with kv := snapshot, lastIncludedIndex := snapshotIndex }

def getWaitCh (server : Server) (index : Nat) : Server × Nat :=
  let (waitChan, channel) := server.waitChan.getWaitCh index
  ({ server with waitChan }, channel)

/-- `StartServer` with what `GetSnapshot` returns. -/
def startServer : Option GroupState → Server
  | none => {}
  | some snapshot => { kv := snapshot }

end Server

end ShardedKV.ShardKV
