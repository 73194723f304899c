import Mathlib.Logic.Function.Basic
import ShardedKV.Services.AgreedLog
import ShardedKV.Services.WaitChannels
import ShardedKV.Strings

/-!
# The key/value server

`kvraft/server.go`: the state a replica computes from the log, the channels on which its
handlers wait, and the parts of `Get` and `PutAppend` between two points at which other
goroutines may run.
-/

namespace ShardedKV.KvRaft

open Services (Machine WaitChannels)

inductive Optype where
  | get
  | put
  | append
deriving DecidableEq, Repr

structure Op where
  clientID : Nat
  seqNum : Nat
  key : GoString
  value : GoString
  optype : Optype
deriving DecidableEq, Repr

/-! ## The replicated state -/

/-- What `getServerPersistData` encodes. -/
structure Store where
  currentState : GoString → Option GoString
  clientSeq : Nat → Option Nat

namespace Store

def empty : Store where
  currentState := fun _ => none
  clientSeq := fun _ => none

/-- Reading a Go map: a missing key has the zero value. -/
def value (store : Store) (key : GoString) : GoString := (store.currentState key).getD []

def lastSeq (store : Store) (client : Nat) : Nat := (store.clientSeq client).getD 0

def applyToStateMachine (store : Store) (appliedOp : Op) : Store :=
  let clientSeq := Function.update store.clientSeq appliedOp.clientID (some appliedOp.seqNum)
  match appliedOp.optype with
  | .put =>
    { currentState := Function.update store.currentState appliedOp.key (some appliedOp.value), clientSeq }
  | .append =>
    let currValue := store.value appliedOp.key
    { currentState := Function.update store.currentState appliedOp.key
        (some (currValue ++ appliedOp.value)), clientSeq }
  | .get => { store with clientSeq }

/-- A client without a session gets one that has seen nothing. -/
def openSession (store : Store) (client : Nat) : Store :=
  match store.clientSeq client with
  | some _ => store
  | none => { store with clientSeq := Function.update store.clientSeq client (some 0) }

/-- A command of `applyHandler`, with the `appliedOp` that goes to a waiting handler.  A `Get`
reads the map also when it is a repetition. -/
def applyCommand (store : Store) (op : Op) : Store × Op :=
  let store := store.openSession op.clientID
  let appliedOp := if op.optype = .get then { op with value := store.value op.key } else op
  if op.seqNum ≤ store.lastSeq op.clientID then (store, appliedOp)
  else (store.applyToStateMachine appliedOp, appliedOp)

end Store

def machine : Machine Store Op Op where
  initial := .empty
  apply := Store.applyCommand

/-! ## Requests -/

structure GetArgs where
  key : GoString
  clientID : Nat
  seqNum : Nat
deriving DecidableEq, Repr

structure PutAppendArgs where
  key : GoString
  value : GoString
  op : Optype
  clientID : Nat
  seqNum : Nat
deriving DecidableEq, Repr

inductive Request where
  | get (args : GetArgs)
  | putAppend (args : PutAppendArgs)
deriving DecidableEq, Repr

namespace Request

def clientID : Request → Nat
  | get args => args.clientID
  | putAppend args => args.clientID

def seqNum : Request → Nat
  | get args => args.seqNum
  | putAppend args => args.seqNum

/-- The command a handler passes to `Start`. -/
def op : Request → Op
  | get args => { clientID := args.clientID, seqNum := args.seqNum, key := args.key, value := [], optype := .get }
  | putAppend args =>
    { clientID := args.clientID, seqNum := args.seqNum, key := args.key, value := args.value, optype := args.op }

end Request

inductive Err where
  | ok
  | errNoKey
  | errWrongLeader
deriving DecidableEq, Repr

/-- `GetReply`; a `PutAppendReply` is one without a value. -/
structure Reply where
  err : Err
  value : GoString := []
deriving DecidableEq, Repr

/-- What a handler replies to what it receives from its channel. -/
def Request.reply (request : Request) : WaitChannels.Received Op → Reply
  | .closed => { err := .errWrongLeader }
  | .message applyOp =>
    if applyOp.seqNum = request.seqNum ∧ applyOp.clientID = request.clientID then
      match request with
      | .get _ => { err := .ok, value := applyOp.value }
      | .putAppend _ => { err := .ok }
    else { err := .errWrongLeader }

/-! ## The server -/

structure KVServer where
  store : Store := .empty
  waitChan : WaitChannels Op := {}
  /-- The index of the snapshot this process has installed. -/
  lastIncludedIndex : Nat := 0

namespace KVServer

/-- The command case of `applyHandler`, up to its answer; `none` when a snapshot covers it. -/
def applyHandler (kv : KVServer) (commandIndex : Nat) (op : Op) : Option (KVServer × Op) :=
  if commandIndex ≤ kv.lastIncludedIndex then none
  else
    let (store, appliedOp) := kv.store.applyCommand op
    some ({ kv with store }, appliedOp)

/-- The end of the command case, still under `kv.mu`; `none` is a panic. -/
def sendApplied (kv : KVServer) (commandIndex : Nat) (appliedOp : Op) : Option KVServer :=
  match kv.waitChan.waitChan commandIndex with
  | none => some kv
  | some channel => (kv.waitChan.send channel appliedOp).map fun waitChan => { kv with waitChan }

/-- The snapshot case of `applyHandler`, when `CondInstallSnapshot` agrees. -/
def installSnapshot (kv : KVServer) (snapshotIndex : Nat) (snapshot : Store) : KVServer :=
  { kv with store := snapshot, lastIncludedIndex := snapshotIndex }

def getWaitCh (kv : KVServer) (index : Nat) : KVServer × Nat :=
  let (waitChan, channel) := kv.waitChan.getWaitCh index
  ({ kv with waitChan }, channel)

def receive (kv : KVServer) (channel : Nat) : Option (KVServer × WaitChannels.Received Op) :=
  (kv.waitChan.receive channel).map fun (waitChan, received) => ({ kv with waitChan }, received)

/-- The goroutine a handler leaves behind; `none` is a panic. -/
def cleanup (kv : KVServer) (index channel : Nat) : Option KVServer :=
  (kv.waitChan.close index channel).map fun waitChan => { kv with waitChan }

/-- `StartKVServer` with what `GetSnapshot` returns. -/
def startKVServer : Option Store → KVServer
  | none => {}
  | some snapshot => { store := snapshot }

end KVServer

end ShardedKV.KvRaft
