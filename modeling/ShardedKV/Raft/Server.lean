import Mathlib.Data.List.Basic
import Mathlib.Data.List.FinRange
import Mathlib.Logic.Function.Basic

/-!
# One Raft server

The functions of `raft.go`, each as what it does between taking and releasing `rf.mu`.
Go's `int` is `Nat` where the code only ever stores non-negative values, and `Int` where
it uses `-1` (`nextIndex`, `matchIndex`, `PrevLogIndex`, `PrevLogTerm`, `XTerm`).
-/

namespace ShardedKV.Raft

inductive Role where
  | leader
  | follower
  | candidate
deriving DecidableEq, Repr

structure LogEntry (Command : Type) where
  term : Nat
  command : Command
  index : Nat
deriving DecidableEq, Repr

/-- The zero value that `make([]LogEntry, 1)` puts at the head of every log. -/
instance {Command : Type} [Inhabited Command] : Inhabited (LogEntry Command) :=
  ⟨{ term := 0, command := default, index := 0 }⟩

/-- The bytes of a service's snapshot, decoded: the commands the service had applied.
`entries` is a history variable, the log entries the snapshot stands for; no branch reads it. -/
structure Snapshot (Command : Type) where
  data : List Command := []
  entries : List (LogEntry Command) := []
deriving DecidableEq, Repr

/-- What `getStatePersistData` encodes. -/
structure PersistData (n : Nat) (Command : Type) where
  currentTerm : Nat
  votedFor : Option (Fin n)
  log : List (LogEntry Command)
  lastIncludedIndex : Nat
  lastIncludedTerm : Nat
deriving DecidableEq, Repr

structure Persister (n : Nat) (Command : Type) where
  /-- `none` before the first `SaveRaftState`. -/
  raftState : Option (PersistData n Command) := none
  snapshot : Snapshot Command := {}
deriving DecidableEq, Repr

inductive ApplyMsg (Command : Type) where
  | command (command : Command) (commandIndex : Nat)
  | snapshot (snapshot : Snapshot Command) (snapshotTerm snapshotIndex : Nat)
deriving DecidableEq, Repr

structure RequestVoteArgs (n : Nat) where
  term : Nat
  candidateId : Fin n
  lastLogIndex : Nat
  lastLogTerm : Nat
deriving DecidableEq, Repr

structure RequestVoteReply where
  term : Nat
  voteGranted : Bool
deriving DecidableEq, Repr

structure InstallSnapshotArgs (n : Nat) (Command : Type) where
  term : Nat
  leaderId : Fin n
  lastIncludedIndex : Nat
  lastIncludedTerm : Nat
  data : Snapshot Command
deriving DecidableEq, Repr

structure InstallSnapshotReply where
  term : Nat
deriving DecidableEq, Repr

structure AppendEntriesArgs (n : Nat) (Command : Type) where
  term : Nat
  leaderId : Fin n
  prevLogIndex : Int
  prevLogTerm : Int
  entries : List (LogEntry Command)
  leaderCommit : Nat
deriving DecidableEq, Repr

structure AppendEntriesReply where
  term : Nat
  success : Bool := false
  logInconsistency : Bool := false
  xTerm : Int := 0
  xIndex : Int := 0
deriving DecidableEq, Repr

end ShardedKV.Raft

namespace ShardedKV

structure Raft (n : Nat) (Command : Type) where
  persister : Raft.Persister n Command
  me : Fin n
  state : Raft.Role
  log : List (Raft.LogEntry Command)
  currentTerm : Nat
  /-- `none` is the `-1` of the source. -/
  votedFor : Option (Fin n)
  commitIndex : Nat
  lastApplied : Nat
  getVotesNum : Nat
  nextIndex : Fin n → Int
  matchIndex : Fin n → Int
  lastIncludedIndex : Nat
  lastIncludedTerm : Nat

end ShardedKV

namespace ShardedKV.Raft

variable {n : Nat} {Command : Type}

/-! ## Log positions -/

def getRealLogIndex (rf : Raft n Command) (logicalIndex : Int) : Int :=
  logicalIndex - rf.lastIncludedIndex

/-- Index and term of the entry at a slice position; `none` is `(false, -1, -1)`. -/
def getLogAt (rf : Raft n Command) (realIndex : Nat) : Option (Nat × Nat) :=
  match rf.log[realIndex]? with
  | none => none
  | some entry =>
    -- the head of the slice stands for the snapshot
    if realIndex = 0 then some (rf.lastIncludedIndex, rf.lastIncludedTerm)
    else some (rf.lastIncludedIndex + realIndex, entry.term)

def getLastLogIndex (rf : Raft n Command) : Nat :=
  match rf.getLogAt (rf.log.length - 1) with
  | some (index, _) => index
  | none => 0

def getLastLogTerm (rf : Raft n Command) : Nat :=
  match rf.getLogAt (rf.log.length - 1) with
  | some (_, term) => term
  | none => 0

/-- The loop of `getSameTermFirst`, from slice position `i` downwards. -/
def sameTermFirstFrom (rf : Raft n Command) (sameTerm : Nat) : Nat → Nat
  | 0 => 0
  | i + 1 =>
    match rf.log[i]? with
    | some entry => if entry.term = sameTerm then rf.sameTermFirstFrom sameTerm i else i + 1
    | none => i + 1

def getSameTermFirst (rf : Raft n Command) (realIndex : Nat) : Nat :=
  if realIndex = 0 then 0
  else
    match rf.getLogAt realIndex with
    | some (_, sameTerm) => rf.sameTermFirstFrom sameTerm realIndex
    | none => realIndex

/-! ## Counting replicas -/

/-- The inner loop of `countReplica`: the server itself and the peers known to hold `index`. -/
def replicas (rf : Raft n Command) (index : Nat) : Nat :=
  1 + ((List.finRange n).filter (fun j => j ≠ rf.me ∧ (index : Int) ≤ rf.matchIndex j)).length

/-- The outer loop of `countReplica` over the slice positions below its argument, downwards. -/
def countReplicaFrom (rf : Raft n Command) (realIndexStart : Nat) : Nat → Nat
  | 0 => rf.commitIndex
  | i + 1 =>
    if rf.commitIndex < i + rf.lastIncludedIndex ∧ realIndexStart ≤ i then
      if n / 2 < rf.replicas (i + rf.lastIncludedIndex) then i + rf.lastIncludedIndex
      else rf.countReplicaFrom realIndexStart i
    else rf.commitIndex

def realIndexStart (rf : Raft n Command) : Nat :=
  match (List.range rf.log.length).find?
      (fun i => (rf.getLogAt i).map Prod.snd = some rf.currentTerm) with
  | some i => i
  | none => rf.log.length - 1

def countReplica (rf : Raft n Command) : Nat :=
  if rf.getLastLogTerm ≠ rf.currentTerm then
    -- entries of earlier terms are not counted
    if rf.commitIndex ≤ rf.lastIncludedIndex then rf.lastIncludedIndex else rf.commitIndex
  else
    let N := rf.countReplicaFrom rf.realIndexStart rf.log.length
    if N < rf.lastIncludedIndex then rf.lastIncludedIndex else N

/-! ## Persistence and roles -/

def getStatePersistData (rf : Raft n Command) : PersistData n Command where
  currentTerm := rf.currentTerm
  votedFor := rf.votedFor
  log := rf.log
  lastIncludedIndex := rf.lastIncludedIndex
  lastIncludedTerm := rf.lastIncludedTerm

def persist (rf : Raft n Command) : Raft n Command :=
  { rf with persister := { rf.persister with raftState := some rf.getStatePersistData } }

def saveStateAndSnapshot (rf : Raft n Command) (snapshot : Snapshot Command) : Raft n Command :=
  { rf with persister := { raftState := some rf.getStatePersistData, snapshot := snapshot } }

def readPersist (rf : Raft n Command) : Option (PersistData n Command) → Raft n Command
  | none => rf
  | some data => { rf with
      currentTerm := data.currentTerm
      votedFor := data.votedFor
      log := data.log
      lastIncludedIndex := data.lastIncludedIndex
      lastIncludedTerm := data.lastIncludedTerm
      -- what the snapshot covers is taken as applied and committed
      lastApplied := data.lastIncludedIndex
      commitIndex := data.lastIncludedIndex }

def make [Inhabited Command] (me : Fin n) (persister : Persister n Command) : Raft n Command :=
  readPersist
    { persister := persister
      me := me
      state := .follower
      log := [default]
      currentTerm := 0
      votedFor := none
      commitIndex := 0
      lastApplied := 0
      getVotesNum := 0
      nextIndex := fun _ => 1
      matchIndex := fun _ => 0
      lastIncludedIndex := 0
      lastIncludedTerm := 0 }
    persister.raftState

def leaderState (rf : Raft n Command) : Raft n Command :=
  { rf with
    state := .leader
    nextIndex := fun _ => rf.getLastLogIndex + 1
    -- a restarted server has 0 here instead
    matchIndex := fun _ => -1 }

def followerState (rf : Raft n Command) (newTerm : Nat) : Raft n Command :=
  persist { rf with state := .follower, currentTerm := newTerm, votedFor := none, getVotesNum := 0 }

def candidateState (rf : Raft n Command) : Raft n Command :=
  persist { rf with
    state := .candidate
    currentTerm := rf.currentTerm + 1
    votedFor := some rf.me
    getVotesNum := 1 }

/-! ## Snapshots -/

def trimIndex (rf : Raft n Command) (lastIncludedTerm lastIncludedIndex : Nat) : Nat :=
  match (List.range rf.log.length).reverse.find?
      (fun i => rf.getLogAt i = some (lastIncludedIndex, lastIncludedTerm)) with
  | some i => i + 1
  -- the log does not have the entry, and all of it goes
  | none => rf.log.length

def condInstallSnapshot [Inhabited Command] (rf : Raft n Command)
    (lastIncludedTerm lastIncludedIndex : Nat) (snapshot : Snapshot Command) :
    Bool × Raft n Command :=
  if lastIncludedIndex ≤ rf.commitIndex then (false, rf)
  else
    let rf := { rf with
      log := default :: rf.log.drop (rf.trimIndex lastIncludedTerm lastIncludedIndex)
      lastIncludedIndex := lastIncludedIndex
      lastIncludedTerm := lastIncludedTerm
      commitIndex := max rf.commitIndex lastIncludedIndex
      lastApplied := max rf.lastApplied lastIncludedIndex }
    (true, rf.saveStateAndSnapshot snapshot)

/-- `Snapshot`; when no entry has the index, the scan leaves its last values behind. -/
def snapshot [Inhabited Command] (rf : Raft n Command) (index : Nat) (data : List Command) :
    Raft n Command :=
  if index ≤ rf.lastIncludedIndex then rf
  else
    let found := (List.range rf.log.length).find?
      (fun i => (rf.getLogAt i).map Prod.fst = some index)
    let realIndex := found.getD 0
    let scanned := (rf.getLogAt (found.getD (rf.log.length - 1))).getD (0, 0)
    let rf' := { rf with
      lastIncludedIndex := scanned.1
      lastIncludedTerm := scanned.2
      lastApplied := max rf.lastApplied index
      commitIndex := max rf.commitIndex index
      log := default :: rf.log.drop (realIndex + 1) }
    rf'.saveStateAndSnapshot
      { data := data
        entries := rf.persister.snapshot.entries ++ (rf.log.take (realIndex + 1)).tail }

/-! ## Elections -/

def requestVote (rf : Raft n Command) (args : RequestVoteArgs n) :
    Raft n Command × RequestVoteReply :=
  let rf := if rf.currentTerm < args.term then rf.followerState args.term else rf
  if args.term < rf.currentTerm then
    -- only this refusal saves the state again
    (rf.persist, { term := rf.currentTerm, voteGranted := false })
  else if (rf.votedFor = none ∨ rf.votedFor = some args.candidateId) ∧
      (rf.getLastLogTerm < args.lastLogTerm ∨
        (args.lastLogTerm = rf.getLastLogTerm ∧ rf.getLastLogIndex ≤ args.lastLogIndex)) then
    (persist { rf with votedFor := some args.candidateId },
      { term := rf.currentTerm, voteGranted := true })
  else (rf, { term := rf.currentTerm, voteGranted := false })

def candidateRequestVote (rf : Raft n Command) : RequestVoteArgs n where
  term := rf.currentTerm
  candidateId := rf.me
  lastLogIndex := rf.getLastLogIndex
  lastLogTerm := rf.getLastLogTerm

/-- The part of `candidateRequestVote` after the call has returned. -/
def handleRequestVoteReply (rf : Raft n Command) (args : RequestVoteArgs n)
    (reply : RequestVoteReply) : Raft n Command :=
  if rf.currentTerm < reply.term then rf.followerState reply.term
  else if rf.state ≠ .candidate ∨ rf.currentTerm ≠ args.term then rf
  else if reply.term = rf.currentTerm ∧ reply.voteGranted then
    let rf := { rf with getVotesNum := rf.getVotesNum + 1 }
    if n / 2 < rf.getVotesNum then rf.leaderState else rf
  else rf

/-! ## Replication -/

/-- Cut the log at the first position, from `j` on, whose term differs from the entry sent for it. -/
def truncateConflict (log : List (LogEntry Command)) :
    List (LogEntry Command) → Nat → List (LogEntry Command) × Bool
  | [], _ => (log, false)
  | entry :: entries, j =>
    match log[j]? with
    | none => (log, false)
    | some existing =>
      if entry.term ≠ existing.term then (log.take j, true)
      else truncateConflict log entries (j + 1)

/-- Append the entries whose position, counted from `position`, is past the end of the log. -/
def appendMissing (log : List (LogEntry Command)) :
    List (LogEntry Command) → Nat → List (LogEntry Command) × Bool
  | [], _ => (log, false)
  | entry :: entries, position =>
    if log.length ≤ position then
      ((appendMissing (log ++ [entry]) entries (position + 1)).1, true)
    else appendMissing log entries (position + 1)

/-- The reply of `AppendEntries` when the previous entry does not match. -/
def inconsistencyReply (rf : Raft n Command) (prevLogIndex : Int) : AppendEntriesReply :=
  let realIndex := (prevLogIndex - rf.lastIncludedIndex).toNat
  match if rf.getLastLogIndex < prevLogIndex then none else rf.getLogAt realIndex with
  | none =>
    { term := rf.currentTerm, logInconsistency := true, xTerm := -1,
      xIndex := rf.getLastLogIndex + 1 }
  | some (_, prevTerm) =>
    { term := rf.currentTerm, logInconsistency := true, xTerm := prevTerm,
      xIndex := rf.getSameTermFirst realIndex + rf.lastIncludedIndex }

/-- The log after `AppendEntries` has matched the previous entry at slice position `realIndex`. -/
def mergeLog (log entries : List (LogEntry Command)) (realIndex : Nat) :
    List (LogEntry Command) × Bool :=
  let (log, truncated) := truncateConflict log entries (realIndex + 1)
  -- at the end of the log a heartbeat without entries is persisted as well
  if log.length ≤ realIndex + 1 then (log ++ entries, true)
  else
    let (log, appended) := appendMissing log entries (realIndex + 1)
    (log, truncated || appended)

def appendEntries (rf : Raft n Command) (args : AppendEntriesArgs n Command) :
    Raft n Command × AppendEntriesReply :=
  let rf :=
    if rf.currentTerm < args.term ∨ (args.term = rf.currentTerm ∧ rf.state = .candidate) then
      rf.followerState args.term
    else rf
  if args.term < rf.currentTerm then (rf, { term := rf.currentTerm })
  else
    let firstLogIndex := rf.lastIncludedIndex
    let lastLogIndex := rf.getLastLogIndex
    if args.prevLogIndex < firstLogIndex then
      (rf, { term := rf.currentTerm, logInconsistency := true, xTerm := -1,
             xIndex := firstLogIndex + 1 })
    else
      let realIndex := (args.prevLogIndex - rf.lastIncludedIndex).toNat
      let prevMatches := args.prevLogIndex ≤ lastLogIndex ∧
        (rf.getLogAt realIndex).map (fun found => (found.2 : Int)) = some args.prevLogTerm
      if prevMatches then
        let (log, needPersist) := mergeLog rf.log args.entries realIndex
        let rf := { rf with log := log }
        let rf := if needPersist then rf.persist else rf
        -- the bound is the last index from before this request's entries
        let rf := if rf.commitIndex < args.leaderCommit then
            { rf with commitIndex := min args.leaderCommit lastLogIndex }
          else rf
        (rf, { term := rf.currentTerm, success := true })
      else (rf, rf.inconsistencyReply args.prevLogIndex)

/-- The handler, and the message its detached goroutine will send on `applyCh`. -/
def installSnapshot (rf : Raft n Command) (args : InstallSnapshotArgs n Command) :
    Raft n Command × InstallSnapshotReply × Option (ApplyMsg Command) :=
  if args.term < rf.currentTerm then (rf, { term := rf.currentTerm }, none)
  else
    let rf := if rf.currentTerm < args.term then rf.followerState args.term else rf
    if args.lastIncludedIndex ≤ rf.commitIndex then (rf, { term := rf.currentTerm }, none)
    else (rf, { term := rf.currentTerm },
      some (.snapshot args.data args.lastIncludedTerm args.lastIncludedIndex))

inductive PeerMessage (n : Nat) (Command : Type) where
  | appendEntries (args : AppendEntriesArgs n Command)
  | installSnapshot (args : InstallSnapshotArgs n Command)
  | nothing

/-- The goroutine of `leaderAppendEntries` for one peer, up to its call. -/
def leaderAppendEntries (rf : Raft n Command) (index : Fin n) :
    Raft n Command × PeerMessage n Command :=
  let prevLogIndex := rf.nextIndex index - 1
  if prevLogIndex < rf.lastIncludedIndex then
    if rf.state ≠ .leader then (rf, .nothing)
    else (rf, .installSnapshot {
      term := rf.currentTerm
      leaderId := rf.me
      lastIncludedIndex := rf.lastIncludedIndex
      lastIncludedTerm := rf.lastIncludedTerm
      data := rf.persister.snapshot })
  else
    let args : AppendEntriesArgs n Command := {
      term := rf.currentTerm
      leaderId := rf.me
      prevLogIndex := prevLogIndex
      prevLogTerm := match rf.getLogAt (rf.getRealLogIndex prevLogIndex).toNat with
        | some (_, entryTerm) => entryTerm
        | none => -1
      entries :=
        if rf.nextIndex index ≤ rf.getLastLogIndex then
          rf.log.drop (rf.getRealLogIndex (rf.nextIndex index)).toNat
        else []
      leaderCommit := rf.commitIndex }
    -- the server's own entries move even when it turns out not to lead
    let rf := { rf with
      nextIndex := Function.update rf.nextIndex rf.me (rf.getLastLogIndex + 1)
      matchIndex := Function.update rf.matchIndex rf.me rf.getLastLogIndex }
    if rf.state ≠ .leader then (rf, .nothing) else (rf, .appendEntries args)

/-- One past the last entry, scanning from slice position `i` down to 1, that has the term. -/
def conflictTarget (rf : Raft n Command) (xTerm : Int) (target : Int) : Nat → Int
  | 0 => target
  | i + 1 =>
    match rf.getLogAt (i + 1) with
    | some (entryIndex, entryTerm) =>
      if (entryTerm : Int) = xTerm then entryIndex + 1 else rf.conflictTarget xTerm target i
    | none => rf.conflictTarget xTerm target i

def handleLogInconsistency (rf : Raft n Command) (index : Fin n) (reply : AppendEntriesReply) :
    Raft n Command :=
  if reply.xTerm = -1 then
    -- never behind what the peer is known to hold; the other branch has no such bound
    let next := if reply.xIndex ≤ rf.matchIndex index then rf.matchIndex index + 1 else reply.xIndex
    { rf with nextIndex := Function.update rf.nextIndex index next }
  else
    let target := rf.conflictTarget reply.xTerm reply.xIndex (rf.log.length - 1)
    { rf with nextIndex := Function.update rf.nextIndex index target }

/-- The part of `leaderAppendEntries` after `AppendEntries` has returned. -/
def handleAppendEntriesReply (rf : Raft n Command) (index : Fin n)
    (args : AppendEntriesArgs n Command) (reply : AppendEntriesReply) : Raft n Command :=
  if rf.currentTerm < reply.term then rf.followerState reply.term
  else if rf.state ≠ .leader ∨ rf.currentTerm ≠ args.term then rf
  else
    let rf :=
      if reply.success then
        let replicated := args.prevLogIndex + args.entries.length
        { rf with
          matchIndex := Function.update rf.matchIndex index replicated
          nextIndex := Function.update rf.nextIndex index (replicated + 1) }
      else if reply.logInconsistency then rf.handleLogInconsistency index reply
      else rf
    { rf with commitIndex := rf.countReplica }

/-- The part of `leaderAppendEntries` after `InstallSnapshot` has returned. -/
def handleInstallSnapshotReply (rf : Raft n Command) (index : Fin n)
    (args : InstallSnapshotArgs n Command) (reply : InstallSnapshotReply) : Raft n Command :=
  if rf.currentTerm < reply.term then rf.followerState reply.term
  -- the term of the request is not compared here
  else if rf.state ≠ .leader then rf
  else
    let rf :=
      if reply.term = rf.currentTerm ∧ rf.matchIndex index ≤ args.lastIncludedIndex then
        { rf with
          matchIndex := Function.update rf.matchIndex index args.lastIncludedIndex
          nextIndex := Function.update rf.nextIndex index (args.lastIncludedIndex + 1) }
      else rf
    { rf with commitIndex := rf.countReplica }

/-- `Start`: the index and term it returns, `none` when the server is not the leader. -/
def start (rf : Raft n Command) (command : Command) : Option (Nat × Nat) × Raft n Command :=
  if rf.state ≠ .leader then (none, rf)
  else
    let entry :=
      { term := rf.currentTerm, command := command, index := rf.lastIncludedIndex + rf.log.length }
    (some (rf.getLastLogIndex + 1, rf.currentTerm), persist { rf with log := rf.log ++ [entry] })

/-! ## Applying -/

/-- The batch `applyChecker` copies under the lock, with the commit index it read. -/
def applyBatch (rf : Raft n Command) : Option (List (LogEntry Command) × Nat) :=
  if rf.commitIndex ≤ rf.lastApplied then none
  else
    some ((rf.log.take (rf.commitIndex + 1 - rf.lastIncludedIndex)).drop
      (rf.lastApplied + 1 - rf.lastIncludedIndex), rf.commitIndex)

def finishApply (rf : Raft n Command) (commitIndex : Nat) : Raft n Command :=
  -- a snapshot may have moved `lastApplied` while the batch was sent
  if rf.lastApplied < commitIndex then { rf with lastApplied := commitIndex } else rf

end ShardedKV.Raft
