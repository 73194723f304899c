import ShardedKV.Raft.Transitions
import ShardedKV.Replication.Holding

/-!
# The indices of a server and its committed entries

The indices a server keeps are ordered, so that every expression that reads `rf.Log` stays inside
the slice.  The indices only grow while the process lives, the term grows also across restarts, and
a committed entry stays where it is until a snapshot takes its place.
-/

namespace ShardedKV.Raft

open Cluster (Action)
open Replication (State)

variable {n : Nat} {Command : Type}

/-! ## Reads of the log -/

/-- An expression that reads `rf.Log`: `rf.Log[i]` or `rf.Log[low:high]`. -/
inductive LogAccess where
  | index (i : Int)
  | slice (low high : Int)

/-- The expression does not panic on a log of this length. -/
def LogAccess.InRange (length : Nat) : LogAccess → Prop
  | index i => 0 ≤ i ∧ i < length
  | slice low high => 0 ≤ low ∧ low ≤ high ∧ high ≤ length

/-- The read of `getLogAt`. -/
def getLogAtAccesses (rf : Raft n Command) (realIndex : Int) : List LogAccess :=
  if (rf.log.length : Int) ≤ realIndex then []
  else if realIndex = 0 then []
  else [.index realIndex]

/-- The read of `getLastLogIndex`, `getLastLogTerm` and `NeedEmptyLogEntry`. -/
def lastLogAccesses (rf : Raft n Command) : List LogAccess :=
  rf.getLogAtAccesses ((rf.log.length : Int) - 1)

/-- The reads of a loop that calls `getLogAt` for the slice positions; it may stop early. -/
def scanAccesses (rf : Raft n Command) : List LogAccess :=
  (List.range rf.log.length).flatMap fun (i : Nat) => rf.getLogAtAccesses i

/-- The reads of `getSameTermFirst`; the loop reads `rf.Log[i-1]` from `i = realIndex` down to 1. -/
def getSameTermFirstAccesses (rf : Raft n Command) (realIndex : Int) : List LogAccess :=
  if realIndex = 0 then []
  else rf.getLogAtAccesses realIndex ++ (List.range realIndex.toNat).map fun (i : Nat) => .index i

/-- The reads of the loop of `AppendEntries` that looks for a conflict, and of the cut when it finds one. -/
def conflictAccesses (rf : Raft n Command) (entries : List (LogEntry Command)) (realIndex : Int) : List LogAccess :=
  (List.range entries.length).flatMap fun (i : Nat) =>
    if realIndex + 1 + i < rf.log.length then [.index (realIndex + 1 + i), .slice 0 (realIndex + 1 + i)] else []

/-- The reads of `AppendEntries` after it has compared the terms. -/
def appendEntriesAccesses (rf : Raft n Command) (args : AppendEntriesArgs n Command) : List LogAccess :=
  let realIndex := args.prevLogIndex - rf.lastIncludedIndex
  rf.lastLogAccesses ++
    if args.prevLogIndex < rf.lastIncludedIndex then []
    else if (rf.getLastLogIndex : Int) < args.prevLogIndex then []
    else rf.getLogAtAccesses realIndex ++
      if (rf.getLogAt realIndex.toNat).map (fun found => (found.2 : Int)) = some args.prevLogTerm then
        rf.conflictAccesses args.entries realIndex
      else rf.getSameTermFirstAccesses realIndex

/-- The reads of `leaderAppendEntries` before its call. -/
def leaderAppendEntriesAccesses (rf : Raft n Command) (index : Fin n) : List LogAccess :=
  if rf.nextIndex index - 1 < rf.lastIncludedIndex then []
  else rf.getLogAtAccesses (rf.getRealLogIndex (rf.nextIndex index - 1)) ++ rf.lastLogAccesses ++
    if rf.nextIndex index ≤ rf.getLastLogIndex then
      [.slice (rf.getRealLogIndex (rf.nextIndex index)) rf.log.length]
    else []

def countReplicaAccesses (rf : Raft n Command) : List LogAccess := rf.lastLogAccesses ++ rf.scanAccesses

def condInstallSnapshotAccesses (rf : Raft n Command) (lastIncludedTerm lastIncludedIndex : Nat) : List LogAccess :=
  if lastIncludedIndex ≤ rf.commitIndex then []
  else rf.scanAccesses ++ [.slice (rf.trimIndex lastIncludedTerm lastIncludedIndex) rf.log.length]

def snapshotAccesses (rf : Raft n Command) (index : Nat) : List LogAccess :=
  if index ≤ rf.lastIncludedIndex then []
  else
    let found := (List.range rf.log.length).find? (fun i => (rf.getLogAt i).map Prod.fst = some index)
    rf.scanAccesses ++ [.slice (found.getD 0 + 1) rf.log.length]

/-- The slice expression of `applyChecker`. -/
def applyCheckerAccesses (rf : Raft n Command) : List LogAccess :=
  if rf.commitIndex ≤ rf.lastApplied then []
  else [.slice ((rf.lastApplied : Int) + 1 - rf.lastIncludedIndex) ((rf.commitIndex : Int) + 1 - rf.lastIncludedIndex)]

/-- The reads of `rf.Log` in the critical section of an action, with the server they are made by.
No section changes the log before its last read. -/
def Cluster.logAccesses (cluster : Cluster n Command) : Action n Command → List (Fin n × LogAccess)
  | .electionTimeout server => (cluster.node server).raft.lastLogAccesses.map (server, ·)
  | .replicate server peer => ((cluster.node server).raft.leaderAppendEntriesAccesses peer).map (server, ·)
  | .handle id =>
    match cluster.calls[id]? with
    | none => []
    | some call =>
      let rf := (cluster.node call.callee).raft
      match call.request with
      | .requestVote _ => rf.lastLogAccesses.map (call.callee, ·)
      | .appendEntries args =>
        if args.term < rf.currentTerm then []
        else ((rf.observeLeader args.term).appendEntriesAccesses args).map (call.callee, ·)
      | .installSnapshot _ => []
  | .deliver id =>
    match cluster.calls[id]? with
    | none => []
    | some call =>
      let rf := (cluster.node call.caller).raft
      match call.request with
      | .requestVote _ => rf.lastLogAccesses.map (call.caller, ·)
      -- the loop of `handleLogInconsistency`, then `countReplica`
      | .appendEntries _ => (rf.scanAccesses ++ rf.countReplicaAccesses).map (call.caller, ·)
      | .installSnapshot _ => rf.countReplicaAccesses.map (call.caller, ·)
  | .start server _ => (cluster.node server).raft.lastLogAccesses.map (server, ·)
  | .takeBatch server => (cluster.node server).raft.applyCheckerAccesses.map (server, ·)
  | .install server =>
    match (cluster.node server).service.installing with
    | none => []
    | some (_, snapshotTerm, snapshotIndex) =>
      ((cluster.node server).raft.condInstallSnapshotAccesses snapshotTerm snapshotIndex).map (server, ·)
  | .snapshot server index => ((cluster.node server).raft.snapshotAccesses index).map (server, ·)
  | .fail _ | .sendCommand _ | .finishBatch _ | .sendSnapshot _ _ | .restart _ => []

/-- None of the reads panics. -/
def InLog (rf : Raft n Command) (accesses : List LogAccess) : Prop :=
  ∀ access ∈ accesses, access.InRange rf.log.length

section Reads

variable {rf : Raft n Command}

theorem InLog.nil : InLog rf [] := nofun

theorem InLog.append {first second : List LogAccess} (firstIn : InLog rf first) (secondIn : InLog rf second) :
    InLog rf (first ++ second) := by
  intro access member
  rcases List.mem_append.mp member with inFirst | inSecond
  · exact firstIn access inFirst
  · exact secondIn access inSecond

theorem InLog.slice {low high : Int} (start : 0 ≤ low) (ordered : low ≤ high) (inside : high ≤ rf.log.length) :
    InLog rf [.slice low high] := by
  intro access member
  rw [List.mem_singleton.mp member]
  exact ⟨start, ordered, inside⟩

/-- `getLogAt` guards its own read on the right; on the left its callers do. -/
theorem getLogAtAccesses_inLog {realIndex : Int} (start : 0 ≤ realIndex) :
    InLog rf (rf.getLogAtAccesses realIndex) := by
  unfold getLogAtAccesses
  split
  · exact InLog.nil
  · rename_i inside
    split
    · exact InLog.nil
    · intro access member
      rw [List.mem_singleton.mp member]
      exact ⟨start, by omega⟩

theorem lastLogAccesses_inLog (nonempty : 0 < rf.log.length) : InLog rf rf.lastLogAccesses :=
  getLogAtAccesses_inLog (by omega)

theorem scanAccesses_inLog (rf : Raft n Command) : InLog rf rf.scanAccesses := by
  intro access member
  obtain ⟨i, -, read⟩ := List.mem_flatMap.mp member
  exact getLogAtAccesses_inLog (by omega) access read

theorem getSameTermFirstAccesses_inLog {realIndex : Int} (start : 0 ≤ realIndex) (inside : realIndex < rf.log.length) :
    InLog rf (rf.getSameTermFirstAccesses realIndex) := by
  unfold getSameTermFirstAccesses
  split
  · exact InLog.nil
  · refine (getLogAtAccesses_inLog start).append ?_
    intro access member
    obtain ⟨i, inRange, rfl⟩ := List.mem_map.mp member
    have bound := List.mem_range.mp inRange
    exact ⟨by omega, by omega⟩

theorem conflictAccesses_inLog {entries : List (LogEntry Command)} {realIndex : Int} (start : 0 ≤ realIndex) :
    InLog rf (rf.conflictAccesses entries realIndex) := by
  intro access member
  obtain ⟨i, -, read⟩ := List.mem_flatMap.mp member
  split at read
  · rename_i inside
    simp only [List.mem_cons, List.not_mem_nil, or_false] at read
    rcases read with rfl | rfl
    · exact ⟨by omega, inside⟩
    · exact ⟨le_rfl, by omega, inside.le⟩
  · cases read

theorem countReplicaAccesses_inLog (nonempty : 0 < rf.log.length) : InLog rf rf.countReplicaAccesses :=
  (lastLogAccesses_inLog nonempty).append (scanAccesses_inLog rf)

theorem trimIndex_le (rf : Raft n Command) (lastIncludedTerm lastIncludedIndex : Nat) :
    rf.trimIndex lastIncludedTerm lastIncludedIndex ≤ rf.log.length := by
  unfold trimIndex
  split
  · rename_i i found
    have member := List.mem_of_find?_eq_some found
    simp only [List.mem_reverse, List.mem_range] at member
    exact member
  · exact le_rfl

theorem condInstallSnapshotAccesses_inLog (rf : Raft n Command) (lastIncludedTerm lastIncludedIndex : Nat) :
    InLog rf (rf.condInstallSnapshotAccesses lastIncludedTerm lastIncludedIndex) := by
  have cut := rf.trimIndex_le lastIncludedTerm lastIncludedIndex
  unfold condInstallSnapshotAccesses
  split
  · exact InLog.nil
  · exact (scanAccesses_inLog rf).append (InLog.slice (by omega) (by omega) le_rfl)

theorem snapshotAccesses_inLog (nonempty : 0 < rf.log.length) (index : Nat) : InLog rf (rf.snapshotAccesses index) := by
  unfold snapshotAccesses
  split
  · exact InLog.nil
  · refine (scanAccesses_inLog rf).append (InLog.slice (by omega) ?_ le_rfl)
    cases found : (List.range rf.log.length).find? (fun i => (rf.getLogAt i).map Prod.fst = some index) with
    | none =>
      simp only [Option.getD_none]
      omega
    | some i =>
      have bound := List.mem_range.mp (List.mem_of_find?_eq_some found)
      simp only [Option.getD_some]
      omega

variable [Inhabited Command]

theorem Compacted.appendEntriesAccesses_inLog (compacted : Compacted rf) (args : AppendEntriesArgs n Command) :
    InLog rf (rf.appendEntriesAccesses args) := by
  have length := compacted.fullLog_length
  have lastIndex := compacted.getLastLogIndex_eq
  refine (lastLogAccesses_inLog compacted.log_length_pos).append ?_
  split
  · exact InLog.nil
  split
  · exact InLog.nil
  refine (getLogAtAccesses_inLog (by omega)).append ?_
  split
  · exact conflictAccesses_inLog (by omega)
  · exact getSameTermFirstAccesses_inLog (by omega) (by omega)

theorem Compacted.leaderAppendEntriesAccesses_inLog (compacted : Compacted rf) (peer : Fin n) :
    InLog rf (rf.leaderAppendEntriesAccesses peer) := by
  have length := compacted.fullLog_length
  have lastIndex := compacted.getLastLogIndex_eq
  unfold leaderAppendEntriesAccesses getRealLogIndex
  split
  · exact InLog.nil
  refine ((getLogAtAccesses_inLog (by omega)).append (lastLogAccesses_inLog compacted.log_length_pos)).append ?_
  split
  · exact InLog.slice (by omega) (by omega) le_rfl
  · exact InLog.nil

theorem Compacted.applyCheckerAccesses_inLog (compacted : Compacted rf)
    (retained : rf.lastIncludedIndex ≤ rf.lastApplied) (committed : rf.commitIndex ≤ rf.fullLog.length) :
    InLog rf rf.applyCheckerAccesses := by
  have length := compacted.fullLog_length
  unfold applyCheckerAccesses
  split
  · exact InLog.nil
  · exact InLog.slice (by omega) (by omega) (by omega)

end Reads

variable {cluster next : Cluster n Command} {state : State (Fin n) (LogEntry Command)} {server : Fin n}
  {action : Action n Command}

theorem Simulates.logAccesses_inRange [Inhabited Command] (simulates : Simulates cluster state) {access : LogAccess}
    (read : (server, access) ∈ cluster.logAccesses action) :
    access.InRange (cluster.node server).raft.log.length := by
  have inLog : ∀ {actor : Fin n} {accesses : List LogAccess}, InLog (cluster.node actor).raft accesses →
      (server, access) ∈ accesses.map (actor, ·) → access.InRange (cluster.node server).raft.log.length := by
    intro actor accesses safe member
    obtain ⟨found, isRead, same⟩ := List.mem_map.mp member
    cases same
    exact safe access isRead
  have log := fun actor => (simulates.node actor).log
  have nonempty := fun actor => (log actor).compacted.log_length_pos
  unfold Cluster.logAccesses at read
  cases action with
  | electionTimeout actor => exact inLog (lastLogAccesses_inLog (nonempty actor)) read
  | replicate actor peer => exact inLog ((log actor).compacted.leaderAppendEntriesAccesses_inLog peer) read
  | handle id =>
    dsimp only at read
    split at read
    · cases read
    rename_i call located
    split at read
    · exact inLog (lastLogAccesses_inLog (nonempty call.callee)) read
    · rename_i args request
      split at read
      · cases read
      -- stepping down to a follower does not touch the log
      have same := observeLeader_sameLog (cluster.node call.callee).raft args.term
      have safe := (same.compacted (log call.callee).compacted).appendEntriesAccesses_inLog args
      unfold InLog at safe
      rw [same.log] at safe
      exact inLog safe read
    · cases read
  | deliver id =>
    dsimp only at read
    split at read
    · cases read
    rename_i call located
    have counts := countReplicaAccesses_inLog (nonempty call.caller)
    split at read
    · exact inLog (lastLogAccesses_inLog (nonempty call.caller)) read
    · exact inLog ((scanAccesses_inLog _).append counts) read
    · exact inLog counts read
  | start actor command => exact inLog (lastLogAccesses_inLog (nonempty actor)) read
  | takeBatch actor =>
    exact inLog ((log actor).compacted.applyCheckerAccesses_inLog (log actor).retained (log actor).commitIndex) read
  | install actor =>
    dsimp only at read
    split at read
    · cases read
    · exact inLog (condInstallSnapshotAccesses_inLog _ _ _) read
  | snapshot actor index => exact inLog (snapshotAccesses_inLog (nonempty actor) index) read
  | fail | sendCommand | finishBatch | sendSnapshot | restart => cases read

/-! ## Indices only grow -/

structure Advances (rf other : Raft n Command) : Prop where
  currentTerm : rf.currentTerm ≤ other.currentTerm
  lastIncludedIndex : rf.lastIncludedIndex ≤ other.lastIncludedIndex
  lastApplied : rf.lastApplied ≤ other.lastApplied
  commitIndex : rf.commitIndex ≤ other.commitIndex

theorem Advances.refl (rf : Raft n Command) : Advances rf rf := ⟨le_rfl, le_rfl, le_rfl, le_rfl⟩

theorem Advances.trans {first second third : Raft n Command} (one : Advances first second)
    (two : Advances second third) : Advances first third :=
  ⟨one.currentTerm.trans two.currentTerm, one.lastIncludedIndex.trans two.lastIncludedIndex,
    one.lastApplied.trans two.lastApplied, one.commitIndex.trans two.commitIndex⟩

theorem Keeps.advances {rf other : Raft n Command} (keeps : Keeps rf other) : Advances rf other :=
  ⟨keeps.currentTerm, keeps.lastIncludedIndex, keeps.lastApplied.ge, keeps.commitIndex⟩

variable [Inhabited Command]

/-- The section of a living process, or a restart, which keeps the term and the snapshot. -/
theorem Simulates.advances (simulates : Simulates cluster state) {rf : Raft n Command}
    (acts : Section cluster server action rf) :
    Advances (cluster.node server).raft rf ∨ action = .restart server ∧
      rf.currentTerm = (cluster.node server).raft.currentTerm ∧
      rf.lastIncludedIndex = (cluster.node server).raft.lastIncludedIndex := by
  have node := simulates.node server
  have called : ∀ {id : Nat} {call : Call n Command}, cluster.calls[id]? = some call →
      CallRel state cluster.taken (cluster.node call.caller).raft.lastIncludedIndex call :=
    fun located => simulates.call _ (List.mem_of_getElem? located)
  cases acts with
  | none => exact .inl (Advances.refl _)
  | candidateState =>
    have keeps : Keeps (cluster.node server).raft (cluster.node server).raft.candidateState :=
      SameLog.keeps ⟨rfl, rfl, rfl, rfl, rfl, rfl, rfl⟩ (Nat.le_succ _)
    exact .inl keeps.advances
  | leaderAppendEntries peer =>
    obtain ⟨⟨nextIndex, matchIndex, -, result⟩, -⟩ := node.log.compacted.leaderAppendEntries_cases peer
    rw [result]
    exact .inl ⟨le_rfl, le_rfl, le_rfl, le_rfl⟩
  | requestVote id call args => exact .inl (requestVote_keeps _ args).advances
  | appendEntries id call args located callee request =>
    obtain ⟨different, content⟩ := called located
    simp only [request] at content
    obtain ⟨⟨leaderLog, leads, carried⟩, -⟩ := content
    rw [callee] at different
    obtain ⟨after, -, -, -, keeps, -⟩ := node.log.accept node.role simulates.invariant leads different carried
    exact .inl keeps.advances
  | installSnapshot id call args =>
    rcases installSnapshot_cases (cluster.node server).raft args with ⟨reply, result⟩ | ⟨-, reply, message, result, -⟩
    · rw [result]
      exact .inl (Advances.refl _)
    · rw [result]
      exact .inl (observeCandidate_keeps _ _).advances
  | requestVoteReply id call args reply =>
    rcases handleRequestVoteReply_cases (cluster.node server).raft args reply with
      ⟨later, result⟩ | result | ⟨_, _, _, ⟨_, result⟩ | result⟩
    · rw [result]
      exact .inl (followerState_keeps later.le).advances
    all_goals
      rw [result]
      exact .inl ⟨le_rfl, le_rfl, le_rfl, le_rfl⟩
  | appendEntriesReply id call args reply located caller request replied =>
    obtain ⟨different, content⟩ := called located
    simp only [request] at content
    obtain ⟨after, -, -, -, keeps⟩ := node.log.acknowledge node.role simulates.invariant (content.2 reply replied)
    exact .inl keeps.advances
  | installSnapshotReply id call args reply located caller request =>
    obtain ⟨different, content⟩ := called located
    simp only [request, caller] at content
    obtain ⟨after, -, -, -, keeps⟩ := node.log.snapshotReply node.role simulates.invariant reply content.1
    exact .inl keeps.advances
  | start command =>
    unfold Raft.start
    split <;> exact .inl ⟨le_rfl, le_rfl, le_rfl, le_rfl⟩
  | finishApply commitIndex =>
    unfold finishApply
    split
    · rename_i later
      exact .inl ⟨le_rfl, le_rfl, later.le, le_rfl⟩
    · exact .inl (Advances.refl _)
  | condInstallSnapshot snapshot snapshotTerm snapshotIndex =>
    unfold condInstallSnapshot
    split
    · exact .inl (Advances.refl _)
    · have retained := node.log.retained.trans node.log.applied
      exact .inl ⟨le_rfl, by simp only [saveStateAndSnapshot]; omega, le_max_left _ _, le_max_left _ _⟩
  | snapshot index applied =>
    by_cases newer : (cluster.node server).raft.lastIncludedIndex < index
    · have inLog := (applied.trans node.service.committed).trans node.log.commitIndex
      rw [node.log.compacted.snapshot_eq _ newer inLog]
      exact .inl ⟨le_rfl, newer.le, le_max_left _ _, le_max_left _ _⟩
    · rw [snapshot_of_le (by omega)]
      exact .inl (Advances.refl _)
  | restart =>
    obtain ⟨log, -, included, -⟩ := node.log.reboot node.role
    exact .inr ⟨rfl, log.currentTerm.symm.trans node.log.currentTerm, included⟩

theorem Cluster.Steps.advances {later : Cluster n Command} (reachable : Cluster.Reachable cluster)
    (steps : Cluster.Steps cluster later) (server : Fin n) :
    (cluster.node server).raft.currentTerm ≤ (later.node server).raft.currentTerm ∧
      (cluster.node server).raft.lastIncludedIndex ≤ (later.node server).raft.lastIncludedIndex ∧
      (cluster.node server).incarnation ≤ (later.node server).incarnation ∧
      ((cluster.node server).incarnation = (later.node server).incarnation →
        Advances (cluster.node server).raft (later.node server).raft) := by
  refine Cluster.Steps.invariant steps ?_ ?_
  · exact ⟨le_rfl, le_rfl, le_rfl, fun _ => Advances.refl _⟩
  rintro middle next action reached ⟨term, included, process, sameProcess⟩ step
  obtain ⟨state, -, simulates⟩ := reachable_simulates (reachable.trans reached)
  rcases simulates.advances (Cluster.step_section step server) with advances | ⟨isRestart, sameTerm, sameIncluded⟩
  · refine ⟨term.trans advances.currentTerm, included.trans advances.lastIncludedIndex, ?_, ?_⟩
    · rcases Cluster.step_incarnation step server with same | ⟨-, another⟩ <;> omega
    · intro same
      refine (sameProcess ?_).trans advances
      rcases Cluster.step_incarnation step server with unchanged | ⟨-, another⟩ <;> omega
  · -- a restart goes back to the snapshot, but it is another process
    subst isRestart
    rcases Cluster.step_incarnation step server with unchanged | ⟨-, another⟩
    · rw [Cluster.step, Option.some.injEq] at step
      subst step
      simp [Cluster.restart, Cluster.setNode, Node.boot] at unchanged
    · refine ⟨?_, ?_, ?_, ?_⟩ <;> omega

/-! ## Committed entries stay -/

/-- The committed part of a server's log is in its log for ever, across restarts too. -/
theorem Cluster.Steps.committed_kept {later : Cluster n Command} (reachable : Cluster.Reachable cluster)
    (steps : Cluster.Steps cluster later) (server : Fin n) :
    (cluster.node server).raft.fullLog.take (cluster.node server).raft.commitIndex <+:
      (later.node server).raft.fullLog := by
  obtain ⟨state, -, simulates⟩ := reachable_simulates reachable
  obtain ⟨after, run, laterSimulates⟩ := simulates.run steps
  have log := (simulates.node server).log
  rw [← (laterSimulates.node server).log.log]
  refine log.committed.held_run simulates.invariant run log.currentTerm.ge ?_
  rw [log.log]
  exact List.take_prefix _ _

/-- A committed entry that the log retained is still retained, or its command is in the snapshot. -/
theorem Simulates.entry_kept (simulates : Simulates cluster state) {rf : Raft n Command} {index : Nat}
    {entry : LogEntry Command} (compacted : Compacted rf) (committed : index ≤ rf.commitIndex)
    (retained : rf.retainedEntry index = some entry)
    (kept : rf.fullLog.take rf.commitIndex <+: (cluster.node server).raft.fullLog) :
    (cluster.node server).raft.retainedEntry index = some entry ∨
      (index ≤ (cluster.node server).raft.lastIncludedIndex ∧
        (cluster.node server).raft.persister.snapshot.data[index - 1]? = some entry.command) := by
  have log := (simulates.node server).log
  obtain ⟨newer, located⟩ := compacted.retainedEntry_eq_some.mp retained
  have stillAt : (cluster.node server).raft.fullLog[index - 1]? = some entry := by
    obtain ⟨rest, whole⟩ := kept
    have inside : index - 1 < (rf.fullLog.take rf.commitIndex).length := by
      have bound := (List.getElem?_eq_some_iff.mp located).1
      rw [List.length_take]
      omega
    rw [← whole, List.getElem?_append_left inside, List.getElem?_take_of_lt (by omega)]
    exact located
  rcases Nat.lt_or_ge (cluster.node server).raft.lastIncludedIndex index with stillRetained | snapshotted
  · exact .inl (log.compacted.retainedEntry_eq_some.mpr ⟨stillRetained, stillAt⟩)
  · refine .inr ⟨snapshotted, ?_⟩
    have length := log.snapshot.length
    rw [fullLog, List.getElem?_append_left (by omega)] at stillAt
    rw [log.snapshot.data, List.getElem?_map, stillAt]
    rfl

/-- The indices of every server are ordered and all reads of `rf.Log` are in range; terms never
decrease, the indices do not while a process lives, and a committed entry leaves the log only
for the snapshot. -/
theorem index_order_and_stability {cluster : Cluster n Command} (reachable : Cluster.Reachable cluster) :
    (∀ server, let rf := (cluster.node server).raft
      rf.lastIncludedIndex ≤ rf.lastApplied ∧ rf.lastApplied ≤ rf.commitIndex ∧
        (rf.commitIndex : Int) ≤ (rf.lastIncludedIndex : Int) + rf.log.length - 1) ∧
    (∀ action server access, (server, access) ∈ cluster.logAccesses action →
      access.InRange (cluster.node server).raft.log.length) ∧
    -- `NeedEmptyLogEntry` may be called at any time
    (∀ server, InLog (cluster.node server).raft (cluster.node server).raft.lastLogAccesses) ∧
    ∀ later, Cluster.Steps cluster later → ∀ server,
      let rf := (cluster.node server).raft
      let after := (later.node server).raft
      rf.currentTerm ≤ after.currentTerm ∧
      ((cluster.node server).incarnation = (later.node server).incarnation →
        rf.lastIncludedIndex ≤ after.lastIncludedIndex ∧ rf.lastApplied ≤ after.lastApplied ∧
          rf.commitIndex ≤ after.commitIndex) ∧
      (∀ index entry, index ≤ rf.commitIndex → rf.retainedEntry index = some entry →
        after.retainedEntry index = some entry ∨
          (index ≤ after.lastIncludedIndex ∧ after.persister.snapshot.data[index - 1]? = some entry.command)) ∧
      rf.persister.snapshot.data <+: after.persister.snapshot.data := by
  obtain ⟨state, -, simulates⟩ := reachable_simulates reachable
  refine ⟨?_, fun action server access => simulates.logAccesses_inRange,
    fun server => lastLogAccesses_inLog (simulates.node server).log.compacted.log_length_pos, ?_⟩
  · intro server rf
    have log := (simulates.node server).log
    have length := log.compacted.fullLog_length
    have commit := log.commitIndex
    refine ⟨log.retained, log.applied, ?_⟩
    dsimp only [rf]
    omega
  intro later steps server rf after
  obtain ⟨laterState, -, laterSimulates⟩ := reachable_simulates (reachable.trans steps)
  have log := (simulates.node server).log
  have laterLog := (laterSimulates.node server).log
  obtain ⟨term, included, -, sameProcess⟩ := Cluster.Steps.advances reachable steps server
  have kept := Cluster.Steps.committed_kept reachable steps server
  refine ⟨term, ?_, ?_, ?_⟩
  · intro same
    have advances := sameProcess same
    exact ⟨advances.lastIncludedIndex, advances.lastApplied, advances.commitIndex⟩
  · intro index entry committed retained
    exact laterSimulates.entry_kept log.compacted committed retained kept
  · -- both snapshots are parts of the later log, and the later one is at least as long
    rw [log.snapshot.data, laterLog.snapshot.data]
    have entries : (cluster.node server).raft.persister.snapshot.entries <+: (later.node server).raft.fullLog := by
      refine List.IsPrefix.trans ?_ kept
      have bound := log.retained.trans log.applied
      rw [← log.snapshot.length] at bound
      rw [fullLog, List.take_append, List.take_of_length_le bound]
      exact List.prefix_append _ _
    have shorter := log.snapshot.length.le.trans (included.trans laterLog.snapshot.length.ge)
    exact (List.prefix_of_prefix_length_le entries (List.prefix_append _ _) shorter).map LogEntry.command

/-- The leader's first entry is committed; it applies it, takes a snapshot and crashes. -/
theorem index_order_and_stability_replicated :
    let later := replicated.after [.takeBatch 0, .sendCommand 0, .snapshot 0 1, .restart 0]
    (replicated.node 0).raft.commitIndex = 1 ∧ (replicated.node 0).raft.retainedEntry 1 = some ⟨1, 7, 1⟩ ∧
    (later.node 0).raft.retainedEntry 1 = none ∧ (later.node 0).raft.persister.snapshot.data[0]? = some 7 := by
  intro later
  have committed : (replicated.node 0).raft.commitIndex = 1 := by decide
  have retained : (replicated.node 0).raft.retainedEntry 1 = some ⟨1, 7, 1⟩ := by decide
  have gone : (later.node 0).raft.retainedEntry 1 = none := by decide
  obtain ⟨-, -, -, stable⟩ := index_order_and_stability reachable_replicated
  obtain ⟨-, -, kept, -⟩ := stable later (Cluster.steps_after replicated _) 0
  rcases kept 1 ⟨1, 7, 1⟩ committed.ge retained with still | ⟨-, inSnapshot⟩
  · rw [gone] at still
    cases still
  · exact ⟨committed, retained, gone, inSnapshot⟩

end ShardedKV.Raft
