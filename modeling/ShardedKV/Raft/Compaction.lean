import ShardedKV.Raft.Transfers

/-!
# Compacting the log is not seen from outside

Two states of a server that differ only in how much of the log a snapshot has replaced answer every
request alike, as long as the request does not reach below the snapshots.  Only the scan of
`countReplica` for the first entry of the current term needs the terms of the log to be in order: it
starts at the snapshot, and where terms go back it can miss entries that it would have found in the
whole log.
-/

namespace ShardedKV.Raft

variable {n : Nat} {Command : Type}

/-! ## Merging behind a part of the log that stays -/

theorem truncateConflict_append (kept log entries : List (LogEntry Command)) (start : Nat) :
    truncateConflict (kept ++ log) entries (kept.length + start) =
      (kept ++ (truncateConflict log entries start).1, (truncateConflict log entries start).2) := by
  induction entries generalizing start with
  | nil => rfl
  | cons entry entries inductionHypothesis =>
    unfold truncateConflict
    rw [List.getElem?_append_right (by omega), Nat.add_sub_cancel_left]
    cases log[start]? with
    | none => rfl
    | some existing =>
      dsimp only
      split
      · rw [List.take_length_add_append]
      · exact inductionHypothesis (start + 1)

theorem appendMissing_append (kept log entries : List (LogEntry Command)) (position : Nat) :
    appendMissing (kept ++ log) entries (kept.length + position) =
      (kept ++ (appendMissing log entries position).1, (appendMissing log entries position).2) := by
  induction entries generalizing log position with
  | nil => rfl
  | cons entry entries inductionHypothesis =>
    unfold appendMissing
    by_cases ends : log.length ≤ position
    · rw [if_pos ends, if_pos (by rw [List.length_append]; omega), List.append_assoc, Nat.add_assoc,
        inductionHypothesis]
    · rw [if_neg ends, if_neg (by rw [List.length_append]; omega)]
      exact inductionHypothesis log (position + 1)

/-- The entries after the one that matched, and whether they have changed. -/
def mergeRest (rest entries : List (LogEntry Command)) : List (LogEntry Command) × Bool :=
  let (kept, truncated) := truncateConflict rest entries 0
  if kept.length ≤ 0 then (kept ++ entries, true)
  else
    let (joined, appended) := appendMissing kept entries 0
    (joined, truncated || appended)

theorem mergeLog_append (kept rest entries : List (LogEntry Command)) {realIndex : Nat}
    (matched : kept.length = realIndex + 1) :
    mergeLog (kept ++ rest) entries realIndex = (kept ++ (mergeRest rest entries).1, (mergeRest rest entries).2) := by
  have truncated := truncateConflict_append kept rest entries 0
  rw [Nat.add_zero] at truncated
  unfold mergeLog mergeRest
  rw [← matched, truncated]
  dsimp only
  have appended := appendMissing_append kept (truncateConflict rest entries 0).1 entries 0
  rw [Nat.add_zero] at appended
  rw [List.length_append, appended]
  split <;> rename_i ends
  · rw [if_pos (by omega), List.append_assoc]
  · rw [if_neg (by omega)]

theorem storeEntries_commitIndex (rf : Raft n Command) (args : AppendEntriesArgs n Command) (realIndex : Nat) :
    (rf.storeEntries args realIndex).commitIndex =
      if rf.commitIndex < args.leaderCommit then min args.leaderCommit rf.getLastLogIndex else rf.commitIndex := by
  rw [storeEntries_eq]

variable [Inhabited Command] {rf other : Raft n Command}

theorem Compacted.storeEntries_fullLog (compacted : Compacted rf) (args : AppendEntriesArgs n Command) {prev : Nat}
    (retained : rf.lastIncludedIndex ≤ prev) (inLog : prev ≤ rf.fullLog.length) :
    (rf.storeEntries args (prev - rf.lastIncludedIndex)).fullLog =
      rf.fullLog.take prev ++ (mergeRest (rf.fullLog.drop prev) args.entries).1 := by
  have length := compacted.fullLog_length
  -- the entry that matched and everything before it, and the rest
  have split : rf.log = rf.log.take (prev - rf.lastIncludedIndex + 1) ++ rf.fullLog.drop prev := by
    rw [← Nat.add_sub_cancel' retained, ← compacted.log_drop, Nat.add_sub_cancel_left, List.take_append_drop]
  have matched : (rf.log.take (prev - rf.lastIncludedIndex + 1)).length = prev - rf.lastIncludedIndex + 1 := by
    rw [List.length_take]
    omega
  have front : rf.persister.snapshot.entries ++ (rf.log.take (prev - rf.lastIncludedIndex + 1)).tail =
      rf.fullLog.take prev := by
    have included := compacted.lastIncludedIndex
    rw [fullLog, List.take_append,
      List.take_of_length_le (show rf.persister.snapshot.entries.length ≤ prev by omega), included, compacted.log_eq,
      List.tail_cons, List.take_succ_cons, List.tail_cons]
  have merged := mergeLog_append _ (rf.fullLog.drop prev) args.entries matched
  rw [← split] at merged
  rw [storeEntries_eq, fullLog, storeEntries_snapshot, merged, ← front, List.append_assoc]
  congr 1
  rw [List.tail_append_of_ne_nil]
  intro empty
  rw [empty] at matched
  cases matched

/-! ## States with one view of the log -/

/-- Two states that differ in how much of one log their snapshots have replaced. -/
structure SameView (rf other : Raft n Command) : Prop where
  compacted : Compacted rf
  otherCompacted : Compacted other
  fullLog : other.fullLog = rf.fullLog
  me : other.me = rf.me
  state : other.state = rf.state
  currentTerm : other.currentTerm = rf.currentTerm
  votedFor : other.votedFor = rf.votedFor
  commitIndex : other.commitIndex = rf.commitIndex
  lastApplied : other.lastApplied = rf.lastApplied
  getVotesNum : other.getVotesNum = rf.getVotesNum
  nextIndex : other.nextIndex = rf.nextIndex
  matchIndex : other.matchIndex = rf.matchIndex

namespace SameView

variable (same : SameView rf other)
include same

theorem followerState (term : Nat) :
    SameView (rf.followerState term) (other.followerState term) where
  compacted := same.compacted.congr rfl rfl rfl rfl
  otherCompacted := same.otherCompacted.congr rfl rfl rfl rfl
  fullLog := same.fullLog
  me := same.me
  state := rfl
  currentTerm := rfl
  votedFor := rfl
  commitIndex := same.commitIndex
  lastApplied := same.lastApplied
  getVotesNum := rfl
  nextIndex := same.nextIndex
  matchIndex := same.matchIndex

theorem getLastLogIndex : other.getLastLogIndex = rf.getLastLogIndex := by
  rw [same.otherCompacted.getLastLogIndex_eq, same.compacted.getLastLogIndex_eq, same.fullLog]

theorem getLastLogTerm : other.getLastLogTerm = rf.getLastLogTerm := by
  rw [same.otherCompacted.getLastLogTerm_eq, same.compacted.getLastLogTerm_eq, same.fullLog]

theorem getLogAt {index : Nat} (retained : rf.lastIncludedIndex ≤ index)
    (otherRetained : other.lastIncludedIndex ≤ index) :
    other.getLogAt (index - other.lastIncludedIndex) = rf.getLogAt (index - rf.lastIncludedIndex) := by
  rw [same.otherCompacted.getLogAt_eq, same.compacted.getLogAt_eq, Nat.add_sub_cancel' retained,
    Nat.add_sub_cancel' otherRetained, same.fullLog]

theorem observeCandidate (term : Nat) :
    SameView (rf.observeCandidate term) (other.observeCandidate term) := by
  unfold Raft.observeCandidate
  rw [same.currentTerm]
  split
  · exact same.followerState term
  · exact same

theorem observeLeader (term : Nat) :
    SameView (rf.observeLeader term) (other.observeLeader term) := by
  unfold Raft.observeLeader
  rw [same.currentTerm, same.state]
  split
  · exact same.followerState term
  · exact same

theorem requestVote (args : RequestVoteArgs n) :
    (other.requestVote args).2 = (rf.requestVote args).2 ∧
      (other.requestVote args).1.votedFor = (rf.requestVote args).1.votedFor ∧
      (other.requestVote args).1.currentTerm = (rf.requestVote args).1.currentTerm := by
  have observed := same.observeCandidate args.term
  unfold Raft.requestVote
  change SameView (if rf.currentTerm < args.term then rf.followerState args.term else rf)
    (if other.currentTerm < args.term then other.followerState args.term else other) at observed
  generalize (if rf.currentTerm < args.term then rf.followerState args.term else rf) = first at observed ⊢
  generalize (if other.currentTerm < args.term then other.followerState args.term else other) = second at observed ⊢
  dsimp only
  rw [observed.currentTerm, observed.votedFor, observed.getLastLogTerm, observed.getLastLogIndex]
  split
  · exact ⟨rfl, observed.votedFor, observed.currentTerm⟩
  split
  · exact ⟨rfl, rfl, rfl⟩
  · exact ⟨rfl, observed.votedFor, observed.currentTerm⟩

theorem start (command : Command) :
    (other.start command).1 = (rf.start command).1 := by
  unfold Raft.start
  rw [same.state]
  split
  · rfl
  · rw [same.getLastLogIndex, same.currentTerm]

theorem applyBatch (retained : rf.lastIncludedIndex ≤ rf.lastApplied)
    (otherRetained : other.lastIncludedIndex ≤ rf.lastApplied) : other.applyBatch = rf.applyBatch := by
  rw [same.otherCompacted.applyBatch_eq (by rw [same.lastApplied]; exact otherRetained),
    same.compacted.applyBatch_eq retained, same.fullLog, same.commitIndex, same.lastApplied]

theorem leaderAppendEntries (peer : Fin n) (retained : (rf.lastIncludedIndex : Int) ≤ rf.nextIndex peer - 1)
    (otherRetained : (other.lastIncludedIndex : Int) ≤ rf.nextIndex peer - 1) :
    (other.leaderAppendEntries peer).2 = (rf.leaderAppendEntries peer).2 := by
  obtain ⟨prev, isPrev⟩ : ∃ prev : Nat, rf.nextIndex peer = prev + 1 := ⟨(rf.nextIndex peer - 1).toNat, by omega⟩
  rw [same.otherCompacted.leaderAppendEntries_eq (by rw [same.nextIndex]; exact isPrev) (by omega),
    same.compacted.leaderAppendEntries_eq isPrev (by omega)]
  simp only [same.state, same.currentTerm, same.me, same.fullLog, same.commitIndex]

theorem snapshot {index : Nat} (data : List Command)
    (newer : rf.lastIncludedIndex < index) (otherNewer : other.lastIncludedIndex < index)
    (inLog : index ≤ rf.fullLog.length) : other.snapshot index data = rf.snapshot index data := by
  rw [same.otherCompacted.snapshot_eq data otherNewer (by rw [same.fullLog]; exact inLog),
    same.compacted.snapshot_eq data newer inLog]
  simp only [saveStateAndSnapshot, getStatePersistData, same.fullLog, same.me, same.state, same.currentTerm,
    same.votedFor, same.commitIndex, same.lastApplied, same.getVotesNum, same.nextIndex, same.matchIndex]

/-- The first index of the conflicting term, `xIndex`, is not compared: the scan for it ends at the snapshot. -/
theorem inconsistencyReply {prev : Nat} (retained : rf.lastIncludedIndex ≤ prev)
    (otherRetained : other.lastIncludedIndex ≤ prev) :
    (other.inconsistencyReply prev).term = (rf.inconsistencyReply prev).term ∧
      (other.inconsistencyReply prev).success = (rf.inconsistencyReply prev).success ∧
      (other.inconsistencyReply prev).logInconsistency = (rf.inconsistencyReply prev).logInconsistency ∧
      (other.inconsistencyReply prev).xTerm = (rf.inconsistencyReply prev).xTerm := by
  have real : ((prev : Int) - rf.lastIncludedIndex).toNat = prev - rf.lastIncludedIndex := by omega
  have otherReal : ((prev : Int) - other.lastIncludedIndex).toNat = prev - other.lastIncludedIndex := by omega
  unfold Raft.inconsistencyReply
  dsimp only
  rw [real, otherReal, same.getLastLogIndex, same.getLogAt retained otherRetained]
  split <;> exact ⟨same.currentTerm, rfl, rfl, rfl⟩

theorem appendEntries {args : AppendEntriesArgs n Command} (retained : (rf.lastIncludedIndex : Int) ≤ args.prevLogIndex)
    (otherRetained : (other.lastIncludedIndex : Int) ≤ args.prevLogIndex) :
    let reply := (rf.appendEntries args).2
    let otherReply := (other.appendEntries args).2
    otherReply.term = reply.term ∧ otherReply.success = reply.success ∧
      otherReply.logInconsistency = reply.logInconsistency ∧ otherReply.xTerm = reply.xTerm ∧
      (other.appendEntries args).1.fullLog = (rf.appendEntries args).1.fullLog ∧
      (other.appendEntries args).1.commitIndex = (rf.appendEntries args).1.commitIndex := by
  obtain ⟨prev, isPrev⟩ : ∃ prev : Nat, args.prevLogIndex = prev := ⟨args.prevLogIndex.toNat, by omega⟩
  have observed := same.observeLeader args.term
  have first : (rf.observeLeader args.term).lastIncludedIndex ≤ prev := by
    rw [(observeLeader_sameLog rf args.term).lastIncludedIndex]
    omega
  have second : (other.observeLeader args.term).lastIncludedIndex ≤ prev := by
    rw [(observeLeader_sameLog other args.term).lastIncludedIndex]
    omega
  rw [appendEntries_eq rf args observed.compacted isPrev first,
    appendEntries_eq other args observed.otherCompacted isPrev second]
  simp only [observed.currentTerm, observed.fullLog]
  split
  · exact ⟨rfl, rfl, rfl, rfl, observed.fullLog, observed.commitIndex⟩
  split
  · rename_i matching
    refine ⟨rfl, rfl, rfl, rfl, ?_, ?_⟩
    · simp only [observed.compacted.storeEntries_fullLog args first matching.1,
        observed.otherCompacted.storeEntries_fullLog args second (observed.fullLog.symm ▸ matching.1), observed.fullLog]
    · rw [storeEntries_commitIndex, storeEntries_commitIndex, observed.commitIndex, observed.getLastLogIndex]
  · obtain ⟨term, success, inconsistent, xTerm⟩ := observed.inconsistencyReply first second
    rw [isPrev]
    exact ⟨term, success, inconsistent, xTerm, observed.fullLog, observed.commitIndex⟩

end SameView

/-! ## Counting replicas -/

namespace SameView

theorem replicas (same : SameView rf other) (index : Nat) : other.replicas index = rf.replicas index := by
  unfold Raft.replicas
  rw [same.me, same.matchIndex]

/-- The loop of `countReplica` in a state without a snapshot and in one with. -/
theorem countReplicaFrom (same : SameView rf other) (whole : rf.lastIncludedIndex = 0)
    (committed : other.lastIncludedIndex ≤ rf.commitIndex) {start otherStart limit : Nat}
    (sameStart : ∀ i, i < limit → (otherStart ≤ i ↔ start ≤ i + other.lastIncludedIndex)) :
    other.countReplicaFrom otherStart limit = rf.countReplicaFrom start (limit + other.lastIncludedIndex) := by
  induction limit with
  | zero =>
    -- what is left of the uncompacted log is committed
    rw [Nat.zero_add]
    rcases Nat.eq_zero_or_pos other.lastIncludedIndex with none | some
    · rw [none]
      exact same.commitIndex
    · obtain ⟨last, isLast⟩ : ∃ last, other.lastIncludedIndex = last + 1 := ⟨other.lastIncludedIndex - 1, by omega⟩
      rw [isLast, Raft.countReplicaFrom, Raft.countReplicaFrom, if_neg (by omega)]
      exact same.commitIndex
  | succ i inductionHypothesis =>
    have starts := sameStart i (by omega)
    have rest := inductionHypothesis fun j below => sameStart j (by omega)
    rw [show i + 1 + other.lastIncludedIndex = i + other.lastIncludedIndex + 1 by omega]
    simp only [Raft.countReplicaFrom, same.commitIndex, same.replicas, starts, whole, Nat.add_zero, rest]

theorem countReplica (same : SameView rf other) (whole : rf.lastIncludedIndex = 0)
    (committed : other.lastIncludedIndex ≤ rf.commitIndex) (currentLast : CurrentLast rf) :
    other.countReplica = rf.countReplica := by
  have otherCurrentLast : CurrentLast other := by
    unfold CurrentLast
    rw [same.fullLog, same.currentTerm]
    exact currentLast
  have length := same.compacted.fullLog_length
  have otherLength := same.otherCompacted.fullLog_length
  rw [same.fullLog] at otherLength
  unfold Raft.countReplica
  rw [same.getLastLogTerm, same.currentTerm, same.commitIndex, whole]
  split
  · split <;> split <;> omega
  · rename_i current
    rw [ne_eq, Decidable.not_not] at current
    have otherCurrent : other.getLastLogTerm = other.currentTerm := by
      rw [same.getLastLogTerm, same.currentTerm, current]
    have counted : other.countReplicaFrom other.realIndexStart other.log.length =
        rf.countReplicaFrom rf.realIndexStart (other.log.length + other.lastIncludedIndex) := by
      refine same.countReplicaFrom whole committed fun i inLog => ?_
      rw [same.otherCompacted.realIndexStart_le_iff otherCurrentLast otherCurrent inLog,
        same.compacted.realIndexStart_le_iff currentLast current (by omega), whole, same.fullLog, same.currentTerm,
        Nat.zero_add, Nat.add_comm]
    rw [show other.log.length + other.lastIncludedIndex = rf.log.length by omega] at counted
    have notBelow : rf.commitIndex ≤ rf.countReplicaFrom rf.realIndexStart rf.log.length := by
      rcases countReplicaFrom_cases rf rf.realIndexStart rf.log.length with unchanged | ⟨later, -⟩
      · exact unchanged.ge
      · exact later.le
    rw [counted, if_neg (by omega), if_neg (by omega)]

end SameView

/-! ## Compaction -/

/-- Nothing of the log is in a snapshot. -/
structure Uncompacted (rf : Raft n Command) : Prop where
  head : rf.log.head? = some default
  lastIncludedIndex : rf.lastIncludedIndex = 0
  lastIncludedTerm : rf.lastIncludedTerm = 0
  entries : rf.persister.snapshot.entries = []

/-- The state whose snapshot has replaced the entries up to index `c`, whatever else the persister holds. -/
def compactedAt (rf : Raft n Command) (c : Nat) (raftState : Option (PersistData n Command)) (data : List Command) :
    Raft n Command :=
  { rf with
    lastIncludedIndex := c
    lastIncludedTerm := (rf.log[c]?.map LogEntry.term).getD 0
    log := default :: rf.log.drop (c + 1)
    persister := { raftState, snapshot := { data, entries := (rf.log.take (c + 1)).tail } } }

theorem Uncompacted.compacted (uncompacted : Uncompacted rf) : Compacted rf where
  head := uncompacted.head
  lastIncludedIndex := by rw [uncompacted.entries, uncompacted.lastIncludedIndex, List.length_nil]
  lastIncludedTerm := by
    rw [uncompacted.entries, uncompacted.lastIncludedTerm]
    rfl

theorem Uncompacted.sameView (uncompacted : Uncompacted rf) {c : Nat} (inLog : c < rf.log.length)
    (raftState : Option (PersistData n Command)) (data : List Command) :
    SameView rf (rf.compactedAt c raftState data) := by
  obtain ⟨rest, log⟩ : ∃ rest, rf.log = default :: rest := ⟨_, uncompacted.compacted.log_eq⟩
  rw [log, List.length_cons] at inLog
  refine ⟨uncompacted.compacted, ⟨rfl, ?_, ?_⟩, ?_, rfl, rfl, rfl, rfl, rfl, rfl, rfl, rfl, rfl⟩
  · change (rf.log.take (c + 1)).tail.length = c
    rw [log, List.take_succ_cons, List.tail_cons, List.length_take]
    omega
  · change Replication.lastTerm LogEntry.term (rf.log.take (c + 1)).tail = (rf.log[c]?.map LogEntry.term).getD 0
    rw [log, List.take_succ_cons, List.tail_cons]
    cases c with
    | zero => rfl
    | succ position =>
      have located := List.getElem?_eq_getElem (show position < rest.length by omega)
      rw [List.getElem?_cons_succ, located]
      exact termAt_eq_of_getElem? located
  · change (rf.log.take (c + 1)).tail ++ rf.log.drop (c + 1) = rf.persister.snapshot.entries ++ rf.log.tail
    rw [uncompacted.entries, log, List.take_succ_cons, List.tail_cons, List.drop_succ_cons, List.take_append_drop]
    rfl

theorem Uncompacted.termAt_eq (uncompacted : Uncompacted rf) {index : Nat} {entry : LogEntry Command}
    (located : rf.log[index]? = some entry) : termAt rf.fullLog index = entry.term := by
  cases index with
  | zero =>
    rw [uncompacted.compacted.log_eq] at located
    cases located
    rfl
  | succ position =>
    rw [uncompacted.compacted.log_getElem?, uncompacted.lastIncludedIndex, Nat.zero_add] at located
    exact termAt_eq_of_getElem? located

/-- A state with the whole log and one in which a snapshot has replaced the entries up to an applied
index answer alike. -/
theorem compaction_transparent {rf : Raft n Command} (uncompacted : Uncompacted rf)
    (applied : rf.lastApplied ≤ rf.commitIndex) (committed : rf.commitIndex < rf.log.length) {c : Nat}
    (compactable : c ≤ rf.lastApplied) (raftState : Option (PersistData n Command)) (data : List Command) :
    let sc := rf.compactedAt c raftState data
    (∀ args, (sc.requestVote args).2 = (rf.requestVote args).2 ∧
      (sc.requestVote args).1.votedFor = (rf.requestVote args).1.votedFor ∧
      (sc.requestVote args).1.currentTerm = (rf.requestVote args).1.currentTerm) ∧
    (∀ command, (sc.start command).1 = (rf.start command).1) ∧
    (∀ args : AppendEntriesArgs n Command, (c : Int) ≤ args.prevLogIndex →
      (sc.appendEntries args).2.success = (rf.appendEntries args).2.success ∧
      (sc.appendEntries args).2.logInconsistency = (rf.appendEntries args).2.logInconsistency ∧
      (sc.appendEntries args).2.xTerm = (rf.appendEntries args).2.xTerm ∧
      (sc.appendEntries args).1.fullLog = (rf.appendEntries args).1.fullLog ∧
      (sc.appendEntries args).1.commitIndex = (rf.appendEntries args).1.commitIndex) ∧
    ((∀ (i j : Nat) (first second : LogEntry Command), i ≤ j → rf.log[i]? = some first → rf.log[j]? = some second →
      first.term = rf.currentTerm → second.term = rf.currentTerm) → sc.countReplica = rf.countReplica) ∧
    sc.applyBatch = rf.applyBatch ∧
    (∀ peer, (c : Int) ≤ rf.nextIndex peer - 1 → (sc.leaderAppendEntries peer).2 = (rf.leaderAppendEntries peer).2) ∧
    (∀ index newData, c < index → index ≤ rf.lastApplied → sc.snapshot index newData = rf.snapshot index newData) := by
  intro sc
  have same : SameView rf sc := uncompacted.sameView (by omega) raftState data
  have whole := uncompacted.lastIncludedIndex
  have length := uncompacted.compacted.fullLog_length
  refine ⟨same.requestVote, same.start, ?_, ?_, ?_, ?_, ?_⟩
  · intro args retained
    obtain ⟨-, success, inconsistent, xTerm, fullLog, commitIndex⟩ := same.appendEntries (by omega) retained
    exact ⟨success, inconsistent, xTerm, fullLog, commitIndex⟩
  · intro currentLast
    refine same.countReplica whole (compactable.trans applied) fun earlier later ordered inLog ofTerm => ?_
    have first := List.getElem?_eq_getElem (show earlier < rf.log.length by omega)
    have second := List.getElem?_eq_getElem (show later < rf.log.length by omega)
    rw [uncompacted.termAt_eq first] at ofTerm
    rw [uncompacted.termAt_eq second]
    exact currentLast _ _ _ _ ordered first second ofTerm
  · exact same.applyBatch (by omega) compactable
  · exact fun peer retained => same.leaderAppendEntries peer (by omega) retained
  · intro index newData newer inApplied
    exact same.snapshot newData (by omega) newer (by omega)

/-- Server 0 of three as a leader with entries of the given terms, up to `replicated` of which server 1 has. -/
def leading (terms : List Nat) (currentTerm applied : Nat) (replicated : Int) : Raft 3 Nat where
  persister := {}
  me := 0
  state := .leader
  log := default :: terms.mapIdx fun position term => { term, command := 7, index := position + 1 }
  currentTerm := currentTerm
  votedFor := some 0
  commitIndex := applied
  lastApplied := applied
  getVotesNum := 2
  nextIndex := fun _ => terms.length + 1
  matchIndex := fun peer => if peer = 1 then replicated else 0
  lastIncludedIndex := 0
  lastIncludedTerm := 0

theorem compaction_transparent_leading :
    let rf := leading [1, 1, 2, 2] 2 2 3
    let sc := rf.compactedAt 2 none [7, 7]
    rf.countReplica = 3 ∧ sc.countReplica = 3 ∧ ∀ command, (sc.start command).1 = some (5, 2) := by
  intro rf sc
  have counted : rf.countReplica = 3 := by decide
  have currentLast : ∀ i < 5, ∀ j < 5, i ≤ j → rf.log[i]?.map LogEntry.term = some 2 →
      rf.log[j]?.map LogEntry.term = some 2 := by decide
  have uncompacted : Uncompacted rf := ⟨rfl, rfl, rfl, rfl⟩
  have compactable : 2 ≤ rf.lastApplied := by decide
  obtain ⟨-, start, -, count, -⟩ :=
    compaction_transparent uncompacted (by decide) (by decide) compactable none [7, 7]
  refine ⟨counted, (count ?_).trans counted, start⟩
  intro i j first second ordered atFirst atSecond ofTerm
  have inFirst : i < 5 := (List.getElem?_eq_some_iff.mp atFirst).1
  have inSecond : j < 5 := (List.getElem?_eq_some_iff.mp atSecond).1
  have found := currentLast i inFirst j inSecond ordered (by rw [atFirst, Option.map_some, ofTerm]; rfl)
  rw [atSecond] at found
  exact Option.some.inj found

/-- Terms that go back: the scan of the compacted log starts at index 4 and misses the majority at index 3. -/
theorem countReplica_not_transparent :
    let rf := leading [5, 3, 3, 5] 5 2 3
    Uncompacted rf ∧ 2 ≤ rf.lastApplied ∧ rf.lastApplied ≤ rf.commitIndex ∧ rf.commitIndex < rf.log.length ∧
    rf.countReplica = 3 ∧ (rf.compactedAt 2 none [7, 7]).countReplica = 2 := by
  refine ⟨⟨rfl, rfl, rfl, rfl⟩, ?_⟩
  decide

end ShardedKV.Raft
