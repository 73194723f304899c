import ShardedKV.Raft.Merge

/-!
# What each handler does to the full log

One specification per function of the server that reads or replaces the log, all in terms of
`fullLog` and 1-based indices.
-/

namespace ShardedKV.Raft

open Replication (lastTerm Covered overlay overlay_eq_self)

variable {n : Nat} {Command : Type}

theorem termAt_length (log : List (LogEntry Command)) : termAt log log.length = lastTerm LogEntry.term log := by
  rw [termAt, List.take_length]

section Unchanged

variable [Inhabited Command] {rf : Raft n Command}

theorem condInstallSnapshot_of_le {lastIncludedTerm lastIncludedIndex : Nat} {snapshot : Snapshot Command}
    (old : lastIncludedIndex ≤ rf.commitIndex) :
    rf.condInstallSnapshot lastIncludedTerm lastIncludedIndex snapshot = (false, rf) := if_pos old

theorem snapshot_of_le {index : Nat} {data : List Command} (old : index ≤ rf.lastIncludedIndex) :
    rf.snapshot index data = rf := if_pos old

theorem make_state (me : Fin n) (persister : Persister n Command) : (make me persister).state = .follower := by
  simp only [make, readPersist]
  split <;> rfl

end Unchanged

theorem countReplicaFrom_cases (rf : Raft n Command) (start limit : Nat) :
    let result := rf.countReplicaFrom start limit
    result = rf.commitIndex ∨ (rf.commitIndex < result ∧ start + rf.lastIncludedIndex ≤ result ∧
      result < limit + rf.lastIncludedIndex ∧ n / 2 < rf.replicas result) := by
  induction limit with
  | zero => exact .inl rfl
  | succ i inductionHypothesis =>
    simp only [countReplicaFrom]
    split
    · split
      · refine .inr ⟨by omega, by omega, by omega, by assumption⟩
      · rcases inductionHypothesis with same | ⟨later, afterStart, below, majority⟩
        · exact .inl same
        · exact .inr ⟨later, afterStart, by omega, majority⟩
    · exact .inl rfl

/-- The servers that `replicas` counts. -/
theorem replicas_eq_card (rf : Raft n Command) (index : Nat) :
    ∃ servers : Finset (Fin n), servers.card = rf.replicas index ∧
      ∀ server ∈ servers, server = rf.me ∨ (server ≠ rf.me ∧ (index : Int) ≤ rf.matchIndex server) := by
  set others := (List.finRange n).filter (fun j => j ≠ rf.me ∧ (index : Int) ≤ rf.matchIndex j) with isOthers
  have distinct : others.Nodup := (List.nodup_finRange n).filter _
  refine ⟨insert rf.me others.toFinset, ?_, ?_⟩
  · rw [Finset.card_insert_of_notMem (by simp [isOthers]), List.toFinset_card_of_nodup distinct, replicas,
      Nat.add_comm, isOthers]
  · intro server member
    simp only [Finset.mem_insert, List.mem_toFinset, isOthers, List.mem_filter, decide_eq_true_eq] at member
    exact member.imp id And.right

theorem inconsistencyReply_success (rf : Raft n Command) (prevLogIndex : Int) :
    (rf.inconsistencyReply prevLogIndex).success = false := by
  unfold inconsistencyReply
  dsimp only
  split <;> rfl

theorem inconsistencyReply_term (rf : Raft n Command) (prevLogIndex : Int) :
    (rf.inconsistencyReply prevLogIndex).term = rf.currentTerm := by
  unfold inconsistencyReply
  dsimp only
  split <;> rfl

theorem inconsistencyReply_logInconsistency (rf : Raft n Command) (prevLogIndex : Int) :
    (rf.inconsistencyReply prevLogIndex).logInconsistency = true := by
  unfold inconsistencyReply
  dsimp only
  split <;> rfl

variable [Inhabited Command]

theorem Compacted.congr {rf other : Raft n Command} (compacted : Compacted rf) (log : other.log = rf.log)
    (snapshot : other.persister.snapshot = rf.persister.snapshot)
    (lastIncludedIndex : other.lastIncludedIndex = rf.lastIncludedIndex)
    (lastIncludedTerm : other.lastIncludedTerm = rf.lastIncludedTerm) : Compacted other where
  head := log ▸ compacted.head
  lastIncludedIndex := by rw [snapshot, lastIncludedIndex, compacted.lastIncludedIndex]
  lastIncludedTerm := by rw [snapshot, lastIncludedTerm, compacted.lastIncludedTerm]

/-- The entries of the current term are the last ones of the log. -/
def CurrentLast (rf : Raft n Command) : Prop :=
  ∀ earlier later, earlier ≤ later → later ≤ rf.fullLog.length →
    termAt rf.fullLog earlier = rf.currentTerm → termAt rf.fullLog later = rf.currentTerm

namespace Compacted

variable {rf : Raft n Command}

/-! ## Snapshots -/

variable (compacted : Compacted rf)
include compacted

theorem trimIndex_eq {lastIncludedTerm lastIncludedIndex : Nat} (newer : rf.lastIncludedIndex ≤ lastIncludedIndex) :
    rf.trimIndex lastIncludedTerm lastIncludedIndex =
      if lastIncludedIndex ≤ rf.fullLog.length ∧ termAt rf.fullLog lastIncludedIndex = lastIncludedTerm then
        lastIncludedIndex - rf.lastIncludedIndex + 1
      else rf.log.length := by
  have length := compacted.fullLog_length
  unfold trimIndex
  cases search : (List.range rf.log.length).reverse.find?
      (fun i => rf.getLogAt i = some (lastIncludedIndex, lastIncludedTerm)) with
  | none =>
    simp only [List.find?_eq_none, List.mem_reverse, List.mem_range, decide_eq_true_eq] at search
    rw [if_neg]
    rintro ⟨inLog, sameTerm⟩
    refine search (lastIncludedIndex - rf.lastIncludedIndex) (by omega) ?_
    rw [compacted.getLogAt_eq, Nat.add_sub_cancel' newer, if_pos inLog, sameTerm]
  | some i =>
    have found := List.find?_some search
    simp only [decide_eq_true_eq] at found
    rw [compacted.getLogAt_eq] at found
    split at found
    · rename_i inLog
      simp only [Option.some.injEq, Prod.mk.injEq] at found
      obtain ⟨rfl, sameTerm⟩ := found
      rw [if_pos ⟨inLog, sameTerm⟩]
      simp only
      omega
    · exact absurd found (by simp)

/-- `CondInstallSnapshot` keeps the log if it contains the snapshot's entries and replaces it
by them otherwise. -/
theorem condInstallSnapshot_eq {state : Replication.State (Fin n) (LogEntry Command)} {snapshot : Snapshot Command}
    {lastIncludedTerm lastIncludedIndex : Nat}
    (covered : Covered (scheme n Command) state rf.fullLog)
    (entriesCovered : Covered (scheme n Command) state snapshot.entries)
    (length : snapshot.entries.length = lastIncludedIndex)
    (term : lastTerm LogEntry.term snapshot.entries = lastIncludedTerm)
    (retained : rf.lastIncludedIndex ≤ rf.commitIndex) (newer : rf.commitIndex < lastIncludedIndex) :
    ∃ log, rf.condInstallSnapshot lastIncludedTerm lastIncludedIndex snapshot =
      (true, saveStateAndSnapshot { rf with
        log := log
        lastIncludedIndex := lastIncludedIndex
        lastIncludedTerm := lastIncludedTerm
        commitIndex := max rf.commitIndex lastIncludedIndex
        lastApplied := max rf.lastApplied lastIncludedIndex } snapshot) ∧
      log.head? = some default ∧ snapshot.entries ++ log.tail = overlay rf.fullLog snapshot.entries := by
  unfold condInstallSnapshot
  rw [if_neg (by omega)]
  refine ⟨_, rfl, rfl, ?_⟩
  rw [List.tail_cons, compacted.trimIndex_eq (by omega)]
  have whole : termAt snapshot.entries lastIncludedIndex = lastIncludedTerm := by
    rw [← length, termAt_length, term]
  by_cases found : lastIncludedIndex ≤ rf.fullLog.length ∧ termAt rf.fullLog lastIncludedIndex = lastIncludedTerm
  · rw [if_pos found, compacted.log_drop, Nat.add_sub_cancel' (by omega)]
    have same := take_eq_of_termAt covered entriesCovered found.1 length.ge (found.2.trans whole.symm)
    rw [List.take_of_length_le length.le] at same
    rw [overlay_eq_self ⟨rf.fullLog.drop lastIncludedIndex, ?_⟩, ← same, List.take_append_drop]
    rw [← same, List.take_append_drop]
  · rw [if_neg found, List.drop_length, List.append_nil, overlay_of_not_contained]
    intro contained
    have bound := contained.length_le
    refine found ⟨by omega, ?_⟩
    rw [← whole, termAt, termAt, ← length, ← List.prefix_iff_eq_take.mp contained, List.take_length]

theorem snapshot_eq {index : Nat} (data : List Command)
    (newer : rf.lastIncludedIndex < index) (inLog : index ≤ rf.fullLog.length) :
    rf.snapshot index data = saveStateAndSnapshot { rf with
        lastIncludedIndex := index
        lastIncludedTerm := termAt rf.fullLog index
        lastApplied := max rf.lastApplied index
        commitIndex := max rf.commitIndex index
        log := default :: rf.fullLog.drop index }
      { data := data, entries := rf.fullLog.take index } := by
  have length := compacted.fullLog_length
  have search : (List.range rf.log.length).find? (fun i => (rf.getLogAt i).map Prod.fst = some index) =
      some (index - rf.lastIncludedIndex) := by
    cases result : (List.range rf.log.length).find? (fun i => (rf.getLogAt i).map Prod.fst = some index) with
    | none =>
      simp only [List.find?_eq_none, List.mem_range, decide_eq_true_eq] at result
      refine absurd ?_ (result (index - rf.lastIncludedIndex) (by omega))
      rw [compacted.getLogAt_eq, if_pos (by omega)]
      simp only [Option.map_some, Option.some.injEq]
      omega
    | some i =>
      have found := List.find?_some result
      simp only [decide_eq_true_eq] at found
      rw [compacted.getLogAt_eq] at found
      split at found <;> simp at found
      congr 1
      omega
  have entries : rf.persister.snapshot.entries ++ (rf.log.take (index - rf.lastIncludedIndex + 1)).tail =
      rf.fullLog.take index := by
    rw [fullLog, compacted.log_eq, List.take_succ_cons, List.tail_cons, List.tail_cons, List.take_append,
      compacted.lastIncludedIndex, List.take_of_length_le (show rf.persister.snapshot.entries.length ≤ index by
        rw [compacted.lastIncludedIndex]; omega)]
  have atIndex : rf.getLogAt (index - rf.lastIncludedIndex) = some (index, termAt rf.fullLog index) := by
    rw [compacted.getLogAt_eq, Nat.add_sub_cancel' newer.le, if_pos inLog]
  unfold snapshot
  rw [if_neg (by omega)]
  simp only [search, Option.getD_some, atIndex, compacted.log_drop, Nat.add_sub_cancel' newer.le, entries]

/-! ## Sending, applying and counting -/

theorem applyBatch_eq (retained : rf.lastIncludedIndex ≤ rf.lastApplied) :
    rf.applyBatch = if rf.commitIndex ≤ rf.lastApplied then none
      else some ((rf.fullLog.take rf.commitIndex).drop rf.lastApplied, rf.commitIndex) := by
  unfold applyBatch
  split
  · rfl
  · rename_i pending
    rw [List.drop_take, List.drop_take, show rf.lastApplied + 1 - rf.lastIncludedIndex =
      (rf.lastApplied - rf.lastIncludedIndex) + 1 by omega, compacted.log_drop, Nat.add_sub_cancel' retained]
    congr 3
    omega

/-- What `leaderAppendEntries` sends to a peer whose previous entry is not below the snapshot. -/
theorem leaderAppendEntries_eq {peer : Fin n} {prev : Nat}
    (isNext : rf.nextIndex peer = prev + 1) (retained : rf.lastIncludedIndex ≤ prev) :
    rf.leaderAppendEntries peer =
      ({ rf with
          nextIndex := Function.update rf.nextIndex rf.me (rf.fullLog.length + 1)
          matchIndex := Function.update rf.matchIndex rf.me rf.fullLog.length },
        if rf.state ≠ .leader then .nothing
        else .appendEntries {
          term := rf.currentTerm
          leaderId := rf.me
          prevLogIndex := prev
          prevLogTerm := if prev ≤ rf.fullLog.length then termAt rf.fullLog prev else -1
          entries := rf.fullLog.drop prev
          leaderCommit := rf.commitIndex }) := by
  have isPrev : rf.nextIndex peer - 1 = prev := by omega
  have real : (rf.getRealLogIndex prev).toNat = prev - rf.lastIncludedIndex := by
    rw [getRealLogIndex]
    omega
  have realNext : (rf.getRealLogIndex (prev + 1)).toNat = (prev - rf.lastIncludedIndex) + 1 := by
    rw [getRealLogIndex]
    omega
  have entries : (if ((prev : Int) + 1) ≤ rf.fullLog.length then rf.fullLog.drop prev else []) =
      rf.fullLog.drop prev := by
    split
    · rfl
    · rw [List.drop_of_length_le (by omega)]
  unfold leaderAppendEntries
  dsimp only
  rw [isPrev, isNext, if_neg (by omega), real, realNext, compacted.getLogAt_eq, compacted.getLastLogIndex_eq,
    compacted.log_drop, Nat.add_sub_cancel' retained, entries]
  by_cases inLog : prev ≤ rf.fullLog.length
  · simp only [if_pos inLog]
    split <;> rfl
  · simp only [if_neg inLog]
    split <;> rfl

/-- A replication request carries everything after its previous index, or matches nowhere. -/
theorem leaderAppendEntries_cases (peer : Fin n) :
    (∃ nextIndex matchIndex, (∀ j, j ≠ rf.me → matchIndex j = rf.matchIndex j) ∧
      (rf.leaderAppendEntries peer).1 = { rf with nextIndex := nextIndex, matchIndex := matchIndex }) ∧
    match (rf.leaderAppendEntries peer).2 with
    | .nothing => True
    | .installSnapshot args => rf.state = .leader ∧ args = {
        term := rf.currentTerm
        leaderId := rf.me
        lastIncludedIndex := rf.lastIncludedIndex
        lastIncludedTerm := rf.lastIncludedTerm
        data := rf.persister.snapshot }
    | .appendEntries args => rf.state = .leader ∧ args.term = rf.currentTerm ∧
        args.leaderCommit = rf.commitIndex ∧ (rf.fullLog.length < args.prevLogIndex ∧ args.prevLogTerm = -1 ∨
          ∃ prev : Nat, args.prevLogIndex = prev ∧ prev ≤ rf.fullLog.length ∧
            args.prevLogTerm = termAt rf.fullLog prev ∧ args.entries = rf.fullLog.drop prev) := by
  by_cases behind : rf.nextIndex peer - 1 < rf.lastIncludedIndex
  · unfold leaderAppendEntries
    simp only [if_pos behind]
    by_cases leads : rf.state = .leader
    · simp only [leads, ne_eq, not_true_eq_false, if_false]
      exact ⟨⟨rf.nextIndex, rf.matchIndex, fun _ _ => rfl, by rw [← leads]⟩, trivial, trivial⟩
    · simp only [ne_eq, leads, not_false_eq_true, if_true]
      exact ⟨⟨rf.nextIndex, rf.matchIndex, fun _ _ => rfl, rfl⟩, trivial⟩
  · obtain ⟨prev, isNext⟩ : ∃ prev : Nat, rf.nextIndex peer = prev + 1 :=
      ⟨(rf.nextIndex peer - 1).toNat, by omega⟩
    rw [compacted.leaderAppendEntries_eq isNext (by omega)]
    refine ⟨⟨_, _, fun j different => Function.update_of_ne different _ _, rfl⟩, ?_⟩
    by_cases leads : rf.state = .leader
    · simp only [leads, ne_eq, not_true_eq_false, if_false]
      refine ⟨trivial, trivial, trivial, ?_⟩
      by_cases inLog : prev ≤ rf.fullLog.length
      · exact .inr ⟨prev, rfl, inLog, if_pos inLog, rfl⟩
      · exact .inl ⟨by omega, if_neg inLog⟩
    · simp only [ne_eq, leads, not_false_eq_true, if_true]

/-- From `realIndexStart` on the entries are of the current term, and no others are. -/
theorem realIndexStart_le_iff (currentLast : CurrentLast rf)
    (current : rf.getLastLogTerm = rf.currentTerm) {i : Nat} (inLog : i < rf.log.length) :
    rf.realIndexStart ≤ i ↔ termAt rf.fullLog (rf.lastIncludedIndex + i) = rf.currentTerm := by
  have length := compacted.fullLog_length
  rw [compacted.getLastLogTerm_eq, ← termAt_length] at current
  have isTerm : ∀ j, j < rf.log.length → ((rf.getLogAt j).map Prod.snd = some rf.currentTerm ↔
      termAt rf.fullLog (rf.lastIncludedIndex + j) = rf.currentTerm) := by
    intro j inside
    rw [compacted.getLogAt_eq, if_pos (by omega)]
    simp
  unfold realIndexStart
  cases search : (List.range rf.log.length).find?
      (fun i => (rf.getLogAt i).map Prod.snd = some rf.currentTerm) with
  | none =>
    simp only [List.find?_eq_none, List.mem_range, decide_eq_true_eq] at search
    -- the last entry would have been found
    have last := search (rf.log.length - 1) (by omega)
    rw [isTerm _ (by omega), show rf.lastIncludedIndex + (rf.log.length - 1) = rf.fullLog.length by omega] at last
    exact absurd current last
  | some start =>
    obtain ⟨found, inRange, earlier⟩ := List.find?_range_eq_some.mp search
    have inside := List.mem_range.mp inRange
    rw [decide_eq_true_eq, isTerm start inside] at found
    dsimp only
    constructor
    · intro afterStart
      exact currentLast _ _ (by omega) (by omega) found
    · intro ofTerm
      by_contra before
      have notFound := earlier i (by omega)
      rw [Bool.not_eq_true', decide_eq_false_iff_not, isTerm i inLog] at notFound
      exact notFound ofTerm

/-- `countReplica` keeps the commit index or moves it to an entry of the current term that a
majority holds. -/
theorem countReplica_cases (currentLast : CurrentLast rf) (retained : rf.lastIncludedIndex ≤ rf.commitIndex) :
    rf.countReplica = rf.commitIndex ∨ (rf.commitIndex < rf.countReplica ∧
      rf.countReplica ≤ rf.fullLog.length ∧ termAt rf.fullLog rf.countReplica = rf.currentTerm ∧
      n / 2 < rf.replicas rf.countReplica) := by
  have length := compacted.fullLog_length
  unfold countReplica
  split
  · left
    split <;> omega
  · rename_i current
    rw [ne_eq, Decidable.not_not] at current
    rcases countReplicaFrom_cases rf rf.realIndexStart rf.log.length with
      same | ⟨later, afterStart, below, majority⟩
    · left
      simp only [same]
      rw [if_neg (by omega)]
    · right
      obtain ⟨i, isIndex⟩ := Nat.exists_eq_add_of_le (show rf.lastIncludedIndex ≤
        rf.countReplicaFrom rf.realIndexStart rf.log.length by omega)
      have ofTerm := (compacted.realIndexStart_le_iff currentLast current (show i < rf.log.length by omega)).mp
        (by omega)
      simp only
      rw [if_neg (by omega)]
      exact ⟨later, by omega, by rw [isIndex, ofTerm], majority⟩

end Compacted

/-! ## Receiving entries -/

/-- The server after `AppendEntries` has looked at the term of the request. -/
def observeLeader (rf : Raft n Command) (term : Nat) : Raft n Command :=
  if rf.currentTerm < term ∨ (term = rf.currentTerm ∧ rf.state = .candidate) then rf.followerState term
  else rf

omit [Inhabited Command] in
theorem observeLeader_cases (rf : Raft n Command) (term : Nat) :
    ((rf.currentTerm < term ∨ term = rf.currentTerm ∧ rf.state = .candidate) ∧
      rf.observeLeader term = rf.followerState term) ∨
    (term ≤ rf.currentTerm ∧ (term = rf.currentTerm → rf.state ≠ .candidate) ∧ rf.observeLeader term = rf) := by
  by_cases changes : rf.currentTerm < term ∨ (term = rf.currentTerm ∧ rf.state = .candidate)
  · exact .inl ⟨changes, if_pos changes⟩
  · exact .inr ⟨by omega, fun same isCandidate => changes (.inr ⟨same, isCandidate⟩), if_neg changes⟩

/-- The server after the previous entry has matched at slice position `realIndex`. -/
def storeEntries (rf : Raft n Command) (args : AppendEntriesArgs n Command) (realIndex : Nat) :
    Raft n Command :=
  let merged := mergeLog rf.log args.entries realIndex
  let stored := if merged.2 then persist { rf with log := merged.1 } else { rf with log := merged.1 }
  if rf.commitIndex < args.leaderCommit then
    { stored with commitIndex := min args.leaderCommit rf.getLastLogIndex }
  else stored

/-- The log has the previous entry of the request, from the snapshot boundary on. -/
def PrevMatches (rf : Raft n Command) (args : AppendEntriesArgs n Command) : Prop :=
  (rf.lastIncludedIndex : Int) ≤ args.prevLogIndex ∧ args.prevLogIndex ≤ rf.getLastLogIndex ∧
    (rf.getLogAt (args.prevLogIndex - rf.lastIncludedIndex).toNat).map (fun found => (found.2 : Int)) =
      some args.prevLogTerm

instance (rf : Raft n Command) (args : AppendEntriesArgs n Command) : Decidable (rf.PrevMatches args) :=
  inferInstanceAs (Decidable (_ ∧ _ ∧ _))

omit [Inhabited Command] in
/-- `AppendEntries` after it has looked at the term of the request. -/
theorem appendEntries_observed (rf : Raft n Command) (args : AppendEntriesArgs n Command) :
    let observed := rf.observeLeader args.term
    rf.appendEntries args =
      if args.term < observed.currentTerm then (observed, { term := observed.currentTerm })
      else if args.prevLogIndex < observed.lastIncludedIndex then
        (observed, { term := observed.currentTerm, logInconsistency := true, xTerm := -1,
                     xIndex := observed.lastIncludedIndex + 1 })
      else if observed.PrevMatches args then
        (observed.storeEntries args (args.prevLogIndex - observed.lastIncludedIndex).toNat,
          { term := observed.currentTerm, success := true })
      else (observed, observed.inconsistencyReply args.prevLogIndex) := by
  intro observed
  unfold appendEntries
  rw [show (if rf.currentTerm < args.term ∨ (args.term = rf.currentTerm ∧ rf.state = .candidate) then
    rf.followerState args.term else rf) = observed from rfl]
  dsimp only
  by_cases stale : args.term < observed.currentTerm
  · rw [if_pos stale, if_pos stale]
  rw [if_neg stale, if_neg stale]
  by_cases early : args.prevLogIndex < observed.lastIncludedIndex
  · rw [if_pos early, if_pos early]
  rw [if_neg early, if_neg early]
  by_cases found : observed.PrevMatches args
  · rw [if_pos found.2, if_pos found]
    unfold storeEntries
    generalize mergeLog observed.log args.entries (args.prevLogIndex - observed.lastIncludedIndex).toNat = merged
    obtain ⟨log, needPersist⟩ := merged
    cases needPersist <;> by_cases committed : observed.commitIndex < args.leaderCommit <;>
      simp [committed, persist]
  · rw [if_neg fun matching => found ⟨not_lt.mp early, matching⟩, if_neg found]

omit [Inhabited Command] in
/-- `AppendEntries` refuses, or finds the previous entry and stores what was sent. -/
theorem appendEntries_outcome (rf : Raft n Command) (args : AppendEntriesArgs n Command) :
    let observed := rf.observeLeader args.term
    ((args.term < observed.currentTerm ∨ ¬ observed.PrevMatches args) ∧
      ∃ reply, rf.appendEntries args = (observed, reply) ∧ reply.success = false) ∨
    (observed.currentTerm ≤ args.term ∧ observed.PrevMatches args ∧
      rf.appendEntries args =
        (observed.storeEntries args (args.prevLogIndex - observed.lastIncludedIndex).toNat,
          { term := observed.currentTerm, success := true })) := by
  intro observed
  rw [appendEntries_observed]
  split
  · exact .inl ⟨.inl ‹_›, _, rfl, rfl⟩
  split
  · rename_i early
    exact .inl ⟨.inr fun found => absurd found.1 (not_le.mpr early), _, rfl, rfl⟩
  split
  · rename_i current _ found
    exact .inr ⟨Nat.not_lt.mp current, found, rfl⟩
  · exact .inl ⟨.inr ‹_›, _, rfl, inconsistencyReply_success _ _⟩

theorem Compacted.prevMatches_iff {rf : Raft n Command} (compacted : Compacted rf) {args : AppendEntriesArgs n Command}
    {prev : Nat} (isPrev : args.prevLogIndex = prev) : rf.PrevMatches args ↔ rf.lastIncludedIndex ≤ prev ∧
      prev ≤ rf.fullLog.length ∧ (termAt rf.fullLog prev : Int) = args.prevLogTerm := by
  unfold PrevMatches
  rw [isPrev, compacted.getLastLogIndex_eq, Int.ofNat_le, Int.ofNat_le]
  refine and_congr_right fun retained => and_congr_right fun inLog => ?_
  rw [show ((prev : Int) - rf.lastIncludedIndex).toNat = prev - rf.lastIncludedIndex by omega,
    compacted.getLogAt_eq, Nat.add_sub_cancel' retained, if_pos inLog]
  simp

/-- `AppendEntries` with a previous index that is not below the snapshot. -/
theorem appendEntries_eq (rf : Raft n Command) (args : AppendEntriesArgs n Command)
    (compacted : Compacted (rf.observeLeader args.term)) {prev : Nat} (isPrev : args.prevLogIndex = prev)
    (retained : (rf.observeLeader args.term).lastIncludedIndex ≤ prev) :
    let observed := rf.observeLeader args.term
    rf.appendEntries args =
      if args.term < observed.currentTerm then (observed, { term := observed.currentTerm })
      else if prev ≤ observed.fullLog.length ∧ (termAt observed.fullLog prev : Int) = args.prevLogTerm then
        (observed.storeEntries args (prev - observed.lastIncludedIndex),
          { term := observed.currentTerm, success := true })
      else (observed, observed.inconsistencyReply args.prevLogIndex) := by
  intro observed
  have matching := compacted.prevMatches_iff isPrev
  rw [and_iff_right retained] at matching
  rw [appendEntries_observed,
    if_neg (show ¬ args.prevLogIndex < (rf.observeLeader args.term).lastIncludedIndex by omega)]
  simp only [matching, isPrev]
  rw [show ((prev : Int) - (rf.observeLeader args.term).lastIncludedIndex).toNat =
    prev - (rf.observeLeader args.term).lastIncludedIndex by omega]

/-- `AppendEntries` either refuses, or finds the previous entry and stores what was sent. -/
theorem appendEntries_cases (rf : Raft n Command) (args : AppendEntriesArgs n Command)
    (compacted : Compacted (rf.observeLeader args.term)) :
    let observed := rf.observeLeader args.term
    (∃ reply, rf.appendEntries args = (observed, reply) ∧ reply.success = false) ∨
    (observed.currentTerm ≤ args.term ∧ ∃ prev : Nat, args.prevLogIndex = prev ∧
      observed.lastIncludedIndex ≤ prev ∧ prev ≤ observed.fullLog.length ∧
      (termAt observed.fullLog prev : Int) = args.prevLogTerm ∧
      rf.appendEntries args = (observed.storeEntries args (prev - observed.lastIncludedIndex),
        { term := observed.currentTerm, success := true })) := by
  intro observed
  rcases appendEntries_outcome rf args with ⟨-, refused⟩ | ⟨current, found, result⟩
  · exact .inl refused
  · obtain ⟨prev, isPrev⟩ : ∃ prev : Nat, args.prevLogIndex = prev := ⟨args.prevLogIndex.toNat, by
      have := found.1
      omega⟩
    obtain ⟨retained, inLog, sameTerm⟩ := (compacted.prevMatches_iff isPrev).mp found
    refine .inr ⟨current, prev, isPrev, retained, inLog, sameTerm, ?_⟩
    rw [result, isPrev, show ((prev : Int) - (rf.observeLeader args.term).lastIncludedIndex).toNat =
      prev - (rf.observeLeader args.term).lastIncludedIndex by omega]

end ShardedKV.Raft
