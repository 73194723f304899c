import ShardedKV.Raft.Bookkeeping

/-!
# Fast backup

A new leader tries a peer from the end of its own log.  A refusal names a term or a length, and the
leader goes back by more than one entry; it goes forward where the peer's snapshot is ahead of what
was tried, and after it has sent its own snapshot.  Left alone, the two come to a request that the
peer accepts, in about as many rounds as the leader has retained entries.
-/

namespace ShardedKV.Raft

open Replication (State Covered overlay)

variable {n : Nat} {Command : Type} [Inhabited Command]

/-! ## The exchange -/

/-- `InstallSnapshot`, and `CondInstallSnapshot` with the message that it sends to the service. -/
def takeSnapshot (rf : Raft n Command) (args : InstallSnapshotArgs n Command) :
    Raft n Command × InstallSnapshotReply :=
  match rf.installSnapshot args with
  | (rf, reply, some (.snapshot snapshot snapshotTerm snapshotIndex)) =>
    ((rf.condInstallSnapshot snapshotTerm snapshotIndex snapshot).2, reply)
  | (rf, reply, _) => (rf, reply)

/-- One request of the leader, its handling by the peer, and the reply; whether it was an
`AppendEntries` that succeeded. -/
def exchange (peer : Fin n) (leader follower : Raft n Command) : Raft n Command × Raft n Command × Bool :=
  match leader.leaderAppendEntries peer with
  | (leader, .appendEntries args) =>
    let (follower, reply) := follower.appendEntries args
    (leader.handleAppendEntriesReply peer args reply, follower, reply.success)
  | (leader, .installSnapshot args) =>
    let (follower, reply) := follower.takeSnapshot args
    (leader.handleInstallSnapshotReply peer args reply, follower, false)
  | (leader, .nothing) => (leader, follower, false)

/-- The exchange, up to a number of rounds, until a round succeeds. -/
def backUp (peer : Fin n) : Nat → Raft n Command → Raft n Command → Option (Raft n Command × Raft n Command)
  | 0, _, _ => none
  | rounds + 1, leader, follower =>
    let (leader, follower, success) := exchange peer leader follower
    if success then some (leader, follower) else backUp peer rounds leader follower

/-! ## The peer -/

variable {state : State (Fin n) (LogEntry Command)} {log : List (LogEntry Command)} {rf other : Raft n Command}

/-- What a peer has committed is in the leader's log. -/
structure Behind (state : State (Fin n) (LogEntry Command)) (log : List (LogEntry Command)) (rf : Raft n Command) :
    Prop where
  compacted : Compacted rf
  covered : Covered (scheme n Command) state rf.fullLog
  retained : rf.lastIncludedIndex ≤ rf.commitIndex
  commitIndex : rf.commitIndex ≤ rf.fullLog.length
  agreed : rf.fullLog.take rf.commitIndex <+: log
  data : rf.persister.snapshot.data = rf.persister.snapshot.entries.map LogEntry.command

namespace Behind

theorem of_sameLog (behind : Behind state log rf) (same : SameLog rf other) : Behind state log other where
  compacted := same.compacted behind.compacted
  covered := same.fullLog ▸ behind.covered
  retained := by rw [same.lastIncludedIndex, same.commitIndex]; exact behind.retained
  commitIndex := by rw [same.fullLog, same.commitIndex]; exact behind.commitIndex
  agreed := by rw [same.fullLog, same.commitIndex]; exact behind.agreed
  data := by rw [same.snapshot]; exact behind.data

theorem take_eq (behind : Behind state log rf) {index : Nat} (committed : index ≤ rf.commitIndex) :
    index ≤ log.length ∧ rf.fullLog.take index = log.take index := by
  have shorter : rf.fullLog.take index <+: log := (List.take_prefix_take_left committed).trans behind.agreed
  have length : (rf.fullLog.take index).length = index := by
    rw [List.length_take, Nat.min_eq_left (committed.trans behind.commitIndex)]
  refine ⟨length ▸ shorter.length_le, ?_⟩
  have same := List.prefix_iff_eq_take.mp shorter
  rwa [length] at same

end Behind

/-! ### Requests -/

/-- The request of a leader with this log for the entries after `prev`. -/
structure Asks (args : AppendEntriesArgs n Command) (log : List (LogEntry Command)) (prev : Nat) : Prop where
  inLog : prev ≤ log.length
  prevLogIndex : args.prevLogIndex = prev
  prevLogTerm : args.prevLogTerm = termAt log prev
  entries : args.entries = log.drop prev

variable {args : AppendEntriesArgs n Command} {prev : Nat}

/-- The peer has the previous entry of the request, from its snapshot on. -/
def Accepts (rf : Raft n Command) (log : List (LogEntry Command)) (prev : Nat) : Prop :=
  rf.lastIncludedIndex ≤ prev ∧ prev ≤ rf.fullLog.length ∧ termAt rf.fullLog prev = termAt log prev

instance (rf : Raft n Command) (log : List (LogEntry Command)) (prev : Nat) : Decidable (rf.Accepts log prev) :=
  inferInstanceAs (Decidable (_ ∧ _ ∧ _))

omit [Inhabited Command] in
theorem appendEntries_early (asks : Asks args log prev) (notLater : rf.currentTerm ≤ args.term)
    (early : prev < rf.lastIncludedIndex) :
    rf.appendEntries args = (rf.observeLeader args.term,
      { term := args.term, logInconsistency := true, xTerm := -1, xIndex := rf.lastIncludedIndex + 1 }) := by
  have same := observeLeader_sameLog rf args.term
  rw [appendEntries_observed, observeLeader_currentTerm, Nat.max_eq_right notLater, if_neg (lt_irrefl _),
    same.lastIncludedIndex, asks.prevLogIndex, if_pos (by exact_mod_cast early)]

theorem Behind.appendEntries_eq (behind : Behind state log rf) (asks : Asks args log prev)
    (notLater : rf.currentTerm ≤ args.term) (retained : rf.lastIncludedIndex ≤ prev) :
    rf.appendEntries args =
      if rf.Accepts log prev then
        ((rf.observeLeader args.term).storeEntries args (prev - rf.lastIncludedIndex),
          { term := args.term, success := true })
      else (rf.observeLeader args.term, (rf.observeLeader args.term).inconsistencyReply prev) := by
  have same := observeLeader_sameLog rf args.term
  have accepts : rf.Accepts log prev ↔
      prev ≤ rf.fullLog.length ∧ (termAt rf.fullLog prev : Int) = args.prevLogTerm := by
    rw [asks.prevLogTerm, Int.natCast_inj]
    exact and_iff_right retained
  rw [Raft.appendEntries_eq rf args (same.compacted behind.compacted) asks.prevLogIndex
    (by rw [same.lastIncludedIndex]; exact retained)]
  simp only [observeLeader_currentTerm, Nat.max_eq_right notLater, lt_irrefl, if_false, same.fullLog,
    same.lastIncludedIndex, accepts, asks.prevLogIndex]

theorem Behind.appendEntries_accepts (behind : Behind state log rf) (covered : Covered (scheme n Command) state log)
    (asks : Asks args log prev) (notLater : rf.currentTerm ≤ args.term) (accepts : rf.Accepts log prev) :
    (rf.appendEntries args).2.success = true ∧ log <+: (rf.appendEntries args).1.fullLog ∧
      (rf.appendEntries args).1.persister.snapshot = rf.persister.snapshot := by
  have result := behind.appendEntries_eq asks notLater accepts.1
  rw [if_pos accepts] at result
  have same := observeLeader_sameLog rf args.term
  have observed := behind.of_sameLog same
  obtain ⟨retained, inLog, sameTerm⟩ := accepts
  rw [← same.lastIncludedIndex] at retained
  rw [← same.fullLog] at inLog sameTerm
  have merged := (observed.compacted.merge observed.covered covered retained inLog asks.inLog le_rfl sameTerm).2
  rw [List.take_length, ← asks.entries, same.lastIncludedIndex] at merged
  rw [result]
  refine ⟨rfl, ?_, ?_⟩
  · dsimp only
    rw [fullLog, storeEntries_snapshot, storeEntries_eq]
    dsimp only
    rw [merged]
    exact Replication.overlay_contains _ _
  · dsimp only
    rw [storeEntries_snapshot, same.snapshot]

/-! ### Snapshots -/

/-- The snapshot stands for the first entries of the log. -/
structure Stands (snapshot : Snapshot Command) (lastIncludedIndex lastIncludedTerm : Nat)
    (log : List (LogEntry Command)) : Prop where
  entries : snapshot.entries <+: log
  length : snapshot.entries.length = lastIncludedIndex
  lastTerm : Replication.lastTerm LogEntry.term snapshot.entries = lastIncludedTerm
  data : snapshot.data = snapshot.entries.map LogEntry.command

theorem Behind.condInstallSnapshot (behind : Behind state log rf) (covered : Covered (scheme n Command) state log)
    {snapshot : Snapshot Command} {index term : Nat} (stands : Stands snapshot index term log)
    (newer : rf.commitIndex < index) :
    Behind state log (rf.condInstallSnapshot term index snapshot).2 ∧
      snapshot.entries <+: (rf.condInstallSnapshot term index snapshot).2.fullLog ∧
      (rf.condInstallSnapshot term index snapshot).2.currentTerm = rf.currentTerm := by
  have entriesCovered := covered.of_contained stands.entries
  obtain ⟨newLog, result, head, newFull⟩ := behind.compacted.condInstallSnapshot_eq behind.covered entriesCovered
    stands.length stands.lastTerm behind.retained newer
  have contained : snapshot.entries <+: snapshot.entries ++ newLog.tail := List.prefix_append _ _
  have taken : (snapshot.entries ++ newLog.tail).take index = snapshot.entries := by
    rw [← stands.length, List.take_left]
  have commit : max rf.commitIndex index = index := by omega
  rw [commit] at result
  rw [result]
  refine ⟨⟨⟨head, stands.length, stands.lastTerm⟩, ?_, le_rfl, ?_, ?_, stands.data⟩, contained, rfl⟩
  · change Covered _ _ (snapshot.entries ++ newLog.tail)
    rw [newFull]
    rcases Replication.overlay_cases rf.fullLog snapshot.entries with old | new
    · rw [old]
      exact behind.covered
    · rw [new]
      exact entriesCovered
  · have bound := contained.length_le
    rwa [stands.length] at bound
  · change (snapshot.entries ++ newLog.tail).take index <+: log
    rw [taken]
    exact stands.entries

theorem Behind.takeSnapshot (behind : Behind state log rf) (covered : Covered (scheme n Command) state log)
    (args : InstallSnapshotArgs n Command) (notLater : rf.currentTerm ≤ args.term)
    (stands : Stands args.data args.lastIncludedIndex args.lastIncludedTerm log) :
    (rf.takeSnapshot args).2.term = args.term ∧ Behind state log (rf.takeSnapshot args).1 ∧
      args.data.entries <+: (rf.takeSnapshot args).1.fullLog ∧ (rf.takeSnapshot args).1.currentTerm = args.term := by
  have same := observeCandidate_sameLog rf args.term
  have observed := behind.of_sameLog same
  have current := (observeCandidate_currentTerm rf args.term).trans (Nat.max_eq_right notLater)
  unfold Raft.takeSnapshot installSnapshot
  rw [if_neg (Nat.not_lt.mpr notLater), show (if rf.currentTerm < args.term then rf.followerState args.term else rf) =
    rf.observeCandidate args.term from rfl]
  dsimp only
  split_ifs with old
  · refine ⟨current, observed, ?_, current⟩
    -- what is committed already contains the snapshot
    obtain ⟨-, held⟩ := observed.take_eq old
    have whole := List.prefix_iff_eq_take.mp stands.entries
    rw [stands.length, ← held] at whole
    rw [whole]
    exact List.take_prefix _ _
  · obtain ⟨after, contained, sameTerm⟩ := observed.condInstallSnapshot covered stands (Nat.not_le.mp old)
    exact ⟨current, after, contained, sameTerm.trans current⟩

/-! ## The leader -/

variable {peer : Fin n} {leader follower : Raft n Command}

/-- The exchange is under way: the leader counts on no more than its snapshot, and on nothing that the peer
does not have. -/
structure Backing (state : State (Fin n) (LogEntry Command)) (peer : Fin n) (leader follower : Raft n Command) :
    Prop where
  isLeader : leader.state = .leader
  different : peer ≠ leader.me
  compacted : Compacted leader
  covered : Covered (scheme n Command) state leader.fullLog
  data : leader.persister.snapshot.data = leader.persister.snapshot.entries.map LogEntry.command
  behind : Behind state leader.fullLog follower
  currentTerm : follower.currentTerm ≤ leader.currentTerm
  matchIndex : leader.matchIndex peer ≤ leader.lastIncludedIndex
  matched : leader.matchIndex peer ≤ follower.fullLog.length
  nextIndex : leader.nextIndex peer ≤ leader.fullLog.length + 1

/-- A bound on the rounds that are left, for a leader with a snapshot of `included` entries. -/
def remaining (included : Nat) (log : List (LogEntry Command)) (follower : Raft n Command) (nextIndex : Int) : Nat :=
  if nextIndex - 1 < included then 3
  else if nextIndex - 1 < follower.lastIncludedIndex then 2
  else if follower.Accepts log (nextIndex - 1).toNat then 1
  else (nextIndex - 1 - included).toNat + 4

section Remaining

variable {included : Nat}

omit [Inhabited Command]

theorem remaining_below {nextIndex : Int} (below : nextIndex - 1 < included) :
    remaining included log follower nextIndex = 3 := if_pos below

theorem remaining_early (reaches : included ≤ prev) (early : prev < follower.lastIncludedIndex) :
    remaining included log follower (prev + 1) = 2 := by
  rw [remaining, if_neg (by omega), if_pos (by omega)]

theorem remaining_accepts (reaches : included ≤ prev) (accepts : follower.Accepts log prev) :
    remaining included log follower (prev + 1) = 1 := by
  have retained := accepts.1
  have position : ((prev : Int) + 1 - 1).toNat = prev := by omega
  rw [remaining, if_neg (by omega), if_neg (by omega), position, if_pos accepts]

theorem remaining_refuses (reaches : included ≤ prev) (retained : follower.lastIncludedIndex ≤ prev)
    (refuses : ¬ follower.Accepts log prev) :
    remaining included log follower (prev + 1) = prev - included + 4 := by
  have position : ((prev : Int) + 1 - 1).toNat = prev := by omega
  rw [remaining, if_neg (by omega), if_neg (by omega), position, if_neg refuses]
  omega

theorem remaining_lt (reaches : included ≤ prev) {nextIndex : Int} (back : nextIndex ≤ prev) :
    remaining included log follower nextIndex < prev - included + 4 := by
  unfold remaining
  split_ifs <;> omega

end Remaining

namespace Backing

/-- After a refusal the leader goes back: it has no entry of the term that the peer names from there on. -/
theorem retryIndex_le (backing : Backing state peer leader follower) (retained : follower.lastIncludedIndex ≤ prev)
    (refuses : ¬ follower.Accepts leader.fullLog prev) :
    leader.retryIndex peer (follower.inconsistencyReply prev) ≤ prev := by
  have behind := backing.behind
  rw [behind.compacted.inconsistencyReply_eq retained]
  split_ifs with inLog
  · have first := follower.getSameTermFirst_le (prev - follower.lastIncludedIndex)
    unfold retryIndex
    dsimp only
    rw [if_neg (by omega)]
    refine backing.compacted.conflictTarget_le (by omega) (fun index inLeader _ sameTerm => ?_) _
    by_contra notBefore
    have same := take_eq_of_termAt_le behind.covered backing.covered (show prev ≤ index by omega) inLog inLeader
      (by exact_mod_cast sameTerm.symm)
    exact refuses ⟨retained, inLog, by rw [termAt, termAt, same]⟩
  · have matched := backing.matched
    unfold retryIndex
    dsimp only
    rw [if_pos rfl, if_neg (by omega)]
    omega

end Backing

/-! ## One round -/

/-- The server with other indices. -/
def reindex (rf : Raft n Command) (nextIndex matchIndex : Fin n → Int) (commitIndex : Nat) : Raft n Command :=
  { rf with nextIndex, matchIndex, commitIndex }

theorem Backing.reindex (backing : Backing state peer leader follower) {nextIndex matchIndex : Fin n → Int}
    {commitIndex : Nat} {after : Raft n Command} (behind : Behind state leader.fullLog after)
    (currentTerm : after.currentTerm ≤ leader.currentTerm) (notBeyond : matchIndex peer ≤ leader.lastIncludedIndex)
    (matched : matchIndex peer ≤ after.fullLog.length) (inLog : nextIndex peer ≤ leader.fullLog.length + 1) :
    Backing state peer (leader.reindex nextIndex matchIndex commitIndex) after where
  isLeader := backing.isLeader
  different := backing.different
  compacted := backing.compacted.congr rfl rfl rfl rfl
  covered := backing.covered
  data := backing.data
  behind := behind
  currentTerm := currentTerm
  matchIndex := notBeyond
  matched := matched
  nextIndex := inLog

/-- A round brings the leader's log over, or leaves fewer rounds. -/
inductive Round (state : State (Fin n) (LogEntry Command)) (peer : Fin n) (leader follower : Raft n Command) :
    Raft n Command × Raft n Command × Bool → Prop where
  | succeeds (next after : Raft n Command) (contains : leader.fullLog <+: after.fullLog)
      (snapshot : after.persister.snapshot = follower.persister.snapshot) :
      Round state peer leader follower (next, after, true)
  | continues (nextIndex matchIndex : Fin n → Int) (commitIndex : Nat) (after : Raft n Command)
      (backing : Backing state peer (leader.reindex nextIndex matchIndex commitIndex) after)
      (fewer : remaining leader.lastIncludedIndex leader.fullLog after (nextIndex peer) <
        remaining leader.lastIncludedIndex leader.fullLog follower (leader.nextIndex peer)) :
      Round state peer leader follower (leader.reindex nextIndex matchIndex commitIndex, after, false)

omit [Inhabited Command] in
theorem handleAppendEntriesReply_refused (peer : Fin n) (args : AppendEntriesArgs n Command)
    {reply : AppendEntriesReply} (isLeader : leader.state = .leader) (current : leader.currentTerm = args.term)
    (sameTerm : reply.term = args.term) (failure : reply.success = false)
    (inconsistent : reply.logInconsistency = true) :
    ∃ commitIndex, leader.handleAppendEntriesReply peer args reply = leader.reindex
      (Function.update leader.nextIndex peer (leader.retryIndex peer reply)) leader.matchIndex commitIndex := by
  unfold handleAppendEntriesReply
  rw [if_neg (by omega), if_neg (by simp [isLeader, current])]
  simp only [failure, inconsistent, Bool.false_eq_true, if_false, if_true, handleLogInconsistency_eq]
  exact ⟨_, rfl⟩

omit [Inhabited Command] in
theorem handleInstallSnapshotReply_taken (args : InstallSnapshotArgs n Command) {reply : InstallSnapshotReply}
    (isLeader : leader.state = .leader) (sameTerm : reply.term = leader.currentTerm)
    (lower : leader.matchIndex peer ≤ args.lastIncludedIndex) :
    ∃ commitIndex, leader.handleInstallSnapshotReply peer args reply = leader.reindex
      (Function.update leader.nextIndex peer (args.lastIncludedIndex + 1))
      (Function.update leader.matchIndex peer args.lastIncludedIndex) commitIndex := by
  unfold handleInstallSnapshotReply
  rw [if_neg (by omega), if_neg (by simp [isLeader])]
  simp only [sameTerm, lower, and_self, if_true]
  exact ⟨_, rfl⟩

namespace Backing

theorem stands (backing : Backing state peer leader follower) :
    Stands leader.persister.snapshot leader.lastIncludedIndex leader.lastIncludedTerm leader.fullLog :=
  ⟨List.prefix_append _ _, backing.compacted.lastIncludedIndex, backing.compacted.lastIncludedTerm, backing.data⟩

theorem round_snapshot (backing : Backing state peer leader follower)
    (below : leader.nextIndex peer - 1 < leader.lastIncludedIndex) :
    Round state peer leader follower (exchange peer leader follower) := by
  let args : InstallSnapshotArgs n Command := {
    term := leader.currentTerm
    leaderId := leader.me
    lastIncludedIndex := leader.lastIncludedIndex
    lastIncludedTerm := leader.lastIncludedTerm
    data := leader.persister.snapshot }
  have sent : leader.leaderAppendEntries peer = (leader, .installSnapshot args) := by
    unfold leaderAppendEntries
    dsimp only
    rw [if_pos below, if_neg (not_not.mpr backing.isLeader)]
  obtain ⟨replyTerm, after, contains, current⟩ :=
    backing.behind.takeSnapshot backing.covered args backing.currentTerm backing.stands
  obtain ⟨commitIndex, handled⟩ := handleInstallSnapshotReply_taken args backing.isLeader replyTerm backing.matchIndex
  have inFollower := contains.length_le
  have inLeader := backing.stands.entries.length_le
  rw [backing.stands.length] at inFollower inLeader
  simp only [exchange, sent, handled]
  refine .continues _ _ commitIndex _ (backing.reindex after current.le ?_ ?_ ?_) ?_
  · rw [Function.update_self]
  · rw [Function.update_self]
    exact_mod_cast inFollower
  · rw [Function.update_self]
    exact_mod_cast Nat.succ_le_succ inLeader
  · -- now the peer has the entry at the leader's snapshot, or a snapshot that reaches further
    rw [Function.update_self, remaining_below below]
    by_cases further : leader.lastIncludedIndex < (follower.takeSnapshot args).1.lastIncludedIndex
    · rw [remaining_early le_rfl further]
      omega
    · rw [remaining_accepts le_rfl ⟨Nat.not_lt.mp further, inFollower, ?_⟩]
      · omega
      · have here := List.prefix_iff_eq_take.mp contains
        have there := List.prefix_iff_eq_take.mp backing.stands.entries
        rw [backing.stands.length] at here there
        rw [termAt, termAt, ← here, ← there]

end Backing

/-- The request for the entries after `prev`. -/
def probe (rf : Raft n Command) (prev : Nat) : AppendEntriesArgs n Command where
  term := rf.currentTerm
  leaderId := rf.me
  prevLogIndex := prev
  prevLogTerm := termAt rf.fullLog prev
  entries := rf.fullLog.drop prev
  leaderCommit := rf.commitIndex

/-- The leader with its own indices at the end of its log. -/
def noted (rf : Raft n Command) : Raft n Command :=
  rf.reindex (Function.update rf.nextIndex rf.me (rf.fullLog.length + 1))
    (Function.update rf.matchIndex rf.me rf.fullLog.length) rf.commitIndex

namespace Backing

variable (backing : Backing state peer leader follower)
include backing

theorem prev_le (isNext : leader.nextIndex peer = prev + 1) :
    prev ≤ leader.fullLog.length := by
  have bound := backing.nextIndex
  omega

theorem leaderAppendEntries_eq (isNext : leader.nextIndex peer = prev + 1) (reaches : leader.lastIncludedIndex ≤ prev) :
    leader.leaderAppendEntries peer = (leader.noted, .appendEntries (leader.probe prev)) := by
  rw [backing.compacted.leaderAppendEntries_eq isNext reaches, if_neg (not_not.mpr backing.isLeader),
    if_pos (backing.prev_le isNext)]
  rfl

theorem observed :
    Backing state peer leader.noted (follower.observeLeader leader.currentTerm) := by
  have same := observeLeader_sameLog follower leader.currentTerm
  have current := (observeLeader_currentTerm follower leader.currentTerm).trans (Nat.max_eq_right backing.currentTerm)
  refine backing.reindex (backing.behind.of_sameLog same) current.le ?_ ?_ ?_
  · rw [Function.update_of_ne backing.different]
    exact backing.matchIndex
  · rw [Function.update_of_ne backing.different, same.fullLog]
    exact backing.matched
  · rw [Function.update_of_ne backing.different]
    exact backing.nextIndex

theorem round_refused (isNext : leader.nextIndex peer = prev + 1)
    (reaches : leader.lastIncludedIndex ≤ prev) {reply : AppendEntriesReply}
    (result : follower.appendEntries (leader.probe prev) = (follower.observeLeader leader.currentTerm, reply))
    (replyTerm : reply.term = leader.currentTerm) (failure : reply.success = false)
    (inconsistent : reply.logInconsistency = true)
    (bound : leader.noted.retryIndex peer reply ≤ leader.fullLog.length + 1)
    (fewer : remaining leader.lastIncludedIndex leader.fullLog (follower.observeLeader leader.currentTerm)
        (leader.noted.retryIndex peer reply) <
      remaining leader.lastIncludedIndex leader.fullLog follower (prev + 1)) :
    Round state peer leader follower (exchange peer leader follower) := by
  have observed := backing.observed
  obtain ⟨commitIndex, handled⟩ := handleAppendEntriesReply_refused peer (leader.probe prev) observed.isLeader rfl
    replyTerm failure inconsistent
  simp only [exchange, backing.leaderAppendEntries_eq isNext reaches, result, handled, failure]
  refine .continues _ leader.noted.matchIndex commitIndex _
    (observed.reindex observed.behind observed.currentTerm observed.matchIndex observed.matched ?_) ?_
  · rw [Function.update_self]
    exact bound
  · rw [Function.update_self, isNext]
    exact fewer

/-- The peer's snapshot is ahead of the request, and what it stands for the leader has. -/
theorem round_early (isNext : leader.nextIndex peer = prev + 1)
    (reaches : leader.lastIncludedIndex ≤ prev) (early : prev < follower.lastIncludedIndex) :
    Round state peer leader follower (exchange peer leader follower) := by
  have asks : Asks (leader.probe prev) leader.fullLog prev := ⟨backing.prev_le isNext, rfl, rfl, rfl⟩
  have same := observeLeader_sameLog follower leader.currentTerm
  have observed := backing.observed
  obtain ⟨inLog, held⟩ := observed.behind.take_eq observed.behind.retained
  have accepts : (follower.observeLeader leader.currentTerm).Accepts leader.fullLog follower.lastIncludedIndex := by
    have inFollower := observed.behind.retained.trans observed.behind.commitIndex
    rw [same.lastIncludedIndex] at held inFollower
    refine ⟨same.lastIncludedIndex.le, inFollower, ?_⟩
    rw [termAt, termAt, held]
    rfl
  have inLeader : follower.lastIncludedIndex ≤ leader.fullLog.length := same.lastIncludedIndex ▸ inLog
  have lower : leader.noted.matchIndex peer ≤ leader.lastIncludedIndex := observed.matchIndex
  refine backing.round_refused isNext reaches (appendEntries_early asks backing.currentTerm early) rfl rfl rfl ?_ ?_
  all_goals
    rw [retryIndex, if_pos rfl, if_neg (by dsimp only; omega)]
    dsimp only
  · omega
  · rw [remaining_accepts (by omega) accepts, remaining_early reaches early]
    omega

theorem round_entries (isNext : leader.nextIndex peer = prev + 1)
    (reaches : leader.lastIncludedIndex ≤ prev) (retained : follower.lastIncludedIndex ≤ prev) :
    Round state peer leader follower (exchange peer leader follower) := by
  have asks : Asks (leader.probe prev) leader.fullLog prev := ⟨backing.prev_le isNext, rfl, rfl, rfl⟩
  by_cases accepts : follower.Accepts leader.fullLog prev
  · obtain ⟨success, contains, snapshot⟩ :=
      backing.behind.appendEntries_accepts backing.covered asks backing.currentTerm accepts
    simp only [exchange, backing.leaderAppendEntries_eq isNext reaches, success]
    exact .succeeds _ _ contains snapshot
  · have same := observeLeader_sameLog follower leader.currentTerm
    have result := (backing.behind.appendEntries_eq asks backing.currentTerm retained).trans (if_neg accepts)
    have back : leader.noted.retryIndex peer ((follower.observeLeader leader.currentTerm).inconsistencyReply prev) ≤
        prev := by
      refine backing.observed.retryIndex_le ?_ ?_
      · rw [same.lastIncludedIndex]
        exact retained
      · rw [Accepts, same.lastIncludedIndex, same.fullLog]
        exact accepts
    have inLog := backing.prev_le isNext
    refine backing.round_refused isNext reaches result ?_ (inconsistencyReply_success _ _)
      (inconsistencyReply_logInconsistency _ _) (back.trans (by omega)) ?_
    · rw [inconsistencyReply_term, observeLeader_currentTerm]
      exact Nat.max_eq_right backing.currentTerm
    · rw [remaining_refuses reaches retained accepts]
      exact remaining_lt reaches back

theorem round :
    Round state peer leader follower (exchange peer leader follower) := by
  by_cases below : leader.nextIndex peer - 1 < leader.lastIncludedIndex
  · exact backing.round_snapshot below
  · obtain ⟨prev, isNext⟩ : ∃ prev : Nat, leader.nextIndex peer = prev + 1 :=
      ⟨(leader.nextIndex peer - 1).toNat, by omega⟩
    have reaches : leader.lastIncludedIndex ≤ prev := by omega
    rcases Nat.lt_or_ge prev follower.lastIncludedIndex with early | retained
    · exact backing.round_early isNext reaches early
    · exact backing.round_entries isNext reaches retained

/-! ## All rounds -/

theorem backUp (rounds : Nat)
    (enough : remaining leader.lastIncludedIndex leader.fullLog follower (leader.nextIndex peer) ≤ rounds) :
    ∃ next after, Raft.backUp peer rounds leader follower = some (next, after) ∧ leader.fullLog <+: after.fullLog ∧
      after.persister.snapshot.data = after.persister.snapshot.entries.map LogEntry.command := by
  induction rounds generalizing leader follower with
  | zero =>
    unfold remaining at enough
    split_ifs at enough <;> omega
  | succ rounds inductionHypothesis =>
    have round := backing.round
    unfold Raft.backUp
    generalize exchange peer leader follower = result at round
    cases round with
    | succeeds next after contains snapshot =>
      refine ⟨next, after, rfl, contains, ?_⟩
      rw [snapshot]
      exact backing.behind.data
    | continues nextIndex matchIndex commitIndex after continuing fewer =>
      have left : remaining leader.lastIncludedIndex leader.fullLog after (nextIndex peer) ≤ rounds := by omega
      exact inductionHypothesis continuing left

end Backing

theorem Simulates.backing {cluster : Cluster n Command} (simulates : Simulates cluster state) {leader peer : Fin n}
    (different : peer ≠ leader) (leads : (cluster.node leader).raft.state = .leader)
    (nextIndex : (cluster.node leader).raft.nextIndex peer = (cluster.node leader).raft.getLastLogIndex + 1)
    (matchIndex : (cluster.node leader).raft.matchIndex peer = -1)
    (notLater : (cluster.node peer).raft.currentTerm ≤ (cluster.node leader).raft.currentTerm) :
    Backing state peer (cluster.node leader).raft (cluster.node peer).raft := by
  have leaderLog := (simulates.node leader).log
  have peerLog := (simulates.node peer).log
  have leaderCovered := simulates.invariant.log_covered leader
  have peerCovered := simulates.invariant.log_covered peer
  rw [leaderLog.log] at leaderCovered
  rw [peerLog.log] at peerCovered
  have agreed := peerLog.committed.in_leader simulates.invariant notLater ((simulates.node leader).role.leads leads)
  have behind : Behind state (cluster.node leader).raft.fullLog (cluster.node peer).raft :=
    ⟨peerLog.compacted, peerCovered, peerLog.retained.trans peerLog.applied, peerLog.commitIndex, agreed,
      peerLog.snapshot.data⟩
  refine ⟨leads, leaderLog.me.symm ▸ different, leaderLog.compacted, leaderCovered, leaderLog.snapshot.data, behind,
    notLater, ?_, ?_, ?_⟩
  · omega
  · omega
  · rw [nextIndex, leaderLog.compacted.getLastLogIndex_eq]

/-- A new leader that is left alone with a peer whose term is not later brings its whole log over, in a number
of rounds that its retained entries bound. -/
theorem fast_backup {cluster : Cluster n Command} (reachable : Cluster.Reachable cluster) {leader peer : Fin n}
    (different : peer ≠ leader) (leads : (cluster.node leader).raft.state = .leader)
    (nextIndex : (cluster.node leader).raft.nextIndex peer = (cluster.node leader).raft.getLastLogIndex + 1)
    (matchIndex : (cluster.node leader).raft.matchIndex peer = -1)
    (notLater : (cluster.node peer).raft.currentTerm ≤ (cluster.node leader).raft.currentTerm) :
    let L := (cluster.node leader).raft
    ∃ next after, backUp peer (L.log.length + 3) L (cluster.node peer).raft = some (next, after) ∧
      after.fullLog.take L.getLastLogIndex = L.fullLog ∧
      -- the commands, as the snapshot's data and the retained entries show them
      (after.persister.snapshot.data ++ after.log.tail.map LogEntry.command).take L.getLastLogIndex =
        L.persister.snapshot.data ++ L.log.tail.map LogEntry.command := by
  intro L
  obtain ⟨state, -, simulates⟩ := reachable_simulates reachable
  have leaderLog := (simulates.node leader).log
  have last := leaderLog.compacted.getLastLogIndex_eq
  have enough : remaining (cluster.node leader).raft.lastIncludedIndex (cluster.node leader).raft.fullLog
      (cluster.node peer).raft ((cluster.node leader).raft.nextIndex peer) ≤
        (cluster.node leader).raft.log.length + 3 := by
    have length := leaderLog.compacted.fullLog_length
    have positive := leaderLog.compacted.log_length_pos
    rw [nextIndex, last]
    unfold remaining
    split_ifs <;> omega
  obtain ⟨next, after, result, contains, data⟩ :=
    (simulates.backing different leads nextIndex matchIndex notLater).backUp _ enough
  have whole : after.fullLog.take L.getLastLogIndex = L.fullLog := by
    rw [last]
    exact (List.prefix_iff_eq_take.mp contains).symm
  refine ⟨next, after, result, whole, ?_⟩
  have commands := congrArg (List.map LogEntry.command) whole
  rw [List.map_take, fullLog, fullLog, List.map_append, List.map_append, ← data, ← leaderLog.snapshot.data] at commands
  exact commands

/-- Server 2 led term 1 and has an entry of it.  Server 0 has an entry of term 2 in its place and now leads term 3. -/
def conflicting : List (Cluster.Action 3 Nat) := [
  .electionTimeout 2, .handle 0, .deliver 0, .start 2 5,
  .electionTimeout 0, .handle 2, .deliver 2, .start 0 6, .restart 0,
  .electionTimeout 0, .handle 4, .deliver 4]

theorem fast_backup_conflicting :
    let cluster : Cluster 3 Nat := Cluster.initial.after conflicting
    let leader := (cluster.node 0).raft
    let peer := (cluster.node 2).raft
    leader.fullLog.map LogEntry.term = [2] ∧ peer.fullLog.map LogEntry.term = [1] ∧
      (exchange 2 leader peer).2.2 = false ∧
      ∃ next after, backUp 2 (leader.log.length + 3) leader peer = some (next, after) ∧
        after.fullLog.take leader.getLastLogIndex = leader.fullLog := by
  intro cluster leader peer
  have reachable : Cluster.Reachable cluster := Cluster.steps_after Cluster.initial conflicting
  have different : (2 : Fin 3) ≠ 0 := by decide
  obtain ⟨next, after, result, whole, -⟩ :=
    fast_backup reachable different (by decide +kernel) (by decide +kernel) (by decide +kernel) (by decide +kernel)
  exact ⟨by decide +kernel, by decide +kernel, by decide +kernel, next, after, result, whole⟩

end ShardedKV.Raft
