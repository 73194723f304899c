import ShardedKV.Raft.CommitRule

/-!
# Requests that overlap

`AppendEntries` keeps the log up to the first entry that contradicts what was sent, and the sent
entries follow there.  So a request that comes again changes nothing, and two requests of one leader
can come in either order, unless one of them replaces the previous entry of the other by an equal
one: that needs a log in which an entry follows other entries than in the leader's log.
-/

namespace ShardedKV.Raft

variable {n : Nat} {Command : Type}

/-! ## Where a merge cuts the log -/

/-- The sent entries have the terms of the log below `cut`, and there the log ends or has another
term. -/
structure CutAt (log entries : List (LogEntry Command)) (start cut : Nat) : Prop where
  after : start ≤ cut
  inLog : cut ≤ log.length
  agree : Agree log entries start (cut - start)
  conflict : cut < log.length → ∃ sent existing, entries[cut - start]? = some sent ∧ log[cut]? = some existing ∧
    sent.term ≠ existing.term

/-- Wherever a request and a log both have an entry below the cut, the terms are the same. -/
theorem CutAt.same_term {log entries : List (LogEntry Command)} {start cut position : Nat}
    (cutAt : CutAt log entries start cut) (after : start ≤ position) (below : position < cut)
    {sent existing : LogEntry Command} (isSent : entries[position - start]? = some sent)
    (isHeld : log[position]? = some existing) : sent.term = existing.term :=
  cutAt.agree (position - start) sent existing (by omega) isSent (by rw [Nat.add_sub_cancel' after]; exact isHeld)

theorem CutAt.le {log entries : List (LogEntry Command)} {start first second : Nat}
    (firstCut : CutAt log entries start first) (secondCut : CutAt log entries start second) : first ≤ second := by
  by_contra later
  obtain ⟨sent, existing, isSent, isHeld, different⟩ := secondCut.conflict (by have := firstCut.inLog; omega)
  exact different (firstCut.same_term secondCut.after (by omega) isSent isHeld)

theorem exists_cutAt {log : List (LogEntry Command)} (entries : List (LogEntry Command)) {realIndex : Nat}
    (inside : realIndex < log.length) :
    ∃ cut, CutAt log entries (realIndex + 1) cut ∧
      (mergeLog log entries realIndex).1 = log.take cut ++ entries.drop (cut - (realIndex + 1)) := by
  rcases mergeLog_spec log entries realIndex inside with ⟨agree, result⟩ |
    ⟨i, sent, existing, isSent, isHeld, different, agree, result⟩
  · refine ⟨log.length, ⟨inside, le_rfl, ?_, fun less => absurd less (Nat.lt_irrefl _)⟩, ?_⟩
    · intro i sent existing _ isSent
      exact agree i sent existing (List.getElem?_eq_some_iff.mp isSent).1 isSent
    · rw [result, List.take_length]
  · have inLog := (List.getElem?_eq_some_iff.mp isHeld).1
    refine ⟨realIndex + 1 + i, ⟨by omega, by omega, ?_, fun _ => ⟨sent, existing, ?_, isHeld, different⟩⟩, ?_⟩
    · rwa [Nat.add_sub_cancel_left]
    · rwa [Nat.add_sub_cancel_left]
    · rw [result, Nat.add_sub_cancel_left]

theorem CutAt.merge {log entries : List (LogEntry Command)} {realIndex cut : Nat}
    (cutAt : CutAt log entries (realIndex + 1) cut) :
    (mergeLog log entries realIndex).1 = log.take cut ++ entries.drop (cut - (realIndex + 1)) := by
  have inside : realIndex < log.length := by
    have := cutAt.after
    have := cutAt.inLog
    omega
  obtain ⟨other, otherCut, result⟩ := exists_cutAt entries inside
  rw [result, le_antisymm (otherCut.le cutAt) (cutAt.le otherCut)]

theorem CutAt.getElem? {log entries : List (LogEntry Command)} {realIndex cut : Nat}
    (cutAt : CutAt log entries (realIndex + 1) cut) (position : Nat) :
    (mergeLog log entries realIndex).1[position]? =
      if position < cut then log[position]? else entries[position - (realIndex + 1)]? := by
  have after := cutAt.after
  have length : (log.take cut).length = cut := by rw [List.length_take, Nat.min_eq_left cutAt.inLog]
  rw [cutAt.merge]
  split
  · rename_i below
    rw [List.getElem?_append_left (by omega), List.getElem?_take_of_lt below]
  · rw [List.getElem?_append_right (by omega), List.getElem?_drop, length]
    congr 1
    omega

/-! ## Two requests -/

section Twice

variable {log first second : List (LogEntry Command)} {a b firstCut secondCut : Nat}

/-- Entries sent for the same position are the same. -/
def SentAlike (first second : List (LogEntry Command)) (a b : Nat) : Prop :=
  ∀ position one other, a ≤ position → b ≤ position → first[position - a]? = some one →
    second[position - b]? = some other → one = other

theorem SentAlike.symm (alike : SentAlike first second a b) : SentAlike second first b a :=
  fun position one other inSecond inFirst isOne isOther =>
    (alike position other one inFirst inSecond isOther isOne).symm

/-- Where the log contradicts one request and the other agrees with it, the other has ended. -/
theorem SentAlike.ended (alike : SentAlike first second (a + 1) (b + 1))
    (firstAt : CutAt log first (a + 1) firstCut) (secondAt : CutAt log second (b + 1) secondCut)
    (reaches : b + 1 ≤ firstCut) (earlier : firstCut < secondCut) : second.length ≤ firstCut - (b + 1) := by
  have inLog := secondAt.inLog
  obtain ⟨sent, existing, isSent, isHeld, different⟩ := firstAt.conflict (by omega)
  by_contra longer
  have isOther := List.getElem?_eq_getElem (show firstCut - (b + 1) < second.length by omega)
  have same := alike firstCut sent _ firstAt.after reaches isSent isOther
  rw [same] at different
  exact different (secondAt.same_term reaches earlier isOther isHeld)

theorem CutAt.of_agree {entries : List (LogEntry Command)} {start : Nat} (inside : start ≤ log.length)
    (same : ∀ position sent existing, start ≤ position → entries[position - start]? = some sent →
      log[position]? = some existing → sent.term = existing.term) : CutAt log entries start log.length where
  after := inside
  inLog := le_rfl
  agree i sent existing _ isSent isHeld :=
    same (start + i) sent existing (by omega) (by rwa [Nat.add_sub_cancel_left]) isHeld
  conflict less := absurd less (Nat.lt_irrefl _)

/-- The second request after the first: the log stays below both cuts, and from there on it has
what one of the two has sent. -/
theorem merge_after (alike : SentAlike first second (a + 1) (b + 1))
    (firstAt : CutAt log first (a + 1) firstCut) (secondAt : CutAt log second (b + 1) secondCut)
    (reachesSecond : b + 1 ≤ firstCut) (reachesFirst : a + 1 ≤ secondCut) (position : Nat) :
    (mergeLog (mergeLog log first a).1 second b).1[position]? =
      if position < min firstCut secondCut then log[position]?
      else (first[position - (a + 1)]?).or (second[position - (b + 1)]?) := by
  have held := firstAt.getElem?
  have length : firstCut ≤ (mergeLog log first a).1.length := by
    rw [firstAt.merge, List.length_append, List.length_take, Nat.min_eq_left firstAt.inLog]
    omega
  rcases Nat.lt_or_ge secondCut firstCut with later | notLater
  · -- the log contradicts the second request where it agrees with the first, which has ended there
    have ended := alike.symm.ended secondAt firstAt reachesFirst later
    have inLog := firstAt.inLog
    have secondAt' : CutAt (mergeLog log first a).1 second (b + 1) secondCut := by
      refine ⟨secondAt.after, by omega, ?_, fun _ => ?_⟩
      · intro i sent existing less isSent isHeld
        rw [held, if_pos (by omega)] at isHeld
        exact secondAt.agree i sent existing less isSent isHeld
      · rw [held, if_pos later]
        exact secondAt.conflict (by omega)
    rw [secondAt'.getElem?, held, Nat.min_eq_right later.le]
    by_cases below : position < secondCut
    · rw [if_pos below, if_pos below, if_pos (by omega)]
    · rw [if_neg below, if_neg below, List.getElem?_eq_none (by omega : first.length ≤ position - (a + 1)),
        Option.none_or]
  · -- what the second request finds above the first cut is what the first has sent
    have secondAt' : CutAt (mergeLog log first a).1 second (b + 1) (mergeLog log first a).1.length := by
      refine CutAt.of_agree (by omega) fun position sent existing after isSent isHeld => ?_
      rw [held] at isHeld
      split at isHeld
      · exact secondAt.same_term after (by omega) isSent isHeld
      · rw [alike position existing sent (by have := firstAt.after; omega) after isHeld isSent]
    rw [secondAt'.getElem?, Nat.min_eq_left notLater, held]
    by_cases below : position < firstCut
    · rw [if_pos (by omega), if_pos below, if_pos below]
    · rw [if_neg below, if_neg below]
      split
      · rename_i inside
        have isSome := List.getElem?_eq_getElem inside
        rw [held, if_neg below] at isSome
        rw [isSome, Option.some_or]
      · rename_i outside
        have isNone := List.getElem?_eq_none (Nat.le_of_not_lt outside)
        rw [held, if_neg below] at isNone
        rw [isNone, Option.none_or]

theorem merge_comm (alike : SentAlike first second (a + 1) (b + 1))
    (firstAt : CutAt log first (a + 1) firstCut) (secondAt : CutAt log second (b + 1) secondCut)
    (reachesSecond : b + 1 ≤ firstCut) (reachesFirst : a + 1 ≤ secondCut) :
    (mergeLog (mergeLog log first a).1 second b).1 = (mergeLog (mergeLog log second b).1 first a).1 := by
  refine List.ext_getElem? fun position => ?_
  rw [merge_after alike firstAt secondAt reachesSecond reachesFirst,
    merge_after alike.symm secondAt firstAt reachesFirst reachesSecond, Nat.min_comm]
  split
  · rfl
  · rename_i above
    -- where both have an entry, it is the same
    rcases isFirst : first[position - (a + 1)]? with _ | one
    · rw [Option.none_or, Option.or_none]
    · rcases isSecond : second[position - (b + 1)]? with _ | other
      · rfl
      · have inFirst := firstAt.after
        have inSecond := secondAt.after
        rw [alike position one other (by omega) (by omega) isFirst isSecond]

theorem merge_again (inside : a < log.length) :
    (mergeLog (mergeLog log first a).1 first a).1 = (mergeLog log first a).1 := by
  obtain ⟨cut, cutAt, -⟩ := exists_cutAt first inside
  have alike : SentAlike first first (a + 1) (a + 1) := by
    intro position one other _ _ isOne isOther
    rw [isOne] at isOther
    exact Option.some.inj isOther
  refine List.ext_getElem? fun position => ?_
  rw [merge_after alike cutAt cutAt cutAt.after cutAt.after, cutAt.getElem?, Nat.min_self, Option.or_self]

end Twice

/-! ## The handler -/

/-- The position of the previous entry in the slice. -/
def realPrev (rf : Raft n Command) (args : AppendEntriesArgs n Command) : Nat :=
  (args.prevLogIndex - rf.lastIncludedIndex).toNat

/-- Entries for the same index are the same. -/
def AppendEntriesArgs.Alike (first second : AppendEntriesArgs n Command) : Prop :=
  ∀ (i j : Nat) one other, first.prevLogIndex + i = second.prevLogIndex + j → first.entries[i]? = some one →
    second.entries[j]? = some other → one = other

instance [DecidableEq Command] (first second : AppendEntriesArgs n Command) : Decidable (first.Alike second) :=
  decidable_of_iff (∀ i < first.entries.length, ∀ j < second.entries.length,
      first.prevLogIndex + i = second.prevLogIndex + j → first.entries[i]? = second.entries[j]?) <| by
    constructor
    · intro same i j one other sameIndex isOne isOther
      have := same i (List.getElem?_eq_some_iff.mp isOne).1 j (List.getElem?_eq_some_iff.mp isOther).1 sameIndex
      rw [isOne, isOther] at this
      exact Option.some.inj this
    · intro alike i inFirst j inSecond sameIndex
      have isOne := List.getElem?_eq_getElem inFirst
      have isOther := List.getElem?_eq_getElem inSecond
      rw [isOne, isOther, alike i j _ _ sameIndex isOne isOther]

/-- The log contradicts no entry that the first request sends for an index up to the previous index
of the second. -/
def KeepsPrev (rf : Raft n Command) (first second : AppendEntriesArgs n Command) : Prop :=
  Agree rf.log first.entries (rf.realPrev first + 1) (rf.realPrev second - rf.realPrev first)

instance (rf : Raft n Command) (first second : AppendEntriesArgs n Command) : Decidable (rf.KeepsPrev first second) :=
  inferInstanceAs (Decidable (Agree _ _ _ _))

theorem PrevMatches.inside {rf : Raft n Command} {args : AppendEntriesArgs n Command} (found : rf.PrevMatches args) :
    rf.realPrev args < rf.log.length := by
  by_contra outside
  have shown := found.2.2
  rw [← realPrev, getLogAt, List.getElem?_eq_none (Nat.le_of_not_lt outside)] at shown
  cases shown

theorem PrevMatches.prevLogIndex {rf : Raft n Command} {args : AppendEntriesArgs n Command}
    (found : rf.PrevMatches args) : args.prevLogIndex = rf.lastIncludedIndex + rf.realPrev args := by
  have retained := found.1
  unfold realPrev
  omega

theorem appendEntries_merged {rf : Raft n Command} {args : AppendEntriesArgs n Command}
    (success : (rf.appendEntries args).2.success = true) :
    (rf.appendEntries args).1.log = (mergeLog rf.log args.entries (rf.realPrev args)).1 ∧
      ∀ other, (rf.appendEntries args).1.realPrev other = rf.realPrev other := by
  have same := observeLeader_sameLog rf args.term
  rw [(appendEntries_accepted success).2.2, storeEntries_eq]
  refine ⟨?_, fun other => ?_⟩
  · rw [same.log]
    rfl
  · simp only [realPrev, same.lastIncludedIndex]

theorem appendEntries_refused {rf : Raft n Command} {args : AppendEntriesArgs n Command}
    (refused : (rf.appendEntries args).2.success = false) : SameLog rf (rf.appendEntries args).1 ∧
      (args.term < (rf.appendEntries args).1.currentTerm ∨ ¬ rf.PrevMatches args) := by
  have same := observeLeader_sameLog rf args.term
  rcases appendEntries_outcome rf args with ⟨why, reply, result, -⟩ | ⟨-, -, result⟩
  · rw [result]
    exact ⟨same, why.imp id fun missing found => missing ((same.prevMatches args).mpr found)⟩
  · rw [result] at refused
    cases refused

/-- The three ways to merge: the log has all that was sent, or ends before it, or contradicts it. -/
theorem appendEntries_log {rf : Raft n Command} {args : AppendEntriesArgs n Command}
    (success : (rf.appendEntries args).2.success = true) :
    let start := rf.realPrev args + 1
    let after := (rf.appendEntries args).1
    (Agree rf.log args.entries start args.entries.length ∧
      (start + args.entries.length ≤ rf.log.length ∧ after.log = rf.log ∨
        rf.log.length < start + args.entries.length ∧
          after.log = rf.log ++ args.entries.drop (rf.log.length - start))) ∨
    ∃ i sent existing, args.entries[i]? = some sent ∧ rf.log[start + i]? = some existing ∧
      sent.term ≠ existing.term ∧ Agree rf.log args.entries start i ∧
      after.log = rf.log.take (start + i) ++ args.entries.drop i := by
  intro start after
  rw [show after.log = _ from (appendEntries_merged success).1]
  rcases mergeLog_spec rf.log args.entries _ (appendEntries_accepted success).2.1.inside with ⟨agree, result⟩ | conflict
  · refine .inl ⟨agree, ?_⟩
    rcases Nat.lt_or_ge rf.log.length (start + args.entries.length) with longer | within
    · exact .inr ⟨longer, result⟩
    · refine .inl ⟨within, ?_⟩
      rw [result, List.drop_of_length_le (by omega), List.append_nil]
  · exact .inr conflict

theorem appendEntries_again (rf : Raft n Command) (args : AppendEntriesArgs n Command) :
    ((rf.appendEntries args).1.appendEntries args).1.log = (rf.appendEntries args).1.log := by
  cases again : ((rf.appendEntries args).1.appendEntries args).2.success with
  | false => exact (appendEntries_refused again).1.log
  | true =>
    obtain ⟨current, foundAgain, -⟩ := appendEntries_accepted again
    cases once : (rf.appendEntries args).2.success with
    | false =>
      -- nothing has changed that the second decision depends on
      obtain ⟨same, stale | missing⟩ := appendEntries_refused once
      · exact absurd current (Nat.not_le.mpr stale)
      · exact absurd ((same.prevMatches args).mp foundAgain) missing
    | true =>
      obtain ⟨merged, samePrev⟩ := appendEntries_merged once
      rw [(appendEntries_merged again).1, samePrev, merged]
      exact merge_again (appendEntries_accepted once).2.1.inside

theorem KeepsPrev.reaches {rf : Raft n Command} {first second : AppendEntriesArgs n Command} {cut : Nat}
    (keeps : rf.KeepsPrev first second) (cutAt : CutAt rf.log first.entries (rf.realPrev first + 1) cut)
    (inside : rf.realPrev second < rf.log.length) : rf.realPrev second + 1 ≤ cut := by
  by_contra before
  have after := cutAt.after
  obtain ⟨sent, existing, isSent, isHeld, different⟩ := cutAt.conflict (by omega)
  refine different (keeps _ sent existing (by omega) isSent ?_)
  rwa [Nat.add_sub_cancel' after]

theorem AppendEntriesArgs.Alike.sent {rf : Raft n Command} {first second : AppendEntriesArgs n Command}
    (alike : first.Alike second) (firstFound : rf.PrevMatches first) (secondFound : rf.PrevMatches second) :
    SentAlike first.entries second.entries (rf.realPrev first + 1) (rf.realPrev second + 1) := by
  intro position one other inFirst inSecond isOne isOther
  refine alike _ _ one other ?_ isOne isOther
  rw [firstFound.prevLogIndex, secondFound.prevLogIndex]
  omega

/-- Both requests succeed, whichever comes first. -/
structure BothOrders (rf : Raft n Command) (first second : AppendEntriesArgs n Command) : Prop where
  firstOnce : (rf.appendEntries first).2.success = true
  thenSecond : ((rf.appendEntries first).1.appendEntries second).2.success = true
  secondOnce : (rf.appendEntries second).2.success = true
  thenFirst : ((rf.appendEntries second).1.appendEntries first).2.success = true

theorem BothOrders.same_log {rf : Raft n Command} {first second : AppendEntriesArgs n Command}
    (accepted : rf.BothOrders first second) (alike : first.Alike second) (keepsSecond : rf.KeepsPrev first second)
    (keepsFirst : rf.KeepsPrev second first) :
    ((rf.appendEntries first).1.appendEntries second).1.log =
      ((rf.appendEntries second).1.appendEntries first).1.log := by
  obtain ⟨firstOnce, secondAfter, secondOnce, firstAfter⟩ := accepted
  obtain ⟨-, firstFound, -⟩ := appendEntries_accepted firstOnce
  obtain ⟨-, secondFound, -⟩ := appendEntries_accepted secondOnce
  obtain ⟨firstCut, firstAt, -⟩ := exists_cutAt first.entries firstFound.inside
  obtain ⟨secondCut, secondAt, -⟩ := exists_cutAt second.entries secondFound.inside
  rw [(appendEntries_merged secondAfter).1, (appendEntries_merged firstOnce).2, (appendEntries_merged firstOnce).1,
    (appendEntries_merged firstAfter).1, (appendEntries_merged secondOnce).2, (appendEntries_merged secondOnce).1]
  exact merge_comm (alike.sent firstFound secondFound) firstAt secondAt (keepsSecond.reaches firstAt secondFound.inside)
    (keepsFirst.reaches secondAt firstFound.inside)

/-! ## Requests of one leader -/

section Runs

variable [Inhabited Command] {cluster : Cluster n Command}

/-- Two requests that were sent in one term of a run. -/
def Cluster.SentInTerm (cluster : Cluster n Command) (first second : AppendEntriesArgs n Command) : Prop :=
  first.term = second.term ∧ (∃ call ∈ cluster.calls, call.request = .appendEntries first) ∧
    ∃ call ∈ cluster.calls, call.request = .appendEntries second

omit [Inhabited Command] in
theorem Cluster.SentInTerm.symm {first second : AppendEntriesArgs n Command} (sent : cluster.SentInTerm first second) :
    cluster.SentInTerm second first := ⟨sent.1.symm, sent.2.2, sent.2.1⟩

omit [Inhabited Command] in
theorem Carries.getElem? {state : Replication.State (Fin n) (LogEntry Command)} {args : AppendEntriesArgs n Command}
    {log : List (LogEntry Command)} {prev i : Nat} {entry : LogEntry Command} (carries : Carries state args log prev)
    (isSent : args.entries[i]? = some entry) : log[prev + i]? = some entry := by
  have inside := (List.getElem?_eq_some_iff.mp isSent).1
  rw [carries.entries, List.getElem?_drop, List.getElem?_take_of_lt (by omega)] at isSent
  exact isSent

/-- What one leader sends is a part of one log, so it agrees where it overlaps, and with any log up to
an entry that it matches. -/
theorem Cluster.SentInTerm.keepsPrev (reachable : Cluster.Reachable cluster)
    {first second : AppendEntriesArgs n Command} (sent : cluster.SentInTerm first second) {server : Fin n}
    (firstFound : (cluster.node server).raft.PrevMatches first)
    (secondFound : (cluster.node server).raft.PrevMatches second) :
    first.Alike second ∧ (cluster.node server).raft.KeepsPrev first second := by
  obtain ⟨state, -, simulates⟩ := reachable_simulates reachable
  obtain ⟨sameTerm, ⟨firstCall, firstMember, firstRequest⟩, secondCall, secondMember, secondRequest⟩ := sent
  obtain ⟨log, firstPrev, leads, firstCarries⟩ := simulates.carried firstMember firstRequest firstFound
  obtain ⟨log', secondPrev, leads', secondCarries⟩ := simulates.carried secondMember secondRequest secondFound
  rw [sameTerm, leads'] at leads
  obtain ⟨-, rfl⟩ := Prod.mk.inj (Option.some.inj leads)
  have logRel := (simulates.node server).log
  have covered := simulates.invariant.log_covered server
  rw [logRel.log] at covered
  obtain ⟨-, inLog, sameAt⟩ := (logRel.compacted.prevMatches_iff secondCarries.prevLogIndex).mp secondFound
  rw [secondCarries.prevLogTerm, Int.natCast_inj] at sameAt
  have available := secondCarries.available
  have same := take_eq_of_termAt covered (simulates.invariant.leader_covered _ _ _ leads') inLog (by omega) sameAt
  have firstIndex := firstFound.prevLogIndex
  have secondIndex := secondFound.prevLogIndex
  rw [firstCarries.prevLogIndex] at firstIndex
  rw [secondCarries.prevLogIndex] at secondIndex
  constructor
  · intro i j one other sameIndex isOne isOther
    rw [firstCarries.prevLogIndex, secondCarries.prevLogIndex] at sameIndex
    have inFirst := firstCarries.getElem? isOne
    have inSecond := secondCarries.getElem? isOther
    rw [show firstPrev + i = secondPrev + j by omega, inSecond] at inFirst
    exact (Option.some.inj inFirst).symm
  · intro i one existing before isOne isHeld
    rw [Nat.add_right_comm, logRel.compacted.log_getElem?] at isHeld
    have inFirst := firstCarries.getElem? isOne
    -- both are below the previous index of the second request, up to which the logs are the same
    rw [← List.getElem?_take_of_lt (show firstPrev + i < secondPrev by omega), ← same,
      List.getElem?_take_of_lt (by omega), show firstPrev + i = (cluster.node server).raft.lastIncludedIndex +
        ((cluster.node server).raft.realPrev first + i) by omega, isHeld] at inFirst
    rw [Option.some.inj inFirst]

/-- `AppendEntries` merges exactly: what is accepted is stored from the first entry that the log
contradicts or does not have, and what is refused changes nothing.  A request that comes again leaves
the log as it is.  The order of two requests with the same entries where they overlap does not matter,
if the log contradicts neither up to the previous index of the other, and in a run never. -/
theorem appendEntries_merges_exactly (rf : Raft n Command) (first second : AppendEntriesArgs n Command) :
    let start := rf.realPrev first + 1
    let after := (rf.appendEntries first).1
    ((rf.appendEntries first).2.success = true →
      (Agree rf.log first.entries start first.entries.length ∧
        (start + first.entries.length ≤ rf.log.length ∧ after.log = rf.log ∨
          rf.log.length < start + first.entries.length ∧
            after.log = rf.log ++ first.entries.drop (rf.log.length - start))) ∨
      ∃ i sent existing, first.entries[i]? = some sent ∧ rf.log[start + i]? = some existing ∧
        sent.term ≠ existing.term ∧ Agree rf.log first.entries start i ∧
        after.log = rf.log.take (start + i) ++ first.entries.drop i) ∧
    ((rf.appendEntries first).2.success = false → after.log = rf.log ∧ after.commitIndex = rf.commitIndex) ∧
    (after.appendEntries first).1.log = after.log ∧
    (rf.BothOrders first second →
      (first.Alike second ∧ rf.KeepsPrev first second ∧ rf.KeepsPrev second first) ∨
        (∃ cluster : Cluster n Command, Cluster.Reachable cluster ∧ (∃ server, (cluster.node server).raft = rf) ∧
          cluster.SentInTerm first second) →
      ((rf.appendEntries first).1.appendEntries second).1.log =
        ((rf.appendEntries second).1.appendEntries first).1.log) := by
  refine ⟨appendEntries_log, fun refused => ?_, appendEntries_again rf first, ?_⟩
  · have same := (appendEntries_refused refused).1
    exact ⟨same.log, same.commitIndex⟩
  · rintro accepted (⟨alike, keepsSecond, keepsFirst⟩ | ⟨cluster, reachable, ⟨server, rfl⟩, sent⟩)
    · exact accepted.same_log alike keepsSecond keepsFirst
    · obtain ⟨-, firstFound, -⟩ := appendEntries_accepted accepted.firstOnce
      obtain ⟨-, secondFound, -⟩ := appendEntries_accepted accepted.secondOnce
      obtain ⟨alike, keepsSecond⟩ := sent.keepsPrev reachable firstFound secondFound
      obtain ⟨-, keepsFirst⟩ := sent.symm.keepsPrev reachable secondFound firstFound
      exact accepted.same_log alike keepsSecond keepsFirst

end Runs

/-- A follower of term 3 with the given entries. -/
def holding (entries : List (LogEntry Nat)) : Raft 3 Nat where
  persister := {}
  me := 1
  state := .follower
  log := default :: entries
  currentTerm := 3
  votedFor := none
  commitIndex := 0
  lastApplied := 0
  getVotesNum := 0
  nextIndex := fun _ => 0
  matchIndex := fun _ => -1
  lastIncludedIndex := 0
  lastIncludedTerm := 0

/-- Entries from server 0, the leader of term 3. -/
def sending (prevLogIndex prevLogTerm : Nat) (entries : List (LogEntry Nat)) : AppendEntriesArgs 3 Nat where
  term := 3
  leaderId := 0
  prevLogIndex
  prevLogTerm
  entries
  leaderCommit := 0

/-- Two overlapping requests that replace the second entry. -/
theorem appendEntries_merges_exactly_overlapping :
    let rf := holding [⟨1, 7, 1⟩, ⟨1, 8, 2⟩]
    let first := sending 0 0 [⟨1, 7, 1⟩, ⟨3, 9, 2⟩]
    let second := sending 1 1 [⟨3, 9, 2⟩, ⟨3, 10, 3⟩]
    rf.BothOrders first second ∧
      ((rf.appendEntries first).1.appendEntries second).1.log = [default, ⟨1, 7, 1⟩, ⟨3, 9, 2⟩, ⟨3, 10, 3⟩] ∧
      ((rf.appendEntries first).1.appendEntries second).1.log =
        ((rf.appendEntries second).1.appendEntries first).1.log := by
  intro rf first second
  have accepted : rf.BothOrders first second := ⟨by decide, by decide, by decide, by decide⟩
  exact ⟨accepted, by decide,
    (appendEntries_merges_exactly rf first second).2.2.2 accepted (.inl ⟨by decide, by decide, by decide⟩)⟩

/-- The first request replaces the previous entry of the second by an equal one, and all that followed
it.  No run leads to such a log: an entry of one term and index follows the same entries everywhere. -/
theorem appendEntries_orders_differ :
    let rf := holding [⟨1, 7, 1⟩, ⟨3, 8, 2⟩]
    let first := sending 0 0 [⟨2, 9, 1⟩, ⟨3, 8, 2⟩]
    let second := sending 2 3 [⟨3, 10, 3⟩]
    rf.BothOrders first second ∧ first.Alike second ∧
      ((rf.appendEntries first).1.appendEntries second).1.log = [default, ⟨2, 9, 1⟩, ⟨3, 8, 2⟩, ⟨3, 10, 3⟩] ∧
      ((rf.appendEntries second).1.appendEntries first).1.log = [default, ⟨2, 9, 1⟩, ⟨3, 8, 2⟩] := by
  exact ⟨⟨by decide, by decide, by decide, by decide⟩, by decide, by decide, by decide⟩

end ShardedKV.Raft
