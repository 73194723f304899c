import ShardedKV.Raft.FullLog

/-!
# What `AppendEntries` does to a log

The two loops of the handler, first on the slice and then on the full log: the merged log
is the old one overlaid with what the leader had sent.
-/

namespace ShardedKV.Raft

open Replication (Covered overlay lastTerm overlay_eq_self)

variable {n : Nat} {Command : Type}

/-- The sent entries and the log have the same terms wherever both have an entry. -/
def Agree (log entries : List (LogEntry Command)) (start count : Nat) : Prop :=
  ∀ i sent existing, i < count → entries[i]? = some sent → log[start + i]? = some existing →
    sent.term = existing.term

instance (log entries : List (LogEntry Command)) (start count : Nat) : Decidable (Agree log entries start count) :=
  decidable_of_iff (∀ i < count, ∀ sent ∈ entries[i]?, ∀ existing ∈ log[start + i]?, sent.term = existing.term)
    ⟨fun agree i sent existing less isSent isHeld => agree i less sent isSent existing isHeld,
      fun agree i less sent isSent existing isHeld => agree i sent existing less isSent isHeld⟩

theorem truncateConflict_spec (log entries : List (LogEntry Command)) (start : Nat) :
    (Agree log entries start entries.length ∧ truncateConflict log entries start = (log, false)) ∨
    ∃ i sent existing, entries[i]? = some sent ∧ log[start + i]? = some existing ∧
      sent.term ≠ existing.term ∧ Agree log entries start i ∧
      truncateConflict log entries start = (log.take (start + i), true) := by
  induction entries generalizing start with
  | nil => exact .inl ⟨fun i sent existing _ located => by simp at located, rfl⟩
  | cons entry entries inductionHypothesis =>
    unfold truncateConflict
    cases located : log[start]? with
    | none =>
      refine .inl ⟨fun i sent existing _ _ inLog => ?_, rfl⟩
      have past := List.getElem?_eq_none_iff.mp located
      have bound := (List.getElem?_eq_some_iff.mp inLog).1
      omega
    | some existing =>
      by_cases conflict : entry.term ≠ existing.term
      · refine .inr ⟨0, entry, existing, rfl, located, conflict, fun i _ _ bound => by omega, ?_⟩
        simp [conflict]
      · have sameTerm : entry.term = existing.term := not_not.mp conflict
        have shift : ∀ count, Agree log entries (start + 1) count →
            Agree log (entry :: entries) start (count + 1) := by
          intro count agree i sent found bound inEntries inLog
          cases i with
          | zero =>
            rw [Nat.add_zero, located] at inLog
            simp only [List.getElem?_cons_zero, Option.some.injEq] at inEntries inLog
            rw [← inEntries, ← inLog, sameTerm]
          | succ i =>
            rw [List.getElem?_cons_succ] at inEntries
            exact agree i sent found (by omega) inEntries (by rw [← inLog]; congr 1; omega)
        simp only [conflict, if_false]
        rcases inductionHypothesis (start + 1) with ⟨agree, unchanged⟩ |
          ⟨i, sent, found, inEntries, inLog, different, agree, cut⟩
        · exact .inl ⟨shift _ agree, unchanged⟩
        · refine .inr ⟨i + 1, sent, found, inEntries, ?_, different, shift _ agree, ?_⟩
          · rw [← inLog]; congr 1; omega
          · rw [cut]; congr 2; omega

theorem appendMissing_spec (log entries : List (LogEntry Command)) (position : Nat)
    (bound : position ≤ log.length) :
    appendMissing log entries position =
      (log ++ entries.drop (log.length - position), decide (log.length < position + entries.length)) := by
  induction entries generalizing log position with
  | nil =>
    simp [appendMissing, bound]
  | cons entry entries inductionHypothesis =>
    unfold appendMissing
    by_cases past : log.length ≤ position
    · have atEnd : log.length = position := by omega
      rw [if_pos past, inductionHypothesis _ _ (by simp [atEnd])]
      simp [atEnd]
    · rw [if_neg past, inductionHypothesis _ _ (by omega)]
      rw [show log.length - position = (log.length - (position + 1)) + 1 by omega, List.drop_succ_cons,
        List.length_cons]
      congr 2
      apply propext
      omega

theorem mergeLog_spec (log entries : List (LogEntry Command)) (realIndex : Nat)
    (bound : realIndex < log.length) :
    (Agree log entries (realIndex + 1) entries.length ∧
      (mergeLog log entries realIndex).1 = log ++ entries.drop (log.length - (realIndex + 1))) ∨
    ∃ i sent existing, entries[i]? = some sent ∧ log[realIndex + 1 + i]? = some existing ∧
      sent.term ≠ existing.term ∧ Agree log entries (realIndex + 1) i ∧
      (mergeLog log entries realIndex).1 = log.take (realIndex + 1 + i) ++ entries.drop i := by
  unfold mergeLog
  rcases truncateConflict_spec log entries (realIndex + 1) with ⟨agree, unchanged⟩ |
    ⟨i, sent, existing, inEntries, inLog, different, agree, cut⟩
  · refine .inl ⟨agree, ?_⟩
    simp only [unchanged]
    split
    · rename_i short
      rw [show log.length - (realIndex + 1) = 0 by omega, List.drop_zero]
    · rw [appendMissing_spec _ _ _ (by omega)]
  · refine .inr ⟨i, sent, existing, inEntries, inLog, different, agree, ?_⟩
    have inside := (List.getElem?_eq_some_iff.mp inLog).1
    have length : (log.take (realIndex + 1 + i)).length = realIndex + 1 + i := by
      rw [List.length_take]; omega
    simp only [cut, length]
    split
    · rename_i first
      rw [show i = 0 by omega, List.drop_zero]
    · rw [appendMissing_spec _ _ _ (by omega), length, Nat.add_sub_cancel_left]

/-- A merge that asks for no `persist` has left the log alone. -/
theorem mergeLog_unchanged (log entries : List (LogEntry Command)) (realIndex : Nat)
    (clean : (mergeLog log entries realIndex).2 = false) : (mergeLog log entries realIndex).1 = log := by
  unfold mergeLog at clean ⊢
  rcases truncateConflict_spec log entries (realIndex + 1) with ⟨-, unchanged⟩ | ⟨_, _, _, _, _, _, _, cut⟩
  · simp only [unchanged] at clean ⊢
    split at clean
    · cases clean
    · rename_i long
      rw [if_neg long]
      rw [appendMissing_spec _ _ _ (by omega)] at clean ⊢
      simp only [Bool.false_or, decide_eq_false_iff_not, not_lt] at clean
      rw [List.drop_of_length_le (by omega), List.append_nil]
  · simp only [cut] at clean
    split at clean <;> simp at clean

/-! ## On the full log -/

/-- A log with a term at an index holds the same entries up to it as any log that has the term there or
later. -/
theorem take_eq_of_termAt_le {state : Replication.State (Fin n) (LogEntry Command)}
    {first second : List (LogEntry Command)} (firstCovered : Covered (scheme n Command) state first)
    (secondCovered : Covered (scheme n Command) state second) {index later : Nat} (ordered : index ≤ later)
    (inFirst : index ≤ first.length) (inSecond : later ≤ second.length)
    (sameTerm : termAt first index = termAt second later) : first.take index = second.take index := by
  cases index with
  | zero => simp
  | succ position =>
    obtain ⟨after, rfl⟩ : ∃ after, later = after + 1 := ⟨later - 1, by omega⟩
    have firstLocated := List.getElem?_eq_getElem (show position < first.length by omega)
    have secondLocated := List.getElem?_eq_getElem (show after < second.length by omega)
    rw [termAt_eq_of_getElem? firstLocated, termAt_eq_of_getElem? secondLocated] at sameTerm
    exact firstCovered.agree_below secondCovered (by omega) firstLocated secondLocated sameTerm

theorem take_eq_of_termAt {state : Replication.State (Fin n) (LogEntry Command)}
    {first second : List (LogEntry Command)} (firstCovered : Covered (scheme n Command) state first)
    (secondCovered : Covered (scheme n Command) state second) {index : Nat}
    (inFirst : index ≤ first.length) (inSecond : index ≤ second.length)
    (sameTerm : termAt first index = termAt second index) : first.take index = second.take index :=
  take_eq_of_termAt_le firstCovered secondCovered le_rfl inFirst inSecond sameTerm

theorem overlay_of_not_contained {log incoming : List (LogEntry Command)}
    (different : ¬ incoming <+: log) : overlay log incoming = incoming := by
  simp [overlay, different]

/-- After the previous entry has matched, the handler's merge overlays the log with the part of
the leader's log up to the last entry sent. -/
theorem Compacted.merge [Inhabited Command] {rf : Raft n Command} (compacted : Compacted rf)
    {state : Replication.State (Fin n) (LogEntry Command)} {leaderLog : List (LogEntry Command)}
    (covered : Covered (scheme n Command) state rf.fullLog)
    (leaderCovered : Covered (scheme n Command) state leaderLog) {prev count : Nat}
    (retained : rf.lastIncludedIndex ≤ prev) (inLog : prev ≤ rf.fullLog.length) (ordered : prev ≤ count)
    (inLeader : count ≤ leaderLog.length) (sameTerm : termAt rf.fullLog prev = termAt leaderLog prev) :
    let merged := (mergeLog rf.log ((leaderLog.take count).drop prev) (prev - rf.lastIncludedIndex)).1
    merged.head? = some default ∧
      rf.persister.snapshot.entries ++ merged.tail = overlay rf.fullLog (leaderLog.take count) := by
  intro merged
  have length := compacted.fullLog_length
  have samePrev := take_eq_of_termAt covered leaderCovered inLog (by omega) sameTerm
  -- the two logs agree up to any index at which the sent entries and the log have the same term
  have agreeUpTo : ∀ limit, Agree rf.log ((leaderLog.take count).drop prev)
      (prev - rf.lastIncludedIndex + 1) limit → ∀ index, index ≤ prev + limit → index ≤ count →
      index ≤ rf.fullLog.length → rf.fullLog.take index = leaderLog.take index := by
    intro limit agree index within sent held
    rcases Nat.lt_or_ge prev index with later | early
    · obtain ⟨i, rfl⟩ : ∃ i, index = prev + i + 1 := ⟨index - prev - 1, by omega⟩
      have leaderLocated := List.getElem?_eq_getElem (show prev + i < leaderLog.length by omega)
      have logLocated := List.getElem?_eq_getElem (show prev + i < rf.fullLog.length by omega)
      refine covered.agree leaderCovered logLocated leaderLocated (agree i _ _ (by omega) ?_ ?_).symm
      · rw [List.getElem?_drop, List.getElem?_take_of_lt (by omega), leaderLocated]
      · rw [show prev - rf.lastIncludedIndex + 1 + i = (prev - rf.lastIncludedIndex + i) + 1 by omega,
          compacted.log_getElem?, ← logLocated]
        congr 1
        omega
    · have taken := congrArg (List.take index) samePrev
      rwa [List.take_take, List.take_take, Nat.min_eq_left early] at taken
  rcases mergeLog_spec rf.log ((leaderLog.take count).drop prev) (prev - rf.lastIncludedIndex)
    (by omega) with ⟨agree, result⟩ | ⟨i, sent, existing, inEntries, atLog, different, agree, result⟩
  · -- no conflict: the log ends inside what was sent and is extended, or contains all of it
    have resultFull : rf.persister.snapshot.entries ++ merged.tail =
        rf.fullLog ++ (leaderLog.take count).drop rf.fullLog.length := by
      simp only [merged, result]
      rw [List.drop_drop, compacted.log_eq, List.cons_append, List.tail_cons, fullLog, List.append_assoc,
        ← compacted.log_eq]
      congr 3
      have total : (rf.persister.snapshot.entries ++ rf.log.tail).length = rf.fullLog.length := rfl
      omega
    have headFull : merged.head? = some default := by
      simp only [merged, result]
      rw [compacted.log_eq]
      rfl
    refine ⟨headFull, ?_⟩
    rw [resultFull]
    have entriesLength : ((leaderLog.take count).drop prev).length = count - prev := by
      rw [List.length_drop, List.length_take]
      omega
    rw [entriesLength] at agree
    have upTo := agreeUpTo _ agree
    rcases Nat.lt_or_ge rf.fullLog.length count with longer | shorter
    · have whole := upTo rf.fullLog.length (by omega) (by omega) le_rfl
      rw [List.take_length] at whole
      have notContained : ¬ leaderLog.take count <+: rf.fullLog := by
        intro contained
        have bound := contained.length_le
        rw [List.length_take] at bound
        omega
      rw [overlay_of_not_contained notContained]
      calc rf.fullLog ++ (leaderLog.take count).drop rf.fullLog.length
          = (leaderLog.take count).take rf.fullLog.length ++
              (leaderLog.take count).drop rf.fullLog.length := by
            rw [List.take_take, Nat.min_eq_left (by omega), ← whole]
        _ = leaderLog.take count := List.take_append_drop _ _
    · rw [List.drop_of_length_le (by rw [List.length_take]; omega), List.append_nil, overlay_eq_self]
      rw [← upTo count (by omega) le_rfl (by omega)]
      exact List.take_prefix _ _
  · -- a conflict at the entry `i`: before it the log is the leader's, and the rest is replaced
    have sentBound := (List.getElem?_eq_some_iff.mp inEntries).1
    have logBound := (List.getElem?_eq_some_iff.mp atLog).1
    rw [List.length_drop, List.length_take] at sentBound
    have resultFull : rf.persister.snapshot.entries ++ merged.tail =
        rf.fullLog.take (prev + i) ++ (leaderLog.take count).drop (prev + i) := by
      simp only [merged, result]
      rw [List.drop_drop, compacted.log_eq, Nat.add_right_comm, List.take_succ_cons, List.cons_append,
        List.tail_cons, ← List.append_assoc, fullLog, List.take_append, compacted.lastIncludedIndex,
        List.take_of_length_le (show rf.persister.snapshot.entries.length ≤ prev + i by
          rw [compacted.lastIncludedIndex]; omega)]
      congr 3
      omega
    have headFull : merged.head? = some default := by
      simp only [merged, result]
      rw [compacted.log_eq, Nat.add_right_comm, List.take_succ_cons]
      rfl
    refine ⟨headFull, ?_⟩
    have whole := agreeUpTo _ agree (prev + i) le_rfl (by omega) (by omega)
    have notContained : ¬ leaderLog.take count <+: rf.fullLog := by
      intro contained
      apply different
      rw [List.getElem?_drop] at inEntries
      rw [show prev - rf.lastIncludedIndex + 1 + i = (prev - rf.lastIncludedIndex + i) + 1 by omega,
        compacted.log_getElem?] at atLog
      obtain ⟨rest, whole⟩ := contained
      rw [← whole, show rf.lastIncludedIndex + (prev - rf.lastIncludedIndex + i) = prev + i by omega,
        List.getElem?_append_left (by rw [List.length_take]; omega), inEntries] at atLog
      rw [Option.some.inj atLog]
    rw [resultFull, overlay_of_not_contained notContained]
    calc rf.fullLog.take (prev + i) ++ (leaderLog.take count).drop (prev + i)
        = (leaderLog.take count).take (prev + i) ++ (leaderLog.take count).drop (prev + i) := by
          rw [List.take_take, Nat.min_eq_left (by omega), whole]
      _ = leaderLog.take count := List.take_append_drop _ _

end ShardedKV.Raft
