import ShardedKV.KvRaft.Steps

/-!
# The service is linearizable

An update takes effect when its first entry is committed; every later entry with its number is
recognised by `clientSeq`, because a clerk's earlier numbers are in the log before its later
ones.  A read takes effect when the entry that answers it is committed.
-/

namespace ShardedKV.KvRaft

open Services
open Linearizability (Linearizable Retried ReadsAndUpdates seen)

variable {n : Nat} {system : System n}

/-! ## Sessions -/

/-- The entries of a clerk are numbered without a gap. -/
def InOrder (before : List Op) (op : Op) : Prop :=
  1 ≤ op.seqNum ∧ ∀ number, 1 ≤ number → number < op.seqNum → Present before op.clientID number

theorem log_inOrder {records : Records} (explained : Justified Explained records) :
    Justified InOrder records.committed := by
  induction records using List.reverseRecOn with
  | nil => exact Justified.nil
  | append_singleton records record inductionHypothesis =>
    have before := inductionHypothesis explained.of_append
    cases record with
    | invoke client seqNum operation => simpa using before
    | respond client seqNum ret => simpa using before
    | commit op =>
      have issued : Issued records op := explained.last
      rw [Trace.committed_commit]
      exact before.append ⟨issued.positive, issued.earlier⟩

theorem present_append_singleton {log : List Op} {op : Op} {client number : Nat} :
    Present (log ++ [op]) client number ↔
      Present log client number ∨ op.clientID = client ∧ op.seqNum = number := by
  simp only [Present, List.mem_append, List.mem_singleton]
  constructor
  · rintro ⟨found, member | rfl, same⟩
    · exact .inl ⟨found, member, same⟩
    · exact .inr same
  · rintro (⟨found, member, same⟩ | same)
    · exact ⟨found, .inl member, same⟩
    · exact ⟨op, .inr rfl, same⟩

/-- A session has seen exactly the numbers in the log. -/
theorem le_lastSeq_iff {log : List Op} (ordered : Justified InOrder log) {client number : Nat}
    (positive : 1 ≤ number) :
    number ≤ (machine.run log).lastSeq client ↔ Present log client number := by
  induction log using List.reverseRecOn with
  | nil =>
    have none_seen : (machine.run []).lastSeq client = 0 := rfl
    rw [none_seen]
    constructor
    · intro less
      omega
    · rintro ⟨op, member, _⟩
      cases member
  | append_singleton log op inductionHypothesis =>
    obtain ⟨_, earlier⟩ := ordered.last
    have before := inductionHypothesis ordered.of_append
    rw [machine.run_append, present_append_singleton, ← before]
    change number ≤ ((machine.run log).applyCommand op).1.lastSeq client ↔ _
    rw [Store.lastSeq_applyCommand]
    by_cases equal : client = op.clientID
    · subst equal
      simp only [if_true, true_and]
      constructor
      · intro within
        by_cases less : number < op.seqNum
        · exact .inl (before.mpr (earlier number positive less))
        · omega
      · omega
    · simp only [equal, if_false]
      constructor
      · exact .inl
      · rintro (less | ⟨same, _⟩)
        · exact less
        · exact absurd same.symm equal

/-! ## Effects along the records -/

/-- The map after the entries committed before moment `t`. -/
def contents (records : Records) (t : Nat) : GoString → GoString :=
  (machine.run (Trace.committed (records.take t))).value

/-- The operation whose entry is committed at moment `t`. -/
def performed (records : Records) (t : Nat) : Option ((Nat × Nat) × Operation) :=
  (records[t]?.bind Record.entry).map fun op => ((op.clientID, op.seqNum), op.operation)

theorem performed_eq_some {records : Records} {t client seqNum : Nat} {operation : Operation} :
    performed records t = some ((client, seqNum), operation) ↔
      ∃ op, records[t]? = some (.commit op) ∧ op.clientID = client ∧ op.seqNum = seqNum ∧
        op.operation = operation := by
  unfold performed
  cases here : records[t]? with
  | none => simp
  | some record =>
    cases record with
    | invoke client' seqNum' operation' => simp [Record.entry]
    | respond client' seqNum' ret => simp [Record.entry]
    | commit op => simp [Record.entry, and_assoc]

theorem performed_before {records : Records} {t client seqNum : Nat} :
    (∃ u < t, ∃ operation, performed records u = some ((client, seqNum), operation)) ↔
      Present (Trace.committed (records.take t)) client seqNum := by
  simp only [performed_eq_some, Present, Trace.mem_committed]
  constructor
  · rintro ⟨u, before, _, op, here, sameClient, sameNumber, _⟩
    exact ⟨op, ⟨u, by rw [List.getElem?_take_of_lt before, here]⟩, sameClient, sameNumber⟩
  · rintro ⟨op, ⟨u, here⟩, sameClient, sameNumber⟩
    obtain ⟨before, here⟩ := getElem?_take_eq_some.mp here
    exact ⟨u, before, _, op, here, sameClient, sameNumber, rfl⟩

theorem contents_commit {records : Records} {t : Nat} {op : Op} (here : records[t]? = some (.commit op)) :
    contents records (t + 1) =
      if op.seqNum ≤ (machine.run (Trace.committed (records.take t))).lastSeq op.clientID then
        contents records t
      else (sequential.step (contents records t) op.operation).1 := by
  unfold contents
  rw [Trace.committed_take_succ here]
  simp only [Record.entry, Option.toList_some, machine.run_append]
  exact Store.value_applyCommand _ op

theorem sequential_kinds : ReadsAndUpdates sequential Operation.isRead where
  reads := by
    intro state operation reading
    cases operation <;> simp_all [sequential, Operation.isRead]
  updates := by
    intro first second operation writing
    cases operation <;> simp_all [sequential, Operation.isRead]

theorem ret_applyCommand (store : Store) (op : Op) :
    (store.applyCommand op).2.ret = (sequential.step store.value op.operation).2 := by
  rw [Store.applyCommand_snd]
  obtain ⟨client, number, key, value, optype⟩ := op
  cases optype <;> rfl

theorem retried {records : Records} (explained : Justified Explained records) :
    Retried sequential Record.event records (contents records) (performed records) := by
  have ordered : ∀ t, Justified InOrder (Trace.committed (records.take t)) :=
    fun t => log_inOrder (explained.take t)
  refine ⟨rfl, ?_, ?_, ?_, ?_, ?_, ?_, ?_⟩
  · intro t inside nothing
    obtain ⟨record, here⟩ : ∃ record, records[t]? = some record := ⟨_, List.getElem?_eq_getElem inside⟩
    simp only [performed, here, Option.bind_some, Option.map_eq_none_iff] at nothing
    simp [contents, Trace.committed_take_succ here, nothing]
  · rintro t inside ⟨client, seqNum⟩ operation here first
    obtain ⟨op, committed, rfl, rfl, rfl⟩ := performed_eq_some.mp here
    rw [contents_commit committed, if_neg]
    -- A number that the session has seen is in the log already.
    have positive : 1 ≤ op.seqNum := (explained t _ committed : Issued _ op).positive
    rw [le_lastSeq_iff (ordered t) positive, ← performed_before]
    rintro ⟨u, before, operation, again⟩
    exact first u before operation again
  · rintro t inside ⟨client, seqNum⟩ operation here ⟨u, before, operation', again⟩
    obtain ⟨op, committed, rfl, rfl, rfl⟩ := performed_eq_some.mp here
    have positive : 1 ≤ op.seqNum := (explained t _ committed : Issued _ op).positive
    rw [contents_commit committed, if_pos]
    rw [le_lastSeq_iff (ordered t) positive, ← performed_before]
    exact ⟨u, before, operation', again⟩
  · rintro t ⟨client, seqNum⟩ operation here
    obtain ⟨op, committed, rfl, rfl, rfl⟩ := performed_eq_some.mp here
    have issued : Issued (records.take t) op := explained t _ committed
    obtain ⟨i, invoked⟩ := List.mem_iff_getElem?.mp issued.invoked
    obtain ⟨before, invoked⟩ := getElem?_take_eq_some.mp invoked
    exact ⟨i, before, Trace.seen_invoke.mpr invoked⟩
  · rintro i j ⟨client, seqNum⟩ operation operation' first second
    exact Trace.number_unique (numbered explained) (Trace.seen_invoke.mp first) (Trace.seen_invoke.mp second) ⟨rfl, rfl⟩
  · rintro j ⟨client, seqNum⟩ ret responded
    obtain ⟨_, index, op, output, rfl, rfl, rfl⟩ := explained j _ (Trace.seen_respond.mp responded)
    obtain ⟨position, entry, _, found, produced⟩ := machine.output_eq_some.mp output
    obtain ⟨t, here, before⟩ := Trace.exists_commit found
    obtain ⟨early, here⟩ := getElem?_take_eq_some.mp here
    rw [List.take_take, Nat.min_eq_left (Nat.le_of_lt early)] at before
    subst produced
    rw [← before]
    refine ⟨t, early, entry.operation, performed_eq_some.mpr ⟨entry, here, ?_, ?_, rfl⟩, ?_⟩
    · change _ = (Store.applyCommand _ entry).2.clientID
      rw [Store.applyCommand_snd]
      split <;> rfl
    · change _ = (Store.applyCommand _ entry).2.seqNum
      rw [Store.applyCommand_snd]
      split <;> rfl
    · exact (ret_applyCommand _ entry).symm
  · rintro i j ⟨client, seqNum⟩ ret ret' first second
    exact Trace.number_unique (numbered explained) (Trace.seen_respond.mp first)
      (Trace.seen_respond.mp second) ⟨rfl, rfl⟩

/-! ## Exactly once -/

/-- The entry at a position runs `applyToStateMachine`. -/
def ExecutedAt (log : List Op) (position client seqNum : Nat) : Prop :=
  ∃ op, log[position]? = some op ∧ op.clientID = client ∧ op.seqNum = seqNum ∧
    (machine.run (log.take position)).lastSeq client < seqNum

theorem executedAt_iff {log : List Op} (ordered : Justified InOrder log) {position client seqNum : Nat} :
    ExecutedAt log position client seqNum ↔
      (∃ op, log[position]? = some op ∧ op.clientID = client ∧ op.seqNum = seqNum) ∧
        ¬ Present (log.take position) client seqNum := by
  constructor
  · rintro ⟨op, here, rfl, rfl, less⟩
    refine ⟨⟨op, here, rfl, rfl⟩, ?_⟩
    have positive : 1 ≤ op.seqNum := (ordered position op here).1
    rw [← le_lastSeq_iff (ordered.take position) positive]
    omega
  · rintro ⟨⟨op, here, rfl, rfl⟩, absent⟩
    have positive : 1 ≤ op.seqNum := (ordered position op here).1
    rw [← le_lastSeq_iff (ordered.take position) positive] at absent
    exact ⟨op, here, rfl, rfl, by omega⟩

theorem executed_once {log : List Op} (ordered : Justified InOrder log) {client seqNum : Nat}
    (present : Present log client seqNum) : ∃! position, ExecutedAt log position client seqNum := by
  classical
  have exists_position : ∃ position : Nat, ∃ op, log[position]? = some op ∧ op.clientID = client ∧
      op.seqNum = seqNum := by
    obtain ⟨op, member, same⟩ := present
    obtain ⟨position, here⟩ := List.mem_iff_getElem?.mp member
    exact ⟨position, op, here, same⟩
  simp only [executedAt_iff ordered]
  -- The first entry with the number is the only one with none before it.
  refine ⟨Nat.find exists_position, ⟨Nat.find_spec exists_position, ?_⟩, ?_⟩
  · rintro ⟨op, member, same⟩
    obtain ⟨position, here⟩ := List.mem_iff_getElem?.mp member
    obtain ⟨before, here⟩ := getElem?_take_eq_some.mp here
    exact Nat.find_min exists_position before ⟨op, here, same⟩
  · rintro position ⟨found, absent⟩
    have notAfter := Nat.find_min' exists_position found
    by_contra different
    obtain ⟨op, here, same⟩ := Nat.find_spec exists_position
    exact absent ⟨op, List.mem_of_getElem? (getElem?_take_eq_some.mpr ⟨by omega, here⟩), same⟩

/-- An operation that a clerk was told the result of took effect at one position of the log. -/
theorem Consistent.answered_once {system : System n} (consistent : Consistent system) {client seqNum : Nat}
    {ret : Option GoString} (responded : Record.respond client seqNum ret ∈ system.records) :
    ∃! position, ExecutedAt system.log position client seqNum := by
  obtain ⟨t, here⟩ := List.mem_iff_getElem?.mp responded
  have answered : AnsweredAt (Trace.committed (system.records.take t)) client seqNum ret :=
    (consistent.explained t _ here).2
  obtain ⟨op, member, same⟩ := answered.present
  obtain ⟨u, committed⟩ := Trace.mem_committed.mp member
  apply executed_once (log_inOrder consistent.explained)
  exact ⟨op, Trace.mem_committed.mpr ⟨u, (getElem?_take_eq_some.mp committed).2⟩, same⟩

theorem kvraft_linearizable (system : System n) (reached : system.Reachable) :
    Linearizable sequential system.records.history ∧
      ∀ client seqNum ret, Record.respond client seqNum ret ∈ system.records →
        ∃! position, ExecutedAt system.log position client seqNum := by
  have consistent := reached.consistent
  exact ⟨(retried consistent.explained).linearizable sequential_kinds,
    fun _ _ _ responded => consistent.answered_once responded⟩

/-- An `Append` is proposed at two servers and committed twice; the second server answers the
second entry, restarts, and the first one answers a `Get` from the snapshot of the other. -/
def retriedAppend : System 2 := System.after [
  .invoke 5 (.append [107] [1]), .send 5 0, .start 0 true 1, .giveUp 5, .send 5 1, .start 1 true 2,
  .register 1, .commit ⟨5, 1, [107], [1], .append⟩, .commit ⟨5, 1, [107], [1], .append⟩,
  .deliver 1 true, .deliver 1 false, .answer 1, .receive 5, .restart 1,
  .invoke 5 (.get [107]), .send 5 0, .start 2 true 3, .register 2, .commit ⟨5, 2, [107], [], .get⟩,
  .install 0 0, .redeliver 0 1 false, .deliver 0 false, .deliver 0 false, .answer 2, .receive 5]

theorem kvraft_linearizable_retriedAppend :
    retriedAppend.records.history = [.invoke (5, 1) (.append [107] [1]), .respond (5, 1) none,
      .invoke (5, 2) (.get [107]), .respond (5, 2) (some [1])] ∧
    Linearizable sequential retriedAppend.records.history ∧
      ∃! position, ExecutedAt retriedAppend.log position 5 1 := by
  have safe := kvraft_linearizable retriedAppend (System.reachable_after _)
  exact ⟨by decide, safe.1, safe.2 5 1 none (by decide)⟩

end ShardedKV.KvRaft
