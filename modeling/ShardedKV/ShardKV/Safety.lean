import ShardedKV.KvRaft.Linearizability
import ShardedKV.ShardKV.Steps

/-!
# One owner, one execution, one map

At most one group serves a shard, an operation is executed at most once over all groups, and the
clerks cannot tell the groups from one map.
-/

namespace ShardedKV.ShardKV

open Services
open ShardCtrler (Shard Config ServerName)
open KvRaft (Op Operation sequential)
open Linearizability (Linearizable Retried seen)

variable {controller : Controller} {system : System}

/-! ## One owner -/

theorem shard_exclusivity (controller : Controller) (system : System)
    (reached : System.Reachable controller system) (shard : Shard) (first second : Int)
    (firstServes : ((machine first).run (system.log first)).shardsState shard = .serving)
    (secondServes : ((machine second).run (system.log second)).shardsState shard = .serving) :
    first = second := by
  obtain ⟨protocol, consistent⟩ := reached.consistent
  have mirrors := consistent.mirrored.now
  apply mirrors.invariant.exclusive
  · exact ((mirrors.groups first).serving_iff shard).mp firstServes
  · exact ((mirrors.groups second).serving_iff shard).mp secondServes

/-- Shard 0 moves from group 1 to group 2 in the second configuration. -/
def twoOwners : Controller where
  config := fun number => {
    num := number
    shards := fun shard => if shard = 0 ∧ 2 ≤ number then 2 else 1
    groups := [(1, [0]), (2, [0])] }
  num_eq := fun _ => rfl

/-- An `Append` is executed by group 1 and its reply is lost; the shard moves, group 2 answers the
repetition as a duplicate and then a `Get`. -/
def movedShard : System := System.after twoOwners [
  .getLastConfig 1 0 2, .commit 1 0, .deliver 1 0 false, .getLastConfig 2 0 2, .commit 2 0, .deliver 2 0 false,
  .invoke 7 (.append [100] [9]), .send 7 1 0, .start 0 true 2, .commit 1 1, .deliver 1 0 false, .giveUp 7,
  .getLastConfig 1 0 2, .commit 1 2, .deliver 1 0 false, .getLastConfig 2 0 2, .commit 2 1, .deliver 2 0 false,
  .collect 2 0 false, .spawn 0, .servePull 0, .finishPull 0, .commit 2 2, .deliver 2 0 false,
  .send 7 2 0, .start 1 true 4, .recheck 1, .register 1, .commit 2 3, .deliver 2 0 false, .push 2 0,
  .answer 1, .receive 7,
  .invoke 7 (.get [100]), .send 7 2 0, .start 2 true 5, .recheck 2, .register 2, .commit 2 4,
  .deliver 2 0 true, .push 2 0, .answer 2, .receive 7]

theorem shard_exclusivity_movedShard :
    ((machine 2).run (movedShard.log 2)).shardsState 0 = .serving ∧
    ∀ gid, ((machine gid).run (movedShard.log gid)).shardsState 0 = .serving → gid = 2 := by
  have serving : ((machine 2).run (movedShard.log 2)).shardsState 0 = .serving := by decide
  refine ⟨serving, fun gid serves => ?_⟩
  exact shard_exclusivity twoOwners movedShard (System.reachable_after _ _) 0 gid 2 serves serving

/-! ## Performances -/

/-- The operation whose entry a group that serves its shard commits at moment `t`. -/
def performed (records : Records) (t : Nat) : Option ((Nat × Nat) × Operation) :=
  match records[t]? with
  | some (.commit (gid, .kvOperation op)) =>
    if (stateOf gid (Trace.committed (records.take t))).shardsState (key2shard op.key) = .serving then
      some ((op.clientID, op.seqNum), op.operation)
    else none
  | _ => none

theorem performed_eq_some {records : Records} {t client seqNum : Nat} {operation : Operation} :
    performed records t = some ((client, seqNum), operation) ↔
      ∃ gid op, records[t]? = some (.commit (gid, .kvOperation op)) ∧
        (stateOf gid (Trace.committed (records.take t))).shardsState (key2shard op.key) = .serving ∧
        op.clientID = client ∧ op.seqNum = seqNum ∧ op.operation = operation := by
  unfold performed
  split
  · rename_i gid op here
    split
    · rename_i serving
      simp only [Option.some.injEq, Prod.mk.injEq]
      constructor
      · rintro ⟨⟨rfl, rfl⟩, rfl⟩
        exact ⟨gid, op, here, serving, rfl, rfl, rfl⟩
      · rintro ⟨_, _, same, _, rfl, rfl, rfl⟩
        rw [here] at same
        cases same
        exact ⟨⟨rfl, rfl⟩, rfl⟩
    · rename_i skipped
      constructor
      · rintro ⟨⟩
      · rintro ⟨_, _, same, serving, _⟩
        rw [here] at same
        cases same
        exact absurd serving skipped
  · rename_i other
    constructor
    · rintro ⟨⟩
    · rintro ⟨gid, op, here, _⟩
      exact absurd here (other gid op)

section

variable {records : Records} (explained : Justified Explained records)

include explained

theorem executed_iff_performed {t client seqNum : Nat} :
    Executed (Trace.committed (records.take t)) client seqNum ↔
      ∃ u < t, ∃ operation, performed records u = some ((client, seqNum), operation) := by
  constructor
  · rintro ⟨op, member, rfl, rfl⟩
    obtain ⟨place, gid, here, runs⟩ := mem_executed member
    obtain ⟨u, committed, before⟩ := Trace.exists_commit here
    obtain ⟨early, committed⟩ := getElem?_take_eq_some.mp committed
    rw [List.take_take, Nat.min_eq_left (Nat.le_of_lt early)] at before
    rw [← before] at runs
    exact ⟨u, early, _, performed_eq_some.mpr
      ⟨gid, op, committed, (executes_eq_some.mp runs).2.1, rfl, rfl, rfl⟩⟩
  · rintro ⟨u, before, _, here⟩
    obtain ⟨gid, op, committed, serving, rfl, rfl, _⟩ := performed_eq_some.mp here
    have upTo : Trace.committed (records.take t) = Trace.committed (records.take (u + 1)) ++
        Trace.committed ((records.take t).drop (u + 1)) := by
      have split := Trace.committed_split (records.take t) (u + 1)
      rwa [List.take_take, Nat.min_eq_left before] at split
    rw [upTo]
    apply Executed.append_list
    rw [Trace.committed_take_succ committed]
    obtain ⟨_, known⟩ := ((explained u _ committed) op rfl).2 serving
    by_cases seen : op.seqNum ≤ (stateOf gid (Trace.committed (records.take u))).store.lastSeq op.clientID
    · exact (known.mp seen).append _
    · refine ⟨op, ?_, rfl, rfl⟩
      simp only [Record.entry, Option.toList_some]
      rw [executed_append, executes_eq_some.mpr ⟨rfl, serving, by omega⟩]
      simp

theorem executes_iff {t : Nat} {gid : Int} {op : Op}
    (committed : records[t]? = some (.commit (gid, .kvOperation op)))
    (serving : (stateOf gid (Trace.committed (records.take t))).shardsState (key2shard op.key) = .serving) :
    (stateOf gid (Trace.committed (records.take t))).store.lastSeq op.clientID < op.seqNum ↔
      ¬ ∃ u < t, ∃ operation, performed records u = some ((op.clientID, op.seqNum), operation) := by
  rw [← executed_iff_performed explained, ← (((explained t _ committed) op rfl).2 serving).2]
  omega

end

theorem sequential_step_snd_congr {first second : GoString → GoString} {op : Op}
    (same : first op.key = second op.key) :
    (sequential.step first op.operation).2 = (sequential.step second op.operation).2 := by
  obtain ⟨client, number, key, value, optype⟩ := op
  cases optype <;> simp_all [sequential, Op.operation]

theorem contents_commit {records : Records} {t : Nat} {gid : Int} {command : Command}
    (committed : records[t]? = some (.commit (gid, command))) :
    contents (Trace.committed (records.take (t + 1))) =
      match (stateOf gid (Trace.committed (records.take t))).executes command with
      | none => contents (Trace.committed (records.take t))
      | some op => (sequential.step (contents (Trace.committed (records.take t))) op.operation).1 := by
  rw [Trace.committed_take_succ committed]
  exact contents_append _ gid command

theorem retried {records : Records} (explained : Justified Explained records) :
    Retried sequential Record.event records (fun t => contents (Trace.committed (records.take t)))
      (performed records) := by
  refine ⟨rfl, ?_, ?_, ?_, ?_, ?_, ?_, ?_⟩
  · intro t inside nothing
    obtain ⟨record, here⟩ : ∃ record, records[t]? = some record := ⟨_, List.getElem?_eq_getElem inside⟩
    cases record with
    | invoke client seqNum operation => simp [Trace.committed_take_succ here, Record.entry]
    | respond client seqNum ret => simp [Trace.committed_take_succ here, Record.entry]
    | commit entry =>
      obtain ⟨gid, command⟩ := entry
      rw [contents_commit here]
      -- What is executed is performed.
      cases runs : (stateOf gid (Trace.committed (records.take t))).executes command with
      | none => rfl
      | some op =>
        obtain ⟨rfl, serving, _⟩ := executes_eq_some.mp runs
        rw [performed_eq_some.mpr ⟨gid, op, here, serving, rfl, rfl, rfl⟩] at nothing
        cases nothing
  · rintro t inside ⟨client, seqNum⟩ operation here first
    obtain ⟨gid, op, committed, serving, rfl, rfl, rfl⟩ := performed_eq_some.mp here
    have fresh := (executes_iff explained committed serving).mpr
      (by rintro ⟨u, before, operation, again⟩; exact first u before operation again)
    rw [contents_commit committed, executes_eq_some.mpr ⟨rfl, serving, fresh⟩]
  · rintro t inside ⟨client, seqNum⟩ operation here again
    obtain ⟨gid, op, committed, serving, rfl, rfl, rfl⟩ := performed_eq_some.mp here
    rw [contents_commit committed]
    cases runs : (stateOf gid (Trace.committed (records.take t))).executes (.kvOperation op) with
    | none => rfl
    | some other =>
      obtain ⟨same, _, fresh⟩ := executes_eq_some.mp runs
      cases same
      exact absurd again ((executes_iff explained committed serving).mp fresh)
  · rintro t ⟨client, seqNum⟩ operation here
    obtain ⟨gid, op, committed, _, rfl, rfl, rfl⟩ := performed_eq_some.mp here
    have issued : Issued (records.take t) op := ((explained t _ committed) op rfl).1
    obtain ⟨i, invoked⟩ := List.mem_iff_getElem?.mp issued.invoked
    obtain ⟨before, invoked⟩ := getElem?_take_eq_some.mp invoked
    exact ⟨i, before, Trace.seen_invoke.mpr invoked⟩
  · rintro i j ⟨client, seqNum⟩ operation operation' first second
    exact Trace.number_unique (numbered explained) (Trace.seen_invoke.mp first) (Trace.seen_invoke.mp second)
      ⟨rfl, rfl⟩
  · rintro j ⟨client, seqNum⟩ ret responded
    obtain ⟨_, gid, index, op, output, rfl, rfl, rfl⟩ := explained j _ (Trace.seen_respond.mp responded)
    obtain ⟨t, entry, committed, serving, applied⟩ := exists_answer output
    obtain ⟨early, committed⟩ := getElem?_take_eq_some.mp committed
    rw [List.take_take, Nat.min_eq_left (Nat.le_of_lt early)] at serving applied
    obtain ⟨sameClient, sameNumber, _⟩ := applyCommand_kind applied
    refine ⟨t, early, entry.operation,
      performed_eq_some.mpr ⟨gid, entry, committed, serving, sameClient, sameNumber, rfl⟩, ?_⟩
    rw [← applied, KvRaft.ret_applyCommand]
    -- The group has the contents of the shard, and the answer depends on one of its keys.
    have value := (((explained t _ committed) entry rfl).2 serving).1 entry.key rfl
    exact (sequential_step_snd_congr value).symm
  · rintro i j ⟨client, seqNum⟩ ret ret' first second
    exact Trace.number_unique (numbered explained) (Trace.seen_respond.mp first) (Trace.seen_respond.mp second)
      ⟨rfl, rfl⟩

theorem shardkv_linearizable (controller : Controller) (system : System)
    (reached : System.Reachable controller system) :
    Linearizable sequential system.records.history := by
  obtain ⟨protocol, consistent⟩ := reached.consistent
  exact (retried consistent.explained).linearizable KvRaft.sequential_kinds

theorem shardkv_linearizable_movedShard :
    movedShard.records.history = [.invoke (7, 1) (.append [100] [9]), .respond (7, 1) none,
      .invoke (7, 2) (.get [100]), .respond (7, 2) (some [9])] ∧
    Linearizable sequential movedShard.records.history :=
  ⟨by decide, shardkv_linearizable twoOwners movedShard (System.reachable_after _ _)⟩

/-! ## One execution -/

/-- The entry of a group's log runs `applyToStateMachine`. -/
def ExecutedAt (log : Int → List Command) (gid : Int) (position client seqNum : Nat) : Prop :=
  ∃ op, (log gid)[position]? = some (.kvOperation op) ∧ op.clientID = client ∧ op.seqNum = seqNum ∧
    ((machine gid).run ((log gid).take position)).shardsState (key2shard op.key) = .serving ∧
    ((machine gid).run ((log gid).take position)).store.lastSeq client < seqNum

/-- The entry of a group's log is answered as a duplicate. -/
def AnsweredAsDuplicate (log : Int → List Command) (gid : Int) (position : Nat) (op : Op) : Prop :=
  (log gid)[position]? = some (.kvOperation op) ∧
    ((machine gid).run ((log gid).take position)).shardsState (key2shard op.key) = .serving ∧
    op.seqNum ≤ ((machine gid).run ((log gid).take position)).store.lastSeq op.clientID

/-- The executed operations of all groups before an entry of one of them contain the operation, and
the group's data for its shard are what they make of the shard. -/
def Contained (system : System) (gid : Int) (position : Nat) (op : Op) : Prop :=
  ∃ before, before <+: system.records.committed ∧ entriesOf gid before = (system.log gid).take position ∧
    (∃ other ∈ executed before, other.clientID = op.clientID ∧ other.seqNum = op.seqNum ∧
      other.operation = op.operation) ∧
    ∀ key, key2shard key = key2shard op.key →
      ((machine gid).run ((system.log gid).take position)).store.value key = contents before key

theorem exists_execution {records : Records} {gid : Int} {position client seqNum : Nat}
    (executedAt : ExecutedAt (fun gid => entriesOf gid records.committed) gid position client seqNum) :
    ∃ t op, records[t]? = some (.commit (gid, .kvOperation op)) ∧
      entriesOf gid (Trace.committed (records.take t)) = (entriesOf gid records.committed).take position ∧
      op.clientID = client ∧ op.seqNum = seqNum ∧
      (stateOf gid (Trace.committed (records.take t))).shardsState (key2shard op.key) = .serving ∧
      (stateOf gid (Trace.committed (records.take t))).store.lastSeq client < seqNum := by
  obtain ⟨op, found, sameClient, sameNumber, serving, fresh⟩ := executedAt
  obtain ⟨t, committed, before⟩ := exists_moment found
  simp only [← before] at serving fresh
  exact ⟨t, op, committed, before, sameClient, sameNumber, serving, fresh⟩

theorem execution_unique {records : Records} (explained : Justified Explained records) {first second : Int}
    {position position' client seqNum : Nat}
    (atFirst : ExecutedAt (fun gid => entriesOf gid records.committed) first position client seqNum)
    (atSecond : ExecutedAt (fun gid => entriesOf gid records.committed) second position' client seqNum) :
    first = second ∧ position = position' := by
  have inside : ∀ {gid place}, ExecutedAt (fun gid => entriesOf gid records.committed) gid place client seqNum →
      place ≤ (entriesOf gid records.committed).length := by
    rintro gid place ⟨op, found, _⟩
    exact Nat.le_of_lt (List.getElem?_eq_some_iff.mp found).1
  have firstInside := inside atFirst
  have secondInside := inside atSecond
  obtain ⟨t, op, committed, before, rfl, rfl, serving, fresh⟩ := exists_execution atFirst
  obtain ⟨u, other, committed', before', sameClient, sameNumber, serving', fresh'⟩ := exists_execution atSecond
  have performs := performed_eq_some.mpr ⟨first, op, committed, serving, rfl, rfl, rfl⟩
  have performs' := performed_eq_some.mpr ⟨second, other, committed', serving', sameClient, sameNumber, rfl⟩
  have alone := (executes_iff explained committed serving).mp fresh
  rw [← sameClient, ← sameNumber] at fresh'
  have alone' := (executes_iff explained committed' serving').mp fresh'
  rw [sameClient, sameNumber] at alone'
  -- Neither of the two moments is before the other.
  have same : t = u := by
    rcases Nat.lt_trichotomy t u with less | same | more
    · exact absurd ⟨t, less, _, performs⟩ alone'
    · exact same
    · exact absurd ⟨u, more, _, performs'⟩ alone
  subst same
  rw [committed] at committed'
  cases committed'
  refine ⟨rfl, ?_⟩
  have lengths := congrArg List.length (before.symm.trans before')
  simp only [List.length_take] at lengths
  omega

theorem at_most_once (controller : Controller) (system : System)
    (reached : System.Reachable controller system) :
    (∀ client seqNum first second position position', ExecutedAt system.log first position client seqNum →
      ExecutedAt system.log second position' client seqNum → first = second ∧ position = position') ∧
    ∀ gid position op, AnsweredAsDuplicate system.log gid position op → Contained system gid position op := by
  obtain ⟨protocol, consistent⟩ := reached.consistent
  have explained := consistent.explained
  refine ⟨fun client seqNum first second position position' atFirst atSecond =>
    execution_unique explained atFirst atSecond, ?_⟩
  rintro gid position op ⟨found, serving, seen⟩
  obtain ⟨t, committed, before⟩ := exists_moment found
  refine ⟨Trace.committed (system.records.take t), ?_, before, ?_, ?_⟩
  · rw [Trace.committed_split system.records t]
    exact List.prefix_append _ _
  all_goals simp only [System.log, ← before] at serving seen
  all_goals obtain ⟨issued, upToDate⟩ := (explained t _ committed) op rfl
  · obtain ⟨other, member, sameClient, sameNumber⟩ := (upToDate serving).2.mp seen
    have invoked := invoked_of_mem_executed (explained.take t) member
    rw [sameClient, sameNumber] at invoked
    exact ⟨other, member, sameClient, sameNumber,
      Trace.operation_unique (numbered (explained.take t)) invoked issued.invoked⟩
  · simp only [System.log, ← before]
    exact (upToDate serving).1

theorem at_most_once_movedShard :
    ExecutedAt movedShard.log 1 1 7 1 ∧
    (∀ gid position, ExecutedAt movedShard.log gid position 7 1 → gid = 1 ∧ position = 1) ∧
    AnsweredAsDuplicate movedShard.log 2 3 ⟨7, 1, [100], [9], .append⟩ ∧
    Contained movedShard 2 3 ⟨7, 1, [100], [9], .append⟩ := by
  have once := at_most_once twoOwners movedShard (System.reachable_after _ _)
  have executedAt : ExecutedAt movedShard.log 1 1 7 1 :=
    ⟨⟨7, 1, [100], [9], .append⟩, by rfl, rfl, rfl, by decide, by decide⟩
  have duplicate : AnsweredAsDuplicate movedShard.log 2 3 ⟨7, 1, [100], [9], .append⟩ :=
    ⟨by rfl, by decide, by decide⟩
  exact ⟨executedAt, fun gid position again => once.1 7 1 gid 1 position 1 again executedAt, duplicate,
    once.2 2 3 _ duplicate⟩

end ShardedKV.ShardKV
