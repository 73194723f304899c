import Mathlib.Logic.Function.Basic
import ShardedKV.Linearizability.History
import ShardedKV.Services.AgreedLog

/-!
# Clients that number their requests

A clerk has one operation outstanding at a time and gives each a new sequence number.  A run
of the service is recorded as the invocations and responses of the clerks and the entries
that were committed in between.
-/

namespace ShardedKV.Services

open Linearizability (Event seen)

variable {Operation Ret Entry : Type}

/-- What is recorded of a run; an operation is named by its clerk and its number. -/
inductive Record (Operation Ret Entry : Type) where
  | invoke (client seqNum : Nat) (operation : Operation)
  | commit (entry : Entry)
  | respond (client seqNum : Nat) (ret : Ret)
deriving DecidableEq, Repr

namespace Record

def event : Record Operation Ret Entry → Option (Event (Nat × Nat) Operation Ret)
  | invoke client seqNum operation => some (.invoke (client, seqNum) operation)
  | commit _ => none
  | respond client seqNum ret => some (.respond (client, seqNum) ret)

def entry : Record Operation Ret Entry → Option Entry
  | commit entry => some entry
  | _ => none

end Record

abbrev Trace (Operation Ret Entry : Type) := List (Record Operation Ret Entry)

namespace Trace

def history (records : Trace Operation Ret Entry) : List (Event (Nat × Nat) Operation Ret) :=
  records.filterMap Record.event

def committed (records : Trace Operation Ret Entry) : List Entry :=
  records.filterMap Record.entry

variable {records : Trace Operation Ret Entry}

@[simp] theorem committed_nil : committed ([] : Trace Operation Ret Entry) = [] := rfl

@[simp] theorem committed_invoke {client seqNum : Nat} {operation : Operation} :
    committed (records ++ [.invoke client seqNum operation]) = committed records := by
  simp [committed, Record.entry]

@[simp] theorem committed_commit {entry : Entry} :
    committed (records ++ [.commit entry]) = committed records ++ [entry] := by
  simp [committed, Record.entry]

@[simp] theorem committed_respond {client seqNum : Nat} {ret : Ret} :
    committed (records ++ [.respond client seqNum ret]) = committed records := by
  simp [committed, Record.entry]

theorem seen_invoke {t client seqNum : Nat} {operation : Operation} :
    seen Record.event records t = some (.invoke (client, seqNum) operation) ↔
      records[t]? = some (.invoke client seqNum operation) := by
  simp only [seen, Option.bind_eq_some_iff]
  constructor
  · rintro ⟨record, here, observed⟩
    cases record with
    | invoke client' seqNum' operation' =>
      simp only [Record.event, Option.some.injEq, Event.invoke.injEq, Prod.mk.injEq] at observed
      obtain ⟨⟨rfl, rfl⟩, rfl⟩ := observed
      exact here
    | commit entry => simp [Record.event] at observed
    | respond client' seqNum' ret => simp [Record.event] at observed
  · intro here
    exact ⟨_, here, rfl⟩

theorem seen_respond {t client seqNum : Nat} {ret : Ret} :
    seen Record.event records t = some (.respond (client, seqNum) ret) ↔
      records[t]? = some (.respond client seqNum ret) := by
  simp only [seen, Option.bind_eq_some_iff]
  constructor
  · rintro ⟨record, here, observed⟩
    cases record with
    | invoke client' seqNum' operation => simp [Record.event] at observed
    | commit entry => simp [Record.event] at observed
    | respond client' seqNum' ret' =>
      simp only [Record.event, Option.some.injEq, Event.respond.injEq, Prod.mk.injEq] at observed
      obtain ⟨⟨rfl, rfl⟩, rfl⟩ := observed
      exact here
  · intro here
    exact ⟨_, here, rfl⟩

theorem mem_committed {entry : Entry} :
    entry ∈ committed records ↔ ∃ t : Nat, records[t]? = some (Record.commit entry) := by
  simp only [committed, List.mem_filterMap]
  constructor
  · rintro ⟨record, member, same⟩
    cases record with
    | invoke client seqNum operation => simp [Record.entry] at same
    | respond client seqNum ret => simp [Record.entry] at same
    | commit other =>
      simp only [Record.entry, Option.some.injEq] at same
      subst same
      exact List.mem_iff_getElem?.mp member
  · rintro ⟨t, here⟩
    exact ⟨_, List.mem_of_getElem? here, rfl⟩

theorem committed_take_succ {t : Nat} {record : Record Operation Ret Entry}
    (here : records[t]? = some record) :
    committed (records.take (t + 1)) = committed (records.take t) ++ record.entry.toList := by
  rw [List.take_add_one, here, Option.toList_some, committed, List.filterMap_append]
  cases record <;> rfl

/-- The entry at a position of the log was committed when the log had the entries before it. -/
theorem exists_commit {position : Nat} {entry : Entry}
    (found : (committed records)[position]? = some entry) :
    ∃ t : Nat, records[t]? = some (Record.commit entry) ∧
      committed (records.take t) = (committed records).take position := by
  obtain ⟨t, record, here, selected, before⟩ := exists_selected found
  cases record with
  | invoke client seqNum operation => simp [Record.entry] at selected
  | respond client seqNum ret => simp [Record.entry] at selected
  | commit other =>
    cases selected
    exact ⟨t, here, before⟩

theorem committed_append (record : Record Operation Ret Entry) :
    committed (records ++ [record]) = committed records ++ record.entry.toList := by
  cases record <;> simp [Record.entry]

theorem committed_split (records : Trace Operation Ret Entry) (t : Nat) :
    committed records = committed (records.take t) ++ committed (records.drop t) := by
  simp only [committed, ← List.filterMap_append, List.take_append_drop]

theorem length_committed_take_le (records : Trace Operation Ret Entry) {t u : Nat} (before : t ≤ u) :
    (committed (records.take t)).length ≤ (committed (records.take u)).length := by
  have begins : records.take t <+: records.take u := List.take_prefix_take_left before
  exact (begins.filterMap Record.entry).length_le

/-! ### Numbers are used once -/

/-- The records of one kind with one number. -/
def SameNumber (one other : Record Operation Ret Entry) : Prop :=
  match one, other with
  | .invoke client seqNum _, .invoke client' seqNum' _ => client = client' ∧ seqNum = seqNum'
  | .respond client seqNum _, .respond client' seqNum' _ => client = client' ∧ seqNum = seqNum'
  | _, _ => False

/-- The record is the first of its kind with its number. -/
def NewNumber (before : Trace Operation Ret Entry) : Record Operation Ret Entry → Prop
  | .invoke client seqNum _ => ∀ operation, Record.invoke client seqNum operation ∉ before
  | .commit _ => True
  | .respond client seqNum _ => ∀ ret, Record.respond client seqNum ret ∉ before

theorem number_unique (numbered : Justified NewNumber records) {t u : Nat} {one other : Record Operation Ret Entry}
    (atOne : records[t]? = some one) (atOther : records[u]? = some other) (same : SameNumber one other) :
    t = u := by
  refine numbered.unique ?_ ?_ atOne atOther same
  · intro one other same
    cases one <;> cases other <;> simp_all [SameNumber]
  · intro before record new earlier member same
    cases earlier with
    | commit entry => cases record <;> exact same
    | invoke client seqNum operation =>
      cases record with
      | invoke client' seqNum' operation' =>
        obtain ⟨rfl, rfl⟩ := same
        exact new operation member
      | commit entry => exact same
      | respond client' seqNum' ret => exact same
    | respond client seqNum ret =>
      cases record with
      | respond client' seqNum' ret' =>
        obtain ⟨rfl, rfl⟩ := same
        exact new ret member
      | commit entry => exact same
      | invoke client' seqNum' operation => exact same

theorem operation_unique (numbered : Justified NewNumber records) {client seqNum : Nat} {first second : Operation}
    (inFirst : Record.invoke client seqNum first ∈ records)
    (inSecond : Record.invoke client seqNum second ∈ records) : first = second := by
  obtain ⟨t, atFirst⟩ := List.mem_iff_getElem?.mp inFirst
  obtain ⟨u, atSecond⟩ := List.mem_iff_getElem?.mp inSecond
  obtain rfl := number_unique numbered atFirst atSecond ⟨rfl, rfl⟩
  rw [atFirst] at atSecond
  cases atSecond
  rfl

end Trace

/-! ## One outstanding operation -/

/-- A clerk: the number of its current or next operation, and the call it waits for. -/
structure Clerk (Operation : Type) where
  seqNum : Nat := 1
  pending : Option Operation := none
  calling : Option Nat := none
deriving DecidableEq, Repr

/-- The records hold what the clerks have done and nothing of what they have not. -/
structure Disciplined (clerk : Nat → Clerk Operation) (records : Trace Operation Ret Entry) : Prop where
  positive : ∀ client, 1 ≤ (clerk client).seqNum
  outstanding : ∀ client operation, (clerk client).pending = some operation →
    Record.invoke client (clerk client).seqNum operation ∈ records
  invoked : ∀ client seqNum operation, Record.invoke client seqNum operation ∈ records →
    seqNum < (clerk client).seqNum ∨
      seqNum = (clerk client).seqNum ∧ (clerk client).pending = some operation
  answered : ∀ client seqNum ret, Record.respond client seqNum ret ∈ records →
    seqNum < (clerk client).seqNum

namespace Disciplined

variable {clerk : Nat → Clerk Operation} {records : Trace Operation Ret Entry}

theorem initial : Disciplined (fun _ => {}) ([] : Trace Operation Ret Entry) where
  positive := by simp
  outstanding := by simp
  invoked := by simp
  answered := by simp

theorem not_invoked (disciplined : Disciplined clerk records) {client : Nat}
    (idle : (clerk client).pending = none) (operation : Operation) :
    Record.invoke client (clerk client).seqNum operation ∉ records := by
  intro member
  rcases disciplined.invoked client _ operation member with before | ⟨_, pending⟩
  · omega
  · simp [idle] at pending

theorem not_answered (disciplined : Disciplined clerk records) (client : Nat) (ret : Ret) :
    Record.respond client (clerk client).seqNum ret ∉ records := by
  intro member
  have := disciplined.answered client _ ret member
  omega

end Disciplined

/-- What the records hold of one clerk. -/
structure DisciplinedAt (client : Nat) (clerk : Clerk Operation) (records : Trace Operation Ret Entry) : Prop where
  positive : 1 ≤ clerk.seqNum
  outstanding : ∀ operation, clerk.pending = some operation → Record.invoke client clerk.seqNum operation ∈ records
  invoked : ∀ seqNum operation, Record.invoke client seqNum operation ∈ records →
    seqNum < clerk.seqNum ∨ seqNum = clerk.seqNum ∧ clerk.pending = some operation
  answered : ∀ seqNum ret, Record.respond client seqNum ret ∈ records → seqNum < clerk.seqNum

theorem DisciplinedAt.append {client : Nat} {clerk : Clerk Operation} {records : Trace Operation Ret Entry}
    (disciplined : DisciplinedAt client clerk records) {record : Record Operation Ret Entry}
    (notInvoked : ∀ seqNum operation, record ≠ .invoke client seqNum operation)
    (notAnswered : ∀ seqNum ret, record ≠ .respond client seqNum ret) :
    DisciplinedAt client clerk (records ++ [record]) where
  positive := disciplined.positive
  outstanding := fun operation pending => List.mem_append_left _ (disciplined.outstanding operation pending)
  invoked := by
    intro seqNum operation member
    rcases List.mem_append.mp member with before | new
    · exact disciplined.invoked seqNum operation before
    · exact absurd (List.mem_singleton.mp new).symm (notInvoked seqNum operation)
  answered := by
    intro seqNum ret member
    rcases List.mem_append.mp member with before | new
    · exact disciplined.answered seqNum ret before
    · exact absurd (List.mem_singleton.mp new).symm (notAnswered seqNum ret)

namespace Disciplined

variable {clerk : Nat → Clerk Operation} {records : Trace Operation Ret Entry}

theorem iff_forall : Disciplined clerk records ↔ ∀ client, DisciplinedAt client (clerk client) records := by
  constructor
  · intro disciplined client
    exact ⟨disciplined.positive client, disciplined.outstanding client, disciplined.invoked client,
      disciplined.answered client⟩
  · intro each
    exact ⟨fun client => (each client).positive, fun client => (each client).outstanding,
      fun client => (each client).invoked, fun client => (each client).answered⟩

theorem update {client : Nat} {new : Clerk Operation} {records' : Trace Operation Ret Entry}
    (own : DisciplinedAt client new records')
    (others : ∀ other, other ≠ client → DisciplinedAt other (clerk other) records') :
    Disciplined (Function.update clerk client new) records' :=
  iff_forall.mpr <| (Function.forall_update_iff clerk fun other clerk => DisciplinedAt other clerk records').mpr
    ⟨own, others⟩

theorem commit (disciplined : Disciplined clerk records) (entry : Entry) :
    Disciplined clerk (records ++ [.commit entry]) :=
  iff_forall.mpr fun client => (iff_forall.mp disciplined client).append (by simp) (by simp)

theorem turnTo (disciplined : Disciplined clerk records) (client : Nat) (calling : Option Nat) :
    Disciplined (Function.update clerk client { clerk client with calling }) records := by
  have own := iff_forall.mp disciplined client
  exact update ⟨own.positive, own.outstanding, own.invoked, own.answered⟩ fun other _ => iff_forall.mp disciplined other

theorem invoke (disciplined : Disciplined clerk records) {client : Nat}
    (idle : (clerk client).pending = none) (operation : Operation) :
    Disciplined (Function.update clerk client { clerk client with pending := some operation })
      (records ++ [.invoke client (clerk client).seqNum operation]) := by
  apply update
  · refine ⟨disciplined.positive client, ?_, ?_, ?_⟩
    · rintro _ ⟨⟩
      simp
    · intro seqNum operation' member
      simp only [List.mem_append, List.mem_singleton, Record.invoke.injEq, true_and] at member
      rcases member with before | ⟨rfl, rfl⟩
      · -- Nothing is outstanding, so what was invoked before has a smaller number.
        rcases disciplined.invoked client seqNum operation' before with less | ⟨_, pending⟩
        · exact .inl less
        · simp [idle] at pending
      · exact .inr ⟨rfl, rfl⟩
    · intro seqNum ret member
      exact disciplined.answered client seqNum ret (by simpa using member)
  · intro other apart
    exact (iff_forall.mp disciplined other).append (by simp [apart.symm]) (by simp)

theorem respond (disciplined : Disciplined clerk records) (client : Nat) (ret : Ret) :
    Disciplined (Function.update clerk client { seqNum := (clerk client).seqNum + 1 })
      (records ++ [.respond client (clerk client).seqNum ret]) := by
  apply update
  · refine ⟨by simp, by simp, ?_, ?_⟩
    · intro seqNum operation member
      have before := disciplined.invoked client seqNum operation (by simpa using member)
      dsimp only
      omega
    · intro seqNum ret' member
      simp only [List.mem_append, List.mem_singleton, Record.respond.injEq, true_and] at member
      rcases member with before | ⟨rfl, _⟩
      · have := disciplined.answered client seqNum ret' before
        dsimp only
        omega
      · exact Nat.lt_succ_self _
  · intro other apart
    exact (iff_forall.mp disciplined other).append (by simp) (by simp [apart.symm])

end Disciplined

end ShardedKV.Services
