import ShardedKV.KvRaft.Store

/-!
# What every run of the service keeps

A replica reflects the log up to its applied index, a channel holds what the entry of its index
produced, a reply that says OK was produced by an entry with the number of the request, and a
clerk starts a new number only when every earlier one is in the log.
-/

namespace ShardedKV.KvRaft

open Services

variable {n : Nat}

/-- An entry of the log carries the number. -/
def Present (log : List Op) (client seqNum : Nat) : Prop :=
  ∃ op ∈ log, op.clientID = client ∧ op.seqNum = seqNum

theorem Present.append {log : List Op} {client seqNum : Nat} (present : Present log client seqNum)
    (more : List Op) : Present (log ++ more) client seqNum := by
  obtain ⟨op, member, same⟩ := present
  exact ⟨op, List.mem_append_left _ member, same⟩

abbrev Records := Trace Operation (Option GoString) Op

/-- The command was made for an invocation of its clerk, whose earlier numbers are all in the log. -/
structure Issued (records : Records) (op : Op) : Prop where
  invoked : Record.invoke op.clientID op.seqNum op.operation ∈ records
  positive : 1 ≤ op.seqNum
  earlier : ∀ number, 1 ≤ number → number < op.seqNum → Present records.committed op.clientID number

/-- What the clerk is told about an operation, from the command a replica has applied. -/
def Op.ret (op : Op) : Option GoString :=
  match op.optype with
  | .get => some op.value
  | _ => none

/-- The entry at some index answers the request. -/
def AnsweredAt (log : List Op) (client seqNum : Nat) (ret : Option GoString) : Prop :=
  ∃ index op, machine.output log index = some op ∧ op.clientID = client ∧ op.seqNum = seqNum ∧ op.ret = ret

/-- Why a record may follow the records before it. -/
def Explained (before : Records) : Record Operation (Option GoString) Op → Prop
  | .invoke client seqNum _ => ∀ operation, Record.invoke client seqNum operation ∉ before
  | .commit op => Issued before op
  | .respond client seqNum ret =>
    (∀ ret', Record.respond client seqNum ret' ∉ before) ∧ AnsweredAt before.committed client seqNum ret

/-- A reply that says OK comes from an entry with the number of the request. -/
def Answers (log : List Op) (request : Request) (reply : Reply) : Prop :=
  match reply.err with
  | .ok => ∃ index op, machine.output log index = some op ∧ op.clientID = request.clientID ∧
      op.seqNum = request.seqNum ∧ ∀ args, request = .get args → reply.value = op.value
  | .errNoKey => False
  | .errWrongLeader => True

structure ReplicaOk (log : List Op) (replica : Replica) : Prop where
  reflects : replica.panicked = false → machine.Reflects log replica.server.store replica.applied
  included : replica.server.lastIncludedIndex ≤ replica.applied
  persisted : ∀ index store, replica.persisted = some (index, store) → machine.Reflects log store index
  waiters : replica.server.waitChan.Holds (fun index op => machine.output log index = some op)

structure CallOk (records : Records) (replica : Fin n → Replica) (call : Call n) : Prop where
  issued : Issued records call.request.op
  incarnation : call.incarnation ≤ (replica call.server).incarnation
  waiting : ∀ index channel, call.phase = .waiting index channel →
    (replica call.server).incarnation = call.incarnation →
    (replica call.server).server.waitChan.MadeFor channel index
  reply : ∀ reply, call.reply = some reply → Answers records.committed call.request reply

structure ClerkOk (log : List Op) (calls : List (Call n)) (client : Nat) (clerk : Clerk Operation) :
    Prop where
  completed : ∀ number, 1 ≤ number → number < clerk.seqNum → Present log client number
  calling : ∀ id, clerk.calling = some id → ∃ operation call, clerk.pending = some operation ∧
    calls[id]? = some call ∧ call.request = operation.request client clerk.seqNum

structure Consistent (system : System n) : Prop where
  explained : Justified Explained system.records
  disciplined : Disciplined system.clerk system.records
  replicas : ∀ server, ReplicaOk system.log (system.replica server)
  snapshots : ∀ snapshot ∈ system.snapshots, machine.Reflects system.log snapshot.2 snapshot.1
  proposed : ∀ op ∈ system.proposed, Issued system.records op
  calls : ∀ call ∈ system.calls, CallOk system.records system.replica call
  clerks : ∀ client, ClerkOk system.log system.calls client (system.clerk client)

/-! ## Growing logs -/

theorem Operation.request_op_operation (operation : Operation) (client seqNum : Nat) :
    (operation.request client seqNum).op.operation = operation := by
  cases operation <;> rfl

theorem Request.op_clientID (request : Request) : request.op.clientID = request.clientID := by
  cases request <;> rfl

theorem Request.op_seqNum (request : Request) : request.op.seqNum = request.seqNum := by
  cases request <;> rfl

theorem Operation.request_clientID (operation : Operation) (client seqNum : Nat) :
    (operation.request client seqNum).clientID = client := by
  cases operation <;> rfl

theorem Operation.request_seqNum (operation : Operation) (client seqNum : Nat) :
    (operation.request client seqNum).seqNum = seqNum := by
  cases operation <;> rfl

theorem Issued.append {records : Records} {op : Op} (issued : Issued records op)
    (record : Record Operation (Option GoString) Op) : Issued (records ++ [record]) op where
  invoked := List.mem_append_left _ issued.invoked
  positive := issued.positive
  earlier := by
    intro number positive less
    rw [Trace.committed_append]
    exact (issued.earlier number positive less).append _

theorem Answers.append {log : List Op} {request : Request} {reply : Reply}
    (answers : Answers log request reply) (more : List Op) : Answers (log ++ more) request reply := by
  unfold Answers at *
  cases said : reply.err with
  | ok =>
    simp only [said] at answers
    obtain ⟨index, op, output, matching⟩ := answers
    exact ⟨index, op, Machine.output_mono more output, matching⟩
  | errNoKey => simp [said] at answers
  | errWrongLeader => trivial

theorem ReplicaOk.append {log : List Op} {replica : Replica} (ok : ReplicaOk log replica)
    (more : List Op) : ReplicaOk (log ++ more) replica where
  reflects := fun running => (ok.reflects running).mono more
  included := ok.included
  persisted := fun index store saved => (ok.persisted index store saved).mono more
  waiters := ok.waiters.mono fun _ _ output => Machine.output_mono more output

theorem CallOk.append {records : Records} {replica : Fin n → Replica} {call : Call n}
    (ok : CallOk records replica call) (record : Record Operation (Option GoString) Op) :
    CallOk (records ++ [record]) replica call where
  issued := ok.issued.append record
  incarnation := ok.incarnation
  waiting := ok.waiting
  reply := by
    intro reply replied
    rw [Trace.committed_append]
    exact (ok.reply reply replied).append _

theorem ClerkOk.append {log : List Op} {calls : List (Call n)} {client : Nat} {clerk : Clerk Operation}
    (ok : ClerkOk log calls client clerk) (more : List Op) : ClerkOk (log ++ more) calls client clerk where
  completed := fun number positive less => (ok.completed number positive less).append more
  calling := ok.calling

theorem ClerkOk.appendCalls {log : List Op} {calls : List (Call n)} {client : Nat} {clerk : Clerk Operation}
    (ok : ClerkOk log calls client clerk) (more : List (Call n)) : ClerkOk log (calls ++ more) client clerk where
  completed := ok.completed
  calling := by
    intro id waiting
    obtain ⟨operation, call, pending, there, request⟩ := ok.calling id waiting
    have inside : id < calls.length := (List.getElem?_eq_some_iff.mp there).1
    exact ⟨operation, call, pending, by rw [List.getElem?_append_left inside, there], request⟩

theorem Op.ret_eq {op : Op} {operation : Operation} (kind : op.optype = .get ↔ operation.isRead = true) :
    op.ret = if operation.isRead then some op.value else none := by
  unfold Op.ret
  cases shape : op.optype <;> simp_all

/-! ## One part of the system at a time -/

/-- A process continues and keeps its channels, or a new one has taken its place. -/
structure Evolves (before after : Replica) : Prop where
  incarnation : before.incarnation ≤ after.incarnation
  kept : after.incarnation = before.incarnation → ∀ channel index,
    before.server.waitChan.MadeFor channel index → after.server.waitChan.MadeFor channel index

theorem Evolves.of_follows {right : Nat → Op → Prop} {before after : Replica}
    (same : after.incarnation = before.incarnation)
    (follows : WaitChannels.Follows right before.server.waitChan after.server.waitChan) :
    Evolves before after :=
  ⟨by omega, fun _ => follows.kept⟩

theorem CallOk.evolve {records : Records} {replica replica' : Fin n → Replica} {call : Call n}
    (ok : CallOk records replica call)
    (evolves : Evolves (replica call.server) (replica' call.server)) : CallOk records replica' call where
  issued := ok.issued
  incarnation := ok.incarnation.trans evolves.incarnation
  waiting := by
    intro index channel waiting same
    have continued : (replica' call.server).incarnation = (replica call.server).incarnation := by
      have := ok.incarnation
      have := evolves.incarnation
      omega
    exact evolves.kept continued channel index (ok.waiting index channel waiting (by omega))
  reply := ok.reply

/-! ## Invocations and entries -/

theorem Explained.newNumber {before : Records} {record : Record Operation (Option GoString) Op}
    (explained : Explained before record) : Trace.NewNumber before record := by
  cases record with
  | invoke client seqNum operation => exact explained
  | commit op => trivial
  | respond client seqNum ret => exact explained.1

theorem numbered {records : Records} (explained : Justified Explained records) :
    Justified Trace.NewNumber records :=
  explained.imp fun _ _ reason => reason.newNumber

theorem exists_entry {log : List Op} {index : Nat} {op : Op}
    (output : machine.output log index = some op) :
    ∃ entry ∈ log, entry.clientID = op.clientID ∧ entry.seqNum = op.seqNum ∧ entry.optype = op.optype := by
  obtain ⟨position, entry, _, here, produced⟩ := machine.output_eq_some.mp output
  refine ⟨entry, List.mem_of_getElem? here, ?_⟩
  change (Store.applyCommand _ entry).2 = op at produced
  rw [Store.applyCommand_snd] at produced
  subst produced
  split <;> simp_all

theorem AnsweredAt.present {log : List Op} {client seqNum : Nat} {ret : Option GoString}
    (answered : AnsweredAt log client seqNum ret) : Present log client seqNum := by
  obtain ⟨index, op, output, sameClient, sameNumber, _⟩ := answered
  obtain ⟨entry, member, entryClient, entryNumber, _⟩ := exists_entry output
  exact ⟨entry, member, entryClient.trans sameClient, entryNumber.trans sameNumber⟩

namespace Consistent

variable {system : System n}

variable (consistent : Consistent system)
include consistent

theorem invoked_of_mem_log {op : Op} (member : op ∈ system.log) :
    Record.invoke op.clientID op.seqNum op.operation ∈ system.records := by
  obtain ⟨t, here⟩ := Trace.mem_committed.mp member
  have issued : Issued (system.records.take t) op := consistent.explained t _ here
  exact List.mem_of_mem_take issued.invoked

theorem output_kind {client seqNum index : Nat} {operation : Operation}
    {op : Op} (invoked : Record.invoke client seqNum operation ∈ system.records)
    (output : machine.output system.log index = some op)
    (sameClient : op.clientID = client) (sameNumber : op.seqNum = seqNum) :
    op.optype = .get ↔ operation.isRead = true := by
  obtain ⟨entry, member, entryClient, entryNumber, entryKind⟩ := exists_entry output
  have entryInvoked := consistent.invoked_of_mem_log member
  rw [entryClient, entryNumber, sameClient, sameNumber] at entryInvoked
  rw [Trace.operation_unique (numbered consistent.explained) invoked entryInvoked, ← entryKind]
  unfold Op.operation
  cases entry.optype <;> simp [Operation.isRead]

theorem setReplica {server : Fin n} {replica : Replica}
    (ok : ReplicaOk system.log replica) (evolves : Evolves (system.replica server) replica) :
    Consistent (system.setReplica server replica) where
  explained := consistent.explained
  disciplined := consistent.disciplined
  replicas := (Function.forall_update_iff system.replica fun _ replica => ReplicaOk system.log replica).mpr
    ⟨ok, fun other _ => consistent.replicas other⟩
  snapshots := consistent.snapshots
  proposed := consistent.proposed
  calls := by
    intro call member
    apply (consistent.calls call member).evolve
    by_cases equal : call.server = server
    · rw [equal]
      simpa [System.setReplica] using evolves
    · simp only [System.setReplica, Function.update_of_ne equal]
      exact ⟨le_refl _, fun _ _ _ made => made⟩
  clerks := consistent.clerks

theorem setCall {id : Nat} {call new : Call n}
    (found : system.calls[id]? = some call) (same : new.request = call.request)
    (ok : CallOk system.records system.replica new) : Consistent (system.setCall id new) where
  explained := consistent.explained
  disciplined := consistent.disciplined
  replicas := consistent.replicas
  snapshots := consistent.snapshots
  proposed := consistent.proposed
  calls := by
    intro other member
    rcases List.mem_or_eq_of_mem_set member with old | rfl
    · exact consistent.calls other old
    · exact ok
  clerks := by
    intro client
    refine ⟨(consistent.clerks client).completed, ?_⟩
    intro other calling
    obtain ⟨operation, called, pending, there, request⟩ := (consistent.clerks client).calling other calling
    by_cases equal : id = other
    · subst equal
      rw [found] at there
      cases there
      refine ⟨operation, new, pending, ?_, same.trans request⟩
      simp [System.setCall, (List.getElem?_eq_some_iff.mp found).1]
    · exact ⟨operation, called, pending, by simp [System.setCall, List.getElem?_set_ne equal, there], request⟩

theorem record {clerk : Nat → Clerk Operation}
    {record : Record Operation (Option GoString) Op} (explained : Explained system.records record)
    (disciplined : Disciplined clerk (system.records ++ [record]))
    (clerks : ∀ client, ClerkOk system.log system.calls client (clerk client)) :
    Consistent { system with clerk, records := system.records ++ [record] } := by
  have grown : System.log { system with clerk, records := system.records ++ [record] } =
      system.log ++ record.entry.toList := Trace.committed_append _
  refine ⟨consistent.explained.append explained, disciplined, ?_, ?_, ?_, ?_, ?_⟩
  · intro server
    rw [grown]
    exact (consistent.replicas server).append _
  · intro snapshot member
    rw [grown]
    exact (consistent.snapshots snapshot member).mono _
  · intro op member
    exact (consistent.proposed op member).append record
  · intro call member
    exact (consistent.calls call member).append record
  · intro client
    rw [grown]
    exact (clerks client).append _

theorem clerks_update {client : Nat} {clerk : Clerk Operation}
    (ok : ClerkOk system.log system.calls client clerk) (other : Nat) :
    ClerkOk system.log system.calls other (Function.update system.clerk client clerk other) :=
  (Function.forall_update_iff system.clerk (ClerkOk system.log system.calls)).mpr
    ⟨ok, fun other _ => consistent.clerks other⟩ other

theorem turnTo {client : Nat} {calling : Option Nat}
    (ok : ClerkOk system.log system.calls client { system.clerk client with calling }) :
    Consistent (system.setClerk client { system.clerk client with calling }) where
  explained := consistent.explained
  disciplined := consistent.disciplined.turnTo client calling
  replicas := consistent.replicas
  snapshots := consistent.snapshots
  proposed := consistent.proposed
  calls := consistent.calls
  clerks := consistent.clerks_update ok

end Consistent

end ShardedKV.KvRaft
