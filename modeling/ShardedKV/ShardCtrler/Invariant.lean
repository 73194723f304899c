import ShardedKV.Transitions.Runs
import ShardedKV.ShardCtrler.Assignment
import ShardedKV.ShardCtrler.System

/-!
# What every run of the controller keeps

A process has the state of the log up to its applied index and its channels hold commands that it has
applied.  A handler is about to read the configurations only when its process has applied an entry
of its request, and a clerk has at most one request under way.
-/

namespace ShardedKV.ShardCtrler

open Services

variable {n : Nat}

/-- A panic of `applyHandler` is the end of the state. -/
def machine : Machine (Option State) Op Op where
  initial := some {}
  apply := fun sc op => (sc.bind fun sc => sc.applyHandler op, op)

theorem machine_run (log : List Op) : machine.run log = replay log := by
  induction log using List.reverseRecOn with
  | nil => rfl
  | append_singleton log op inductionHypothesis =>
    rw [machine.run_append, replay_append, inductionHypothesis]
    rfl

abbrev Records := Trace Args (Option Config) Op

/-- The records hold the invocation that the arguments were made for. -/
def Issued (records : Records) (args : CommandArgs) : Prop :=
  Record.invoke args.clientID args.seqNum args.args ∈ records

/-- The answer of a process that had applied an entry of the request. -/
def ReadAt (log : List Op) (args : CommandArgs) (config : Config) : Prop :=
  ∃ sc index, machine.Reflects log (some sc) index ∧ args ∈ log.take index ∧
    sc.configs.getConfig args.args.num = some config

/-- Why a record may follow the records before it. -/
def Explained (before : Records) : Record Args (Option Config) Op → Prop
  | .invoke client seqNum _ => ∀ args, Record.invoke client seqNum args ∉ before
  | .commit op => Issued before op
  | .respond client seqNum ret =>
    (∀ ret', Record.respond client seqNum ret' ∉ before) ∧
      ∀ config, ret = some config → ∃ args, ReadAt before.committed { args, seqNum, clientID := client } config

structure ReplicaOk (log : List Op) (replica : Replica) : Prop where
  reflects : machine.Reflects log (some replica.sc) replica.applied
  waiters : replica.waitChan.Holds fun _ op => op ∈ log.take replica.applied

structure CallOk (records : Records) (replica : Fin n → Replica) (call : Call n) : Prop where
  issued : Issued records call.args
  incarnation : call.incarnation ≤ (replica call.server).incarnation
  reading : ∀ index channel, call.phase = .reading index channel →
    (replica call.server).incarnation = call.incarnation →
    call.args ∈ records.committed.take (replica call.server).applied
  reply : ∀ reply num, call.reply = some reply → reply.wrongLeader = false → call.args.args = .query num →
    ReadAt records.committed call.args reply.config

/-- A clerk waits for a call with its current request. -/
def Calls (calls : List (Call n)) (client : Nat) (clerk : Clerk Args) : Prop :=
  ∀ id, clerk.calling = some id → ∃ args call, clerk.pending = some args ∧ calls[id]? = some call ∧
    call.args = { args, seqNum := clerk.seqNum, clientID := client }

structure Consistent (system : System n) : Prop where
  explained : Justified Explained system.records
  disciplined : Disciplined system.clerk system.records
  replicas : ∀ server, (system.replica server).panicked = false → ReplicaOk system.log (system.replica server)
  proposed : ∀ op ∈ system.proposed, Issued system.records op
  calls : ∀ call ∈ system.calls, CallOk system.records system.replica call
  clerks : ∀ client, Calls system.calls client (system.clerk client)

/-! ## Growing logs -/

theorem mem_take_append {log : List Op} {op : Op} {index : Nat} (member : op ∈ log.take index) (more : List Op) :
    op ∈ (log ++ more).take index := by
  rw [List.take_append]
  exact List.mem_append_left _ member

theorem mem_take_mono {log : List Op} {op : Op} {index index' : Nat} (member : op ∈ log.take index)
    (later : index ≤ index') : op ∈ log.take index' :=
  (List.take_subset_take_left log later) member

theorem ReadAt.append {log : List Op} {args : CommandArgs} {config : Config} (read : ReadAt log args config)
    (more : List Op) : ReadAt (log ++ more) args config := by
  obtain ⟨sc, index, reflects, member, answer⟩ := read
  exact ⟨sc, index, reflects.mono more, mem_take_append member more, answer⟩

theorem ReplicaOk.append {log : List Op} {replica : Replica} (ok : ReplicaOk log replica) (more : List Op) :
    ReplicaOk (log ++ more) replica :=
  ⟨ok.reflects.mono more, ok.waiters.mono fun _ _ member => mem_take_append member more⟩

theorem CallOk.append {records : Records} {replica : Fin n → Replica} {call : Call n}
    (ok : CallOk records replica call) (record : Record Args (Option Config) Op) :
    CallOk (records ++ [record]) replica call where
  issued := List.mem_append_left _ ok.issued
  incarnation := ok.incarnation
  reading := by
    intro index channel reading same
    rw [Trace.committed_append]
    exact mem_take_append (ok.reading index channel reading same) _
  reply := by
    intro reply num replied right query
    rw [Trace.committed_append]
    exact (ok.reply reply num replied right query).append _

theorem Explained.newNumber {before : Records} {record : Record Args (Option Config) Op}
    (explained : Explained before record) : Trace.NewNumber before record := by
  cases record with
  | invoke client seqNum args => exact explained
  | commit op => trivial
  | respond client seqNum ret => exact explained.1

theorem numbered {records : Records} (explained : Justified Explained records) : Justified Trace.NewNumber records :=
  explained.imp fun _ _ reason => reason.newNumber

/-! ## One part of the system at a time -/

/-- A process that goes on has applied at least as much. -/
structure Evolves (before after : Replica) : Prop where
  incarnation : before.incarnation ≤ after.incarnation
  applied : after.incarnation = before.incarnation → before.applied ≤ after.applied

theorem CallOk.evolve {records : Records} {replica replica' : Fin n → Replica} {call : Call n}
    (ok : CallOk records replica call) (evolves : Evolves (replica call.server) (replica' call.server)) :
    CallOk records replica' call where
  issued := ok.issued
  incarnation := ok.incarnation.trans evolves.incarnation
  reading := by
    intro index channel reading same
    -- a call never runs in a process of the future, so nothing was restarted in between
    have continued : (replica' call.server).incarnation = (replica call.server).incarnation := by
      have := ok.incarnation
      have := evolves.incarnation
      omega
    exact mem_take_mono (ok.reading index channel reading (by omega)) (evolves.applied continued)
  reply := ok.reply

namespace Consistent

variable {system next : System n}

variable (consistent : Consistent system)
include consistent

theorem issued_of_mem_log {op : Op} (member : op ∈ system.log) :
    Issued system.records op := by
  obtain ⟨t, here⟩ := Trace.mem_committed.mp member
  have issued : Issued (system.records.take t) op := consistent.explained t _ here
  exact List.mem_of_mem_take issued

theorem eq_of_sameNumber {op : Op} {args : CommandArgs} (member : op ∈ system.log)
    (issued : Issued system.records args) (sameNumber : op.seqNum = args.seqNum)
    (sameClient : op.clientID = args.clientID) : op = args := by
  have invoked := consistent.issued_of_mem_log member
  unfold Issued at invoked issued
  rw [sameNumber, sameClient] at invoked
  have sameArgs := Trace.operation_unique (numbered consistent.explained) invoked issued
  cases op
  cases args
  simp_all

theorem setReplica {server : Fin n} {replica : Replica}
    (ok : replica.panicked = false → ReplicaOk system.log replica) (evolves : Evolves (system.replica server) replica) :
    Consistent (system.setReplica server replica) where
  explained := consistent.explained
  disciplined := consistent.disciplined
  replicas := (Function.forall_update_iff system.replica
    fun _ replica => replica.panicked = false → ReplicaOk system.log replica).mpr
    ⟨ok, fun other _ => consistent.replicas other⟩
  proposed := consistent.proposed
  calls := by
    intro call member
    apply (consistent.calls call member).evolve
    by_cases equal : call.server = server
    · rw [equal]
      simpa [System.setReplica] using evolves
    · simp only [System.setReplica, Function.update_of_ne equal]
      exact ⟨le_refl _, fun _ => le_refl _⟩
  clerks := consistent.clerks

theorem setCall {id : Nat} {call new : Call n} (found : system.calls[id]? = some call) (same : new.args = call.args)
    (ok : CallOk system.records system.replica new) : Consistent (system.setCall id new) where
  explained := consistent.explained
  disciplined := consistent.disciplined
  replicas := consistent.replicas
  proposed := consistent.proposed
  calls := by
    intro other member
    rcases List.mem_or_eq_of_mem_set member with old | rfl
    · exact consistent.calls other old
    · exact ok
  clerks := by
    intro client other calling
    obtain ⟨args, called, pending, there, request⟩ := consistent.clerks client other calling
    by_cases equal : id = other
    · subst equal
      rw [found] at there
      cases there
      refine ⟨args, new, pending, ?_, same.trans request⟩
      simp [System.setCall, (List.getElem?_eq_some_iff.mp found).1]
    · exact ⟨args, called, pending, by simp [System.setCall, List.getElem?_set_ne equal, there], request⟩

theorem record {clerk : Nat → Clerk Args} {record : Record Args (Option Config) Op}
    (explained : Explained system.records record) (disciplined : Disciplined clerk (system.records ++ [record]))
    (clerks : ∀ client, Calls system.calls client (clerk client)) :
    Consistent { system with clerk, records := system.records ++ [record] } where
  explained := consistent.explained.append explained
  disciplined := disciplined
  replicas := by
    intro server running
    simp only [System.log, Trace.committed_append]
    exact (consistent.replicas server running).append _
  proposed := fun op member => List.mem_append_left _ (consistent.proposed op member)
  calls := fun call member => (consistent.calls call member).append record
  clerks := clerks

theorem clerks_update {client : Nat} {clerk : Clerk Args} (own : Calls system.calls client clerk) (other : Nat) :
    Calls system.calls other (Function.update system.clerk client clerk other) :=
  (Function.forall_update_iff system.clerk (Calls system.calls)).mpr
    ⟨own, fun other _ => consistent.clerks other⟩ other

end Consistent

/-! ## Clerks -/

namespace Consistent

variable {system next : System n}

theorem invoke (consistent : Consistent system) {client : Nat} {args : Args}
    (stepped : system.invoke client args = some next) : Consistent next := by
  cases idle : (system.clerk client).pending with
  | some other => simp [System.invoke, idle] at stepped
  | none =>
    simp only [System.invoke, idle, Option.isSome_none, Bool.false_eq_true, if_false, Option.some.injEq] at stepped
    subst stepped
    apply consistent.record
    · exact fun other => consistent.disciplined.not_invoked idle other
    · exact consistent.disciplined.invoke idle args
    · apply consistent.clerks_update
      -- A clerk that waits for a call has an operation.
      intro id calling
      obtain ⟨_, _, pending, _⟩ := consistent.clerks client id calling
      simp [idle] at pending

theorem send (consistent : Consistent system) {client : Nat} {server : Fin n}
    (stepped : system.send client server = some next) : Consistent next := by
  cases pending : (system.clerk client).pending with
  | none => simp [System.send, pending] at stepped
  | some args =>
    cases calling : (system.clerk client).calling with
    | some id => simp [System.send, pending, calling] at stepped
    | none =>
      simp only [System.send, pending, calling, Option.some.injEq] at stepped
      subst stepped
      refine ⟨consistent.explained, ?_, consistent.replicas, consistent.proposed, ?_, ?_⟩
      · have turned := consistent.disciplined.turnTo client (some system.calls.length)
        simpa [pending, System.setClerk] using turned
      · intro call member
        rcases List.mem_append.mp member with old | new
        · exact consistent.calls call old
        · rw [List.mem_singleton.mp new]
          exact ⟨consistent.disciplined.outstanding client args pending, Nat.zero_le _, by rintro _ _ ⟨⟩,
            by rintro _ _ ⟨⟩⟩
      · refine (Function.forall_update_iff system.clerk (Calls _)).mpr ⟨?_, fun other _ => ?_⟩
        · rintro _ ⟨⟩
          exact ⟨args, _, rfl, List.getElem?_concat_length, rfl⟩
        · intro id waits
          obtain ⟨args', call, pending', there, request⟩ := consistent.clerks other id waits
          have inside : id < system.calls.length := (List.getElem?_eq_some_iff.mp there).1
          exact ⟨args', call, pending', by rw [List.getElem?_append_left inside, there], request⟩

theorem uncall (consistent : Consistent system) (client : Nat) :
    Consistent (system.setClerk client { system.clerk client with calling := none }) where
  explained := consistent.explained
  disciplined := consistent.disciplined.turnTo client none
  replicas := consistent.replicas
  proposed := consistent.proposed
  calls := consistent.calls
  clerks := consistent.clerks_update (by rintro _ ⟨⟩)

theorem receive (consistent : Consistent system) {client : Nat}
    (stepped : system.receive client = some next) : Consistent next := by
  cases pending : (system.clerk client).pending with
  | none => simp [System.receive, pending] at stepped
  | some args =>
    cases calling : (system.clerk client).calling with
    | none => simp [System.receive, pending, calling] at stepped
    | some id =>
      obtain ⟨args', call, pending', there, request⟩ := consistent.clerks client id calling
      rw [pending] at pending'
      cases pending'
      cases replied : call.reply with
      | none => simp [System.receive, pending, calling, there, replied] at stepped
      | some reply =>
        simp only [System.receive, pending, calling, Option.bind_some, there, replied] at stepped
        cases returns : args.result reply with
        | none =>
          simp only [returns, Option.some.injEq] at stepped
          subst stepped
          simpa [pending] using consistent.uncall client
        | some ret =>
          simp only [returns, Option.some.injEq] at stepped
          subst stepped
          apply consistent.record
          · refine ⟨consistent.disciplined.not_answered client, ?_⟩
            rintro config rfl
            -- only a `Query` returns a configuration, that of its reply
            have ok := consistent.calls call (List.mem_of_getElem? there)
            cases args <;> simp [Args.result] at returns
            rename_i num
            have read := ok.reply reply num replied returns.1 (by rw [request])
            rw [returns.2, request] at read
            exact ⟨_, read⟩
          · exact consistent.disciplined.respond client ret
          · exact consistent.clerks_update (by rintro _ ⟨⟩)

end Consistent

/-! ## Handlers -/

theorem received_mem {right : Op → Prop} {wait after : WaitChannels Op}
    (holds : wait.Holds fun _ => right) {channel : Nat} {received : WaitChannels.Received Op}
    (taken : wait.receive channel = some (after, received)) {op : Op} (message : received = .message op) :
    right op := by
  obtain ⟨_, rightful⟩ := holds.receive taken
  cases there : wait.channels[channel]? with
  | none => simp [WaitChannels.receive, there] at taken
  | some found => exact rightful op found.index message ⟨found, there, rfl⟩

/-- What a part of the handler does to its process and to the call: it applies nothing, and where it
gives an answer it has received the command of the request or reads the configurations. -/
structure Continues (log : List Op) (replica replica' : Replica) (call call' : Call n) : Prop where
  sc : replica'.sc = replica.sc
  applied : replica'.applied = replica.applied
  incarnation : replica'.incarnation = replica.incarnation
  waiters : replica'.waitChan.Holds fun _ op => op ∈ log.take replica.applied
  server : call'.server = call.server
  args : call'.args = call.args
  sameProcess : call'.incarnation = call.incarnation
  reading : ∀ index channel, call'.phase = .reading index channel →
    ∃ op ∈ log.take replica.applied, op.seqNum = call.args.seqNum ∧ op.clientID = call.args.clientID
  reply : ∀ reply, call'.reply = some reply → reply.wrongLeader = false → call.reply = some reply ∨
    (∃ index channel, call.phase = .reading index channel) ∧
      replica.sc.configs.getConfig call.args.args.num = some reply.config ∨
    ∃ op ∈ log.take replica.applied, op.seqNum = call.args.seqNum ∧ op.clientID = call.args.clientID ∧
      ∀ num, op.args ≠ .query num

namespace Continues

variable {log : List Op} {replica replica' : Replica} {call call' : Call n}

/-- The reply stays or says that the server does not lead, and nothing is left to read. -/
theorem of_reply {waitChan : WaitChannels Op} {panicked : Bool} {phase : Phase} {reply : Option CommandReply}
    (holds : waitChan.Holds fun _ op => op ∈ log.take replica.applied)
    (kept : reply = call.reply ∨ reply = some .notLeader)
    (notReading : ∀ index channel, phase ≠ .reading index channel) :
    Continues log replica { replica with waitChan, panicked } call { call with phase, reply } where
  sc := rfl
  applied := rfl
  incarnation := rfl
  waiters := holds
  server := rfl
  args := rfl
  sameProcess := rfl
  reading := fun index channel reading => absurd reading (notReading index channel)
  reply := by
    rintro _ rfl leads
    rcases kept with same | same
    · exact .inl same.symm
    · cases same
      cases leads

theorem answer (ok : ReplicaOk log replica) (answered : call.answer replica = some (replica', call')) :
    Continues log replica replica' call call' := by
  cases phase : call.phase <;> simp [Call.answer, phase] at answered
  rename_i index channel
  obtain ⟨after, received, taken, rfl, rfl⟩ := answered
  have follows := (ok.waiters.receive taken).1.holds
  cases received with
  | closed =>
    -- another handler that waited for the same index has closed the channel
    exact of_reply follows (.inr rfl) fun _ _ => Phase.noConfusion
  | message op =>
    have member : op ∈ log.take replica.applied := received_mem ok.waiters taken rfl
    by_cases matching : op.seqNum = call.args.seqNum ∧ op.clientID = call.args.clientID
    · simp only [Call.received, if_pos matching]
      split
      · exact ⟨rfl, rfl, rfl, follows, rfl, rfl, rfl, fun _ _ _ => ⟨op, member, matching⟩,
          fun reply same _ => .inl same⟩
      · rename_i other
        refine ⟨rfl, rfl, rfl, follows, rfl, rfl, rfl, by simp, fun reply _ _ => .inr (.inr ?_)⟩
        exact ⟨op, member, matching.1, matching.2, other⟩
    · simp only [Call.received, if_neg matching]
      exact of_reply follows (.inr rfl) fun _ _ => Phase.noConfusion

theorem readConfig (ok : ReplicaOk log replica) (read : call.readConfig replica = some (replica', call')) :
    Continues log replica replica' call call' := by
  cases phase : call.phase <;> simp [Call.readConfig, phase] at read
  rename_i index channel
  cases answer : replica.sc.configs.getConfig call.args.args.num with
  | none =>
    simp only [answer, Option.some.injEq, Prod.mk.injEq] at read
    obtain ⟨rfl, rfl⟩ := read
    -- the index is out of range: the process is gone and no reply is sent
    exact of_reply ok.waiters (.inl rfl) fun _ _ => Phase.noConfusion
  | some config =>
    simp only [answer, Option.some.injEq, Prod.mk.injEq] at read
    obtain ⟨rfl, rfl⟩ := read
    refine ⟨rfl, rfl, rfl, ok.waiters, rfl, rfl, rfl, by simp, ?_⟩
    rintro _ ⟨⟩ _
    exact .inr (.inl ⟨⟨index, channel, phase⟩, answer⟩)

theorem cleanup (ok : ReplicaOk log replica) (cleaned : call.cleanup replica = some (replica', call')) :
    Continues log replica replica' call call' := by
  cases phase : call.phase <;> simp [Call.cleanup, phase] at cleaned
  rename_i index channel
  cases closed : replica.waitChan.close index channel with
  | none =>
    simp only [closed, Option.some.injEq, Prod.mk.injEq] at cleaned
    obtain ⟨rfl, rfl⟩ := cleaned
    exact of_reply ok.waiters (.inl rfl) fun _ _ => Phase.noConfusion
  | some after =>
    simp only [closed, Option.some.injEq, Prod.mk.injEq] at cleaned
    obtain ⟨rfl, rfl⟩ := cleaned
    exact of_reply (ok.waiters.close closed).holds (.inl rfl) fun _ _ => Phase.noConfusion

theorem of_proceed (ok : ReplicaOk log replica) {part : Call.Part}
    (proceeded : call.proceed part replica = some (replica', call')) : Continues log replica replica' call call' := by
  cases part with
  | register =>
    cases phase : call.phase <;> simp [Call.proceed, Call.register, phase] at proceeded
    obtain ⟨rfl, rfl⟩ := proceeded
    exact of_reply (ok.waiters.getWaitCh _).1.holds (.inl rfl) fun _ _ => Phase.noConfusion
  | timeout =>
    cases phase : call.phase <;> simp [Call.proceed, Call.timeout, phase] at proceeded
    obtain ⟨rfl, rfl⟩ := proceeded
    exact of_reply ok.waiters (.inr rfl) fun _ _ => Phase.noConfusion
  | answer => exact answer ok proceeded
  | readConfig => exact readConfig ok proceeded
  | cleanup => exact cleanup ok proceeded

end Continues

namespace Consistent

variable {system next : System n}

theorem start (consistent : Consistent system) {id index : Nat} {isLeader : Bool}
    (stepped : system.start id isLeader index = some next) : Consistent next := by
  cases found : system.calls[id]? with
  | none => simp [System.start, found] at stepped
  | some call =>
    have ok := consistent.calls call (List.mem_of_getElem? found)
    simp only [System.start, found] at stepped
    split at stepped
    · cases stepped
    split at stepped
    · cases stepped
      have proposed : Consistent { system with proposed := system.proposed ++ [call.args] } :=
        { consistent with
          proposed := List.forall_mem_append.mpr ⟨consistent.proposed, List.forall_mem_singleton.mpr ok.issued⟩ }
      exact proposed.setCall found rfl ⟨ok.issued, le_refl _, by simp, ok.reply⟩
    · cases stepped
      refine consistent.setCall found rfl ⟨ok.issued, ok.incarnation, by simp, ?_⟩
      rintro _ _ ⟨⟩ ⟨⟩

theorem proceed (consistent : Consistent system) {id : Nat} {part : Call.Part}
    (stepped : system.proceed id part = some next) : Consistent next := by
  cases found : system.calls[id]? with
  | none => simp [System.proceed, found] at stepped
  | some call =>
    have ok := consistent.calls call (List.mem_of_getElem? found)
    simp only [System.proceed, found] at stepped
    split at stepped
    · cases stepped
    rename_i alive
    simp only [System.alive, Bool.not_eq_eq_eq_not, Bool.not_true, Bool.not_eq_false, decide_eq_true_eq] at alive
    obtain ⟨same, running⟩ := alive
    obtain ⟨⟨replica, continued⟩, proceeded, rfl⟩ := Option.map_eq_some_iff.mp stepped
    have server := consistent.replicas call.server running
    have continues := Continues.of_proceed server proceeded
    have moved : Consistent (system.setReplica call.server replica) := by
      apply consistent.setReplica
      · intro _
        refine ⟨?_, ?_⟩
        · rw [continues.sc, continues.applied]
          exact server.reflects
        · rw [continues.applied]
          exact continues.waiters
      · exact ⟨continues.incarnation.ge, fun _ => continues.applied.ge⟩
    have here : (system.setReplica call.server replica).replica continued.server = replica := by
      rw [continues.server]
      simp [System.setReplica]
    -- what the handler has received is its request
    have received : ∀ op ∈ system.log.take (system.replica call.server).applied, op.seqNum = call.args.seqNum →
        op.clientID = call.args.clientID → op = call.args := fun op member =>
      consistent.eq_of_sameNumber (List.mem_of_mem_take member) ok.issued
    refine moved.setCall found continues.args ⟨?_, ?_, ?_, ?_⟩
    · rw [continues.args]
      exact ok.issued
    · rw [here, continues.incarnation, continues.sameProcess]
      exact ok.incarnation
    · intro index channel reading _
      obtain ⟨op, member, sameNumber, sameClient⟩ := continues.reading index channel reading
      rw [here, continues.applied, continues.args, ← received op member sameNumber sameClient]
      exact member
    · intro reply num replied right query
      rw [continues.args] at query ⊢
      rcases continues.reply reply replied right with old | ⟨⟨index, channel, reading⟩, read⟩ |
        ⟨op, member, sameNumber, sameClient, other⟩
      · exact ok.reply reply num old right query
      · exact ⟨_, _, server.reflects, ok.reading index channel reading same, read⟩
      · rw [received op member sameNumber sameClient] at other
        exact absurd query (other num)

/-! ## Raft and the apply loop -/

theorem commit (consistent : Consistent system) {op : Op} (stepped : system.commit op = some next) :
    Consistent next := by
  simp only [System.commit] at stepped
  split at stepped
  · rename_i member
    cases stepped
    exact consistent.record (consistent.proposed op member) (consistent.disciplined.commit op) consistent.clerks
  · cases stepped

end Consistent

theorem Replica.applyHandler_evolves (replica : Replica) (op : Op) : Evolves replica (replica.applyHandler op) := by
  simp only [applyHandler]
  split
  · exact ⟨le_refl _, fun _ => le_refl _⟩
  split
  · exact ⟨le_refl _, fun _ => Nat.le_succ _⟩
  split <;> exact ⟨le_refl _, fun _ => Nat.le_succ _⟩

theorem ReplicaOk.applyHandler {log : List Op} {replica : Replica} (ok : ReplicaOk log replica) {op : Op}
    (arrived : log[replica.applied]? = some op) (running : (replica.applyHandler op).panicked = false) :
    ReplicaOk log (replica.applyHandler op) := by
  have advanced := ok.reflects.advance arrived
  have kept : replica.waitChan.Holds fun _ op => op ∈ log.take (replica.applied + 1) :=
    ok.waiters.mono fun _ _ member => mem_take_mono member (Nat.le_succ _)
  -- what goes into the channel has been applied before the send
  have member : op ∈ log.take (replica.applied + 1) := by
    rw [List.take_add_one, arrived]
    simp
  unfold Replica.applyHandler at running ⊢
  cases applied : replica.sc.applyHandler op with
  | none => simp [applied] at running
  | some sc =>
    simp only [machine, Option.bind_some, applied] at advanced running ⊢
    cases leads : replica.waitChan.waitChan (replica.applied + 1) with
    | none => exact ⟨advanced, kept⟩
    | some channel =>
      simp only [leads] at running ⊢
      cases sent : replica.waitChan.send channel op with
      | none => simp [sent] at running
      | some after => exact ⟨advanced, (kept.send (fun _ _ => member) sent).holds⟩

namespace Consistent

variable {system next : System n}

theorem deliver (consistent : Consistent system) {server : Fin n} (stepped : system.deliver server = some next) :
    Consistent next := by
  cases arrived : system.log[(system.replica server).applied]? with
  | none => simp [System.deliver, arrived] at stepped
  | some op =>
    simp only [System.deliver, arrived] at stepped
    split at stepped
    · cases stepped
    · rename_i running
      cases stepped
      have ok := consistent.replicas server (by simpa using running)
      exact consistent.setReplica (ok.applyHandler arrived) (Replica.applyHandler_evolves _ _)

theorem restart (consistent : Consistent system) (server : Fin n) : Consistent (system.restart server) := by
  apply consistent.setReplica
  · -- the new process has applied nothing, and nobody waits in it
    exact fun _ => ⟨Machine.Reflects.initial _, .empty⟩
  · exact ⟨Nat.le_succ _, by simp⟩

/-! ## Runs -/

theorem initial : Consistent ({} : System n) where
  explained := Justified.nil
  disciplined := Disciplined.initial
  replicas := fun _ _ => ⟨Machine.Reflects.initial _, .empty⟩
  proposed := by simp
  calls := by simp
  clerks := by rintro _ _ ⟨⟩

theorem step (consistent : Consistent system) {action : System.Action n} (stepped : system.step action = some next) :
    Consistent next := by
  cases action with
  | invoke client args => exact consistent.invoke stepped
  | send client server => exact consistent.send stepped
  | giveUp client =>
    cases stepped
    exact consistent.uncall client
  | receive client => exact consistent.receive stepped
  | start id isLeader index => exact consistent.start stepped
  | proceed id part => exact consistent.proceed stepped
  | commit op => exact consistent.commit stepped
  | deliver server => exact consistent.deliver stepped
  | restart server =>
    cases stepped
    exact consistent.restart server

end Consistent

theorem System.run_eq (system : System n) (actions : List (System.Action n)) :
    system.run actions = Transitions.run System.step system actions :=
  Transitions.eq_run (fun _ => rfl) (fun _ _ _ => rfl) system actions

theorem Consistent.run (consistent : Consistent system) {actions : List (System.Action n)}
    (ran : system.run actions = some next) : Consistent next := by
  rw [System.run_eq] at ran
  exact Transitions.run_keeps (fun _ _ _ kept stepped => kept.step stepped) consistent ran

theorem System.Reachable.consistent {system : System n} (reached : system.Reachable) : Consistent system := by
  obtain ⟨actions, ran⟩ := reached
  exact Consistent.initial.run ran

end ShardedKV.ShardCtrler
