import ShardedKV.ShardKV.Invariant

/-!
# The clerks and the handlers of their calls
-/

namespace ShardedKV.ShardKV

open Services
open ShardCtrler (Shard Config ServerName)
open KvRaft (Op Request Operation)
open Migration (Extends)

variable {controller : Controller} {attentive : Prop} {protocol : Protocol} {system next : System} {gid : Int}

namespace Consistent

/-! ## Replies -/

/-- A handler that receives what the entry of its index produced gives a right reply. -/
theorem replyTo_answers {log : List Command} {request : Request} {index : Nat}
    {received : WaitChannels.Received Command}
    (rightful : ∀ message, received = .message message → Right gid log index message) :
    Answers gid log request (replyTo request received) := by
  cases received with
  | closed => exact trivial
  | message message =>
    cases message with
    | kvOperation op =>
      dsimp only [replyTo]
      by_cases matching : op.seqNum = request.seqNum ∧ op.clientID = request.clientID
      · have output := rightful _ rfl op rfl
        rw [if_pos matching]
        cases request with
        | get args => exact ⟨index, op, output, matching.2, matching.1, fun _ _ => rfl⟩
        | putAppend args => exact ⟨index, op, output, matching.2, matching.1, by rintro _ ⟨⟩⟩
      · rw [if_neg matching]
        exact trivial
    | configOperation config => exact trivial
    | shardRequestOperation message => exact trivial
    | shardConfirmOperation message => exact trivial
    | noOperation => exact trivial

theorem answered {entries : List (Int × Command)} {operation : Operation} {client seqNum : Nat} {reply : Reply}
    {ret : Option GoString} (returns : result reply operation = some ret)
    (answers : Answers gid (entriesOf gid entries) (operation.request client seqNum) reply)
    (kinds : ∀ index op, (machine gid).output (entriesOf gid entries) index = some (some (.kvOperation op)) →
      op.clientID = client → op.seqNum = seqNum → (op.optype = .get ↔ operation.isRead = true)) :
    AnsweredAt entries client seqNum ret := by
  have said : reply.err = .ok := by
    cases operation with
    | get key =>
      cases said : reply.err <;> simp [result, said] at returns
      · rfl
      · simp [Answers, said] at answers
    | put key value => cases said : reply.err <;> simp_all [result]
    | append key value => cases said : reply.err <;> simp_all [result]
  simp only [Answers, said] at answers
  obtain ⟨index, op, output, sameClient, sameNumber, value⟩ := answers
  rw [operation.request_clientID] at sameClient
  rw [operation.request_seqNum] at sameNumber
  refine ⟨gid, index, op, output, sameClient, sameNumber, ?_⟩
  rw [Op.ret_eq (kinds index op output sameClient sameNumber)]
  cases operation with
  | get key =>
    simp only [result, said, true_or, if_true, Option.some.injEq] at returns
    rw [← returns, value _ rfl]
    rfl
  | put key content => simpa [result, Operation.isRead, said] using returns
  | append key content => simpa [result, Operation.isRead, said] using returns

theorem alive_incarnation {server : ServerName} {incarnation : Nat}
    (alive : ¬ (!system.alive gid server incarnation) = true) :
    (system.replica gid server).incarnation = incarnation := by
  simp only [System.alive, Bool.not_eq_eq_eq_not, Bool.not_true, Bool.not_eq_false, decide_eq_true_eq] at alive
  exact alive.1

/-! ## Clerks -/

variable (consistent : Consistent controller attentive protocol system)
include consistent

theorem invoke {client : Nat} {operation : Operation}
    (stepped : system.invoke client operation = some next) : Consistent controller attentive protocol next := by
  cases idle : (system.clerk client).pending with
  | some other => simp [System.invoke, idle] at stepped
  | none =>
    simp only [System.invoke, idle, Option.isSome_none, Bool.false_eq_true, if_false,
      Option.some.injEq] at stepped
    subst stepped
    apply consistent.record rfl
    · exact fun other => consistent.disciplined.not_invoked idle other
    · exact consistent.disciplined.invoke idle operation
    · apply consistent.clerks_update
      refine ⟨(consistent.clerks client).completed, fun id calling => ?_⟩
      -- A clerk that waits for a call has an operation.
      obtain ⟨_, _, pending, _⟩ := (consistent.clerks client).calling id calling
      simp [idle] at pending

theorem send {client : Nat} {server : ServerName}
    (stepped : system.send client gid server = some next) : Consistent controller attentive protocol next := by
  unfold System.send at stepped
  cases pending : (system.clerk client).pending with
  | none => simp [pending] at stepped
  | some operation =>
    cases calling : (system.clerk client).calling with
    | some id => simp [pending, calling] at stepped
    | none =>
      simp only [pending, calling, Option.some.injEq] at stepped
      subst stepped
      have issued : Issued system.records (operation.request client (system.clerk client).seqNum).op := by
        refine ⟨?_, ?_, ?_⟩
        · rw [Request.op_clientID, Request.op_seqNum, operation.request_clientID,
            operation.request_seqNum, operation.request_op_operation]
          exact consistent.disciplined.outstanding client operation pending
        · rw [Request.op_seqNum, operation.request_seqNum]
          exact consistent.disciplined.positive client
        · rw [Request.op_clientID, Request.op_seqNum, operation.request_clientID, operation.request_seqNum]
          exact (consistent.clerks client).completed
      refine { consistent with disciplined := ?_, calls := ?_, clerks := ?_ }
      · have recalled := consistent.disciplined.turnTo client (some system.calls.length)
        simpa [System.setClerk, pending] using recalled
      · intro call member
        rcases List.mem_append.mp member with old | new
        · exact consistent.calls call old
        · simp only [List.mem_singleton] at new
          subst new
          exact ⟨issued, Nat.zero_le _, by rintro _ _ ⟨⟩, by rintro _ ⟨⟩⟩
      · refine (Function.forall_update_iff system.clerk (ClerkOk system.records.committed _)).mpr ⟨?_, ?_⟩
        · refine ⟨(consistent.clerks client).completed, ?_⟩
          rintro _ ⟨⟩
          exact ⟨operation, _, rfl, List.getElem?_concat_length, rfl⟩
        · exact fun other _ => (consistent.clerks other).appendCalls _

theorem uncall (client : Nat) :
    Consistent controller attentive protocol
      (system.setClerk client { system.clerk client with calling := none }) := by
  apply consistent.turnTo
  exact ⟨(consistent.clerks client).completed, by rintro _ ⟨⟩⟩

theorem output_kind {client seqNum index : Nat}
    {operation : Operation} {op : Op} (invoked : Record.invoke client seqNum operation ∈ system.records)
    (output : (machine gid).output (system.log gid) index = some (some (.kvOperation op)))
    (sameClient : op.clientID = client) (sameNumber : op.seqNum = seqNum) :
    op.optype = .get ↔ operation.isRead = true := by
  obtain ⟨t, entry, committed, _, applied⟩ := exists_answer output
  obtain ⟨entryClient, entryNumber, entryKind⟩ := applyCommand_kind applied
  have entryInvoked := List.mem_of_mem_take ((consistent.explained t _ committed) entry rfl).1.invoked
  rw [entryClient, entryNumber, sameClient, sameNumber] at entryInvoked
  rw [Trace.operation_unique (numbered consistent.explained) invoked entryInvoked, ← entryKind]
  unfold Op.operation
  cases entry.optype <;> simp [Operation.isRead]

theorem respond {client : Nat} {ret : Option GoString}
    (answered : AnsweredAt system.records.committed client (system.clerk client).seqNum ret) :
    Consistent controller attentive protocol {
      system.setClerk client { seqNum := (system.clerk client).seqNum + 1 } with
      records := system.records ++ [.respond client (system.clerk client).seqNum ret] } := by
  apply consistent.record rfl
  · exact ⟨consistent.disciplined.not_answered client, answered⟩
  · exact consistent.disciplined.respond client ret
  · apply consistent.clerks_update
    refine ⟨?_, by rintro _ ⟨⟩⟩
    intro number positive less
    rcases Nat.lt_succ_iff_lt_or_eq.mp less with old | rfl
    · exact (consistent.clerks client).completed number positive old
    · exact answered.executed consistent.explained

theorem receive {client : Nat}
    (stepped : system.receive client = some next) : Consistent controller attentive protocol next := by
  unfold System.receive at stepped
  cases pending : (system.clerk client).pending with
  | none => simp [pending] at stepped
  | some operation =>
    cases calling : (system.clerk client).calling with
    | none => simp [pending, calling] at stepped
    | some id =>
      obtain ⟨operation', call, pending', there, request⟩ := (consistent.clerks client).calling id calling
      rw [pending] at pending'
      cases pending'
      simp only [pending, calling, Option.bind_some, there] at stepped
      cases replied : call.reply with
      | none => simp [replied] at stepped
      | some reply =>
        simp only [replied] at stepped
        cases returns : result reply operation with
        | none =>
          simp only [returns, Option.some.injEq] at stepped
          subst stepped
          simpa [pending] using consistent.uncall client
        | some ret =>
          simp only [returns, Option.some.injEq] at stepped
          subst stepped
          apply consistent.respond
          have ok := consistent.calls call (List.mem_of_getElem? there)
          have answers := ok.reply reply replied
          rw [request] at answers
          apply answered returns answers
          intro index op output sameClient sameNumber
          have invoked := consistent.disciplined.outstanding client operation pending
          exact consistent.output_kind invoked output sameClient sameNumber

/-! ## Handlers of clients' calls -/

theorem refuse {id : Nat} {call : Call}
    (found : system.calls[id]? = some call) {err : Err} (refusal : err ≠ .ok ∧ err ≠ .errNoKey) :
    Consistent controller attentive protocol
      (system.setCall id { call with phase := .finished, reply := some { err } }) := by
  have ok := consistent.calls call (List.mem_of_getElem? found)
  refine consistent.setCall found rfl ⟨ok.issued, ok.incarnation, by rintro _ _ ⟨⟩, ?_⟩
  rintro _ ⟨⟩
  cases err <;> simp_all [Answers]

theorem start {id index : Nat} {isLeader : Bool}
    (stepped : system.start id isLeader index = some next) : Consistent controller attentive protocol next := by
  unfold System.start at stepped
  cases found : system.calls[id]? with
  | none => simp [found] at stepped
  | some call =>
    have ok := consistent.calls call (List.mem_of_getElem? found)
    simp only [found] at stepped
    split at stepped
    · cases stepped
    split at stepped
    · cases stepped
      exact consistent.refuse found (by simp)
    split at stepped
    · cases stepped
      exact consistent.refuse found (by simp)
    · cases stepped
      apply propose
      · exact consistent.setCall found rfl ⟨ok.issued, le_refl _, by rintro _ _ ⟨⟩, ok.reply⟩
      · exact ok.issued

theorem recheck {id : Nat}
    (stepped : system.recheck id = some next) : Consistent controller attentive protocol next := by
  unfold System.recheck at stepped
  cases found : system.calls[id]? with
  | none => simp [found] at stepped
  | some call =>
    have ok := consistent.calls call (List.mem_of_getElem? found)
    simp only [found] at stepped
    split at stepped
    · split at stepped
      · cases stepped
      split at stepped
      · cases stepped
        exact consistent.refuse found (by simp)
      · cases stepped
        exact consistent.setCall found rfl ⟨ok.issued, ok.incarnation, by rintro _ _ ⟨⟩, ok.reply⟩
    · cases stepped

theorem register {id : Nat}
    (stepped : system.register id = some next) : Consistent controller attentive protocol next := by
  unfold System.register at stepped
  cases found : system.calls[id]? with
  | none => simp [found] at stepped
  | some call =>
    have ok := consistent.calls call (List.mem_of_getElem? found)
    have server := consistent.replicas call.gid call.server
    simp only [found] at stepped
    split at stepped
    · rename_i index checked
      split at stepped
      · cases stepped
      · cases stepped
        obtain ⟨follows, made⟩ := server.waiters.getWaitCh index
        refine setCall (consistent.setWaitChan follows fun _ same => same) found rfl
          ⟨ok.issued, ?_, ?_, ok.reply⟩
        · simpa [System.replica_setReplica] using ok.incarnation
        · rintro _ _ ⟨⟩ _
          simpa [System.replica_setReplica, Server.getWaitCh] using made
    · cases stepped

theorem timeout {id : Nat}
    (stepped : system.timeout id = some next) : Consistent controller attentive protocol next := by
  unfold System.timeout at stepped
  cases found : system.calls[id]? with
  | none => simp [found] at stepped
  | some call =>
    simp only [found] at stepped
    split at stepped
    · split at stepped
      · cases stepped
      · cases stepped
        exact consistent.refuse found (by simp)
    · cases stepped

theorem answer {id : Nat} (stepped : system.answer id = some next) : Consistent controller attentive protocol next := by
  unfold System.answer at stepped
  cases found : system.calls[id]? with
  | none => simp [found] at stepped
  | some call =>
    have ok := consistent.calls call (List.mem_of_getElem? found)
    have server := consistent.replicas call.gid call.server
    simp only [found] at stepped
    split at stepped
    · rename_i index channel waiting
      split at stepped
      · cases stepped
      · rename_i alive
        have made := ok.waiting index channel waiting (alive_incarnation alive)
        cases taken : (system.replica call.gid call.server).server.waitChan.receive channel with
        | none => simp [taken] at stepped
        | some result =>
          obtain ⟨after, received⟩ := result
          simp only [taken, Option.some.injEq] at stepped
          subst stepped
          obtain ⟨follows, rightful⟩ := server.waiters.receive taken
          refine setCall (consistent.setWaitChan follows fun _ same => same) found rfl
            ⟨ok.issued, ?_, by rintro _ _ ⟨⟩, ?_⟩
          · simpa [System.replica_setReplica] using ok.incarnation
          · rintro _ ⟨⟩
            exact replyTo_answers fun message same => rightful message index same made
    · cases stepped

theorem cleanup {id : Nat}
    (stepped : system.cleanup id = some next) : Consistent controller attentive protocol next := by
  unfold System.cleanup at stepped
  cases found : system.calls[id]? with
  | none => simp [found] at stepped
  | some call =>
    have ok := consistent.calls call (List.mem_of_getElem? found)
    have server := consistent.replicas call.gid call.server
    simp only [found] at stepped
    split at stepped
    · rename_i index channel cleaning
      split at stepped
      · cases stepped
      cases closed : (system.replica call.gid call.server).server.waitChan.close index channel with
      | none =>
        simp only [closed, Option.some.injEq] at stepped
        subst stepped
        refine setCall (consistent.setWaitChan (.refl server.waiters) fun _ same => same) found rfl
          ⟨ok.issued, ?_, by rintro _ _ ⟨⟩, ok.reply⟩
        simpa [System.replica_setReplica] using ok.incarnation
      | some after =>
        simp only [closed, Option.some.injEq] at stepped
        subst stepped
        refine setCall (consistent.setWaitChan (server.waiters.close closed) fun _ same => same) found rfl
          ⟨ok.issued, ?_, by rintro _ _ ⟨⟩, ok.reply⟩
        simpa [System.replica_setReplica] using ok.incarnation
    · cases stepped

end Consistent

end ShardedKV.ShardKV
