import ShardedKV.Transitions.Runs
import ShardedKV.KvRaft.Replicas

/-!
# Every step keeps the system consistent

One lemma per action, and from them the run.
-/

namespace ShardedKV.KvRaft

open Services

variable {n : Nat} {system next : System n}

namespace Consistent

/-! ## Replies -/

/-- A handler that receives what the entry of its index produced gives a right reply. -/
theorem reply_answers {log : List Op} {request : Request} {index : Nat}
    {received : WaitChannels.Received Op}
    (rightful : ∀ op, received = .message op → machine.output log index = some op) :
    Answers log request (request.reply received) := by
  cases received with
  | closed => exact trivial
  | message op =>
    dsimp only [Request.reply]
    by_cases matching : op.seqNum = request.seqNum ∧ op.clientID = request.clientID
    · have output := rightful op rfl
      rw [if_pos matching]
      cases request with
      | get args => exact ⟨index, op, output, matching.2, matching.1, fun _ _ => rfl⟩
      | putAppend args => exact ⟨index, op, output, matching.2, matching.1, by rintro _ ⟨⟩⟩
    · rw [if_neg matching]
      exact trivial

theorem answered {log : List Op} {operation : Operation} {client seqNum : Nat} {reply : Reply}
    {ret : Option GoString} (returns : operation.result reply = some ret)
    (answers : Answers log (operation.request client seqNum) reply)
    (kinds : ∀ index op, machine.output log index = some op → op.clientID = client → op.seqNum = seqNum →
      (op.optype = .get ↔ operation.isRead = true)) :
    AnsweredAt log client seqNum ret := by
  unfold Answers at answers
  cases said : reply.err with
  | errNoKey => simp [said] at answers
  | errWrongLeader => cases operation <;> simp [Operation.result, said] at returns
  | ok =>
    simp only [said] at answers
    obtain ⟨index, op, output, sameClient, sameNumber, value⟩ := answers
    rw [operation.request_clientID] at sameClient
    rw [operation.request_seqNum] at sameNumber
    refine ⟨index, op, output, sameClient, sameNumber, ?_⟩
    rw [Op.ret_eq (kinds index op output sameClient sameNumber)]
    cases operation with
    | get key =>
      simp only [Operation.result, said, Option.some.injEq] at returns
      rw [← returns, value _ rfl]
      rfl
    | put key content => simpa [Operation.result, Operation.isRead, said] using returns
    | append key content => simpa [Operation.result, Operation.isRead, said] using returns

theorem alive_incarnation {call : Call n} (alive : ¬ (!system.alive call) = true) :
    (system.replica call.server).incarnation = call.incarnation := by
  simp only [System.alive, Bool.not_eq_eq_eq_not, Bool.not_true, Bool.not_eq_false, decide_eq_true_eq] at alive
  exact alive.1

/-! ## Clerks -/

section

variable (consistent : Consistent system)
include consistent

theorem invoke {client : Nat} {operation : Operation}
    (stepped : system.invoke client operation = some next) : Consistent next := by
  cases idle : (system.clerk client).pending with
  | some other => simp [System.invoke, idle] at stepped
  | none =>
    simp only [System.invoke, idle, Option.isSome_none, Bool.false_eq_true, if_false,
      Option.some.injEq] at stepped
    subst stepped
    apply consistent.record
    · exact fun other => consistent.disciplined.not_invoked idle other
    · exact consistent.disciplined.invoke idle operation
    · apply consistent.clerks_update
      refine ⟨(consistent.clerks client).completed, fun id calling => ?_⟩
      -- A clerk that waits for a call has an operation.
      obtain ⟨_, _, pending, _⟩ := (consistent.clerks client).calling id calling
      simp [idle] at pending

theorem send {client : Nat} {server : Fin n} (stepped : system.send client server = some next) : Consistent next := by
  unfold System.send at stepped
  cases pending : (system.clerk client).pending with
  | none => simp [pending] at stepped
  | some operation =>
    cases calling : (system.clerk client).calling with
    | some id => simp [pending, calling] at stepped
    | none =>
      simp only [pending, calling, Option.some.injEq] at stepped
      subst stepped
      have issued : Issued system.records (operation.request client (system.clerk client).seqNum).op := by
        refine ⟨?_, ?_, ?_⟩
        · rw [Request.op_clientID, Request.op_seqNum, operation.request_clientID,
            operation.request_seqNum, operation.request_op_operation]
          exact consistent.disciplined.outstanding client operation pending
        · rw [Request.op_seqNum, operation.request_seqNum]
          exact consistent.disciplined.positive client
        · rw [Request.op_clientID, Request.op_seqNum, operation.request_clientID, operation.request_seqNum]
          exact (consistent.clerks client).completed
      refine ⟨consistent.explained, ?_, consistent.replicas, consistent.snapshots,
        consistent.proposed, ?_, ?_⟩
      · have recalled := consistent.disciplined.turnTo client (some system.calls.length)
        simpa [System.setClerk, pending] using recalled
      · intro call member
        rcases List.mem_append.mp member with old | new
        · exact consistent.calls call old
        · simp only [List.mem_singleton] at new
          subst new
          exact ⟨issued, Nat.zero_le _, by rintro _ _ ⟨⟩, by rintro _ ⟨⟩⟩
      · refine (Function.forall_update_iff system.clerk (ClerkOk system.log _)).mpr ⟨?_, ?_⟩
        · refine ⟨(consistent.clerks client).completed, ?_⟩
          rintro _ ⟨⟩
          exact ⟨operation, _, rfl, List.getElem?_concat_length, rfl⟩
        · exact fun other _ => (consistent.clerks other).appendCalls _

theorem uncall (client : Nat) :
    Consistent (system.setClerk client { system.clerk client with calling := none }) := by
  apply consistent.turnTo
  exact ⟨(consistent.clerks client).completed, by rintro _ ⟨⟩⟩

theorem respond {client : Nat} {ret : Option GoString}
    (answered : AnsweredAt system.log client (system.clerk client).seqNum ret) :
    Consistent { system.setClerk client { seqNum := (system.clerk client).seqNum + 1 } with
      records := system.records ++ [.respond client (system.clerk client).seqNum ret] } := by
  apply consistent.record
  · exact ⟨consistent.disciplined.not_answered client, answered⟩
  · exact consistent.disciplined.respond client ret
  · apply consistent.clerks_update
    refine ⟨?_, by rintro _ ⟨⟩⟩
    intro number positive less
    rcases Nat.lt_succ_iff_lt_or_eq.mp less with old | rfl
    · exact (consistent.clerks client).completed number positive old
    · exact answered.present

theorem receive {client : Nat} (stepped : system.receive client = some next) : Consistent next := by
  unfold System.receive at stepped
  cases pending : (system.clerk client).pending with
  | none => simp [pending] at stepped
  | some operation =>
    cases calling : (system.clerk client).calling with
    | none => simp [pending, calling] at stepped
    | some id =>
      obtain ⟨operation', call, pending', there, request⟩ := (consistent.clerks client).calling id calling
      rw [pending] at pending'
      cases pending'
      simp only [pending, calling, Option.bind_some, there] at stepped
      cases replied : call.reply with
      | none => simp [replied] at stepped
      | some reply =>
        simp only [replied] at stepped
        cases returns : operation.result reply with
        | none =>
          simp only [returns, Option.some.injEq] at stepped
          subst stepped
          simpa [pending] using consistent.uncall client
        | some ret =>
          simp only [returns, Option.some.injEq] at stepped
          subst stepped
          apply consistent.respond
          have ok := consistent.calls call (List.mem_of_getElem? there)
          have answers := ok.reply reply replied
          rw [request] at answers
          apply answered returns answers
          intro index op output sameClient sameNumber
          have invoked := consistent.disciplined.outstanding client operation pending
          exact consistent.output_kind invoked output sameClient sameNumber

/-! ## Handlers -/

theorem propose {op : Op} (issued : Issued system.records op) :
    Consistent { system with proposed := system.proposed ++ [op] } where
  explained := consistent.explained
  disciplined := consistent.disciplined
  replicas := consistent.replicas
  snapshots := consistent.snapshots
  proposed := by
    intro other member
    rcases List.mem_append.mp member with old | new
    · exact consistent.proposed other old
    · rw [List.mem_singleton.mp new]
      exact issued
  calls := consistent.calls
  clerks := consistent.clerks

theorem start {id index : Nat} {isLeader : Bool}
    (stepped : system.start id isLeader index = some next) : Consistent next := by
  unfold System.start at stepped
  cases found : system.calls[id]? with
  | none => simp [found] at stepped
  | some call =>
    have ok := consistent.calls call (List.mem_of_getElem? found)
    simp only [found] at stepped
    split at stepped
    · cases stepped
    split at stepped
    · cases stepped
      have proposed := consistent.propose ok.issued
      exact proposed.setCall found rfl ⟨ok.issued, le_refl _, by rintro _ _ ⟨⟩, ok.reply⟩
    · cases stepped
      refine consistent.setCall found rfl ⟨ok.issued, ok.incarnation, by rintro _ _ ⟨⟩, ?_⟩
      rintro _ ⟨⟩
      exact trivial

theorem register {id : Nat} (stepped : system.register id = some next) : Consistent next := by
  unfold System.register at stepped
  cases found : system.calls[id]? with
  | none => simp [found] at stepped
  | some call =>
    have ok := consistent.calls call (List.mem_of_getElem? found)
    have server := consistent.replicas call.server
    simp only [found] at stepped
    split at stepped
    · rename_i index started
      split at stepped
      · cases stepped
      · cases stepped
        obtain ⟨follows, made⟩ := server.waiters.getWaitCh index
        have moved : Consistent (system.setReplica call.server { system.replica call.server with
            server := ((system.replica call.server).server.getWaitCh index).1 }) :=
          consistent.setReplica (server.setWaitChan follows.holds) (.of_follows rfl follows)
        refine moved.setCall found rfl ⟨ok.issued, ?_, ?_, ok.reply⟩
        · simpa [System.setReplica] using ok.incarnation
        · rintro _ _ ⟨⟩ _
          simpa [System.setReplica, KVServer.getWaitCh] using made
    · cases stepped

theorem timeout {id : Nat} (stepped : system.timeout id = some next) : Consistent next := by
  unfold System.timeout at stepped
  cases found : system.calls[id]? with
  | none => simp [found] at stepped
  | some call =>
    have ok := consistent.calls call (List.mem_of_getElem? found)
    simp only [found] at stepped
    split at stepped
    · split at stepped
      · cases stepped
      · cases stepped
        refine consistent.setCall found rfl ⟨ok.issued, ok.incarnation, by rintro _ _ ⟨⟩, ?_⟩
        rintro _ ⟨⟩
        exact trivial
    · cases stepped

theorem answer {id : Nat} (stepped : system.answer id = some next) : Consistent next := by
  unfold System.answer at stepped
  cases found : system.calls[id]? with
  | none => simp [found] at stepped
  | some call =>
    have ok := consistent.calls call (List.mem_of_getElem? found)
    have server := consistent.replicas call.server
    simp only [found] at stepped
    split at stepped
    · rename_i index channel waiting
      split at stepped
      · cases stepped
      · rename_i alive
        have made := ok.waiting index channel waiting (alive_incarnation alive)
        cases taken : (system.replica call.server).server.waitChan.receive channel with
        | none => simp [KVServer.receive, taken] at stepped
        | some result =>
          obtain ⟨after, received⟩ := result
          simp only [KVServer.receive, taken, Option.map_some, Option.some.injEq] at stepped
          subst stepped
          obtain ⟨follows, rightful⟩ := server.waiters.receive taken
          have moved : Consistent (system.setReplica call.server { system.replica call.server with
              server := { (system.replica call.server).server with waitChan := after } }) :=
            consistent.setReplica (server.setWaitChan follows.holds) (.of_follows rfl follows)
          refine moved.setCall found rfl ⟨ok.issued, ?_, by rintro _ _ ⟨⟩, ?_⟩
          · simpa [System.setReplica] using ok.incarnation
          · rintro _ ⟨⟩
            exact reply_answers fun op message => rightful op index message made
    · cases stepped

theorem cleanup {id : Nat} (stepped : system.cleanup id = some next) : Consistent next := by
  unfold System.cleanup at stepped
  cases found : system.calls[id]? with
  | none => simp [found] at stepped
  | some call =>
    have ok := consistent.calls call (List.mem_of_getElem? found)
    have server := consistent.replicas call.server
    simp only [found] at stepped
    split at stepped
    · rename_i index channel cleaning
      split at stepped
      · cases stepped
      cases closed : (system.replica call.server).server.waitChan.close index channel with
      | none =>
        simp only [KVServer.cleanup, closed, Option.map_none, Option.some.injEq] at stepped
        subst stepped
        have moved : Consistent (system.setReplica call.server
            { system.replica call.server with panicked := true }) :=
          consistent.setReplica server.panic (.of_follows rfl (.refl server.waiters))
        refine moved.setCall found rfl ⟨ok.issued, ?_, by rintro _ _ ⟨⟩, ok.reply⟩
        simpa [System.setReplica] using ok.incarnation
      | some after =>
        simp only [KVServer.cleanup, closed, Option.map_some, Option.some.injEq] at stepped
        subst stepped
        have follows := server.waiters.close closed
        have moved : Consistent (system.setReplica call.server { system.replica call.server with
            server := { (system.replica call.server).server with waitChan := after } }) :=
          consistent.setReplica (server.setWaitChan follows.holds) (.of_follows rfl follows)
        refine moved.setCall found rfl ⟨ok.issued, ?_, by rintro _ _ ⟨⟩, ok.reply⟩
        simpa [System.setReplica] using ok.incarnation
    · cases stepped

/-! ## Commits -/

theorem commit {op : Op} (stepped : system.commit op = some next) : Consistent next := by
  unfold System.commit at stepped
  split at stepped
  · rename_i member
    cases stepped
    exact consistent.record (consistent.proposed op member) (consistent.disciplined.commit op)
      consistent.clerks
  · cases stepped

end

/-! ## Runs -/

theorem initial : Consistent ({} : System n) where
  explained := Justified.nil
  disciplined := Disciplined.initial
  replicas := fun _ => ⟨fun _ => Machine.Reflects.initial _, le_refl _, by rintro _ _ ⟨⟩, .empty⟩
  snapshots := by simp
  proposed := by simp
  calls := by simp
  clerks := fun _ => ⟨fun _ positive less => by simp at less; omega, by rintro _ ⟨⟩⟩

theorem step (consistent : Consistent system) {action : System.Action n}
    (stepped : system.step action = some next) : Consistent next := by
  cases action with
  | invoke client operation => exact consistent.invoke stepped
  | send client server => exact consistent.send stepped
  | giveUp client =>
    cases stepped
    exact consistent.uncall client
  | receive client => exact consistent.receive stepped
  | start id isLeader index => exact consistent.start stepped
  | register id => exact consistent.register stepped
  | timeout id => exact consistent.timeout stepped
  | answer id => exact consistent.answer stepped
  | cleanup id => exact consistent.cleanup stepped
  | commit op => exact consistent.commit stepped
  | deliver server takeSnapshot => exact consistent.moves (consistent.replicated.deliver_moves stepped)
  | redeliver server commandIndex takeSnapshot =>
    rw [System.redeliver_eq stepped]
    exact consistent
  | install server position => exact consistent.moves (consistent.replicated.install_moves stepped)
  | restart server =>
    cases stepped
    exact consistent.moves (consistent.replicated.restart_moves server)

end Consistent

theorem System.run_eq (system : System n) (actions : List (System.Action n)) :
    system.run actions = Transitions.run System.step system actions :=
  Transitions.eq_run (fun _ => rfl) (fun _ _ _ => rfl) system actions

theorem Consistent.run (consistent : Consistent system) {actions : List (System.Action n)}
    (ran : system.run actions = some next) : Consistent next := by
  rw [System.run_eq] at ran
  exact Transitions.run_keeps (fun _ _ _ kept stepped => kept.step stepped) consistent ran

theorem System.Reachable.consistent (reached : system.Reachable) : Consistent system := by
  obtain ⟨actions, ran⟩ := reached
  exact Consistent.initial.run ran

end ShardedKV.KvRaft
