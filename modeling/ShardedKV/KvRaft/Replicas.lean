import ShardedKV.KvRaft.Invariant

/-!
# The replicas over any log

What a replica has depends on the log alone, and not on who proposed its entries: the part of the
invariant about the replicas and the snapshots is kept by every step whatever the log is.
-/

namespace ShardedKV.KvRaft

open Services

variable {n : Nat} {system next : System n} {log base : List Op} {replica : Replica}

/-! ## What a replica becomes -/

theorem ReplicaOk.setWaitChan (ok : ReplicaOk log replica) {waitChan : WaitChannels Op}
    (holds : waitChan.Holds (fun index op => machine.output log index = some op)) :
    ReplicaOk log { replica with server := { replica.server with waitChan } } :=
  ⟨ok.reflects, ok.included, ok.persisted, holds⟩

theorem ReplicaOk.panic (ok : ReplicaOk log replica) : ReplicaOk log { replica with panicked := true } :=
  ⟨by rintro ⟨⟩, ok.included, ok.persisted, ok.waiters⟩

theorem sendApplied_follows {kv after : KVServer} {index : Nat} {op : Op}
    (sent : kv.sendApplied index op = some after)
    (holds : kv.waitChan.Holds (fun index op => machine.output log index = some op))
    (output : machine.output log index = some op) :
    WaitChannels.Follows (fun index op => machine.output log index = some op) kv.waitChan after.waitChan ∧
      after.store = kv.store ∧ after.lastIncludedIndex = kv.lastIncludedIndex := by
  unfold KVServer.sendApplied at sent
  cases leads : kv.waitChan.waitChan index with
  | none =>
    simp only [leads, Option.some.injEq] at sent
    subst sent
    exact ⟨.refl holds, rfl, rfl⟩
  | some channel =>
    simp only [leads, Option.map_eq_some_iff] at sent
    obtain ⟨waitChan, delivered, rfl⟩ := sent
    refine ⟨holds.send ?_ delivered, rfl, rfl⟩
    -- The channel of the index was made for it and for no other index.
    rintro other ⟨found, here, rfl⟩
    obtain ⟨found', here', rfl⟩ := holds.mapped index channel leads
    rw [here] at here'
    cases here'
    exact output

/-! ## What the apply loop does to the system -/

/-- The log began as `base`. -/
structure Replicated (base : List Op) (system : System n) : Prop where
  agreed : base <+: system.log
  replicas : ∀ server, ReplicaOk system.log (system.replica server)
  snapshots : ∀ snapshot ∈ system.snapshots, machine.Reflects system.log snapshot.2 snapshot.1

theorem Consistent.replicated (consistent : Consistent system) :
    Replicated system.log system :=
  ⟨List.prefix_rfl, consistent.replicas, consistent.snapshots⟩

/-- One replica takes another value that is right for the log, and so may the snapshots. -/
structure Moves (system next : System n) : Prop where
  exists_replica : ∃ server replica snapshots,
    next = System.setReplica { system with snapshots } server replica ∧
      ReplicaOk system.log replica ∧ Evolves (system.replica server) replica ∧
      ∀ snapshot ∈ snapshots, machine.Reflects system.log snapshot.2 snapshot.1

theorem Consistent.moves (consistent : Consistent system) (moves : Moves system next) : Consistent next := by
  obtain ⟨server, replica, snapshots, rfl, ok, evolves, reflect⟩ := moves.exists_replica
  have recorded : Consistent { system with snapshots } := { consistent with snapshots := reflect }
  exact recorded.setReplica ok evolves

theorem System.redeliver_eq {server : Fin n} {commandIndex : Nat} {takeSnapshot : Bool}
    (stepped : system.redeliver server commandIndex takeSnapshot = some next) : next = system := by
  unfold System.redeliver at stepped
  cases arrived : system.log[commandIndex - 1]? with
  | none => simp [arrived] at stepped
  | some op =>
    simp only [arrived] at stepped
    split at stepped
    · cases stepped
    rename_i allowed
    have covered : commandIndex ≤ (system.replica server).server.lastIncludedIndex := by
      by_contra beyond
      exact allowed (.inr (.inr (by omega)))
    simp only [Option.some.injEq, System.handle, KVServer.applyHandler, covered, if_true] at stepped
    rw [← stepped]
    simp [System.setReplica]

namespace Replicated

variable (replicated : Replicated base system)
include replicated

theorem setReplica {server : Fin n} (ok : ReplicaOk system.log replica) :
    Replicated base (system.setReplica server replica) where
  agreed := replicated.agreed
  replicas := (Function.forall_update_iff system.replica fun _ replica => ReplicaOk system.log replica).mpr
    ⟨ok, fun other _ => replicated.replicas other⟩
  snapshots := replicated.snapshots

theorem moves (moves : Moves system next) : Replicated base next := by
  obtain ⟨server, replica, snapshots, rfl, ok, _, reflect⟩ := moves.exists_replica
  have recorded : Replicated base { system with snapshots } := { replicated with snapshots := reflect }
  exact recorded.setReplica ok

/-- The end of a command: the replica has the next state and its waiting handler the answer, or
the send has killed the process. -/
theorem sendApplied_moves {server : Fin n} {op : Op} {persisted : Option (Nat × Store)} {snapshots : List (Nat × Store)}
    (running : (system.replica server).panicked = false)
    (arrived : system.log[(system.replica server).applied]? = some op)
    (saved : ∀ index store, persisted = some (index, store) → machine.Reflects system.log store index)
    (reflect : ∀ snapshot ∈ snapshots, machine.Reflects system.log snapshot.2 snapshot.1)
    {kv : KVServer} (applied : kv = { (system.replica server).server with
      store := ((system.replica server).server.store.applyCommand op).1 })
    (advanced : replica =
      { system.replica server with applied := (system.replica server).applied + 1, persisted }) :
    Moves system (match kv.sendApplied ((system.replica server).applied + 1)
        ((system.replica server).server.store.applyCommand op).2 with
      | none => System.setReplica { system with snapshots } server { replica with panicked := true }
      | some kv => System.setReplica { system with snapshots } server { replica with server := kv }) := by
  subst applied advanced
  have ok := replicated.replicas server
  have included := ok.included
  split
  · refine ⟨server, _, snapshots, rfl, ⟨by rintro ⟨⟩, ?_, saved, ok.waiters⟩,
      .of_follows rfl (.refl ok.waiters), reflect⟩
    simp only
    omega
  · rename_i after sent
    obtain ⟨follows, sameStore, sameIndex⟩ :=
      sendApplied_follows sent ok.waiters ((ok.reflects running).output arrived)
    refine ⟨server, _, snapshots, rfl, ⟨fun _ => ?_, ?_, saved, follows.holds⟩, .of_follows rfl follows, reflect⟩
    · rw [sameStore]
      exact (ok.reflects running).advance arrived
    · rw [sameIndex]
      simp only
      omega

theorem deliver_moves {server : Fin n} {takeSnapshot : Bool}
    (stepped : system.deliver server takeSnapshot = some next) : Moves system next := by
  unfold System.deliver at stepped
  cases arrived : system.log[(system.replica server).applied]? with
  | none => simp [arrived] at stepped
  | some op =>
    simp only [arrived] at stepped
    split at stepped
    · cases stepped
    rename_i running
    rw [Bool.not_eq_true] at running
    have ok := replicated.replicas server
    have reflects := (ok.reflects running).advance arrived
    -- The next index is beyond the installed snapshot, so the command is not skipped.
    have fresh : ¬ (system.replica server).applied + 1 ≤ (system.replica server).server.lastIncludedIndex := by
      have := ok.included
      omega
    simp only [Option.some.injEq, System.handle, KVServer.applyHandler, fresh, if_false] at stepped
    subst stepped
    cases takeSnapshot with
    | false => exact replicated.sendApplied_moves running arrived ok.persisted replicated.snapshots rfl rfl
    | true =>
      refine replicated.sendApplied_moves running arrived ?_ ?_ rfl rfl
      · rintro _ _ ⟨⟩
        exact reflects
      · intro snapshot member
        rcases List.mem_append.mp member with old | new
        · exact replicated.snapshots snapshot old
        · rw [List.mem_singleton.mp new]
          exact reflects

theorem install_moves {server : Fin n} {position : Nat}
    (stepped : system.install server position = some next) : Moves system next := by
  unfold System.install at stepped
  cases found : system.snapshots[position]? with
  | none => simp [found] at stepped
  | some snapshot =>
    obtain ⟨snapshotIndex, store⟩ := snapshot
    simp only [found] at stepped
    split at stepped
    · cases stepped
    cases stepped
    have ok := replicated.replicas server
    have reflects := replicated.snapshots _ (List.mem_of_getElem? found)
    refine ⟨server, _, system.snapshots, rfl, ⟨fun _ => reflects, le_refl _, ?_, ok.waiters⟩,
      .of_follows rfl (.refl ok.waiters), replicated.snapshots⟩
    rintro _ _ ⟨⟩
    exact reflects

theorem restart_moves (server : Fin n) :
    Moves system (system.restart server) := by
  have ok := replicated.replicas server
  refine ⟨server, _, system.snapshots, rfl, ⟨fun _ => ?_, ?_, ok.persisted, ?_⟩, ⟨Nat.le_succ _, ?_⟩,
    replicated.snapshots⟩
  · cases saved : (system.replica server).persisted with
    | none => exact Machine.Reflects.initial _
    | some snapshot => exact ok.persisted _ _ saved
  · cases (system.replica server).persisted <;> exact Nat.zero_le _
  · cases (system.replica server).persisted <;> exact .empty
  · intro same
    simp at same

/-! ## Steps and runs -/

/-- The clerks, and the handlers that touch no channel, leave the replicas alone, and the log only grows. -/
theorem quiet (sameReplicas : next.replica = system.replica)
    (sameSnapshots : next.snapshots = system.snapshots) (grown : ∃ more, next.log = system.log ++ more) :
    Replicated base next := by
  obtain ⟨more, grown⟩ := grown
  refine ⟨?_, fun server => ?_, fun snapshot member => ?_⟩
  · rw [grown]
    exact replicated.agreed.trans (List.prefix_append _ _)
  · rw [grown, sameReplicas]
    exact (replicated.replicas server).append more
  · rw [grown]
    rw [sameSnapshots] at member
    exact (replicated.snapshots snapshot member).mono more

theorem setCall (id : Nat) (call : Call n) :
    Replicated base (system.setCall id call) :=
  { replicated with }

theorem record (clerk : Nat → Clerk Operation) (record : Record Operation (Option GoString) Op) :
    Replicated base { system with clerk, records := system.records ++ [record] } :=
  replicated.quiet rfl rfl ⟨_, Trace.committed_append _⟩

theorem receive {client : Nat} (stepped : system.receive client = some next) : Replicated base next := by
  simp only [System.receive] at stepped
  split at stepped
  · split at stepped
    · cases stepped
    split at stepped
    · cases stepped
      exact { replicated with }
    · cases stepped
      exact replicated.record _ _
  · cases stepped

theorem start {id index : Nat} {isLeader : Bool}
    (stepped : system.start id isLeader index = some next) : Replicated base next := by
  simp only [System.start] at stepped
  split at stepped
  · cases stepped
  split at stepped
  · cases stepped
  split at stepped
  · cases stepped
    exact { replicated with }
  · cases stepped
    exact replicated.setCall _ _

theorem register {id : Nat} (stepped : system.register id = some next) : Replicated base next := by
  simp only [System.register] at stepped
  split at stepped
  · cases stepped
  rename_i call found
  have ok := replicated.replicas call.server
  split at stepped
  · rename_i index started
    split at stepped
    · cases stepped
    · cases stepped
      exact (replicated.setReplica (ok.setWaitChan (ok.waiters.getWaitCh index).1.holds)).setCall _ _
  · cases stepped

theorem timeout {id : Nat} (stepped : system.timeout id = some next) : Replicated base next := by
  simp only [System.timeout] at stepped
  split at stepped
  · cases stepped
  split at stepped
  · split at stepped
    · cases stepped
    · cases stepped
      exact replicated.setCall _ _
  · cases stepped

theorem answer {id : Nat} (stepped : system.answer id = some next) : Replicated base next := by
  simp only [System.answer] at stepped
  split at stepped
  · cases stepped
  rename_i call found
  have ok := replicated.replicas call.server
  split at stepped
  · rename_i index channel waiting
    split at stepped
    · cases stepped
    cases taken : (system.replica call.server).server.waitChan.receive channel with
    | none => simp [KVServer.receive, taken] at stepped
    | some result =>
      simp only [KVServer.receive, taken, Option.map_some, Option.some.injEq] at stepped
      subst stepped
      exact (replicated.setReplica (ok.setWaitChan (ok.waiters.receive taken).1.holds)).setCall _ _
  · cases stepped

theorem cleanup {id : Nat} (stepped : system.cleanup id = some next) : Replicated base next := by
  simp only [System.cleanup] at stepped
  split at stepped
  · cases stepped
  rename_i call found
  have ok := replicated.replicas call.server
  split at stepped
  · rename_i index channel cleaning
    split at stepped
    · cases stepped
    cases closed : (system.replica call.server).server.waitChan.close index channel with
    | none =>
      simp only [KVServer.cleanup, closed, Option.map_none, Option.some.injEq] at stepped
      subst stepped
      exact (replicated.setReplica ok.panic).setCall _ _
    | some after =>
      simp only [KVServer.cleanup, closed, Option.map_some, Option.some.injEq] at stepped
      subst stepped
      exact (replicated.setReplica (ok.setWaitChan (ok.waiters.close closed).holds)).setCall _ _
  · cases stepped

theorem step {action : System.Action n} (stepped : system.step action = some next) : Replicated base next := by
  cases action with
  | invoke client operation =>
    simp only [System.step, System.invoke] at stepped
    split at stepped
    · cases stepped
    · cases stepped
      exact replicated.record _ _
  | send client server =>
    simp only [System.step, System.send] at stepped
    split at stepped
    · cases stepped
      exact { replicated with }
    · cases stepped
  | giveUp client =>
    cases stepped
    exact { replicated with }
  | receive client => exact replicated.receive stepped
  | start id isLeader index => exact replicated.start stepped
  | register id => exact replicated.register stepped
  | timeout id => exact replicated.timeout stepped
  | answer id => exact replicated.answer stepped
  | cleanup id => exact replicated.cleanup stepped
  | commit op =>
    simp only [System.step, System.commit] at stepped
    split at stepped
    · cases stepped
      exact replicated.record _ _
    · cases stepped
  | deliver server takeSnapshot => exact replicated.moves (replicated.deliver_moves stepped)
  | redeliver server commandIndex takeSnapshot =>
    rw [System.redeliver_eq stepped]
    exact replicated
  | install server position => exact replicated.moves (replicated.install_moves stepped)
  | restart server =>
    cases stepped
    exact replicated.moves (replicated.restart_moves server)

end Replicated

end ShardedKV.KvRaft
