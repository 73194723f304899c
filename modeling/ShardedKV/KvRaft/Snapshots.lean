import ShardedKV.KvRaft.Replicas

/-!
# Snapshots do not show in the state

Whatever log the servers agree on and however a replica comes to an index, by commands, by the
snapshot of another server or by a restart from its own, its state is the fold of the commands up
to there.  Nothing is assumed about the commands: they need not come from clerks.
-/

namespace ShardedKV.KvRaft

open Services

variable {n : Nat} {system next : System n} {base : List Op}

/-! ## The fold -/

/-- A command of a number that its session has seen only opens the session. -/
def Store.applyOnce (store : Store) (op : Op) : Store :=
  if op.seqNum ≤ store.lastSeq op.clientID then store.openSession op.clientID
  else {
    currentState := op.effect store.currentState,
    clientSeq := Function.update store.clientSeq op.clientID (some op.seqNum) }

/-- The commands one after another, with duplicates suppressed. -/
def Store.fold (commands : List Op) : Store := commands.foldl Store.applyOnce .empty

theorem Store.applyCommand_fst (store : Store) (op : Op) : (store.applyCommand op).1 = store.applyOnce op := by
  unfold Store.applyCommand Store.applyOnce
  simp only [Store.lastSeq_openSession]
  by_cases seen : op.seqNum ≤ store.lastSeq op.clientID
  · simp only [seen, if_true]
  · simp only [seen, if_false]
    -- The number of the command replaces the one with which the session was opened.
    have sessions : Function.update (store.openSession op.clientID).clientSeq op.clientID (some op.seqNum) =
        Function.update store.clientSeq op.clientID (some op.seqNum) := by
      unfold Store.openSession
      split <;> simp
    have opened := store.currentState_openSession op.clientID
    obtain ⟨client, number, key, value, optype⟩ := op
    cases optype <;> simp_all [Store.applyToStateMachine, Store.value, Op.effect]

theorem machine_run_eq_fold (commands : List Op) : machine.run commands = Store.fold commands := by
  unfold Machine.run Store.fold
  congr 1
  funext store op
  exact store.applyCommand_fst op

/-- The store of a replica, or of a snapshot, is the fold of the commands up to an index of the log. -/
def FoldOf (log : List Op) (index : Nat) (store : Store) : Prop :=
  index ≤ log.length ∧ store = Store.fold (log.take index)

theorem foldOf_of_reflects {log : List Op} {index : Nat} {store : Store}
    (reflects : machine.Reflects log store index) : FoldOf log index store :=
  ⟨reflects.inside, reflects.state_eq.trans (machine_run_eq_fold _)⟩

/-! ## Refused snapshots -/

/-- The snapshot case of `applyHandler` with the answer of `CondInstallSnapshot`. -/
def KVServer.snapshotHandler (kv : KVServer) (installs : Bool) (snapshotIndex : Nat) (snapshot : Store) :
    KVServer :=
  if !installs then kv else kv.installSnapshot snapshotIndex snapshot

namespace System

/-- A snapshot message that `CondInstallSnapshot` refuses. -/
def refuse (system : System n) (server : Fin n) (position : Nat) : Option (System n) :=
  let replica := system.replica server
  match system.snapshots[position]? with
  | none => none
  | some (snapshotIndex, snapshot) =>
    if replica.panicked then none
    else some (system.setReplica server
      { replica with server := replica.server.snapshotHandler false snapshotIndex snapshot })

inductive Event (n : Nat) where
  | step (action : Action n)
  | refuse (server : Fin n) (position : Nat)

def handleEvent (system : System n) : Event n → Option (System n)
  | .step action => system.step action
  | .refuse server position => system.refuse server position

def runEvents (system : System n) : List (Event n) → Option (System n)
  | [] => some system
  | event :: events => (system.handleEvent event).bind fun next => next.runEvents events

/-- New servers with a log on which they have agreed. -/
def agreedOn (log : List Op) : System n := { records := log.map .commit }

theorem log_agreedOn (log : List Op) : (agreedOn log : System n).log = log := by
  simp [agreedOn, System.log, Trace.committed, List.filterMap_map, Function.comp_def, Record.entry]

theorem refuse_eq {server : Fin n} {position : Nat} (stepped : system.refuse server position = some next) :
    next = system := by
  simp only [refuse] at stepped
  split at stepped
  · cases stepped
  split at stepped
  · cases stepped
  · cases stepped
    simp [setReplica, KVServer.snapshotHandler]

end System

namespace Replicated

theorem agreedOn (log : List Op) : Replicated log (System.agreedOn log : System n) where
  agreed := by rw [System.log_agreedOn]
  replicas := fun _ => ⟨fun _ => Machine.Reflects.initial _, le_refl _, by rintro _ _ ⟨⟩, .empty⟩
  snapshots := by simp [System.agreedOn]

theorem runEvents (replicated : Replicated base system) {events : List (System.Event n)}
    (ran : system.runEvents events = some next) : Replicated base next := by
  induction events generalizing system with
  | nil =>
    cases ran
    exact replicated
  | cons event events inductionHypothesis =>
    simp only [System.runEvents, Option.bind_eq_some_iff] at ran
    obtain ⟨middle, handled, rest⟩ := ran
    cases event with
    | step action => exact inductionHypothesis (replicated.step handled) rest
    | refuse server position =>
      rw [System.refuse_eq handled] at rest
      exact inductionHypothesis replicated rest

end Replicated

theorem kvraft_snapshots_transparent (log : List Op) (events : List (System.Event n)) (system : System n)
    (ran : (System.agreedOn log).runEvents events = some system) :
    log <+: system.log ∧
    (∀ server, (system.replica server).panicked = false →
      FoldOf system.log (system.replica server).applied (system.replica server).server.store) ∧
    (∀ server index store, (system.replica server).persisted = some (index, store) →
      FoldOf system.log index store) ∧
    ∀ index store, (index, store) ∈ system.snapshots → FoldOf system.log index store := by
  have replicated := (Replicated.agreedOn log).runEvents ran
  refine ⟨replicated.agreed, fun server running => ?_, fun server index store saved => ?_,
    fun index store member => ?_⟩
  · exact foldOf_of_reflects ((replicated.replicas server).reflects running)
  · exact foldOf_of_reflects ((replicated.replicas server).persisted index store saved)
  · exact foldOf_of_reflects (replicated.snapshots _ member)

/-- An `Append` that is twice in the log, and another. -/
def repeatedAppend : List Op :=
  [⟨5, 1, [107], [1], .append⟩, ⟨5, 1, [107], [1], .append⟩, ⟨5, 2, [107], [2], .append⟩]

/-- The second server installs the snapshot of the first at its second offer, receives the first
command late and then the third; the first server restarts from its snapshot. -/
def installing : List (System.Event 2) := [
  .step (.deliver 0 false), .step (.deliver 0 true), .step (.deliver 0 false), .refuse 1 0, .step (.install 1 0),
  .step (.redeliver 1 1 true), .step (.deliver 1 true), .step (.restart 0)]

def installed : System 2 := ((System.agreedOn repeatedAppend).runEvents installing).getD {}

theorem kvraft_snapshots_transparent_installed :
    (installed.replica 0).applied = 2 ∧ (installed.replica 0).server.store.value [107] = [1] ∧
    (installed.replica 1).applied = 3 ∧ (installed.replica 1).server.store.value [107] = [1, 2] ∧
    FoldOf installed.log 2 (installed.replica 0).server.store ∧
    FoldOf installed.log 3 (installed.replica 1).server.store := by
  have transparent := kvraft_snapshots_transparent repeatedAppend installing installed rfl
  exact ⟨rfl, by decide, rfl, by decide, transparent.2.1 0 rfl, transparent.2.1 1 rfl⟩

end ShardedKV.KvRaft
