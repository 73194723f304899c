import ShardedKV.ShardKV.Safety

/-!
# Snapshots do not show in the state of a group's replica

`applyHandler` compares the index of a command with the installed snapshot only for operations and
configurations.  A message about a shard that arrives late is harmless for another reason: it was
logged after its configuration had taken effect, and a state that includes it neither pulls nor
keeps the shard in that configuration any more.
-/

namespace ShardedKV.ShardKV

open ShardCtrler (ServerName)

variable {controller : Controller} {system next : System} {gid : Int}

/-! ## Refused snapshots -/

/-- The snapshot case of `applyHandler` with the answer of `CondInstallSnapshot`. -/
def Server.snapshotHandler (server : Server) (installs : Bool) (snapshotIndex : Nat) (snapshot : GroupState) :
    Server :=
  if !installs then server else server.installSnapshot snapshotIndex snapshot

namespace System

/-- A snapshot message that `CondInstallSnapshot` refuses. -/
def refuse (system : System) (gid : Int) (server : ServerName) (position : Nat) : Option System :=
  let replica := system.replica gid server
  match (system.snapshots gid)[position]? with
  | none => none
  | some (snapshotIndex, snapshot) =>
    if replica.stopped ∨ replica.sending.isSome then none
    else some (system.setReplica gid server
      { replica with server := replica.server.snapshotHandler false snapshotIndex snapshot })

inductive Event where
  | step (action : Action)
  | refuse (gid : Int) (server : ServerName) (position : Nat)

def handleEvent (controller : Controller) (system : System) : Event → Option System
  | .step action => system.step controller action
  | .refuse gid server position => system.refuse gid server position

def runEvents (controller : Controller) (system : System) : List Event → Option System
  | [] => some system
  | event :: events => (system.handleEvent controller event).bind fun next => next.runEvents controller events

theorem refuse_eq {server : ServerName} {position : Nat}
    (stepped : system.refuse gid server position = some next) : next = system := by
  simp only [refuse] at stepped
  split at stepped
  · cases stepped
  split at stepped
  · cases stepped
  · cases stepped
    simp [setReplica, Server.snapshotHandler]

theorem exists_run {events : List Event} (ran : system.runEvents controller events = some next) :
    ∃ actions, system.run controller actions = some next := by
  induction events generalizing system with
  | nil => exact ⟨[], ran⟩
  | cons event events inductionHypothesis =>
    simp only [runEvents, Option.bind_eq_some_iff] at ran
    obtain ⟨middle, handled, rest⟩ := ran
    obtain ⟨actions, runs⟩ := inductionHypothesis rest
    cases event with
    | step action => exact ⟨action :: actions, Option.bind_eq_some_iff.mpr ⟨middle, handled, runs⟩⟩
    | refuse gid server position =>
      rw [refuse_eq handled] at runs
      exact ⟨actions, runs⟩

end System

/-! ## The state of a replica -/

theorem shardkv_snapshots_transparent (controller : Controller) (events : List System.Event) (system : System)
    (ran : System.runEvents controller {} events = some system) :
    (∀ gid server, (machine gid).Reflects (system.log gid) (system.replica gid server).server.kv
      (system.replica gid server).applied) ∧
    (∀ gid server index kv, (system.replica gid server).persisted = some (index, kv) →
      (machine gid).Reflects (system.log gid) kv index) ∧
    ∀ gid server commandIndex next, system.redeliver gid server commandIndex = some next →
      ∃ sending, next = system.setReplica gid server { system.replica gid server with sending } := by
  obtain ⟨actions, runs⟩ := System.exists_run ran
  obtain ⟨protocol, consistent⟩ := System.Reachable.consistent ⟨actions, runs⟩
  refine ⟨fun gid server => (consistent.replicas gid server).reflects,
    fun gid server index kv saved => (consistent.replicas gid server).persisted index kv saved, ?_⟩
  intro gid server commandIndex next stepped
  obtain ⟨sending, same, _⟩ := consistent.redeliver_eq stepped
  exact ⟨sending, same⟩

/-- Group 2 pulls shard 0 and one of its servers takes a snapshot.  Another refuses it, installs it,
receives the late `ShardRequestOperation`, and restarts. -/
def installing : List System.Event :=
  ([.getLastConfig 1 0 2, .commit 1 0, .deliver 1 0 false, .getLastConfig 2 0 2, .commit 2 0, .deliver 2 0 false,
    .getLastConfig 1 0 2, .commit 1 1, .deliver 1 0 false, .getLastConfig 2 0 2, .commit 2 1, .deliver 2 0 false,
    .collect 2 0 false, .spawn 0, .servePull 0, .finishPull 0, .commit 2 2, .deliver 2 0 true] :
    List System.Action).map .step ++
  [.refuse 2 1 0, .step (.install 2 1 0), .step (.redeliver 2 1 3), .step (.redeliver 2 1 2), .step (.restart 2 1)]

def installed : System := (System.runEvents twoOwners {} installing).getD {}

theorem shardkv_snapshots_transparent_installed :
    (installed.replica 2 1).applied = 3 ∧ (installed.replica 2 1).server.kv.config.num = 2 ∧
    (installed.replica 2 1).server.kv.shardsState 0 = .serving ∧
    (installed.replica 2 1).server.kv = (machine 2).run ((installed.log 2).take 3) := by
  have transparent := shardkv_snapshots_transparent twoOwners installing installed rfl
  exact ⟨rfl, rfl, rfl, (transparent.1 2 1).state_eq⟩

end ShardedKV.ShardKV
