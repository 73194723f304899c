import ShardedKV.Raft.Transitions
import ShardedKV.Services.AgreedLog

/-!
# The order of the messages on `applyCh`

What a service receives from the `applyChecker` of its server, which snapshots it accepts, and where
it starts: the commands that no accepted snapshot covers come one after the other, none is skipped
and none comes twice, whatever the goroutines of `InstallSnapshot` and the service's own snapshots do
while a batch is being sent.
-/

namespace ShardedKV.Raft

open Cluster (Action)
open Replication (State)
open Services (Justified)

variable {n : Nat} {Command : Type}

/-- What concerns the order of delivery at one service. -/
inductive Delivery where
  /-- The process starts from the restored `lastIncludedIndex`. -/
  | started (lastIncludedIndex : Nat)
  | command (commandIndex : Nat)
  /-- `CondInstallSnapshot` returned true. -/
  | accepted (snapshotIndex : Nat)
deriving DecidableEq, Repr

/-- The last snapshot the service accepted, and the last command beyond it. -/
structure Progress where
  accepted : Nat := 0
  previous : Nat := 0

def Progress.next (progress : Progress) : Delivery → Progress
  | .started lastIncludedIndex => { accepted := lastIncludedIndex, previous := 0 }
  | .command commandIndex =>
    if progress.accepted < commandIndex then { progress with previous := commandIndex } else progress
  | .accepted snapshotIndex => { progress with accepted := snapshotIndex }

def progress (history : List Delivery) : Progress := history.foldl Progress.next {}

/-- A command that the last accepted snapshot does not cover is the one after what the service has. -/
def InTurn (history : List Delivery) (delivery : Delivery) : Prop :=
  ∀ commandIndex, delivery = .command commandIndex → (progress history).accepted < commandIndex →
    commandIndex = max (progress history).previous (progress history).accepted + 1

@[simp] theorem progress_append (history : List Delivery) (delivery : Delivery) :
    progress (history ++ [delivery]) = (progress history).next delivery := by
  simp [progress]

variable [Inhabited Command]

/-- What an action delivers to the service of a server. -/
def Cluster.delivery (server : Fin n) (cluster : Cluster n Command) : Action n Command → Option Delivery
  | .sendCommand actor =>
    if actor = server then
      match (cluster.node server).batch with
      | some (entry :: _, _) => some (.command entry.index)
      | _ => none
    else none
  | .install actor =>
    if actor = server then
      match (cluster.node server).service.installing with
      | some (snapshot, snapshotTerm, snapshotIndex) =>
        if ((cluster.node server).raft.condInstallSnapshot snapshotTerm snapshotIndex snapshot).1 then
          some (.accepted snapshotIndex)
        else none
      | none => none
    else none
  | .restart actor =>
    if actor = server then some (.started (make server (cluster.node server).raft.persister).lastIncludedIndex)
    else none
  | _ => none

/-- The deliveries of a run in their order. -/
def Cluster.deliveries (cluster : Cluster n Command) (server : Fin n) (actions : List (Action n Command)) :
    List Delivery :=
  cluster.observe (fun cluster action seen => seen ++ (cluster.delivery server action).toList) actions []

/-! ## What one step does to a service -/

variable {cluster next : Cluster n Command} {state : State (Fin n) (LogEntry Command)} {server : Fin n}
  {action : Action n Command}

/-- The service of a server after an action that delivers something to it. -/
inductive Served (cluster : Cluster n Command) (server : Fin n) : Option Delivery → Service Command → Prop where
  | nothing (service : Service Command) (applied : service.applied = (cluster.node server).service.applied)
      (lastIncludedIndex : service.lastIncludedIndex = (cluster.node server).service.lastIncludedIndex) :
      Served cluster server none service
  | command (entry : LogEntry Command) (entries : List (LogEntry Command)) (commitIndex : Nat)
      (batch : (cluster.node server).batch = some (entry :: entries, commitIndex)) :
      Served cluster server (some (.command entry.index))
        ((cluster.node server).service.receive (.command entry.command entry.index))
  | accepted (snapshot : Snapshot Command) (snapshotTerm snapshotIndex : Nat)
      (installing : (cluster.node server).service.installing = some (snapshot, snapshotTerm, snapshotIndex))
      (newer : (cluster.node server).raft.commitIndex < snapshotIndex) :
      Served cluster server (some (.accepted snapshotIndex))
        { applied := snapshot.data, lastIncludedIndex := snapshotIndex }
  | started :
      Served cluster server (some (.started (make server (cluster.node server).raft.persister).lastIncludedIndex))
        { applied := (cluster.node server).raft.persister.snapshot.data }

theorem Simulates.step_served (simulates : Simulates cluster state) (step : cluster.step action = some next)
    (server : Fin n) : Served cluster server (cluster.delivery server action) (next.node server).service := by
  have unchanged : Served cluster server none (cluster.node server).service := .nothing _ rfl rfl
  have others : ∀ {actor : Fin n} {node : Node n Command}, actor ≠ server →
      Served cluster server none ((cluster.setNode actor node).node server).service := by
    intro actor node different
    simpa only [Cluster.setNode, Function.update_of_ne (Ne.symm different)] using unchanged
  have served : ∀ {actor : Fin n} {node : Node n Command},
      node.service.applied = (cluster.node actor).service.applied →
      node.service.lastIncludedIndex = (cluster.node actor).service.lastIncludedIndex →
      Served cluster server none ((cluster.setNode actor node).node server).service := by
    intro actor node applied lastIncludedIndex
    by_cases equal : actor = server
    · subst equal
      simpa only [Cluster.setNode, Function.update_self] using Served.nothing _ applied lastIncludedIndex
    · exact others equal
  cases action with
  | sendCommand actor =>
    simp only [Cluster.step, Cluster.sendCommand] at step
    split at step
    · rename_i entry entries commitIndex batch notInstalling
      cases step
      by_cases equal : actor = server
      · subst equal
        simpa [Cluster.delivery, Cluster.setNode, batch] using Served.command entry entries commitIndex batch
      · simpa only [Cluster.delivery, if_neg equal] using others equal
    · cases step
  | install actor =>
    simp only [Cluster.step, Cluster.install] at step
    split at step
    · cases step
    rename_i snapshot snapshotTerm snapshotIndex installing
    cases step
    by_cases equal : actor = server
    · subst equal
      by_cases newer : (cluster.node actor).raft.commitIndex < snapshotIndex
      · have taken := Served.accepted snapshot snapshotTerm snapshotIndex installing newer
        simpa [Cluster.delivery, Cluster.setNode, installing, condInstallSnapshot, Nat.not_le.mpr newer] using taken
      · have refused : Served cluster actor none { (cluster.node actor).service with installing := none } :=
          .nothing _ rfl rfl
        simpa [Cluster.delivery, Cluster.setNode, installing, condInstallSnapshot, Nat.not_lt.mp newer] using refused
    · simpa only [Cluster.delivery, if_neg equal] using others equal
  | restart actor =>
    simp only [Cluster.step, Option.some.injEq] at step
    subst step
    by_cases equal : actor = server
    · subst equal
      simpa [Cluster.delivery, Cluster.restart, Cluster.setNode, Node.boot] using Served.started
    · simpa only [Cluster.delivery, if_neg equal, Cluster.restart] using others equal
  | sendSnapshot actor position =>
    simp only [Cluster.step, Cluster.sendSnapshot] at step
    split at step
    · rename_i message located notInstalling
      cases step
      -- only messages of `InstallSnapshot` wait here, and the service just takes note of them
      obtain ⟨snapshot, snapshotTerm, snapshotIndex, rfl, -⟩ :=
        (simulates.node actor).service.sends message (List.mem_of_getElem? located)
      exact served rfl rfl
    · cases step
  | _ =>
    simp only [Cluster.step, Cluster.electionTimeout, Cluster.replicate, Cluster.handle, Cluster.deliver,
      Cluster.fail, Cluster.start, Cluster.takeBatch, Cluster.finishBatch, Cluster.snapshot] at step
    repeat' split at step
    all_goals cases step <;> first | exact unchanged | exact served rfl rfl

/-- The first entry of the batch in flight is the next one for the service, or an accepted snapshot covers it. -/
theorem Simulates.batch_head (simulates : Simulates cluster state) {entry : LogEntry Command}
    {entries : List (LogEntry Command)} {commitIndex : Nat}
    (batch : (cluster.node server).batch = some (entry :: entries, commitIndex)) :
    entry.index = (cluster.node server).service.applied.length + 1 ∨
      entry.index < (cluster.node server).service.lastIncludedIndex := by
  obtain ⟨_, first, total, _, index, _, position⟩ := simulates.batch_entry batch
  omega

/-! ## Delivery in order -/

/-- What the deliveries so far say about the service. -/
structure Delivered (history : List Delivery) (service : Service Command) : Prop where
  inTurn : Justified InTurn history
  reached : max (progress history).previous (progress history).accepted = service.applied.length
  accepted : service.lastIncludedIndex ≤ (progress history).accepted

theorem Simulates.delivered_step (simulates : Simulates cluster state) {history : List Delivery}
    {delivery : Option Delivery} {service : Service Command} (served : Served cluster server delivery service)
    (delivered : Delivered history (cluster.node server).service) :
    Delivered (history ++ delivery.toList) service := by
  have node := simulates.node server
  obtain ⟨inTurn, reached, accepted⟩ := delivered
  cases served with
  | nothing _ applied lastIncludedIndex =>
    rw [Option.toList_none, List.append_nil]
    exact ⟨inTurn, applied ▸ reached, lastIncludedIndex ▸ accepted⟩
  | command entry entries commitIndex batch =>
    have included := node.service.included
    rw [Option.toList_some]
    rcases simulates.batch_head batch with isNext | covered
    · have counted : (progress history).next (.command entry.index) =
          { progress history with previous := entry.index } := if_pos (by omega)
      have received : (cluster.node server).service.receive (.command entry.command entry.index) =
          { (cluster.node server).service with
            applied := (cluster.node server).service.applied ++ [entry.command] } := if_neg (by omega)
      refine ⟨inTurn.append ?_, ?_, ?_⟩
      · rintro _ ⟨⟩ -
        rw [isNext, reached]
      · rw [progress_append, counted, received, List.length_append, List.length_singleton]
        dsimp only
        omega
      · rw [progress_append, counted, received]
        exact accepted
    · -- a batch copied before the snapshot was accepted: the service skips what is left of it
      have skipped : (progress history).next (.command entry.index) = progress history := if_neg (by omega)
      have ignored : (cluster.node server).service.receive (.command entry.command entry.index) =
          (cluster.node server).service := if_pos (by omega)
      rw [ignored]
      refine ⟨inTurn.append ?_, ?_, ?_⟩
      · rintro _ ⟨⟩ beyond
        omega
      · rw [progress_append, skipped]
        exact reached
      · rw [progress_append, skipped]
        exact accepted
  | accepted snapshot snapshotTerm snapshotIndex installing newer =>
    have snapshotted := node.service.installing _ _ _ installing
    have length : snapshot.data.length = snapshotIndex := by
      rw [snapshotted.data, List.length_map, snapshotted.length]
    have committed := node.service.committed
    rw [Option.toList_some]
    refine ⟨inTurn.append nofun, ?_, ?_⟩
    · simp only [progress_append, Progress.next]
      omega
    · simp only [progress_append, Progress.next, le_refl]
  | started =>
    obtain ⟨-, -, restored, -⟩ := node.log.reboot node.role
    have length : (cluster.node server).raft.persister.snapshot.data.length =
        (cluster.node server).raft.lastIncludedIndex := by
      rw [node.log.snapshot.data, List.length_map, node.log.snapshot.length]
    rw [Option.toList_some]
    refine ⟨inTurn.append nofun, ?_, Nat.zero_le _⟩
    simp only [progress_append, Progress.next, restored]
    omega

/-- The commands a service receives beyond the snapshots it accepted are consecutive, and every
retained entry carries the index it has in the log. -/
theorem delivery_in_order {actions : List (Action n Command)} {cluster : Cluster n Command}
    (run : Cluster.initial.run actions = some cluster) (server : Fin n) :
    Justified InTurn (Cluster.initial.deliveries server actions) ∧
    ∀ realIndex entry, 0 < realIndex → (cluster.node server).raft.log[realIndex]? = some entry →
      entry.index = (cluster.node server).raft.lastIncludedIndex + realIndex := by
  constructor
  · have delivered : Delivered (Cluster.initial.deliveries server actions) (cluster.node server).service := by
      refine Cluster.run_induction run ?_ ?_
      · exact ⟨Justified.nil, rfl, le_rfl⟩
      · intro earlier middle next action ran delivered step
        obtain ⟨state, -, simulates⟩ := reachable_simulates ⟨earlier, ran⟩
        rw [Cluster.deliveries, Cluster.observe_append _ _ ran step]
        exact simulates.delivered_step (simulates.step_served step server) delivered
    exact delivered.inTurn
  · intro realIndex entry positive located
    obtain ⟨state, -, simulates⟩ := reachable_simulates ⟨actions, run⟩
    obtain ⟨position, rfl⟩ : ∃ position, realIndex = position + 1 := ⟨realIndex - 1, by omega⟩
    rw [(simulates.node server).log.compacted.log_getElem?] at located
    rw [simulates.entry_index located, Nat.add_assoc]

/-- Server 0 commits an entry with server 1, takes a snapshot of it and sends that to server 2. -/
def snapshotting : List (Action 3 Nat) :=
  [.electionTimeout 0, .handle 0, .deliver 0, .start 0 7, .replicate 0 1, .handle 2, .deliver 2, .takeBatch 0,
    .sendCommand 0, .finishBatch 0, .snapshot 0 1, .replicate 0 2, .handle 3]

/-- Server 2 installs the snapshot.  The next entry is committed with server 2, which applies it. -/
def caughtUp : List (Action 3 Nat) := snapshotting ++
  [.sendSnapshot 2 0, .install 2, .deliver 3, .start 0 8, .replicate 0 2, .handle 4, .deliver 4, .replicate 0 2,
    .handle 5, .takeBatch 2, .sendCommand 2]

theorem delivery_in_order_caughtUp :
    (Cluster.initial.run caughtUp).isSome ∧
    Cluster.initial.deliveries 2 caughtUp = [.accepted 1, .command 2] ∧ InTurn [.accepted 1] (.command 2) := by
  have possible : (Cluster.initial.run caughtUp).isSome := by decide +kernel
  have deliveries : Cluster.initial.deliveries 2 caughtUp = [.accepted 1, .command 2] := by decide +kernel
  refine ⟨possible, deliveries, ?_⟩
  have inTurn := (delivery_in_order (Cluster.run_eq_some_after possible) 2).1
  rw [deliveries] at inTurn
  exact inTurn 1 (.command 2) rfl

end ShardedKV.Raft
