import ShardedKV.Transitions.Runs
import ShardedKV.ShardKV.Clients
import ShardedKV.ShardKV.Loops
import ShardedKV.ShardKV.Replicas

/-!
# Every run keeps the groups consistent
-/

namespace ShardedKV.ShardKV

open Services
open ShardCtrler (Shard Config ServerName)
open KvRaft (Op Request Operation)
open Migration (Extends)

variable {controller : Controller} {attentive : Prop} {protocol : Protocol} {system next : System} {gid : Int}

theorem System.run_eq (system : System) (actions : List System.Action) :
    system.run controller actions = Transitions.run (System.step controller) system actions :=
  Transitions.eq_run (fun _ => rfl) (fun _ _ _ => rfl) system actions

namespace Consistent

theorem initial : Consistent controller attentive (Migration.initial (scheme controller)) {} where
  mirrored := ⟨.initial, fun t => ⟨_, .refl _, by simpa using Mirrors.initial⟩⟩
  explained := Justified.nil
  timely := fun _ => Justified.nil
  kept := fun _ => Justified.nil
  disciplined := Disciplined.initial
  replicas := fun gid _ => ⟨Machine.Reflects.initial _, le_refl _, by rintro _ _ ⟨⟩, .empty, by rintro _ _ ⟨⟩⟩
  snapshots := by simp
  proposed := by simp
  calls := by simp
  clerks := fun _ => ⟨fun _ positive less => by simp at less; omega, by rintro _ ⟨⟩⟩
  pulls := by simp
  confirms := by simp

theorem step (consistent : Consistent controller attentive protocol system) {action : System.Action}
    (asks : attentive → system.asksOwner action = true)
    (stepped : system.step controller action = some next) :
    ∃ after, Extends protocol after ∧ Consistent controller attentive after next := by
  have still : Consistent controller attentive protocol next →
      ∃ after, Extends protocol after ∧ Consistent controller attentive after next :=
    fun kept => ⟨protocol, .refl protocol, kept⟩
  cases action with
  | invoke client operation => exact still (consistent.invoke stepped)
  | send client gid server => exact still (consistent.send stepped)
  | giveUp client =>
    cases stepped
    exact still (consistent.uncall client)
  | receive client => exact still (consistent.receive stepped)
  | start id isLeader index => exact still (consistent.start stepped)
  | recheck id => exact still (consistent.recheck stepped)
  | register id => exact still (consistent.register stepped)
  | timeout id => exact still (consistent.timeout stepped)
  | answer id => exact still (consistent.answer stepped)
  | cleanup id => exact still (consistent.cleanup stepped)
  | commit gid position => exact consistent.commit stepped
  | deliver gid server takeSnapshot => exact still (consistent.deliver stepped)
  | redeliver gid server commandIndex => exact still (consistent.redeliver stepped)
  | push gid server => exact still (consistent.push stepped)
  | install gid server position => exact still (consistent.install stepped)
  | restart gid server =>
    cases stepped
    exact still (consistent.restart gid server)
  | getLastConfig gid server latest => exact still (consistent.getLastConfig stepped)
  | raftLogChecker gid =>
    cases stepped
    exact still (consistent.propose trivial)
  | collect gid server confirming => exact still (consistent.collect stepped)
  | spawn id => exact still (consistent.spawn asks stepped)
  | servePull id => exact still (consistent.servePull stepped)
  | finishPull id => exact still (consistent.finishPull stepped)
  | losePull id => exact still (consistent.losePull stepped)
  | serveConfirm id isLeader => exact still (consistent.serveConfirm stepped)
  | finishConfirm id => exact still (consistent.finishConfirm stepped)
  | loseConfirm id => exact still (consistent.loseConfirm stepped)

theorem run (consistent : Consistent controller False protocol system) {actions : List System.Action}
    (ran : system.run controller actions = some next) : ∃ after, Consistent controller False after next := by
  have keeps : ∀ (middle : System) action (next : System), (∃ between, Consistent controller False between middle) →
      middle.step controller action = some next → ∃ after, Consistent controller False after next := by
    rintro middle action next ⟨between, kept⟩ stepped
    obtain ⟨after, _, keptAfter⟩ := kept.step False.elim stepped
    exact ⟨after, keptAfter⟩
  rw [System.run_eq] at ran
  exact Transitions.run_keeps keeps ⟨protocol, consistent⟩ ran

theorem runAttentively (consistent : Consistent controller True protocol system)
    {actions : List System.Action} (ran : system.runAttentively controller actions = some next) :
    ∃ after, Consistent controller True after next := by
  induction actions generalizing system protocol with
  | nil =>
    cases ran
    exact ⟨protocol, consistent⟩
  | cons action actions inductionHypothesis =>
    simp only [System.runAttentively, Option.ite_none_right_eq_some, Option.bind_eq_some_iff] at ran
    obtain ⟨asks, middle, stepped, rest⟩ := ran
    obtain ⟨after, _, kept⟩ := consistent.step (fun _ => asks) stepped
    exact inductionHypothesis kept rest

end Consistent

theorem System.Reachable.consistent (reached : System.Reachable controller system) :
    ∃ protocol, Consistent controller False protocol system := by
  obtain ⟨actions, ran⟩ := reached
  exact Consistent.initial.run ran

theorem System.ReachableAttentively.consistent (reached : System.ReachableAttentively controller system) :
    ∃ protocol, Consistent controller True protocol system := by
  obtain ⟨actions, ran⟩ := reached
  exact Consistent.initial.runAttentively ran

end ShardedKV.ShardKV
