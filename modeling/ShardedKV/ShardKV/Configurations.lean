import ShardedKV.ShardKV.Safety

/-!
# Configurations take effect one at a time

`applyHandler` does not ask whether the shards are ready, and takes any configuration while it has
none.  The leader asks before it proposes, and what it has seen lasts: a group that is ready stays
ready until the configuration it has proposed, or an equal one, takes effect.
-/

namespace ShardedKV.ShardKV

open Services
open ShardCtrler (Shard Config ServerName)

variable {controller : Controller} {protocol : Protocol} {system next : System} {gid : Int}

/-- The condition under which `applyHandler` takes the configuration. -/
def TakesEffect (kv : GroupState) (config : Config) : Prop :=
  kv.config.num = 0 ∨ config.num = kv.config.num + 1

/-- The configuration is the next one, and no migration of the one before is pending. -/
structure InTurn (kv : GroupState) (config : Config) : Prop where
  number : config.num = kv.config.num + 1
  settled : ∀ shard, kv.shardsState shard ≠ .pulling ∧ kv.shardsState shard ≠ .bePulled

/-- What holds of an entry when it is applied after the entries before it. -/
def Orderly (gid : Int) (before : List Command) : Command → Prop
  | .configOperation config =>
    TakesEffect ((machine gid).run before) config → InTurn ((machine gid).run before) config
  | _ => True

theorem GroupRel.settled {kv : GroupState} (rel : GroupRel controller protocol gid kv) {shard : Shard}
    (ready : protocol.phase gid shard = .holding ∨ protocol.phase gid shard = .absent) :
    kv.shardsState shard ≠ .pulling ∧ kv.shardsState shard ≠ .bePulled := by
  rw [Ne, rel.pulling_iff, Ne, rel.bePulled_iff]
  rcases ready with holding | absent
  · simp [holding]
  · simp [absent]

theorem Legit.inTurn {entries : List (Int × Command)} {config : Config}
    (mirrors : Mirrors controller entries protocol)
    (legit : Legit controller protocol gid (.configOperation config))
    (takes : TakesEffect (stateOf gid entries) config) : InTurn (stateOf gid entries) config := by
  have rel := mirrors.groups gid
  obtain ⟨number, positive, rfl, bound, ready⟩ := legit
  unfold TakesEffect at takes
  rw [controller.num_eq, rel.number] at takes
  have follows : number = protocol.number gid + 1 := by omega
  refine ⟨by rw [controller.num_eq, rel.number, follows], fun shard => rel.settled ?_⟩
  rcases ready follows with first | settled
  · -- Before its first configuration a group has no shards.
    exact .inr (mirrors.invariant.outside_absent (by omega) shard)
  · exact settled shard

/-! ## Steps and runs -/

theorem System.step_committed {action : System.Action} (stepped : system.step controller action = some next)
    (quiet : ∀ gid position, action ≠ .commit gid position) :
    next.records.committed = system.records.committed := by
  cases action with
  | commit gid position => exact absurd rfl (quiet gid position)
  | invoke client operation =>
    simp only [step, invoke] at stepped
    split at stepped <;> cases stepped
    exact Trace.committed_invoke
  | receive client =>
    simp only [step, receive] at stepped
    repeat' split at stepped
    all_goals cases stepped
    · rfl
    · exact Trace.committed_respond
  | _ =>
    -- The other steps record nothing.
    simp only [step, send, giveUp, start, recheck, register, timeout, answer, cleanup, deliver, redeliver, push,
      install, restart, getLastConfig, raftLogChecker, collect, spawn, servePull, finishPull, losePull, serveConfirm,
      finishConfirm, loseConfirm] at stepped
    repeat' split at stepped
    all_goals cases stepped
    all_goals rfl

theorem Consistent.step_orderly (consistent : Consistent controller False protocol system)
    (orderly : ∀ gid, Justified (Orderly gid) (system.log gid)) {action : System.Action}
    (stepped : system.step controller action = some next) (gid : Int) :
    Justified (Orderly gid) (next.log gid) := by
  by_cases commits : ∃ place position, action = .commit place position
  · obtain ⟨place, position, rfl⟩ := commits
    simp only [System.step, System.commit] at stepped
    split at stepped
    · cases stepped
    rename_i command found
    cases stepped
    have permitted := consistent.proposed place command (List.mem_of_getElem? found)
    rw [System.log_commit]
    by_cases here : place = gid
    · subst here
      have last : Orderly place (system.log place) command := by
        cases command with
        | configOperation config =>
          exact fun takes => Legit.inTurn consistent.mirrored.now permitted takes
        | kvOperation op => trivial
        | shardRequestOperation message => trivial
        | shardConfirmOperation message => trivial
        | noOperation => trivial
      simpa using (orderly place).append last
    · simpa [here] using orderly gid
  · have same := System.step_committed stepped (fun place position same => commits ⟨place, position, same⟩)
    simpa only [System.log, same] using orderly gid

theorem Consistent.run_orderly (consistent : Consistent controller False protocol system)
    (orderly : ∀ gid, Justified (Orderly gid) (system.log gid)) {actions : List System.Action}
    (ran : system.run controller actions = some next) : ∀ gid, Justified (Orderly gid) (next.log gid) := by
  have keeps : ∀ (middle : System) action (next : System),
      (∃ between, Consistent controller False between middle) ∧ (∀ gid, Justified (Orderly gid) (middle.log gid)) →
      middle.step controller action = some next →
      (∃ after, Consistent controller False after next) ∧ ∀ gid, Justified (Orderly gid) (next.log gid) := by
    rintro middle action next ⟨⟨between, kept⟩, orderlyThere⟩ stepped
    obtain ⟨after, _, keptAfter⟩ := kept.step False.elim stepped
    exact ⟨⟨after, keptAfter⟩, kept.step_orderly orderlyThere stepped⟩
  rw [System.run_eq] at ran
  exact (Transitions.run_keeps keeps ⟨⟨protocol, consistent⟩, orderly⟩ ran).2

theorem System.Reachable.orderly (reached : System.Reachable controller system) (gid : Int) :
    Justified (Orderly gid) (system.log gid) := by
  obtain ⟨actions, ran⟩ := reached
  exact Consistent.initial.run_orderly (fun _ => Justified.nil) ran gid

/-- Every configuration of a group's log that takes effect is in turn, and so is every one that a
replica takes when it is delivered. -/
theorem configurations_in_turn (controller : Controller) (system : System)
    (reached : System.Reachable controller system) (gid : Int) :
    ((machine gid).run []).config.num = 0 ∧
    (∀ position config, (system.log gid)[position]? = some (.configOperation config) →
      TakesEffect ((machine gid).run ((system.log gid).take position)) config →
      InTurn ((machine gid).run ((system.log gid).take position)) config) ∧
    ∀ server config, (system.log gid)[(system.replica gid server).applied]? = some (.configOperation config) →
      TakesEffect (system.replica gid server).server.kv config →
      InTurn (system.replica gid server).server.kv config := by
  have orderly := reached.orderly gid
  refine ⟨rfl, fun position config found => orderly position _ found, ?_⟩
  intro server config found
  obtain ⟨protocol, consistent⟩ := reached.consistent
  rw [(consistent.replicas gid server).reflects.state_eq]
  exact orderly _ _ found

/-- Two leaders of group 1 propose the first configuration, and one of them then the second. -/
def twoLeaders : System := System.after twoOwners [
  .getLastConfig 1 0 2, .getLastConfig 1 1 2, .commit 1 0, .commit 1 1, .deliver 1 0 false, .deliver 1 0 false,
  .getLastConfig 1 0 2, .commit 1 2]

theorem configurations_in_turn_twoLeaders :
    ¬ TakesEffect ((machine 1).run ((twoLeaders.log 1).take 1)) (twoOwners.config 1) ∧
    InTurn ((machine 1).run ((twoLeaders.log 1).take 2)) (twoOwners.config 2) ∧
    InTurn (twoLeaders.replica 1 0).server.kv (twoOwners.config 2) := by
  have inTurn := configurations_in_turn twoOwners twoLeaders (System.reachable_after _ _) 1
  refine ⟨?_, inTurn.2.1 2 _ rfl (.inr rfl), inTurn.2.2 0 _ rfl (.inr rfl)⟩
  unfold TakesEffect
  decide

end ShardedKV.ShardKV
