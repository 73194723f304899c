import ShardedKV.ShardKV.Configurations
import ShardedKV.ShardKV.Confirmation

/-!
# Where the shards are, and what is handed over

`mergeShardData` clears nothing and `updateShardsState` deletes nothing, so a group has no keys of a
shard it waits for only because it dropped them before it could take the next configuration.  And
`ShardsRequestHandler` answers whether or not it runs at the leader, from a replica that may be
behind, but what it gives away has not changed since the configuration took effect.
-/

namespace ShardedKV.ShardKV

open Services
open ShardCtrler (Shard Config ServerName)
open KvRaft (Op Store)

variable {controller : Controller} {protocol : Protocol} {system next : System} {gid : Int}

/-! ## The state of a shard and the configurations -/

/-- The states of the shards agree with the two configurations, and there are keys only of shards
that the group holds. -/
structure Resident (gid : Int) (kv : GroupState) : Prop where
  serving : ∀ shard, kv.shardsState shard = .serving → kv.config.shards shard = gid
  pulling : ∀ shard, kv.shardsState shard = .pulling →
    kv.config.shards shard = gid ∧ kv.prevConfig.shards shard ≠ gid
  bePulled : ∀ shard, kv.shardsState shard = .bePulled →
    kv.config.shards shard ≠ gid ∧ kv.prevConfig.shards shard = gid
  noServing : ∀ shard, kv.shardsState shard = .noServing → kv.config.shards shard ≠ gid
  keys : ∀ key, kv.store.currentState key ≠ none →
    kv.shardsState (key2shard key) = .serving ∨ kv.shardsState (key2shard key) = .bePulled

theorem GroupState.apply_config (gid : Int) (kv : GroupState) (command : Command) :
    (kv.apply gid command).1.config = kv.config ∨
      ∃ config, command = .configOperation config ∧ TakesEffect kv config ∧
        (kv.apply gid command).1.config = config := by
  cases command with
  | kvOperation op =>
    left
    dsimp only [GroupState.apply]
    split <;> rfl
  | configOperation config =>
    dsimp only [GroupState.apply]
    split
    · rename_i takes
      exact .inr ⟨config, rfl, takes, GroupState.config_updateShardsState _ _⟩
    · exact .inl rfl
  | shardRequestOperation message =>
    left
    dsimp only [GroupState.apply]
    repeat' split
    all_goals rfl
  | shardConfirmOperation message =>
    left
    dsimp only [GroupState.apply]
    repeat' split
    all_goals rfl
  | noOperation => exact .inl rfl

theorem config_of_num_eq_zero {log : List Command} (orderly : Justified (Orderly gid) log)
    (outside : ((machine gid).run log).config.num = 0) : ((machine gid).run log).config = {} := by
  induction log using List.reverseRecOn with
  | nil => rfl
  | append_singleton log command inductionHypothesis =>
    rw [Machine.run_append] at outside ⊢
    rcases GroupState.apply_config gid ((machine gid).run log) command with same | ⟨config, rfl, takes, new⟩
    · exact same.trans (inductionHypothesis orderly.of_append (by rw [← same]; exact outside))
    · -- a configuration that takes effect follows another one, so its number is not 0
      have inTurn := orderly.last takes
      have number : config.num = 0 := by
        rw [← new]
        exact outside
      have := inTurn.number
      omega

theorem GroupRel.resident {kv : GroupState} (rel : GroupRel controller protocol gid kv)
    (invariant : Migration.Invariant (scheme controller) protocol) (valid : gid ≠ 0)
    (fresh : kv.config.num = 0 → kv.config = {}) : Resident gid kv where
  serving := by
    intro shard serves
    obtain ⟨inside, owns⟩ := invariant.holding_owner ((rel.serving_iff shard).mp serves)
    rw [rel.config (by omega)]
    exact owns
  pulling := by
    intro shard pulls
    obtain ⟨inside, owns, owned⟩ := invariant.awaiting_owner ((rel.pulling_iff shard).mp pulls)
    rw [rel.config (by omega), rel.prevConfig inside]
    exact ⟨owns, owned⟩
  bePulled := by
    intro shard gives
    obtain ⟨inside, owns, owned⟩ := invariant.releasing_owner ((rel.bePulled_iff shard).mp gives)
    rw [rel.config (by omega), rel.prevConfig inside]
    exact ⟨owns, owned⟩
  noServing := by
    intro shard idle
    have absent : protocol.phase gid shard = .absent := by rw [rel.phase, idle]; rfl
    by_cases outside : protocol.number gid = 0
    · -- The initial configuration assigns every shard to the group 0.
      rw [fresh (by rw [rel.number, outside])]
      exact Ne.symm valid
    · rw [rel.config outside]
      exact invariant.absent_owner absent (by omega)
  keys := by
    intro key present
    by_contra elsewhere
    -- in the two other states the protocol has no data of the shard
    have vacant : protocol.data gid (key2shard key) = (scheme controller).empty := by
      apply invariant.vacant
      rw [rel.phase]
      cases state : kv.shardsState (key2shard key) with
      | serving => exact absurd (.inl state) elsewhere
      | noServing => exact .inl rfl
      | pulling => exact .inr rfl
      | bePulled => exact absurd (.inr state) elsewhere
    rw [rel.data] at vacant
    have missing := congrFun vacant key
    simp only [restrict, if_true] at missing
    exact present missing

theorem shard_residency (controller : Controller) (system : System)
    (reached : System.Reachable controller system) (gid : Int) (valid : gid ≠ 0) :
    (∀ count, Resident gid ((machine gid).run ((system.log gid).take count))) ∧
    ∀ server, Resident gid (system.replica gid server).server.kv := by
  obtain ⟨protocol, consistent⟩ := reached.consistent
  have resident : ∀ kv index, (machine gid).Reflects (system.log gid) kv index → Resident gid kv := by
    intro kv index reflects
    obtain ⟨earlier, _, invariant, rel⟩ := consistent.mirrored.known reflects
    refine rel.resident invariant valid ?_
    rw [reflects.state_eq]
    exact config_of_num_eq_zero ((reached.orderly gid).take index)
  refine ⟨?_, fun server => resident _ _ (consistent.replicas gid server).reflects⟩
  intro count
  refine resident _ (min count (system.log gid).length) ⟨Nat.min_le_right _ _, ?_⟩
  rw [← List.take_eq_take_min]

theorem shard_residency_movedShard :
    ((machine 1).run ((movedShard.log 1).take 3)).shardsState 0 = .bePulled ∧
    Resident 1 ((machine 1).run ((movedShard.log 1).take 3)) ∧
    Resident 2 (movedShard.replica 2 0).server.kv :=
  ⟨by decide, (shard_residency twoOwners movedShard (System.reachable_after _ _) 1 (by decide)).1 3,
    (shard_residency twoOwners movedShard (System.reachable_after _ _) 2 (by decide)).2 0⟩

/-! ## What is handed over -/

/-- A server of the group gives the reply at some point of the run. -/
def Replied (controller : Controller) (actions : List System.Action) (gid : Int) (args : ShardRequestArgs)
    (reply : ShardRequestReply) : Prop :=
  ∃ earlier system server, earlier <+: actions ∧ System.run controller {} earlier = some system ∧
    reply = (system.replica gid server).server.kv.shardsRequestHandler args

/-- The group has executed the operation. -/
def ExecutedBy (entries : List (Int × Command)) (gid : Int) (op : Op) : Prop :=
  ∃ prior, prior ++ [(gid, .kvOperation op)] <+: entries ∧
    (stateOf gid prior).executes (.kvOperation op) = some op

/-- The numbers are not behind those of the operations that the group has executed on the shard. -/
def CoversExecuted (entries : List (Int × Command)) (gid : Int) (shard : Shard) (clientSeqNum : Nat → Option Nat) :
    Prop :=
  ∀ op, ExecutedBy entries gid op → key2shard op.key = shard →
    op.seqNum ≤ (clientSeqNum op.clientID).getD 0

theorem GroupState.lastSeq_le_apply (gid : Int) (client : Nat) (kv : GroupState) (command : Command) :
    kv.store.lastSeq client ≤ (kv.apply gid command).1.store.lastSeq client := by
  cases command with
  | kvOperation op =>
    dsimp only [GroupState.apply]
    split
    · exact le_refl _
    · dsimp only
      rw [Store.lastSeq_applyCommand]
      split
      · exact Nat.le_max_left _ _
      · exact le_refl _
  | configOperation config =>
    dsimp only [GroupState.apply]
    split
    · dsimp only
      rw [GroupState.store_updateShardsState]
    · exact le_refl _
  | shardRequestOperation message =>
    dsimp only [GroupState.apply]
    repeat' split
    · exact le_refl _
    · dsimp only
      rw [GroupState.lastSeq_mergeClientSeqNum]
      exact Nat.le_max_left _ _
    · exact le_refl _
  | shardConfirmOperation message =>
    dsimp only [GroupState.apply]
    repeat' split
    all_goals exact le_refl _
  | noOperation => exact le_refl _

theorem ExecutedBy.le_lastSeq {entries : List (Int × Command)} {op : Op} (executed : ExecutedBy entries gid op) :
    op.seqNum ≤ (stateOf gid entries).store.lastSeq op.clientID := by
  obtain ⟨prior, inside, runs⟩ := executed
  refine le_trans ?_ (stateOf_mono (GroupState.lastSeq_le_apply gid op.clientID) inside)
  obtain ⟨_, serving, _⟩ := executes_eq_some.mp runs
  rw [stateOf_append_self]
  simp only [GroupState.apply, serving, ne_eq, not_true_eq_false, if_false]
  rw [Store.lastSeq_applyCommand, if_pos rfl]
  exact Nat.le_max_right _ _

theorem ExecutedBy.mono {entries more : List (Int × Command)} {op : Op} (executed : ExecutedBy entries gid op)
    (grows : entries <+: more) : ExecutedBy more gid op := by
  obtain ⟨prior, inside, runs⟩ := executed
  exact ⟨prior, inside.trans grows, runs⟩

theorem Mirrored.payload {entries : List (Int × Command)} (mirrored : Mirrored controller entries protocol)
    {kv : GroupState} {index : Nat} (reflects : (machine gid).Reflects (entriesOf gid entries) kv index)
    {args : ShardRequestArgs} (said : (kv.shardsRequestHandler args).err = .ok) :
    ∃ prior config, TakenAt entries prior gid config args.configNum ∧
      (kv.shardsRequestHandler args).shardData = restrict args.shardIndex
        (stateOf gid (prior ++ [(gid, .configOperation config)])).store.currentState ∧
      CoversExecuted prior gid args.shardIndex (kv.shardsRequestHandler args).clientSeqNum := by
  -- The replica is where the group was after the first `t` entries.
  obtain ⟨t, earlier, _, mirrors, rfl⟩ := mirrored.moment reflects
  have rel := mirrors.groups gid
  unfold GroupState.shardsRequestHandler at said ⊢
  split at said
  · cases said
  split at said
  · rename_i current bePulled
    rw [if_neg current, if_pos bePulled]
    have releasing := (rel.bePulled_iff _).mp bePulled
    have number : args.configNum = earlier.number gid := by
      rw [← rel.number]
      simpa using current
    -- what was offered when the configuration took effect is still there
    obtain ⟨given, offered, _⟩ := mirrors.invariant.retained gid _ releasing
    obtain ⟨_, entered, same⟩ := mirrors.handed _ _ _ _ offered
    rw [(mirrors.invariant.releasing_owner releasing).2.2, ← number] at entered
    obtain ⟨prior, config, point, rfl⟩ := entered.takenAt
    refine ⟨prior, config, point.mono (List.take_prefix _ _), ?_, ?_⟩
    · rw [rel.data] at same
      exact same
    · intro op executed _
      exact (executed.mono ((List.prefix_append _ _).trans point.inside)).le_lastSeq
  · cases said

theorem System.run_append (system : System) (actions more : List System.Action) :
    system.run controller (actions ++ more) =
      (system.run controller actions).bind fun middle => middle.run controller more := by
  simp only [System.run_eq, Transitions.run_append]

theorem System.step_committed_prefix {action : System.Action} (stepped : system.step controller action = some next) :
    system.records.committed <+: next.records.committed := by
  by_cases commits : ∃ place position, action = .commit place position
  · obtain ⟨place, position, rfl⟩ := commits
    simp only [System.step, System.commit] at stepped
    split at stepped <;> cases stepped
    rw [Trace.committed_commit]
    exact List.prefix_append _ _
  · rw [System.step_committed stepped fun place position same => commits ⟨place, position, same⟩]

theorem System.run_committed {actions : List System.Action} (ran : system.run controller actions = some next) :
    system.records.committed <+: next.records.committed := by
  have keeps : ∀ (middle : System) action (next : System),
      system.records.committed <+: middle.records.committed → middle.step controller action = some next →
      system.records.committed <+: next.records.committed :=
    fun middle action next kept stepped => kept.trans (System.step_committed_prefix stepped)
  rw [System.run_eq] at ran
  exact Transitions.run_keeps keeps (List.prefix_refl _) ran

theorem Replied.payload {actions : List System.Action} (ran : System.run controller {} actions = some system)
    {args : ShardRequestArgs} {reply : ShardRequestReply} (replied : Replied controller actions gid args reply)
    (said : reply.err = .ok) : ∃ prior config,
      TakenAt system.records.committed prior gid config args.configNum ∧
      reply.shardData = restrict args.shardIndex
        (stateOf gid (prior ++ [(gid, .configOperation config)])).store.currentState ∧
      CoversExecuted prior gid args.shardIndex reply.clientSeqNum := by
  obtain ⟨earlier, moment, server, ⟨later, rfl⟩, reached, rfl⟩ := replied
  obtain ⟨protocol, consistent⟩ := System.Reachable.consistent ⟨earlier, reached⟩
  obtain ⟨prior, config, point, data, covers⟩ :=
    consistent.mirrored.payload (consistent.replicas gid server).reflects said
  rw [System.run_append, reached, Option.bind_some] at ran
  exact ⟨prior, config, point.mono (System.run_committed ran), data, covers⟩

/-- Any two replies that say OK have the same data: what the group had when it took the configuration. -/
theorem migrated_payload_unique (controller : Controller) (actions : List System.Action) (system : System)
    (ran : System.run controller {} actions = some system) (gid : Int) (number : Nat) (shard : Shard)
    (firstGID secondGID : Int) (first second : ShardRequestReply)
    (firstReplied : Replied controller actions gid ⟨number, shard, firstGID⟩ first) (firstOk : first.err = .ok)
    (secondReplied : Replied controller actions gid ⟨number, shard, secondGID⟩ second)
    (secondOk : second.err = .ok) :
    first.shardData = second.shardData ∧ ∃ prior config,
      TakenAt system.records.committed prior gid config number ∧
      first.shardData = restrict shard
        (stateOf gid (prior ++ [(gid, .configOperation config)])).store.currentState ∧
      CoversExecuted prior gid shard first.clientSeqNum ∧
      CoversExecuted prior gid shard second.clientSeqNum := by
  obtain ⟨prior, config, point, data, covers⟩ := firstReplied.payload ran firstOk
  obtain ⟨prior', config', point', data', covers'⟩ := secondReplied.payload ran secondOk
  obtain ⟨rfl, rfl⟩ := point.unique point'
  exact ⟨data.trans data'.symm, prior, config, point, data, covers, covers'⟩

/-- Group 1 gives shard 0 away; a second server of the group catches up later. -/
def givenShard : List System.Action := [
  .getLastConfig 1 0 2, .commit 1 0, .deliver 1 0 false,
  .invoke 7 (.append [100] [9]), .send 7 1 0, .start 0 true 2, .commit 1 1, .deliver 1 0 false,
  .getLastConfig 1 0 2, .commit 1 2, .deliver 1 0 false,
  .invoke 8 (.put [101] [4]), .send 8 1 0, .start 1 true 4, .commit 1 3, .deliver 1 0 false,
  .deliver 1 1 false, .deliver 1 1 false, .deliver 1 1 false]

theorem migrated_payload_unique_givenShard :
    ∃ system first second, System.run twoOwners {} givenShard = some system ∧
      first = (system.replica 1 0).server.kv.shardsRequestHandler ⟨2, 0, 2⟩ ∧ (system.replica 1 0).applied = 4 ∧
      second = (system.replica 1 1).server.kv.shardsRequestHandler ⟨2, 0, 2⟩ ∧ (system.replica 1 1).applied = 3 ∧
      first.err = .ok ∧ second.err = .ok ∧ first.shardData [100] = some [9] ∧ first.shardData = second.shardData := by
  obtain ⟨system, ran⟩ := Option.isSome_iff_exists.mp
    (show (System.run twoOwners {} givenShard).isSome = true by decide)
  obtain rfl : System.after twoOwners givenShard = system := by rw [System.after, ran]; rfl
  refine ⟨_, _, _, ran, rfl, by decide, rfl, by decide, by decide, by decide, by decide, ?_⟩
  exact (migrated_payload_unique twoOwners givenShard _ ran 1 2 0 2 2 _ _
    ⟨givenShard, _, 0, List.prefix_refl _, ran, rfl⟩ (by decide)
    ⟨givenShard, _, 1, List.prefix_refl _, ran, rfl⟩ (by decide)).1

end ShardedKV.ShardKV
