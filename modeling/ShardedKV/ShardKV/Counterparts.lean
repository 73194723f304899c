import ShardedKV.ShardCtrler.Assignment
import ShardedKV.ShardKV.Safety

/-!
# The other side of a migration

`updateShardsState` makes a shard `PULLING` or `BEPULLED` whenever its owner changes, except in the
first configuration.  There is a group to pull from, or one that will confirm, if the controller's
configurations assign the shard to groups they list; a controller that has lost all its groups, or
has moved the shard to a group it does not know, leaves a group waiting for nobody.
-/

namespace ShardedKV.ShardKV

open Services
open ShardCtrler (Shard Config Configs replay Careful)

variable {protocol : Protocol} {gid : Int}

/-! ## The controller's configurations -/

/-- What `Query` returns once the controller has the configurations.  Those still to come stand as
repetitions of the last. -/
def Controller.ofConfigs (configs : Configs) : Controller where
  config := fun number => { configs.list.getD number configs.last with num := number }
  num_eq := fun _ => rfl

namespace Controller

theorem config_ofConfigs {history : List ShardCtrler.Op} {sc : ShardCtrler.State}
    (replayed : replay history = some sc) {number : Nat} {config : Config}
    (found : sc.configs.list[number]? = some config) : (ofConfigs sc.configs).config number = config := by
  have numbered := ShardCtrler.num_eq_of_getElem? replayed found
  simp only [ofConfigs, List.getD_eq_getElem?_getD, found, Option.getD_some]
  rw [← numbered]

/-- The owner of a shard changes only in a configuration that the controller has made. -/
theorem lt_length_of_change {configs : Configs} {number : Nat} {shard : Shard}
    (changes : ((ofConfigs configs).config (number + 1)).shards shard ≠
      ((ofConfigs configs).config number).shards shard) : number + 1 < configs.list.length := by
  by_contra beyond
  apply changes
  have last : configs.list.getD number configs.last = configs.last := by
    rw [List.getD_eq_getElem?_getD]
    by_cases final : number = configs.list.length - 1
    · rw [final, configs.getElem?_last, Option.getD_some]
    · rw [List.getElem?_eq_none (by omega), Option.getD_none]
  have later : configs.list.getD (number + 1) configs.last = configs.last := by
    rw [List.getD_eq_getElem?_getD, List.getElem?_eq_none (by omega), Option.getD_none]
  simp only [ofConfigs, last, later]

theorem owned_ofConfigs {history : List ShardCtrler.Op} {sc : ShardCtrler.State}
    (replayed : replay history = some sc) (careful : Justified Careful history) {number : Nat}
    (positive : 1 ≤ number) (inside : number < sc.configs.list.length) :
    Configs.Owned ((ofConfigs sc.configs).config number) := by
  have found := List.getElem?_eq_getElem inside
  rw [config_ofConfigs replayed found]
  rcases ShardCtrler.configs_owned replayed careful number _ found with ⟨first, _⟩ | owned
  · have lengths := congrArg List.length first
    simp only [List.length_take, List.length_nil] at lengths
    omega
  · exact owned

end Controller

/-! ## Pending migrations -/

/-- There is a group to pull from, and one that will confirm. -/
def HasCounterparts (kv : GroupState) : Prop :=
  ∀ shard,
    (kv.shardsState shard = .pulling → kv.prevConfig.shards shard ∈ kv.prevConfig.groups.map Prod.fst) ∧
    (kv.shardsState shard = .bePulled → kv.config.shards shard ∈ kv.config.groups.map Prod.fst)

theorem Known.hasCounterparts {history : List ShardCtrler.Op} {sc : ShardCtrler.State}
    (replayed : replay history = some sc) (careful : Justified Careful history) {kv : GroupState}
    (known : Known (.ofConfigs sc.configs) protocol gid kv) : HasCounterparts kv := by
  obtain ⟨earlier, _, invariant, rel⟩ := known
  -- A shard whose owner changed has owners in both configurations.
  have owned : ∀ shard, 2 ≤ earlier.number gid →
      ((Controller.ofConfigs sc.configs).config (earlier.number gid)).shards shard ≠
        ((Controller.ofConfigs sc.configs).config (earlier.number gid - 1)).shards shard →
      Configs.Owned kv.prevConfig ∧ Configs.Owned kv.config := by
    intro shard second changes
    rw [← Nat.sub_add_cancel (show 1 ≤ earlier.number gid by omega), Nat.add_sub_cancel] at changes
    have inside := Controller.lt_length_of_change changes
    rw [rel.prevConfig second, rel.config (by omega)]
    exact ⟨Controller.owned_ofConfigs replayed careful (by omega) (by omega),
      Controller.owned_ofConfigs replayed careful (by omega) (by omega)⟩
  intro shard
  refine ⟨fun pulling => ?_, fun bePulled => ?_⟩
  · obtain ⟨second, owns, unowned⟩ := invariant.awaiting_owner ((rel.pulling_iff shard).mp pulling)
    exact (owned shard second (fun same => unowned (same.symm.trans owns))).1 shard
  · obtain ⟨second, unowned, owns⟩ := invariant.releasing_owner ((rel.bePulled_iff shard).mp bePulled)
    exact (owned shard second (fun same => unowned (same.trans owns))).2 shard

theorem pending_migration_counterparts (history : List ShardCtrler.Op) (sc : ShardCtrler.State)
    (replayed : replay history = some sc) (careful : Justified Careful history) (system : System)
    (reached : System.Reachable (.ofConfigs sc.configs) system) (gid : Int) :
    (∀ before, before <+: system.log gid → HasCounterparts ((machine gid).run before)) ∧
    ∀ server, HasCounterparts (system.replica gid server).server.kv := by
  obtain ⟨protocol, consistent⟩ := reached.consistent
  refine ⟨fun before inside => ?_, fun server => (consistent.known gid server).hasCounterparts replayed careful⟩
  have reflects : (machine gid).Reflects (system.log gid) ((machine gid).run before) before.length :=
    ⟨inside.length_le, by rw [← List.prefix_iff_eq_take.mp inside]⟩
  exact (consistent.mirrored.known reflects).hasCounterparts replayed careful

/-- A run of the groups while the controller has the configurations of the history. -/
def servedBy (history : List ShardCtrler.Op) (actions : List System.Action) : System :=
  (replay history).elim {} fun sc => System.after (.ofConfigs sc.configs) actions

theorem reachable_servedBy {history : List ShardCtrler.Op} {sc : ShardCtrler.State}
    (replayed : replay history = some sc) (actions : List System.Action) :
    System.Reachable (.ofConfigs sc.configs) (servedBy history actions) := by
  simp only [servedBy, replayed, Option.elim_some]
  exact System.reachable_after _ _

/-- A group takes the first two configurations. -/
def takeTwo (gid : Int) : List System.Action :=
  [.getLastConfig gid 0 2, .commit gid 0, .deliver gid 0 false, .getLastConfig gid 0 2, .commit gid 1,
    .deliver gid 0 false]

/-- Half of the shards of group 1 go to group 2. -/
def secondGroup : List ShardCtrler.Op := [⟨.join [(1, [0])], 1, 7⟩, ⟨.join [(2, [0])], 2, 7⟩]

theorem pending_migration_counterparts_secondGroup :
    ((servedBy secondGroup (takeTwo 1 ++ takeTwo 2)).replica 1 0).server.kv.shardsState 9 = .bePulled ∧
    ((servedBy secondGroup (takeTwo 1 ++ takeTwo 2)).replica 2 0).server.kv.shardsState 9 = .pulling ∧
    ∀ gid server, HasCounterparts
      ((servedBy secondGroup (takeTwo 1 ++ takeTwo 2)).replica gid server).server.kv := by
  obtain ⟨sc, replayed⟩ := Option.isSome_iff_exists.mp (show (replay secondGroup).isSome = true by decide +kernel)
  have careful : Justified Careful secondGroup := by
    have first : Justified Careful [⟨.join [(1, [0])], 1, 7⟩] :=
      Justified.nil.append fun _ _ _ => .inr (by simp)
    exact first.append fun _ _ _ => .inr (by simp)
  refine ⟨by decide +kernel, by decide +kernel, fun gid server => ?_⟩
  exact (pending_migration_counterparts secondGroup sc replayed careful _
    (reachable_servedBy replayed _) gid).2 server

/-- All groups leave. -/
def allLeave : List ShardCtrler.Op := [⟨.join [(1, [0])], 1, 7⟩, ⟨.leave [1], 2, 7⟩]

/-- The first configuration has no groups. -/
def groupless : List ShardCtrler.Op := [⟨.leave [], 1, 7⟩, ⟨.join [(1, [0])], 2, 7⟩]

/-- A shard is moved to a group that has not joined. -/
def strayMove : List ShardCtrler.Op := [⟨.join [(1, [0])], 1, 7⟩, ⟨.move 0 5, 2, 7⟩]

/-- Group 1 after the first two configurations of the history. -/
def groupAfter (history : List ShardCtrler.Op) : GroupState :=
  (machine 1).run ((servedBy history (takeTwo 1)).log 1)

theorem pending_migration_without_counterpart :
    (∀ history ∈ [allLeave, groupless, strayMove], ∃ sc, replay history = some sc ∧
      System.Reachable (.ofConfigs sc.configs) (servedBy history (takeTwo 1)) ∧
      ¬ HasCounterparts (groupAfter history)) ∧
    ((groupAfter allLeave).shardsState 0 = .bePulled ∧ (groupAfter allLeave).config.shards 0 = 0 ∧
      (groupAfter allLeave).config.groups = []) ∧
    ((groupAfter groupless).shardsState 0 = .pulling ∧ (groupAfter groupless).prevConfig.num = 1 ∧
      (groupAfter groupless).prevConfig.shards 0 = 0 ∧ (groupAfter groupless).prevConfig.groups = []) ∧
    ((groupAfter strayMove).shardsState 0 = .bePulled ∧ (groupAfter strayMove).config.shards 0 = 5 ∧
      (groupAfter strayMove).config.groups.map Prod.fst = [1]) := by
  have left : (groupAfter allLeave).shardsState 0 = .bePulled ∧ (groupAfter allLeave).config.shards 0 = 0 ∧
      (groupAfter allLeave).config.groups = [] := by decide +kernel
  have started : (groupAfter groupless).shardsState 0 = .pulling ∧ (groupAfter groupless).prevConfig.num = 1 ∧
      (groupAfter groupless).prevConfig.shards 0 = 0 ∧ (groupAfter groupless).prevConfig.groups = [] := by
    decide +kernel
  have moved : (groupAfter strayMove).shardsState 0 = .bePulled ∧ (groupAfter strayMove).config.shards 0 = 5 ∧
      (groupAfter strayMove).config.groups.map Prod.fst = [1] := by decide +kernel
  have replays : ∀ history ∈ [allLeave, groupless, strayMove], (replay history).isSome = true := by
    decide +kernel
  refine ⟨fun history listed => ?_, left, started, moved⟩
  obtain ⟨sc, replayed⟩ := Option.isSome_iff_exists.mp (replays history listed)
  refine ⟨sc, replayed, reachable_servedBy replayed _, fun counterparts => ?_⟩
  simp only [List.mem_cons, List.not_mem_nil, or_false] at listed
  rcases listed with rfl | rfl | rfl
  · simpa [left.2.2] using (counterparts 0).2 left.1
  · simpa [started.2.2.2] using (counterparts 0).1 started.1
  · simpa [moved.2.1, moved.2.2] using (counterparts 0).2 moved.1

end ShardedKV.ShardKV
