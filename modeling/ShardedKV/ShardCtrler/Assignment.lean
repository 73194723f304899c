import ShardedKV.ShardCtrler.Retries

/-!
# Every shard has an owner

When there is a group, `rebalance` gives every shard to one.  So in a history that never leaves the
controller without groups and moves shards only to groups it knows, every configuration after the
initial one assigns every shard to one of its groups.
-/

namespace ShardedKV.ShardCtrler

open Services (Justified)

/-! ## No shard is forgotten -/

namespace Rebalancing

variable {liveGroup : List Int} {state after : Rebalancing}

/-- Every shard is free or with a live group. -/
def Covers (liveGroup : List Int) (state : Rebalancing) : Prop :=
  ∀ shard, shard ∈ state.freeShards ∨ ∃ gid ∈ liveGroup, shard ∈ state.gitToShards.get gid

theorem Bounded.minGID_live (bounded : state.Bounded liveGroup) (noZero : 0 ∉ liveGroup)
    (nonempty : liveGroup ≠ []) : (Extremes.of liveGroup state.gitToShards.get).minGID ∈ liveGroup := by
  have bounds := Extremes.bounds liveGroup state.gitToShards.get
  rcases bounds.minGID with ⟨unset, _⟩ | ⟨live, _⟩
  · exfalso
    obtain ⟨gid, member⟩ := List.exists_mem_of_ne_nil liveGroup nonempty
    have large := bounds.fewest gid member
    have whole := state.gitToShards.le_weight id (List.mem_toFinset.mpr member)
    simp only [Bounded, noZero, if_false] at bounded
    simp only [id_eq, NShards] at *
    omega
  · exact live

theorem Covers.next (covers : state.Covers liveGroup)
    (live : (Extremes.of liveGroup state.gitToShards.get).minGID ∈ liveGroup)
    (goesOn : state.turn liveGroup = .next after) : after.Covers liveGroup := by
  intro shard
  rcases turn_eq_next goesOn with ⟨given, rest, free, rfl⟩ | ⟨free, _, given, last, _, _, map⟩
  · -- A free shard goes to the smallest group.
    rcases covers shard with waiting | ⟨gid, member, held⟩
    · rw [free] at waiting
      rcases List.mem_cons.mp waiting with rfl | later
      · exact .inr ⟨_, live, by simp [ShardMap.get_set]⟩
      · exact .inl later
    · refine .inr ⟨gid, member, ?_⟩
      simp only [ShardMap.get_set]
      split
      · rename_i here
        rw [here] at held
        exact List.mem_append_left _ held
      · exact held
  · -- The last shard of the largest group goes to the smallest one.
    rcases covers shard with waiting | ⟨gid, member, held⟩
    · simp [free] at waiting
    · right
      rw [map]
      by_cases moved : shard = given
      · exact ⟨_, live, by simp [ShardMap.get_set, moved]⟩
      · refine ⟨gid, member, ?_⟩
        have stays : shard ∈ (state.gitToShards.set (Extremes.of liveGroup state.gitToShards.get).maxGID
            (state.gitToShards.get (Extremes.of liveGroup state.gitToShards.get).maxGID).dropLast).get gid := by
          rw [ShardMap.get_set]
          split
          · rename_i here
            rw [here, ← List.dropLast_append_getLast? _ last] at held
            exact (List.mem_append.mp held).resolve_right (by simpa using moved)
          · exact held
        simp only [ShardMap.get_set _ _ gid (_ ++ _)]
        split
        · rename_i here
          rw [← here]
          exact List.mem_append_left _ stays
        · exact stays

theorem covers_initial (shards : Shard → Int) (groups : List (Int × List ServerName)) :
    Covers (liveGroups groups) (.start shards groups) := by
  intro shard
  have spec := getGIDtoShardsMap_spec shards groups
  by_cases owned : shards shard ∈ groups.map Prod.fst
  · refine .inr ⟨shards shard, mem_liveGroups.mpr owned, ?_⟩
    rw [spec.2 _ owned]
    simp
  · left
    simp only [List.mem_filter, List.mem_finRange, true_and, decide_eq_true_eq]
    right
    rwa [spec.1]

end Rebalancing

/-! ## The assignment that is built from the map -/

theorem foldl_update_const (shards : List Shard) (gid : Int) (before : Shard → Int) (shard : Shard) :
    shards.foldl (fun newShards shardIndex => Function.update newShards shardIndex gid) before shard =
      if shard ∈ shards then gid else before shard := by
  induction shards generalizing before with
  | nil => simp
  | cons first shards inductionHypothesis =>
    rw [List.foldl_cons, inductionHypothesis]
    by_cases later : shard ∈ shards
    · simp [later]
    · by_cases here : shard = first <;> simp [later, here]

theorem Rebalancing.assignment_spec (liveGroup : List Int) (state : Rebalancing) (shard : Shard) :
    state.assignment liveGroup shard ∈ liveGroup ∧
        shard ∈ state.gitToShards.get (state.assignment liveGroup shard) ∨
      state.assignment liveGroup shard = 0 ∧ ∀ gid ∈ liveGroup, shard ∉ state.gitToShards.get gid := by
  unfold assignment
  induction liveGroup using List.reverseRecOn with
  | nil => simp
  | append_singleton liveGroup gid inductionHypothesis =>
    simp only [List.foldl_append, List.foldl_cons, List.foldl_nil, foldl_update_const]
    by_cases held : shard ∈ state.gitToShards.get gid
    · simp [held]
    · rw [if_neg held]
      rcases inductionHypothesis with ⟨assigned, holds⟩ | ⟨none, unheld⟩
      · exact .inl ⟨List.mem_append_left _ assigned, holds⟩
      · refine .inr ⟨none, ?_⟩
        intro other member
        rcases List.mem_append.mp member with old | new
        · exact unheld other old
        · rw [List.mem_singleton.mp new]
          exact held

theorem rebalance_owner (shards : Shard → Int) (groups : List (Int × List ServerName)) (nonempty : groups ≠ [])
    {balanced : (Shard → Int) × List Shard}
    (ended : rebalance (getGIDtoShardsMap shards groups) shards = some balanced) (shard : Shard) :
    balanced.1 shard ∈ groups.map Prod.fst := by
  obtain ⟨final, ran, rfl⟩ := Option.map_eq_some_iff.mp (rebalance_eq shards groups ▸ ended)
  rw [← mem_liveGroups]
  rcases final.assignment_spec (liveGroups groups) shard with ⟨assigned, _⟩ | ⟨unassigned, unheld⟩
  · exact assigned
  · dsimp only
    rw [unassigned]
    -- Only a group 0 could have left a shard unassigned.
    by_contra noZero
    have keeps : ∀ state after : Rebalancing,
        state.Bounded (liveGroups groups) ∧ state.Covers (liveGroups groups) →
        state.turn (liveGroups groups) = .next after →
        after.Bounded (liveGroups groups) ∧ after.Covers (liveGroups groups) := by
      rintro state after ⟨bounded, covers⟩ goesOn
      have live := bounded.minGID_live noZero (liveGroups_ne_nil nonempty)
      exact ⟨(bounded.next goesOn).1, covers.next live goesOn⟩
    obtain ⟨⟨_, covers⟩, left⟩ := Loops.run_invariant keeps
      ⟨Rebalancing.bounded_initial shards groups, Rebalancing.covers_initial shards groups⟩ ran
    rcases covers shard with waiting | ⟨gid, member, held⟩
    · simp [(Rebalancing.turn_eq_leave left).2] at waiting
    · exact unheld gid member held

/-! ## Histories -/

/-- Some group stays, and no shard is moved to a group that is not there. -/
def Args.KeepsGroups (groups : List (Int × List ServerName)) : Args → Prop
  | .join servers => groups ≠ [] ∨ servers ≠ []
  | .leave gids => ∃ gid ∈ groups.map Prod.fst, gid ∉ gids
  | .move _ gid => gid ∈ groups.map Prod.fst
  | .query _ => True

/-- An operation after the operations before it; one with number 0 has no effect. -/
def Careful (before : List Op) (op : Op) : Prop :=
  op.seqNum ≠ 0 → ∀ sc, replay before = some sc → op.args.KeepsGroups sc.configs.last.groups

namespace Configs

theorem addGroups_ne_nil {groups servers : List (Int × List ServerName)}
    (some_group : groups ≠ [] ∨ servers ≠ []) : addGroups groups servers ≠ [] := by
  rcases List.eq_nil_or_concat servers with rfl | ⟨others, entry, rfl⟩
  · exact some_group.resolve_right (fun others => others rfl)
  · simp [addGroups]

theorem mem_deleteGroups {groups : List (Int × List ServerName)} {gids : List Int}
    {entry : Int × List ServerName} : entry ∈ deleteGroups groups gids ↔ entry ∈ groups ∧ entry.1 ∉ gids := by
  unfold deleteGroups
  induction gids generalizing groups with
  | nil => simp
  | cons gid gids inductionHypothesis =>
    rw [List.foldl_cons, inductionHypothesis]
    simp only [List.mem_filter, decide_eq_true_eq, List.mem_cons, not_or, and_assoc]

theorem mem_keys_deleteGroups {groups : List (Int × List ServerName)} {gids : List Int} {gid : Int} :
    gid ∈ (deleteGroups groups gids).map Prod.fst ↔ gid ∈ groups.map Prod.fst ∧ gid ∉ gids := by
  simp only [List.mem_map, mem_deleteGroups]
  constructor
  · rintro ⟨entry, ⟨member, kept⟩, rfl⟩
    exact ⟨⟨entry, member, rfl⟩, kept⟩
  · rintro ⟨⟨entry, member, rfl⟩, kept⟩
    exact ⟨entry, ⟨member, kept⟩, rfl⟩

theorem deleteGroups_ne_nil {groups : List (Int × List ServerName)} {gids : List Int}
    (stays : ∃ gid ∈ groups.map Prod.fst, gid ∉ gids) : deleteGroups groups gids ≠ [] := by
  obtain ⟨gid, kept⟩ := stays
  exact List.ne_nil_of_mem (List.mem_map.mp (mem_keys_deleteGroups.mpr kept)).choose_spec.1

/-- The configuration assigns every shard to one of its groups. -/
def Owned (config : Config) : Prop := ∀ shard, config.shards shard ∈ config.groups.map Prod.fst

/-- An operation adds a configuration or none.  The new one is owned if the operation keeps groups
and the last one is owned or has no groups. -/
theorem applyToStateMachine_cases {configs after : Configs} {args : Args}
    (made : configs.applyToStateMachine args = some after) :
    after = configs ∨ ∃ shards groups, after = configs.add shards groups ∧
      (args.KeepsGroups configs.last.groups → configs.last.groups = [] ∨ Owned configs.last →
        ∀ shard, shards shard ∈ groups.map Prod.fst) := by
  have rebalanced : ∀ groups, configs.addRebalanced groups = some after →
      ∃ shards, after = configs.add shards groups ∧
        (groups ≠ [] → ∀ shard, shards shard ∈ groups.map Prod.fst) := by
    intro groups added
    obtain ⟨balanced, ended, rfl⟩ := Option.map_eq_some_iff.mp added
    exact ⟨balanced.1, rfl, fun nonempty => rebalance_owner _ groups nonempty ended⟩
  cases args with
  | join servers =>
    obtain ⟨shards, same, owned⟩ := rebalanced _ made
    exact .inr ⟨shards, _, same, fun keeps _ => owned (addGroups_ne_nil keeps)⟩
  | leave gids =>
    obtain ⟨shards, same, owned⟩ := rebalanced _ made
    exact .inr ⟨shards, _, same, fun keeps _ => owned (deleteGroups_ne_nil keeps)⟩
  | move shard gid =>
    simp only [applyToStateMachine] at made
    split at made
    · cases made
      refine .inr ⟨_, _, rfl, ?_⟩
      intro keeps before place
      rcases before with none | owned
      · simp [Args.KeepsGroups, none] at keeps
      · rw [Function.update_apply]
        split
        · exact keeps
        · exact owned place
    · cases made
  | query num =>
    cases made
    exact .inl rfl

theorem getElem?_last (configs : Configs) : configs.list[configs.list.length - 1]? = some configs.last := by
  rw [← List.getLast?_eq_getElem?, List.getLast?_eq_some_getLast configs.nonempty]
  rfl

end Configs

theorem State.applyHandler_configs {sc after : State} {op : Op} (applied : sc.applyHandler op = some after) :
    after.configs = sc.configs ∨
      op.seqNum ≠ 0 ∧ sc.configs.applyToStateMachine op.args = some after.configs := by
  simp only [applyHandler] at applied
  split at applied
  · cases applied
    exact .inl (configs_openSession _ _)
  · rename_i fresh
    obtain ⟨configs, made, rfl⟩ := Option.map_eq_some_iff.mp applied
    rw [configs_openSession] at made
    exact .inr ⟨by omega, made⟩

theorem configs_numbered {history : List Op} {sc : State} (replayed : replay history = some sc) :
    Justified (fun before config => config.num = before.length) sc.configs.list := by
  induction history using List.reverseRecOn generalizing sc with
  | nil =>
    cases replayed
    exact Justified.nil.append rfl
  | append_singleton history op inductionHypothesis =>
    rw [replay_append] at replayed
    obtain ⟨before, reached, applied⟩ := Option.bind_eq_some_iff.mp replayed
    have numbered := inductionHypothesis reached
    rcases State.applyHandler_configs applied with same | ⟨_, made⟩
    · rwa [same]
    rcases Configs.applyToStateMachine_cases made with same | ⟨shards, groups, same, _⟩
    · rwa [same]
    rw [same]
    refine numbered.append ?_
    have last := numbered _ _ before.configs.getElem?_last
    have positive := List.length_pos_of_ne_nil before.configs.nonempty
    simp only [List.length_take] at last
    dsimp only
    omega

theorem num_eq_of_getElem? {history : List Op} {sc : State} (replayed : replay history = some sc) {number : Nat}
    {config : Config} (found : sc.configs.list[number]? = some config) : config.num = number := by
  have numbered : config.num = (sc.configs.list.take number).length := configs_numbered replayed number config found
  rwa [List.length_take, Nat.min_eq_left (Nat.le_of_lt (List.getElem?_eq_some_iff.mp found).1)] at numbered

theorem replay_append_list (log more : List Op) :
    replay (log ++ more) = (replay log).bind fun sc => more.foldlM State.applyHandler sc := by
  simp [replay, List.foldlM_append]

theorem State.applyHandler_grows {sc after : State} {op : Op} (applied : sc.applyHandler op = some after) :
    sc.configs.list <+: after.configs.list := by
  rcases State.applyHandler_configs applied with same | ⟨_, made⟩
  · rw [same]
  rcases Configs.applyToStateMachine_cases made with same | ⟨shards, groups, same, _⟩
  · rw [same]
  · rw [same]
    exact List.prefix_append _ _

theorem State.foldlM_grows {sc after : State} {more : List Op}
    (applied : more.foldlM State.applyHandler sc = some after) :
    sc.configs.list <+: after.configs.list := by
  induction more generalizing sc with
  | nil =>
    cases applied
    exact List.prefix_refl _
  | cons op more inductionHypothesis =>
    rw [List.foldlM_cons] at applied
    obtain ⟨middle, first, rest⟩ := Option.bind_eq_some_iff.mp applied
    exact (State.applyHandler_grows first).trans (inductionHypothesis rest)

theorem replay_grows {log longer : List Op} {sc later : State} (begins : log <+: longer)
    (reached : replay log = some sc) (further : replay longer = some later) :
    sc.configs.list <+: later.configs.list := by
  obtain ⟨more, rfl⟩ := begins
  rw [replay_append_list, reached] at further
  exact State.foldlM_grows further

theorem getElem?_of_replay {log longer : List Op} {sc later : State} (begins : log <+: longer)
    (reached : replay log = some sc) (further : replay longer = some later) {number : Nat} {config : Config}
    (found : sc.configs.list[number]? = some config) : later.configs.list[number]? = some config := by
  obtain ⟨added, whole⟩ := replay_grows begins reached further
  rw [← whole, List.getElem?_append_left (List.getElem?_eq_some_iff.mp found).1, found]

theorem Configs.getConfig_of_lt (configs : Configs) {number : Nat} {config : Config}
    (found : configs.list[number]? = some config) : configs.getConfig number = some config := by
  have inside : number < configs.list.length := (List.getElem?_eq_some_iff.mp found).1
  unfold getConfig
  rw [if_neg (by omega), if_neg (by omega), Int.toNat_natCast, found]

theorem configs_owned {history : List Op} {sc : State} (replayed : replay history = some sc)
    (careful : Justified Careful history) :
    Justified (fun before config => before = [] ∧ config.groups = [] ∨ Configs.Owned config) sc.configs.list := by
  induction history using List.reverseRecOn generalizing sc with
  | nil =>
    cases replayed
    exact Justified.nil.append (.inl ⟨rfl, rfl⟩)
  | append_singleton history op inductionHypothesis =>
    rw [replay_append] at replayed
    obtain ⟨before, reached, applied⟩ := Option.bind_eq_some_iff.mp replayed
    have owned := inductionHypothesis reached careful.of_append
    rcases State.applyHandler_configs applied with same | ⟨effective, made⟩
    · rwa [same]
    rcases Configs.applyToStateMachine_cases made with same | ⟨shards, groups, same, assigned⟩
    · rwa [same]
    rw [same]
    refine owned.append (.inr (assigned (careful.last effective before reached) ?_))
    exact (owned _ _ before.configs.getElem?_last).imp And.right id

end ShardedKV.ShardCtrler
