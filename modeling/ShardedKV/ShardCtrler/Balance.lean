import ShardedKV.Loads.Assignment
import ShardedKV.ShardCtrler.Assignment

/-!
# `rebalance` keeps every shard once and ends balanced

The loop has the shards in two places, the map of the groups and the list of the free ones.  Without
a group 0, which the source uses for "no owner", they hold every shard exactly once at every turn.
When the loop is left no shard is free and the groups differ by at most one.
-/

namespace ShardedKV.ShardCtrler

open Loads (load Even Balanced)

/-! ## What a turn does to the lists of the groups -/

namespace Rebalancing

variable {liveGroup : List Int} {state after : Rebalancing}

/-- One shard goes to a smallest group: a free one, or the last one of a largest group. -/
inductive Hands (liveGroup : List Int) (state after : Rebalancing) (target : Int) : Prop where
  | give (shard : Shard) (rest : List Shard) (free : state.freeShards = shard :: rest)
      (left : after.freeShards = rest)
      (get : after.gitToShards.get = Function.update state.gitToShards.get target
        (state.gitToShards.get target ++ [shard]))
  | move (source : Int) (live : source ∈ liveGroup)
      (largest : ∀ gid ∈ liveGroup, (state.gitToShards.get gid).length ≤ (state.gitToShards.get source).length)
      (apart : (state.gitToShards.get target).length + 2 ≤ (state.gitToShards.get source).length)
      (shard : Shard) (kept : List Shard) (last : state.gitToShards.get source = kept ++ [shard])
      (free : state.freeShards = []) (left : after.freeShards = [])
      (get : after.gitToShards.get =
        Function.update (Function.update state.gitToShards.get source kept) target
          (state.gitToShards.get target ++ [shard]))

/-- The group that takes the shard is a smallest one, and the shard is the last of the moved ones. -/
theorem Bounded.hands (bounded : state.Bounded liveGroup) (noZero : 0 ∉ liveGroup) (nonempty : liveGroup ≠ [])
    (goesOn : state.turn liveGroup = .next after) :
    ∃ target ∈ liveGroup, (∀ gid ∈ liveGroup,
        (state.gitToShards.get target).length ≤ (state.gitToShards.get gid).length) ∧
      Hands liveGroup state after target ∧ ∃ shard, after.moveShards = state.moveShards ++ [shard] ∧
        after.gitToShards.get target = state.gitToShards.get target ++ [shard] := by
  have live := bounded.minGID_live noZero nonempty
  have bounds := Extremes.bounds liveGroup state.gitToShards.get
  have least := (bounded.minGID_small live).1
  refine ⟨_, live, ?_, ?_⟩
  · intro gid member
    have := bounds.fewest gid member
    omega
  rcases turn_eq_next goesOn with ⟨shard, rest, free, rfl⟩ | ⟨free, unbalanced, shard, last, none_free, moved, map⟩
  · exact ⟨.give shard rest free rfl rfl, shard, rfl, Function.update_self ..⟩
  · have nonneg := bounds.minShards_nonneg
    obtain ⟨sourceLive, largest⟩ := bounds.maxGID.resolve_left fun empty => by omega
    have kept := (List.dropLast_append_getLast? _ last).symm
    -- the sizes differ by two, so these are two groups
    have apart : (Extremes.of liveGroup state.gitToShards.get).minGID ≠
        (Extremes.of liveGroup state.gitToShards.get).maxGID := by
      intro same
      rw [same] at least
      omega
    refine ⟨.move _ sourceLive ?_ (by omega) shard _ kept free none_free ?_, shard, moved, ?_⟩
    · intro gid member
      have := bounds.most gid member
      omega
    · rw [map]
      simp only [ShardMap.set, Function.update_of_ne apart]
    · rw [map]
      simp only [ShardMap.set, Function.update_of_ne apart, Function.update_self]

/-! ## Every shard is in one place -/

def Partitions (liveGroup : List Int) (state : Rebalancing) : Prop :=
  ∀ shard, state.freeShards.count shard +
    ∑ gid ∈ liveGroup.toFinset, (state.gitToShards.get gid).count shard = 1

theorem Partitions.next (partitions : state.Partitions liveGroup) {target : Int} (live : target ∈ liveGroup)
    (hands : Hands liveGroup state after target) : after.Partitions liveGroup := by
  intro shard
  have before := partitions shard
  have targetIn := List.mem_toFinset.mpr live
  cases hands with
  | give given rest free left get =>
    have sums := sum_update (List.count shard) state.gitToShards.get targetIn
      (state.gitToShards.get target ++ [given])
    rw [← get] at sums
    rw [free] at before
    simp only [left, List.count_cons, List.count_append, List.count_nil] at before sums ⊢
    omega
  | move source sourceLive largest apart given kept last free left get =>
    have other : target ≠ source := by
      rintro rfl
      omega
    have loses := sum_update (List.count shard) state.gitToShards.get (List.mem_toFinset.mpr sourceLive) kept
    have gains := sum_update (List.count shard) (Function.update state.gitToShards.get source kept) targetIn
      (state.gitToShards.get target ++ [given])
    rw [← get, Function.update_of_ne other] at gains
    rw [last] at loses
    rw [free] at before
    simp only [left, List.count_cons, List.count_append, List.count_nil] at before loses gains ⊢
    omega

theorem partitions_initial (shards : Shard → Int) {groups : List (Int × List ServerName)}
    (noZero : 0 ∉ liveGroups groups) : Partitions (liveGroups groups) (.start shards groups) := by
  intro shard
  have spec := getGIDtoShardsMap_spec shards groups
  have once : ∀ chosen : Shard → Bool, ((List.finRange NShards).filter chosen).count shard =
      if chosen shard then 1 else 0 := by
    intro chosen
    by_cases here : chosen shard = true
    · rw [List.count_filter here, if_pos here]
      exact List.count_eq_one_of_mem (List.nodup_finRange _) (List.mem_finRange _)
    · rw [if_neg here, List.count_eq_zero]
      simp [here]
  have held : ∀ gid ∈ (liveGroups groups).toFinset,
      ((getGIDtoShardsMap shards groups).get gid).count shard = if gid = shards shard then 1 else 0 := by
    intro gid member
    rw [spec.2 gid (mem_liveGroups.mp (List.mem_toFinset.mp member)), once]
    simp [eq_comm]
  rw [once, Finset.sum_congr rfl held, Finset.sum_ite_eq']
  simp only [spec.1, ← mem_liveGroups, List.mem_toFinset, decide_eq_true_eq]
  -- a shard of a live group is in its list, and every other one is free
  by_cases owned : shards shard ∈ liveGroups groups
  · have assigned : shards shard ≠ 0 := fun zero => noZero (zero ▸ owned)
    simp [owned, assigned]
  · simp [owned]

theorem Partitions.holder_unique (partitions : state.Partitions liveGroup) {one other : Int} (oneIn : one ∈ liveGroup)
    (otherIn : other ∈ liveGroup) {shard : Shard} (inOne : shard ∈ state.gitToShards.get one)
    (inOther : shard ∈ state.gitToShards.get other) : one = other := by
  by_contra apart
  have total := partitions shard
  rw [← Finset.add_sum_erase _ _ (List.mem_toFinset.mpr oneIn)] at total
  have further := Finset.single_le_sum (f := fun gid => (state.gitToShards.get gid).count shard)
    (fun _ _ => Nat.zero_le _) (Finset.mem_erase.mpr ⟨Ne.symm apart, List.mem_toFinset.mpr otherIn⟩)
  have first := List.count_pos_iff.mpr inOne
  have second := List.count_pos_iff.mpr inOther
  omega

/-- With no free shard left, a shard is with exactly one group. -/
theorem Partitions.exists_unique (partitions : state.Partitions liveGroup) (none_free : state.freeShards = [])
    (shard : Shard) : ∃ gid ∈ liveGroup, ∀ other ∈ liveGroup,
      (state.gitToShards.get other).count shard = if other = gid then 1 else 0 := by
  have total := partitions shard
  rw [none_free, List.count_nil, Nat.zero_add] at total
  obtain ⟨gid, member, held⟩ := Finset.exists_ne_zero_of_sum_ne_zero (by rw [total]; decide)
  rw [← Finset.add_sum_erase _ _ member] at total
  have elsewhere : ∑ other ∈ liveGroup.toFinset.erase gid, (state.gitToShards.get other).count shard = 0 := by
    omega
  refine ⟨gid, List.mem_toFinset.mp member, ?_⟩
  intro other inside
  split
  · rename_i same
    rw [same]
    omega
  · rename_i apart
    exact Finset.sum_eq_zero_iff.mp elsewhere other
      (Finset.mem_erase.mpr ⟨apart, List.mem_toFinset.mpr inside⟩)

theorem leave_balanced (left : state.turn liveGroup = .leave) :
    Balanced liveGroup.toFinset fun gid => (state.gitToShards.get gid).length := by
  have bounds := Extremes.bounds liveGroup state.gitToShards.get
  have near := (turn_eq_leave left).1
  intro one oneIn other otherIn
  have most := bounds.most one (List.mem_toFinset.mp oneIn)
  have fewest := bounds.fewest other (List.mem_toFinset.mp otherIn)
  dsimp only
  omega

end Rebalancing

/-! ## The new assignment -/

namespace Rebalancing

variable {groups : List (Int × List ServerName)} {state : Rebalancing} {newShards : Shard → Int}

/-- The assignment is the one that the map describes. -/
structure Describes (groups : List (Int × List ServerName)) (state : Rebalancing) (newShards : Shard → Int) :
    Prop where
  assigned : ∀ shard, newShards shard ∈ groups.map Prod.fst
  owned : ∀ gid ∈ groups.map Prod.fst, ∀ shard, newShards shard = gid ↔ shard ∈ state.gitToShards.get gid
  nodup : ∀ gid ∈ groups.map Prod.fst, (state.gitToShards.get gid).Nodup

theorem Partitions.describes (partitions : state.Partitions (liveGroups groups))
    (none_free : state.freeShards = []) :
    Describes groups state (state.assignment (liveGroups groups)) := by
  -- the last loop writes each shard once, for the one group that has it
  have owner : ∀ shard, ∃ gid ∈ liveGroups groups, state.assignment (liveGroups groups) shard = gid ∧
      ∀ other ∈ liveGroups groups, (state.gitToShards.get other).count shard = if other = gid then 1 else 0 := by
    intro shard
    obtain ⟨gid, member, once⟩ := partitions.exists_unique none_free shard
    refine ⟨gid, member, ?_, once⟩
    rcases state.assignment_spec (liveGroups groups) shard with ⟨live, held⟩ | ⟨_, unheld⟩
    · by_contra apart
      have count := once _ live
      rw [if_neg apart, List.count_eq_zero] at count
      exact count held
    · have count := once gid member
      rw [if_pos rfl] at count
      exact absurd (List.count_pos_iff.mp (by omega)) (unheld gid member)
  refine ⟨?_, ?_, ?_⟩
  · intro shard
    obtain ⟨gid, member, same, _⟩ := owner shard
    rw [same]
    exact mem_liveGroups.mp member
  · intro gid live shard
    obtain ⟨holder, _, same, once⟩ := owner shard
    have count := once gid (mem_liveGroups.mpr live)
    rw [same]
    constructor
    · rintro rfl
      rw [if_pos rfl] at count
      exact List.count_pos_iff.mp (by omega)
    · intro held
      by_contra apart
      rw [if_neg (Ne.symm apart), List.count_eq_zero] at count
      exact count held
  · intro gid live
    rw [List.nodup_iff_count_le_one]
    intro shard
    obtain ⟨_, _, _, once⟩ := owner shard
    rw [once gid (mem_liveGroups.mpr live)]
    split <;> omega

theorem Describes.load_eq (describes : Describes groups state newShards) {gid : Int}
    (live : gid ∈ groups.map Prod.fst) : load newShards gid = (state.gitToShards.get gid).length := by
  rw [load, ← List.toFinset_card_of_nodup (describes.nodup gid live)]
  congr 1
  ext shard
  simp only [Finset.mem_filter, Finset.mem_univ, true_and, List.mem_toFinset]
  exact describes.owned gid live shard

end Rebalancing

/-- What every turn keeps holds when the loop is left, and its map then describes the new assignment. -/
theorem rebalance_spec {groups : List (Int × List ServerName)} (shards : Shard → Int) (nonempty : groups ≠ [])
    (noZero : 0 ∉ groups.map Prod.fst) {invariant : Rebalancing → Prop}
    (start : invariant (.start shards groups))
    (keeps : ∀ state after target, invariant state → target ∈ liveGroups groups →
      (∀ gid ∈ liveGroups groups, (state.gitToShards.get target).length ≤ (state.gitToShards.get gid).length) →
      Rebalancing.Hands (liveGroups groups) state after target → invariant after) :
    ∃ final newShards moveShards, rebalance (getGIDtoShardsMap shards groups) shards = some (newShards, moveShards) ∧
      invariant final ∧ final.Describes groups newShards ∧
      Balanced (groups.map Prod.fst).toFinset (fun gid => (final.gitToShards.get gid).length) := by
  obtain ⟨⟨newShards, moveShards⟩, ended⟩ := Option.isSome_iff_exists.mp (rebalance_isSome shards groups)
  obtain ⟨final, ran, made⟩ := Option.map_eq_some_iff.mp (rebalance_eq shards groups ▸ ended)
  cases made
  have without : 0 ∉ liveGroups groups := fun zero => noZero (mem_liveGroups.mp zero)
  -- the caller's invariant goes along with the two that say whom a turn gives a shard
  have turns : ∀ state after : Rebalancing,
      state.Bounded (liveGroups groups) ∧ state.Partitions (liveGroups groups) ∧ invariant state →
      state.turn (liveGroups groups) = .next after →
      after.Bounded (liveGroups groups) ∧ after.Partitions (liveGroups groups) ∧ invariant after := by
    rintro state after ⟨bounded, partitions, holds⟩ goesOn
    obtain ⟨target, live, smallest, hands, -⟩ := bounded.hands without (liveGroups_ne_nil nonempty) goesOn
    exact ⟨(bounded.next goesOn).1, partitions.next live hands, keeps _ _ _ holds live smallest hands⟩
  obtain ⟨⟨_, partitions, holds⟩, left⟩ := Loops.run_invariant turns
    ⟨Rebalancing.bounded_initial shards groups, Rebalancing.partitions_initial shards without, start⟩ ran
  refine ⟨final, _, _, ended, holds, partitions.describes (Rebalancing.turn_eq_leave left).2, ?_⟩
  rw [← toFinset_liveGroups]
  exact Rebalancing.leave_balanced left

theorem Rebalancing.Describes.even {groups : List (Int × List ServerName)} {state : Rebalancing}
    {newShards : Shard → Int} (describes : Describes groups state newShards)
    (balanced : Balanced (groups.map Prod.fst).toFinset fun gid => (state.gitToShards.get gid).length) :
    Even (groups.map Prod.fst).toFinset newShards where
  assigned := fun shard => List.mem_toFinset.mpr (describes.assigned shard)
  balanced := by
    intro one oneIn other otherIn
    rw [describes.load_eq (List.mem_toFinset.mp oneIn), describes.load_eq (List.mem_toFinset.mp otherIn)]
    exact balanced one oneIn other otherIn

theorem rebalance_even {groups : List (Int × List ServerName)} (shards : Shard → Int) (nonempty : groups ≠ [])
    (noZero : 0 ∉ groups.map Prod.fst) :
    ∃ newShards moveShards, rebalance (getGIDtoShardsMap shards groups) shards = some (newShards, moveShards) ∧
      Even (groups.map Prod.fst).toFinset newShards := by
  obtain ⟨final, newShards, moveShards, ended, _, describes, balanced⟩ :=
    rebalance_spec shards nonempty noZero (trivial : (fun _ => True) (Rebalancing.start shards groups))
      fun _ _ _ _ _ _ _ => trivial
  exact ⟨newShards, moveShards, ended, describes.even balanced⟩

theorem rebalance_nil (shards : Shard → Int) :
    ∃ moveShards, rebalance (getGIDtoShardsMap shards []) shards = some (fun _ => 0, moveShards) := by
  obtain ⟨⟨newShards, moveShards⟩, ended⟩ := Option.isSome_iff_exists.mp (rebalance_isSome shards [])
  obtain ⟨final, _, made⟩ := Option.map_eq_some_iff.mp (rebalance_eq shards [] ▸ ended)
  cases made
  exact ⟨_, ended⟩

/-! ## `Join` and `Leave` -/

/-- Every shard has exactly one of the groups and the groups differ by at most one shard; without
groups no shard has an owner. -/
def Config.Balanced (config : Config) : Prop :=
  if config.groups = [] then ∀ shard, config.shards shard = 0
  else (∀ shard, ∃! gid, gid ∈ config.groups.map Prod.fst ∧ config.shards shard = gid) ∧
    ∀ one ∈ config.groups.map Prod.fst, ∀ other ∈ config.groups.map Prod.fst,
      load config.shards one ≤ load config.shards other + 1

/-- A `Join` of groups with valid ids, or a `Leave`. -/
def Args.Rebalances : Args → Prop
  | .join servers => 0 ∉ servers.map Prod.fst
  | .leave _ => True
  | _ => False

namespace Configs

theorem last_add (configs : Configs) (shards : Shard → Int) (groups : List (Int × List ServerName)) :
    (configs.add shards groups).last = { num := configs.last.num + 1, shards, groups } := by
  simp [last, add]

theorem mem_addGroups {groups servers : List (Int × List ServerName)} {gid : Int} :
    gid ∈ (addGroups groups servers).map Prod.fst ↔
      gid ∈ groups.map Prod.fst ∨ gid ∈ servers.map Prod.fst := by
  unfold addGroups
  induction servers generalizing groups with
  | nil => simp
  | cons entry servers inductionHypothesis =>
    rw [List.foldl_cons, inductionHypothesis]
    simp only [List.map_append, List.map_cons, List.map_nil, List.mem_append, List.mem_cons, List.not_mem_nil,
      or_false, List.mem_map, List.mem_filter, decide_eq_true_eq]
    constructor
    · rintro ((⟨old, ⟨member, _⟩, rfl⟩ | rfl) | later)
      · exact .inl ⟨old, member, rfl⟩
      · exact .inr (.inl rfl)
      · exact .inr (.inr later)
    · rintro (⟨old, member, rfl⟩ | rfl | later)
      · by_cases here : old.1 = entry.1
        · exact .inl (.inr here)
        · exact .inl (.inl ⟨old, ⟨member, here⟩, rfl⟩)
      · exact .inl (.inr rfl)
      · exact .inr later

theorem addRebalanced_balanced (configs : Configs) {groups : List (Int × List ServerName)}
    (noZero : 0 ∉ groups.map Prod.fst) :
    ∃ after, configs.addRebalanced groups = some after ∧ after.list = configs.list ++ [after.last] ∧
      after.last.groups = groups ∧ after.last.Balanced := by
  by_cases empty : groups = []
  · subst empty
    obtain ⟨moved, ended⟩ := rebalance_nil configs.last.shards
    refine ⟨configs.add (fun _ => 0) [], by simp [addRebalanced, ended], ?_⟩
    rw [last_add]
    refine ⟨rfl, rfl, ?_⟩
    rw [Config.Balanced, if_pos rfl]
    exact fun _ => rfl
  · obtain ⟨shards, moved, ended, even⟩ := rebalance_even configs.last.shards empty noZero
    refine ⟨configs.add shards groups, by simp [addRebalanced, ended], ?_⟩
    rw [last_add]
    refine ⟨rfl, rfl, ?_⟩
    rw [Config.Balanced, if_neg empty]
    refine ⟨?_, ?_⟩
    · intro shard
      exact ⟨shards shard, ⟨List.mem_toFinset.mp (even.assigned shard), rfl⟩, fun gid owns => owns.2.symm⟩
    · intro one oneIn other otherIn
      exact even.balanced one (List.mem_toFinset.mpr oneIn) other (List.mem_toFinset.mpr otherIn)

end Configs

/-- A `Join` or `Leave` adds one configuration, which has the groups that were there and those that have joined, or
those that have not left, and it is balanced whatever the one before looked like. -/
theorem join_leave_balanced (configs : Configs) (valid : 0 ∉ configs.last.groups.map Prod.fst) (args : Args)
    (rebalances : args.Rebalances) :
    ∃ after, configs.applyToStateMachine args = some after ∧ after.list = configs.list ++ [after.last] ∧
      (∀ servers, args = .join servers → after.last.groups = Configs.addGroups configs.last.groups servers ∧
        ∀ gid, gid ∈ after.last.groups.map Prod.fst ↔
          gid ∈ configs.last.groups.map Prod.fst ∨ gid ∈ servers.map Prod.fst) ∧
      (∀ gids, args = .leave gids → after.last.groups = Configs.deleteGroups configs.last.groups gids ∧
        ∀ gid, gid ∈ after.last.groups.map Prod.fst ↔ gid ∈ configs.last.groups.map Prod.fst ∧ gid ∉ gids) ∧
      after.last.Balanced := by
  cases args with
  | join servers =>
    have noZero : 0 ∉ (Configs.addGroups configs.last.groups servers).map Prod.fst := by
      rw [Configs.mem_addGroups]
      rintro (old | new)
      · exact valid old
      · exact rebalances new
    obtain ⟨after, made, one, groups, balanced⟩ := configs.addRebalanced_balanced noZero
    refine ⟨after, made, one, ?_, nofun, balanced⟩
    rintro _ ⟨⟩
    exact ⟨groups, fun gid => by rw [groups, Configs.mem_addGroups]⟩
  | leave gids =>
    have noZero : 0 ∉ (Configs.deleteGroups configs.last.groups gids).map Prod.fst := fun zero =>
      valid (Configs.mem_keys_deleteGroups.mp zero).1
    obtain ⟨after, made, one, groups, balanced⟩ := configs.addRebalanced_balanced noZero
    refine ⟨after, made, one, nofun, ?_, balanced⟩
    rintro _ ⟨⟩
    exact ⟨groups, fun gid => by rw [groups, Configs.mem_keys_deleteGroups]⟩
  | move shard gid => exact absurd rebalances id
  | query num => exact absurd rebalances id

/-- A configuration with shards of no group, of a group that has left, and too many of group 1. -/
def skewed : Configs where
  list := [{ num := 4, shards := fun shard => if shard = 0 then 0 else if shard = 1 then 9 else 1,
             groups := [(1, [0]), (2, [0])] }]
  nonempty := by simp

theorem join_leave_balanced_skewed :
    (∃ after, skewed.applyToStateMachine (.join [(3, [0])]) = some after ∧
      after.last.groups = [(1, [0]), (2, [0]), (3, [0])] ∧
      List.ofFn after.last.shards = [2, 3, 1, 1, 1, 1, 3, 2, 3, 2] ∧ after.last.Balanced) ∧
    ∃ after, skewed.applyToStateMachine (.leave [1, 2]) = some after ∧
      after.last.groups = [] ∧ List.ofFn after.last.shards = List.replicate 10 0 ∧ after.last.Balanced := by
  have joined : ∀ after ∈ skewed.applyToStateMachine (.join [(3, [0])]),
      List.ofFn after.last.shards = [2, 3, 1, 1, 1, 1, 3, 2, 3, 2] := by decide +kernel
  have left : ∀ after ∈ skewed.applyToStateMachine (.leave [1, 2]),
      List.ofFn after.last.shards = List.replicate 10 0 := by decide +kernel
  obtain ⟨more, made, -, groups, -, balanced⟩ :=
    join_leave_balanced skewed (by decide) (.join [(3, [0])]) (by simp [Args.Rebalances])
  obtain ⟨none, emptied, -, -, noGroups, even⟩ := join_leave_balanced skewed (by decide) (.leave [1, 2]) trivial
  exact ⟨⟨more, made, (groups _ rfl).1, joined more made, balanced⟩,
    none, emptied, (noGroups _ rfl).1, left none emptied, even⟩

end ShardedKV.ShardCtrler
