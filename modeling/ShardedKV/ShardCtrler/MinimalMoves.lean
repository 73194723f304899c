import ShardedKV.ShardCtrler.Balance

/-!
# `rebalance` moves as few shards as possible

A group that has taken a shard is never among the largest afterwards, and one that has given a shard
away is never among the smallest.  So a group only takes or only gives, no shard is moved twice, and
at the end no group that took is larger than one that gave.
-/

namespace ShardedKV.ShardCtrler

open Loads (load moved Even Balanced)

namespace Rebalancing

variable {liveGroup : List Int} {initial : Int → List Shard} {state after : Rebalancing}

/-- What the turns of the loop have done to the lists that the groups had at first. -/
structure Economical (liveGroup : List Int) (initial : Int → List Shard) (state : Rebalancing) : Prop where
  /-- A group has taken shards behind its own, or given its last ones. -/
  nested : ∀ gid ∈ liveGroup, initial gid <+: state.gitToShards.get gid ∨ state.gitToShards.get gid <+: initial gid
  took : ∀ taker ∈ liveGroup, (initial taker).length < (state.gitToShards.get taker).length →
    ∀ gid ∈ liveGroup, (state.gitToShards.get taker).length ≤ (state.gitToShards.get gid).length + 1
  gave : ∀ giver ∈ liveGroup, (state.gitToShards.get giver).length < (initial giver).length →
    state.freeShards = [] ∧
      ∀ gid ∈ liveGroup, (state.gitToShards.get gid).length ≤ (state.gitToShards.get giver).length + 1
  ordered : ∀ taker ∈ liveGroup, ∀ giver ∈ liveGroup,
    (initial taker).length < (state.gitToShards.get taker).length →
    (state.gitToShards.get giver).length < (initial giver).length →
    (state.gitToShards.get taker).length ≤ (state.gitToShards.get giver).length

section

variable (economical : Economical liveGroup initial state)
include economical

theorem Economical.keeps_initial {gid : Int}
    (live : gid ∈ liveGroup) (most : (initial gid).length ≤ (state.gitToShards.get gid).length) :
    initial gid <+: state.gitToShards.get gid := by
  rcases economical.nested gid live with took | gave
  · exact took
  · rw [gave.eq_of_length_le most]

theorem Economical.part_of_initial {gid : Int}
    (live : gid ∈ liveGroup) (least : (state.gitToShards.get gid).length ≤ (initial gid).length) :
    state.gitToShards.get gid <+: initial gid := by
  rcases economical.nested gid live with took | gave
  · rw [took.eq_of_length_le least]
  · exact gave

theorem Economical.none_gave {shard : Shard} {rest : List Shard}
    (free : state.freeShards = shard :: rest) {gid : Int} (live : gid ∈ liveGroup) :
    (initial gid).length ≤ (state.gitToShards.get gid).length := by
  by_contra! gives
  simpa [free] using (economical.gave gid live gives).1

/-- A group that is two larger than another has taken no shard, and the other has given none. -/
theorem Economical.of_apart {target source : Int} (live : target ∈ liveGroup) (sourceLive : source ∈ liveGroup)
    (apart : (state.gitToShards.get target).length + 2 ≤ (state.gitToShards.get source).length) :
    (state.gitToShards.get source).length ≤ (initial source).length ∧
      (initial target).length ≤ (state.gitToShards.get target).length := by
  constructor
  · by_contra! took
    have := economical.took source sourceLive took target live
    omega
  · by_contra! gives
    have := (economical.gave target live gives).2 source sourceLive
    omega

theorem Economical.give {target : Int} (live : target ∈ liveGroup)
    (smallest : ∀ gid ∈ liveGroup, (state.gitToShards.get target).length ≤ (state.gitToShards.get gid).length)
    {shard : Shard} {rest : List Shard} (free : state.freeShards = shard :: rest)
    (get : after.gitToShards.get = Function.update state.gitToShards.get target
      (state.gitToShards.get target ++ [shard])) : Economical liveGroup initial after := by
  have none_gave : ∀ gid ∈ liveGroup, (initial gid).length ≤ (state.gitToShards.get gid).length :=
    fun gid member => economical.none_gave free member
  have size : ∀ gid, (after.gitToShards.get gid).length =
      (state.gitToShards.get gid).length + if gid = target then 1 else 0 := by
    intro gid
    rw [get, Function.update_apply]
    split
    · rename_i here
      simp [here]
    · rfl
  refine ⟨?_, ?_, ?_, ?_⟩
  · intro gid member
    left
    have kept := economical.keeps_initial member (none_gave gid member)
    rw [get, Function.update_apply]
    split
    · rename_i here
      rw [here] at kept ⊢
      exact kept.trans (List.prefix_append _ _)
    · exact kept
  · intro taker member took gid other
    have before := economical.took taker member
    have least := smallest gid other
    rw [size] at took ⊢
    rw [size gid]
    by_cases here : taker = target
    · subst here
      simp only [if_true]
      omega
    · rw [if_neg here, Nat.add_zero] at took ⊢
      have := before took gid other
      omega
  · intro giver member gives
    have := none_gave giver member
    rw [size] at gives
    omega
  · intro taker _ giver member _ gives
    have := none_gave giver member
    rw [size] at gives
    omega

theorem Economical.move {target source : Int} (live : target ∈ liveGroup) (sourceLive : source ∈ liveGroup)
    (smallest : ∀ gid ∈ liveGroup, (state.gitToShards.get target).length ≤ (state.gitToShards.get gid).length)
    (largest : ∀ gid ∈ liveGroup, (state.gitToShards.get gid).length ≤ (state.gitToShards.get source).length)
    (apart : (state.gitToShards.get target).length + 2 ≤ (state.gitToShards.get source).length)
    {shard : Shard} {kept : List Shard} (last : state.gitToShards.get source = kept ++ [shard])
    (left : after.freeShards = [])
    (get : after.gitToShards.get = Function.update (Function.update state.gitToShards.get source kept) target
      (state.gitToShards.get target ++ [shard])) : Economical liveGroup initial after := by
  have other : target ≠ source := by
    rintro rfl
    omega
  obtain ⟨source_kept, target_kept⟩ := economical.of_apart live sourceLive apart
  have length : (state.gitToShards.get source).length = kept.length + 1 := by simp [last]
  have at_target : (after.gitToShards.get target).length = (state.gitToShards.get target).length + 1 := by
    simp [get]
  have at_source : (after.gitToShards.get source).length + 1 = (state.gitToShards.get source).length := by
    rw [get, Function.update_of_ne (Ne.symm other), Function.update_self, length]
  have elsewhere : ∀ gid, gid ≠ target → gid ≠ source →
      (after.gitToShards.get gid) = state.gitToShards.get gid := by
    intro gid notTarget notSource
    rw [get, Function.update_of_ne notTarget, Function.update_of_ne notSource]
  have size : ∀ gid ∈ liveGroup, gid = target ∨ gid = source ∨
      gid ≠ target ∧ gid ≠ source ∧ (after.gitToShards.get gid).length = (state.gitToShards.get gid).length := by
    intro gid _
    by_cases notTarget : gid = target
    · exact .inl notTarget
    by_cases notSource : gid = source
    · exact .inr (.inl notSource)
    · exact .inr (.inr ⟨notTarget, notSource, by rw [elsewhere gid notTarget notSource]⟩)
  refine ⟨?_, ?_, ?_, ?_⟩
  · intro gid member
    by_cases notTarget : gid = target
    · subst notTarget
      left
      rw [get, Function.update_self]
      exact (economical.keeps_initial member target_kept).trans (List.prefix_append _ _)
    by_cases notSource : gid = source
    · subst notSource
      right
      rw [get, Function.update_of_ne notTarget, Function.update_self]
      refine List.IsPrefix.trans ?_ (economical.part_of_initial member source_kept)
      rw [last]
      exact List.prefix_append _ _
    · rw [elsewhere gid notTarget notSource]
      exact economical.nested gid member
  · -- only the largest group gets smaller, and it stays above every group that took before
    intro taker member took gid inside
    have largestOne := largest gid inside
    have smallestOne := smallest gid inside
    have largestTaker := largest taker member
    have before := economical.took taker member
    rcases size taker member with rfl | rfl | ⟨_, _, same⟩
    · rcases size gid inside with rfl | rfl | ⟨_, _, same'⟩ <;> omega
    · omega
    · have bound := before (by omega) gid inside
      rcases size gid inside with rfl | rfl | ⟨_, _, same'⟩ <;> omega
  · intro giver member gives
    refine ⟨left, ?_⟩
    intro gid inside
    have largestOne := largest gid inside
    have before := economical.gave giver member
    rcases size giver member with rfl | rfl | ⟨_, _, same⟩
    · omega
    · rcases size gid inside with rfl | rfl | ⟨_, _, same'⟩ <;> omega
    · have bound := (before (by omega)).2
      have boundGid := bound gid inside
      have boundSource := bound source sourceLive
      rcases size gid inside with rfl | rfl | ⟨_, _, same'⟩ <;> omega
  · intro taker member giver inside took gives
    have smallestOne := smallest taker member
    have before := economical.took taker member
    have before' := economical.gave giver inside
    have both := economical.ordered taker member giver inside
    rcases size taker member with rfl | rfl | ⟨_, _, same⟩
    · rcases size giver inside with rfl | rfl | ⟨_, _, same'⟩
      · omega
      · omega
      · have := (before' (by omega)).2 source sourceLive
        omega
    · omega
    · rcases size giver inside with rfl | rfl | ⟨_, _, same'⟩
      · omega
      · have := before (by omega) target live
        omega
      · have := both (by omega) (by omega)
        omega

theorem Economical.next {target : Int} (live : target ∈ liveGroup)
    (smallest : ∀ gid ∈ liveGroup, (state.gitToShards.get target).length ≤ (state.gitToShards.get gid).length)
    (hands : Hands liveGroup state after target) : Economical liveGroup initial after := by
  cases hands with
  | give shard rest free left get => exact economical.give live smallest free get
  | move source sourceLive largest apart shard kept last free left get =>
    exact economical.move live sourceLive smallest largest apart last left get

end

theorem economical_start (liveGroup : List Int) (state : Rebalancing) :
    Economical liveGroup state.gitToShards.get state where
  nested := fun _ _ => .inl (List.prefix_refl _)
  took := fun _ _ took => absurd took (lt_irrefl _)
  gave := fun _ _ gives => absurd gives (lt_irrefl _)
  ordered := fun _ _ _ _ took => absurd took (lt_irrefl _)

end Rebalancing

/-- Among all assignments of every shard to a live group in which the groups differ by at most one
shard, the new one has the fewest shards with another owner than before. -/
theorem rebalance_minimal (oldShards : Shard → Int) (newMap : List (Int × List ServerName)) (nonempty : newMap ≠ [])
    (valid : 0 ∉ newMap.map Prod.fst) :
    ∃ newShards moveShards,
      rebalance (getGIDtoShardsMap oldShards newMap) oldShards = some (newShards, moveShards) ∧
      Even (newMap.map Prod.fst).toFinset newShards ∧
      ∀ other, Even (newMap.map Prod.fst).toFinset other → moved oldShards newShards ≤ moved oldShards other := by
  obtain ⟨final, newShards, moveShards, ended, economical, describes, balanced⟩ :=
    rebalance_spec oldShards nonempty valid
      (Rebalancing.economical_start (liveGroups newMap) (.start oldShards newMap))
      fun _ _ _ economical live smallest hands => economical.next live smallest hands
  have even := describes.even balanced
  refine ⟨newShards, moveShards, ended, even, fun other even' => even.moved_le even' ?_ ?_⟩
  · -- the loop starts with the lists of the old owners
    intro gid member
    have live := List.mem_toFinset.mp member
    have held := (getGIDtoShardsMap_spec oldShards newMap).2 gid live
    have holds : ∀ shard, oldShards shard = gid ↔ shard ∈ (getGIDtoShardsMap oldShards newMap).get gid := by
      intro shard
      simp [held]
    refine (economical.nested gid (mem_liveGroups.mpr live)).imp ?_ ?_
    · intro took shard old
      exact (describes.owned gid live shard).mpr (took.subset ((holds shard).mp old))
    · intro gave shard new
      exact (holds shard).mpr (gave.subset ((describes.owned gid live shard).mp new))
  · have before : ∀ gid ∈ newMap.map Prod.fst,
        load oldShards gid = ((getGIDtoShardsMap oldShards newMap).get gid).length := by
      intro gid live
      rw [(getGIDtoShardsMap_spec oldShards newMap).2 gid live, length_filter_finRange, load]
    intro taker takerIn giver giverIn took gave
    have takerLive := List.mem_toFinset.mp takerIn
    have giverLive := List.mem_toFinset.mp giverIn
    rw [before taker takerLive, describes.load_eq takerLive] at took
    rw [before giver giverLive, describes.load_eq giverLive] at gave
    rw [describes.load_eq takerLive, describes.load_eq giverLive]
    exact economical.ordered taker (mem_liveGroups.mpr takerLive) giver (mem_liveGroups.mpr giverLive) took gave

theorem rebalance_minimal_skewed :
    ∃ newShards moveShards,
      rebalance (getGIDtoShardsMap skewed.last.shards [(1, [0]), (2, [0]), (3, [0])]) skewed.last.shards =
        some (newShards, moveShards) ∧
      List.ofFn newShards = [2, 3, 1, 1, 1, 1, 3, 2, 3, 2] ∧ moved skewed.last.shards newShards = 6 ∧
      ∀ other, Even {1, 2, 3} other → 6 ≤ moved skewed.last.shards other := by
  have values : ∀ result ∈ rebalance (getGIDtoShardsMap skewed.last.shards [(1, [0]), (2, [0]), (3, [0])])
      skewed.last.shards, List.ofFn result.1 = [2, 3, 1, 1, 1, 1, 3, 2, 3, 2] ∧
        moved skewed.last.shards result.1 = 6 := by decide +kernel
  obtain ⟨newShards, moveShards, ended, -, fewest⟩ :=
    rebalance_minimal skewed.last.shards [(1, [0]), (2, [0]), (3, [0])] (by simp) (by decide)
  obtain ⟨shards, six⟩ := values _ ended
  exact ⟨newShards, moveShards, ended, shards, six, six ▸ fewest⟩

end ShardedKV.ShardCtrler
