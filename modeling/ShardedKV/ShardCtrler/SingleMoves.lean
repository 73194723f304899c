import ShardedKV.ShardCtrler.MinimalMoves

/-!
# The loop of `rebalance` turn by turn

The loop has no counter and no condition.  A shard that has been moved stays behind the shards that its group
had at first, and a group gives shards away only as long as it has taken none.  So no shard is moved twice, and
there are at most as many turns as shards.  Without groups the sentinel id takes the free shards.
-/

namespace ShardedKV.ShardCtrler

namespace Rebalancing

variable {liveGroup : List Int} {initial : Int → List Shard} {state after : Rebalancing} {target : Int} {shard : Shard}

theorem Economical.taker_kept (economical : Economical liveGroup initial state) (live : target ∈ liveGroup)
    (hands : Hands liveGroup state after target) :
    (initial target).length ≤ (state.gitToShards.get target).length := by
  cases hands with
  | give given rest free => exact economical.none_gave free live
  | move source sourceLive largest apart => exact (economical.of_apart live sourceLive apart).2

/-- Every shard that has been moved is with a live group, behind those that the group had at first. -/
def Behind (liveGroup : List Int) (initial : Int → List Shard) (state : Rebalancing) : Prop :=
  ∀ shard ∈ state.moveShards, ∃ gid ∈ liveGroup, shard ∈ (state.gitToShards.get gid).drop (initial gid).length

theorem Behind.next (behind : Behind liveGroup initial state) (economical : Economical liveGroup initial state)
    (live : target ∈ liveGroup) (hands : Hands liveGroup state after target)
    (moved : after.moveShards = state.moveShards ++ [shard])
    (taken : after.gitToShards.get target = state.gitToShards.get target ++ [shard]) :
    Behind liveGroup initial after := by
  have extended : (after.gitToShards.get target).drop (initial target).length =
      (state.gitToShards.get target).drop (initial target).length ++ [shard] := by
    rw [taken, List.drop_append_of_le_length (economical.taker_kept live hands)]
  have kept : ∀ gid ∈ liveGroup, ∀ other ∈ (state.gitToShards.get gid).drop (initial gid).length,
      other ∈ (after.gitToShards.get gid).drop (initial gid).length := by
    intro gid member other held
    by_cases here : gid = target
    · subst here
      rw [extended]
      exact List.mem_append_left _ held
    cases hands with
    | give given rest free left get =>
      rw [get, Function.update_of_ne here]
      exact held
    | move source sourceLive largest apart given kept last free left get =>
      by_cases there : gid = source
      · -- a group that gives has nothing behind its first shards
        subst there
        rw [List.drop_eq_nil_of_le (economical.of_apart live member apart).1] at held
        cases held
      · rw [get, Function.update_of_ne here, Function.update_of_ne there]
        exact held
  intro other member
  rw [moved] at member
  rcases List.mem_append.mp member with earlier | last
  · obtain ⟨gid, inside, held⟩ := behind other earlier
    exact ⟨gid, inside, kept gid inside other held⟩
  · cases List.mem_singleton.mp last
    refine ⟨target, live, ?_⟩
    rw [extended]
    exact List.mem_append_right _ (List.mem_singleton_self _)

theorem Behind.last_fresh (behind : Behind liveGroup initial state) (partitions : state.Partitions liveGroup)
    {source : Int} (live : source ∈ liveGroup)
    (kept : (state.gitToShards.get source).length ≤ (initial source).length)
    (held : shard ∈ state.gitToShards.get source) : shard ∉ state.moveShards := by
  intro moved
  obtain ⟨gid, member, behindFirst⟩ := behind shard moved
  cases partitions.holder_unique member live (List.mem_of_mem_drop behindFirst) held
  rw [List.drop_eq_nil_of_le kept] at behindFirst
  cases behindFirst

/-- What the turns keep when there are groups. -/
structure Tracked (liveGroup : List Int) (initial : Int → List Shard) (state : Rebalancing) : Prop where
  bounded : state.Bounded liveGroup
  partitions : state.Partitions liveGroup
  economical : Economical liveGroup initial state
  behind : Behind liveGroup initial state

/-- No shard has been moved twice, and none that has been moved is free. -/
structure MovesOnce (liveGroup : List Int) (initial : Int → List Shard) (state : Rebalancing) : Prop where
  once : (state.moveShards ++ state.freeShards).Nodup
  tracked : liveGroup ≠ [] → Tracked liveGroup initial state

theorem Tracked.fresh (tracked : Tracked liveGroup initial state)
    (once : (state.moveShards ++ state.freeShards).Nodup) (live : target ∈ liveGroup)
    (hands : Hands liveGroup state after target)
    (taken : after.gitToShards.get target = state.gitToShards.get target ++ [shard]) :
    (state.moveShards ++ [shard] ++ after.freeShards).Nodup := by
  cases hands with
  | give given rest free left get =>
    rw [get, Function.update_self, List.append_cancel_left_eq, List.singleton_inj] at taken
    rw [free] at once
    rw [left, ← taken, List.append_assoc]
    exact once
  | move source sourceLive largest apart given kept last free left get =>
    rw [get, Function.update_self, List.append_cancel_left_eq, List.singleton_inj] at taken
    have held : shard ∈ state.gitToShards.get source := by
      rw [last, taken]
      exact List.mem_append_right _ (List.mem_singleton_self _)
    have unmoved := tracked.behind.last_fresh tracked.partitions sourceLive
      (tracked.economical.of_apart live sourceLive apart).1 held
    rw [free, List.append_nil] at once
    rw [left, List.append_nil]
    exact once.append (List.nodup_singleton shard) (by simpa using unmoved)

theorem MovesOnce.next (movesOnce : MovesOnce liveGroup initial state) (noZero : 0 ∉ liveGroup)
    (goesOn : state.turn liveGroup = .next after) :
    MovesOnce liveGroup initial after ∧ ∃ shard, after.moveShards = state.moveShards ++ [shard] := by
  by_cases nobody : liveGroup = []
  · subst nobody
    rcases turn_eq_next goesOn with ⟨shard, rest, free, rfl⟩ | ⟨-, unbalanced, -⟩
    · have once := movesOnce.once
      rw [free] at once
      exact ⟨⟨by simpa using once, fun groups => absurd rfl groups⟩, shard, rfl⟩
    · -- the extremes that the source starts with, which no group has changed
      simp [Extremes.of, NShards] at unbalanced
  · have tracked := movesOnce.tracked nobody
    obtain ⟨target, live, smallest, hands, shard, moved, taken⟩ := tracked.bounded.hands noZero nobody goesOn
    refine ⟨⟨?_, fun _ => ⟨?_, ?_, ?_, ?_⟩⟩, shard, moved⟩
    · rw [moved]
      exact tracked.fresh movesOnce.once live hands taken
    · exact (tracked.bounded.next goesOn).1
    · exact tracked.partitions.next live hands
    · exact tracked.economical.next live smallest hands
    · exact tracked.behind.next tracked.economical live hands moved taken

theorem MovesOnce.fresh (movesOnce : MovesOnce liveGroup initial after)
    (moved : after.moveShards = state.moveShards ++ [shard]) : shard ∉ state.moveShards := by
  have once := List.Nodup.of_append_left movesOnce.once
  rw [moved, List.nodup_append] at once
  intro earlier
  exact once.2.2 shard earlier shard (List.mem_singleton_self shard) rfl

theorem MovesOnce.length_le (movesOnce : MovesOnce liveGroup initial state) : state.moveShards.length ≤ NShards := by
  simpa using (List.Nodup.of_append_left movesOnce.once).length_le_card

theorem movesOnce_start (shards : Shard → Int) {groups : List (Int × List ServerName)}
    (noZero : 0 ∉ liveGroups groups) :
    MovesOnce (liveGroups groups) (getGIDtoShardsMap shards groups).get (.start shards groups) where
  once := by simpa using (List.nodup_finRange NShards).filter _
  tracked := fun _ => {
    bounded := bounded_initial shards groups
    partitions := partitions_initial shards noZero
    economical := economical_start _ (.start shards groups)
    behind := by simp [Behind] }

end Rebalancing

/-- The loop reaches its break after at most as many turns as there are shards.  On the way it takes no element
from an empty list, and every turn moves a shard that no earlier turn has moved. -/
theorem rebalance_loop_ends (oldShards : Shard → Int) (newMap : List (Int × List ServerName))
    (valid : 0 ∉ newMap.map Prod.fst) :
    (∃ final, Loops.run (Rebalancing.turn (liveGroups newMap)) (NShards + 1) (.start oldShards newMap) = some final ∧
      final.turn (liveGroups newMap) = .leave ∧ final.moveShards.Nodup ∧
      ∃ newShards, rebalance (getGIDtoShardsMap oldShards newMap) oldShards = some (newShards, final.moveShards)) ∧
    ∀ state, Loops.Reaches (Rebalancing.turn (liveGroups newMap)) (.start oldShards newMap) state →
      state.turn (liveGroups newMap) ≠ .panic ∧
      ∀ after, state.turn (liveGroups newMap) = .next after →
        ∃ shard, shard ∉ state.moveShards ∧ after.moveShards = state.moveShards ++ [shard] := by
  have noZero : 0 ∉ liveGroups newMap := fun zero => valid (mem_liveGroups.mp zero)
  have start := Rebalancing.movesOnce_start oldShards noZero
  constructor
  · -- every turn makes the list of the moved shards longer, and it cannot get longer than all shards
    have shrinks : ∀ state after : Rebalancing,
        state.MovesOnce (liveGroups newMap) (getGIDtoShardsMap oldShards newMap).get →
        state.turn (liveGroups newMap) = .next after →
        after.MovesOnce (liveGroups newMap) (getGIDtoShardsMap oldShards newMap).get ∧
          NShards - after.moveShards.length < NShards - state.moveShards.length := by
      intro state after movesOnce goesOn
      obtain ⟨kept, shard, moved⟩ := movesOnce.next noZero goesOn
      have bound := kept.length_le
      rw [moved, List.length_append, List.length_singleton] at bound ⊢
      exact ⟨kept, by omega⟩
    obtain ⟨final, ran, movesOnce, left⟩ := Loops.run_of_measure
      (fun _ _ => Rebalancing.turn_ne_panic) shrinks start (Nat.lt_succ_of_le (Nat.sub_le NShards _))
    refine ⟨final, ran, left, .of_append_left movesOnce.once, final.assignment (liveGroups newMap), ?_⟩
    rw [rebalance_eq, Loops.run_of_le (by decide) ran]
    rfl
  · intro state reaches
    have movesOnce := reaches.invariant (fun _ _ before goesOn => (before.next noZero goesOn).1) start
    refine ⟨Rebalancing.turn_ne_panic, ?_⟩
    intro after goesOn
    obtain ⟨kept, shard, moved⟩ := movesOnce.next noZero goesOn
    exact ⟨shard, kept.fresh moved, moved⟩

theorem rebalance_loop_ends_skewed :
    ∃ final, Loops.run (Rebalancing.turn (liveGroups [(1, [0]), (2, [0]), (3, [0])])) (NShards + 1)
        (.start skewed.last.shards [(1, [0]), (2, [0]), (3, [0])]) = some final ∧
      final.turn (liveGroups [(1, [0]), (2, [0]), (3, [0])]) = .leave ∧
      final.moveShards = [0, 1, 9, 8, 7, 6] ∧
      [1, 2, 3].map final.gitToShards.get = [[2, 3, 4, 5], [0, 9, 7], [1, 8, 6]] := by
  have values : ∀ final ∈ Loops.run (Rebalancing.turn (liveGroups [(1, [0]), (2, [0]), (3, [0])])) (NShards + 1)
      (.start skewed.last.shards [(1, [0]), (2, [0]), (3, [0])]), final.moveShards = [0, 1, 9, 8, 7, 6] ∧
        [1, 2, 3].map final.gitToShards.get = [[2, 3, 4, 5], [0, 9, 7], [1, 8, 6]] := by decide +kernel
  obtain ⟨⟨final, ran, left, -⟩, -⟩ :=
    rebalance_loop_ends skewed.last.shards [(1, [0]), (2, [0]), (3, [0])] (by decide)
  exact ⟨final, ran, left, values final ran⟩

end ShardedKV.ShardCtrler
