import Mathlib.Algebra.BigOperators.Ring.Finset
import Mathlib.Algebra.Order.BigOperators.Group.Finset
import Mathlib.Tactic.Ring
import ShardedKV.ShardCtrler.Rebalance

/-!
# The loop of `rebalance` ends

A free shard that is given away costs more than the group that takes it gains, and a shard that
goes from the largest group to the smallest makes the sum of the squares of the sizes smaller.
-/

namespace ShardedKV.ShardCtrler

open Loops (Turn)

/-! ## The largest and the smallest group -/

/-- What the groups found among the live ones say about all of them. -/
structure Extremes.Bounds (liveGroup : List Int) (shardsOf : Int → List Shard) (extremes : Extremes) :
    Prop where
  most : ∀ gid ∈ liveGroup, ((shardsOf gid).length : Int) ≤ extremes.maxShards
  maxGID : liveGroup = [] ∧ extremes.maxShards = -1 ∨
    extremes.maxGID ∈ liveGroup ∧ extremes.maxShards = (shardsOf extremes.maxGID).length
  fewest : ∀ gid ∈ liveGroup, extremes.minShards ≤ (shardsOf gid).length
  minGID : extremes.minShards = NShards + 1 ∧ extremes.minGID = -1 ∨
    extremes.minGID ∈ liveGroup ∧ extremes.minShards = (shardsOf extremes.minGID).length ∧
      extremes.minShards ≤ NShards

theorem Extremes.of_append (liveGroup : List Int) (gid : Int) (shardsOf : Int → List Shard) :
    of (liveGroup ++ [gid]) shardsOf = (of liveGroup shardsOf).visit shardsOf gid := by
  simp [of]

section

variable (shardsOf : Int → List Shard) (extremes : Extremes) (gid : Int)

theorem Extremes.maxShards_visit :
    (extremes.visit shardsOf gid).maxShards = max extremes.maxShards (shardsOf gid).length := by
  unfold visit
  by_cases larger : extremes.maxShards < (shardsOf gid).length
  · simp only [larger, if_true]
    split <;> exact (max_eq_right (le_of_lt larger)).symm
  · simp only [larger, if_false]
    split <;> exact (max_eq_left (not_lt.mp larger)).symm

theorem Extremes.maxGID_visit : (extremes.visit shardsOf gid).maxGID =
    if extremes.maxShards < (shardsOf gid).length then gid else extremes.maxGID := by
  unfold visit
  by_cases larger : extremes.maxShards < (shardsOf gid).length
  · simp only [larger, if_true]
    split <;> rfl
  · simp only [larger, if_false]
    split <;> rfl

theorem Extremes.minShards_visit :
    (extremes.visit shardsOf gid).minShards = min extremes.minShards (shardsOf gid).length := by
  unfold visit
  by_cases larger : extremes.maxShards < (shardsOf gid).length
  all_goals
    simp only [larger, if_true, if_false]
    split
    · rename_i smaller
      exact (min_eq_right (le_of_lt smaller)).symm
    · rename_i notSmaller
      exact (min_eq_left (not_lt.mp notSmaller)).symm

theorem Extremes.minGID_visit : (extremes.visit shardsOf gid).minGID =
    if (shardsOf gid).length < extremes.minShards then gid else extremes.minGID := by
  unfold visit
  by_cases larger : extremes.maxShards < (shardsOf gid).length
  all_goals
    simp only [larger, if_true, if_false]
    split <;> rfl

end

theorem Extremes.bounds (liveGroup : List Int) (shardsOf : Int → List Shard) :
    Bounds liveGroup shardsOf (of liveGroup shardsOf) := by
  induction liveGroup using List.reverseRecOn with
  | nil => exact ⟨by simp, .inl ⟨rfl, rfl⟩, by simp, .inl ⟨rfl, rfl⟩⟩
  | append_singleton liveGroup gid inductionHypothesis =>
    obtain ⟨most, maxGID, fewest, minGID⟩ := inductionHypothesis
    rw [of_append]
    refine ⟨?_, ?_, ?_, ?_⟩
    · rw [maxShards_visit]
      intro other member
      rcases List.mem_append.mp member with old | new
      · have := most other old
        omega
      · rw [List.mem_singleton.mp new]
        omega
    · rw [maxShards_visit, maxGID_visit]
      right
      split
      · exact ⟨by simp, by omega⟩
      · rcases maxGID with ⟨rfl, none_seen⟩ | ⟨inside, same⟩
        · omega
        · exact ⟨List.mem_append_left _ inside, by omega⟩
    · rw [minShards_visit]
      intro other member
      rcases List.mem_append.mp member with old | new
      · have := fewest other old
        omega
      · rw [List.mem_singleton.mp new]
        omega
    · rw [minShards_visit, minGID_visit]
      split
      · refine .inr ⟨by simp, by omega, ?_⟩
        rcases minGID with ⟨unset, _⟩ | ⟨_, _, small⟩ <;> omega
      · rcases minGID with ⟨unset, nobody⟩ | ⟨inside, same, small⟩
        · exact .inl ⟨by omega, nobody⟩
        · exact .inr ⟨List.mem_append_left _ inside, by omega, by omega⟩

theorem Extremes.Bounds.minShards_nonneg {liveGroup : List Int} {shardsOf : Int → List Shard} {extremes : Extremes}
    (bounds : Bounds liveGroup shardsOf extremes) : 0 ≤ extremes.minShards := by
  rcases bounds.minGID with ⟨unset, _⟩ | ⟨_, same, _⟩
  · rw [unset]
    decide
  · omega

/-! ## Sums over the live groups -/

/-- The sum of what the sizes of the groups weigh. -/
def ShardMap.weight (weigh : Nat → Nat) (live : Finset Int) (map : ShardMap) : Nat :=
  ∑ gid ∈ live, weigh (map.get gid).length

theorem ShardMap.get_set (map : ShardMap) (gid other : Int) (shards : List Shard) :
    (map.set gid shards).get other = if other = gid then shards else map.get other := by
  simp [ShardMap.set, Function.update_apply]

/-- When one group gets other shards, a sum over the groups changes by what that group counts for. -/
theorem sum_update (value : List Shard → Nat) {live : Finset Int} (get : Int → List Shard) {gid : Int}
    (member : gid ∈ live) (shards : List Shard) :
    ∑ other ∈ live, value (Function.update get gid shards other) + value (get gid) =
      ∑ other ∈ live, value (get other) + value shards := by
  rw [← Finset.add_sum_erase live _ member, ← Finset.add_sum_erase live (fun other => value (get other)) member]
  have rest : ∑ other ∈ live.erase gid, value (Function.update get gid shards other) =
      ∑ other ∈ live.erase gid, value (get other) := by
    apply Finset.sum_congr rfl
    intro other apart
    rw [Function.update_of_ne (Finset.ne_of_mem_erase apart)]
  rw [rest, Function.update_self]
  omega

theorem ShardMap.weight_set_of_mem (weigh : Nat → Nat) {live : Finset Int} (map : ShardMap) {gid : Int}
    (member : gid ∈ live) (shards : List Shard) :
    (map.set gid shards).weight weigh live + weigh (map.get gid).length =
      map.weight weigh live + weigh shards.length :=
  sum_update (fun shards => weigh shards.length) map.get member shards

theorem ShardMap.weight_set_of_not_mem (weigh : Nat → Nat) {live : Finset Int} (map : ShardMap) {gid : Int}
    (outside : gid ∉ live) (shards : List Shard) :
    (map.set gid shards).weight weigh live = map.weight weigh live := by
  apply Finset.sum_congr rfl
  intro other member
  rw [ShardMap.get_set, if_neg]
  rintro rfl
  exact outside member

theorem ShardMap.le_weight (weigh : Nat → Nat) {live : Finset Int} (map : ShardMap) {gid : Int}
    (member : gid ∈ live) : weigh (map.get gid).length ≤ map.weight weigh live :=
  Finset.single_le_sum (f := fun gid => weigh (map.get gid).length) (fun _ _ => Nat.zero_le _) member

theorem ShardMap.add_le_weight (weigh : Nat → Nat) {live : Finset Int} (map : ShardMap) {one other : Int}
    (oneIn : one ∈ live) (otherIn : other ∈ live) (apart : other ≠ one) :
    weigh (map.get one).length + weigh (map.get other).length ≤ map.weight weigh live := by
  unfold ShardMap.weight
  rw [← Finset.add_sum_erase live _ oneIn]
  have rest := map.le_weight weigh (Finset.mem_erase.mpr ⟨apart, otherIn⟩)
  unfold ShardMap.weight at rest
  omega

/-! ## One turn -/

namespace Rebalancing

variable {liveGroup : List Int} {state after : Rebalancing}

/-- A turn that goes on gives a free shard away or moves the last shard of the largest group. -/
theorem turn_eq_next (goesOn : state.turn liveGroup = .next after) :
    (∃ shard rest, state.freeShards = shard :: rest ∧ after = {
      gitToShards := state.gitToShards.set (Extremes.of liveGroup state.gitToShards.get).minGID
        (state.gitToShards.get (Extremes.of liveGroup state.gitToShards.get).minGID ++ [shard]),
      freeShards := rest, moveShards := state.moveShards ++ [shard] }) ∨
    (state.freeShards = [] ∧
      2 ≤ (Extremes.of liveGroup state.gitToShards.get).maxShards -
        (Extremes.of liveGroup state.gitToShards.get).minShards ∧
      ∃ shard, (state.gitToShards.get (Extremes.of liveGroup state.gitToShards.get).maxGID).getLast? =
          some shard ∧
        after.freeShards = [] ∧ after.moveShards = state.moveShards ++ [shard] ∧
        after.gitToShards =
          let smaller := state.gitToShards.set (Extremes.of liveGroup state.gitToShards.get).maxGID
            (state.gitToShards.get (Extremes.of liveGroup state.gitToShards.get).maxGID).dropLast
          smaller.set (Extremes.of liveGroup state.gitToShards.get).minGID
            (smaller.get (Extremes.of liveGroup state.gitToShards.get).minGID ++ [shard])) := by
  unfold turn at goesOn
  dsimp only at goesOn
  split at goesOn
  · cases goesOn
  · rename_i unbalanced
    cases free : state.freeShards with
    | cons shard rest =>
      simp only [free] at goesOn
      cases goesOn
      exact .inl ⟨shard, rest, rfl, rfl⟩
    | nil =>
      simp only [free] at goesOn
      simp only [free, and_true, not_le] at unbalanced
      split at goesOn
      · cases goesOn
      · rename_i shard last
        cases goesOn
        exact .inr ⟨rfl, by omega, shard, last, rfl, rfl, rfl⟩

theorem turn_eq_leave (left : state.turn liveGroup = .leave) :
    (Extremes.of liveGroup state.gitToShards.get).maxShards -
        (Extremes.of liveGroup state.gitToShards.get).minShards ≤ 1 ∧ state.freeShards = [] := by
  unfold turn at left
  dsimp only at left
  split at left
  · rename_i ended
    exact ended
  · split at left
    · cases left
    · split at left <;> cases left

theorem turn_eq_panic (panics : state.turn liveGroup = .panic) :
    2 ≤ (Extremes.of liveGroup state.gitToShards.get).maxShards -
        (Extremes.of liveGroup state.gitToShards.get).minShards ∧
      state.gitToShards.get (Extremes.of liveGroup state.gitToShards.get).maxGID = [] := by
  unfold turn at panics
  dsimp only at panics
  split at panics
  · cases panics
  · rename_i unbalanced
    cases free : state.freeShards with
    | cons shard rest => simp [free] at panics
    | nil =>
      simp only [free] at panics
      simp only [free, and_true, not_le] at unbalanced
      split at panics
      · rename_i empty
        exact ⟨by omega, List.getLast?_eq_none_iff.mp empty⟩
      · cases panics

/-- A shard is with one group or free.  When there is a group 0, its shards are free as well. -/
def Bounded (liveGroup : List Int) (state : Rebalancing) : Prop :=
  state.gitToShards.weight id liveGroup.toFinset + state.freeShards.length ≤
    if 0 ∈ liveGroup then 2 * NShards else NShards

def measure (liveGroup : List Int) (state : Rebalancing) : Nat :=
  (2 * NShards + 2) * state.freeShards.length + state.gitToShards.weight (· ^ 2) liveGroup.toFinset

theorem Bounded.minGID_small (bounded : state.Bounded liveGroup)
    (live : (Extremes.of liveGroup state.gitToShards.get).minGID ∈ liveGroup) :
    (Extremes.of liveGroup state.gitToShards.get).minShards =
        (state.gitToShards.get (Extremes.of liveGroup state.gitToShards.get).minGID).length ∧
      (state.gitToShards.get (Extremes.of liveGroup state.gitToShards.get).minGID).length ≤ NShards := by
  have bounds := Extremes.bounds liveGroup state.gitToShards.get
  rcases bounds.minGID with ⟨unset, nobody⟩ | ⟨_, same, small⟩
  · -- No group is smaller than the initial value, so two of them would have too many shards.
    exfalso
    rw [nobody] at live
    have large := bounds.fewest _ live
    have whole := state.gitToShards.le_weight id (List.mem_toFinset.mpr live)
    unfold Bounded at bounded
    split at bounded
    · rename_i zero
      have largeZero := bounds.fewest _ zero
      have both := state.gitToShards.add_le_weight id (List.mem_toFinset.mpr live)
        (List.mem_toFinset.mpr zero) (by decide)
      simp only [id_eq, NShards] at *
      omega
    · simp only [id_eq, NShards] at *
      omega
  · exact ⟨same, by omega⟩

theorem turn_ne_panic : state.turn liveGroup ≠ .panic := by
  intro panics
  obtain ⟨apart, empty⟩ := turn_eq_panic panics
  have bounds := Extremes.bounds liveGroup state.gitToShards.get
  have nonneg := bounds.minShards_nonneg
  rcases bounds.maxGID with ⟨_, none_seen⟩ | ⟨_, same⟩
  · omega
  · rw [empty] at same
    simp at same
    omega

theorem Bounded.give (bounded : state.Bounded liveGroup) {shard : Shard} {rest : List Shard}
    (free : state.freeShards = shard :: rest) {moved : List Shard} :
    let target := (Extremes.of liveGroup state.gitToShards.get).minGID
    let given : Rebalancing := {
      gitToShards := state.gitToShards.set target (state.gitToShards.get target ++ [shard]),
      freeShards := rest, moveShards := moved }
    given.Bounded liveGroup ∧ given.measure liveGroup < state.measure liveGroup := by
  intro target given
  have total : state.gitToShards.weight id liveGroup.toFinset + (rest.length + 1) ≤
      if 0 ∈ liveGroup then 2 * NShards else NShards := by
    simpa [Bounded, free] using bounded
  unfold Bounded measure
  by_cases live : target ∈ liveGroup
  · have inside := List.mem_toFinset.mpr live
    have small : (state.gitToShards.get target).length ≤ NShards := (bounded.minGID_small live).2
    have sizes := state.gitToShards.weight_set_of_mem id inside (state.gitToShards.get target ++ [shard])
    have squares := state.gitToShards.weight_set_of_mem (· ^ 2) inside (state.gitToShards.get target ++ [shard])
    simp only [id_eq, List.length_append, List.length_singleton] at sizes squares
    refine ⟨?_, ?_⟩
    · simp only [given]
      omega
    · have grows : ((state.gitToShards.get target).length + 1) ^ 2 =
          (state.gitToShards.get target).length ^ 2 + 2 * (state.gitToShards.get target).length + 1 := by ring
      simp only [given, free, List.length_cons, NShards] at *
      omega
  · have outside : target ∉ liveGroup.toFinset := by simpa using live
    simp only [given, state.gitToShards.weight_set_of_not_mem _ outside, free, List.length_cons]
    refine ⟨by omega, by simp only [NShards]; omega⟩

theorem Bounded.move (bounded : state.Bounded liveGroup) (free : state.freeShards = [])
    (unbalanced : 2 ≤ (Extremes.of liveGroup state.gitToShards.get).maxShards -
      (Extremes.of liveGroup state.gitToShards.get).minShards) {shard : Shard} {moved : List Shard} :
    let source := (Extremes.of liveGroup state.gitToShards.get).maxGID
    let target := (Extremes.of liveGroup state.gitToShards.get).minGID
    let smaller := state.gitToShards.set source (state.gitToShards.get source).dropLast
    let given : Rebalancing := {
      gitToShards := smaller.set target (smaller.get target ++ [shard]),
      freeShards := [], moveShards := moved }
    given.Bounded liveGroup ∧ given.measure liveGroup < state.measure liveGroup := by
  intro source target smaller given
  have bounds := Extremes.bounds liveGroup state.gitToShards.get
  have nonneg := bounds.minShards_nonneg
  obtain ⟨sourceLive, largest⟩ : source ∈ liveGroup ∧
      (Extremes.of liveGroup state.gitToShards.get).maxShards = (state.gitToShards.get source).length := by
    rcases bounds.maxGID with ⟨_, none_seen⟩ | found
    · omega
    · exact found
  have total : state.gitToShards.weight id liveGroup.toFinset ≤
      if 0 ∈ liveGroup then 2 * NShards else NShards := by
    simpa [Bounded, free] using bounded
  have sourceIn := List.mem_toFinset.mpr sourceLive
  obtain ⟨rest, size⟩ : ∃ rest, (state.gitToShards.get source).length = rest + 1 :=
    ⟨(state.gitToShards.get source).length - 1, by omega⟩
  have lost : ∀ weigh : Nat → Nat, smaller.weight weigh liveGroup.toFinset + weigh (rest + 1) =
      state.gitToShards.weight weigh liveGroup.toFinset + weigh rest := by
    intro weigh
    have changed := state.gitToShards.weight_set_of_mem weigh sourceIn (state.gitToShards.get source).dropLast
    rwa [List.length_dropLast, size, Nat.add_sub_cancel] at changed
  have sizes := lost id
  have squares := lost (· ^ 2)
  have square : (rest + 1) ^ 2 = rest ^ 2 + 2 * rest + 1 := by ring
  simp only [id_eq] at sizes
  unfold Bounded measure
  simp only [given, free, List.length_nil, Nat.mul_zero, Nat.zero_add, Nat.add_zero]
  by_cases live : target ∈ liveGroup
  · have targetIn := List.mem_toFinset.mpr live
    have least : (Extremes.of liveGroup state.gitToShards.get).minShards =
        (state.gitToShards.get target).length := (bounded.minGID_small live).1
    -- The largest group has at least two shards more, so it is another one.
    have apart : target ≠ source := by
      intro same
      rw [same] at least
      omega
    have untouched : smaller.get target = state.gitToShards.get target := by
      rw [ShardMap.get_set, if_neg apart]
    have sizes' := smaller.weight_set_of_mem id targetIn (smaller.get target ++ [shard])
    have squares' := smaller.weight_set_of_mem (· ^ 2) targetIn (smaller.get target ++ [shard])
    have square' : ((state.gitToShards.get target).length + 1) ^ 2 =
        (state.gitToShards.get target).length ^ 2 + 2 * (state.gitToShards.get target).length + 1 := by ring
    simp only [id_eq, untouched, List.length_append, List.length_singleton] at sizes' squares'
    refine ⟨?_, ?_⟩
    · rw [untouched]
      omega
    · rw [untouched]
      omega
  · have outside : target ∉ liveGroup.toFinset := by simpa using live
    rw [smaller.weight_set_of_not_mem _ outside, smaller.weight_set_of_not_mem _ outside]
    refine ⟨by omega, by omega⟩

theorem Bounded.next (bounded : state.Bounded liveGroup) (goesOn : state.turn liveGroup = .next after) :
    after.Bounded liveGroup ∧ after.measure liveGroup < state.measure liveGroup := by
  rcases turn_eq_next goesOn with ⟨shard, rest, free, rfl⟩ | ⟨free, unbalanced, shard, _, none_free, moved, map⟩
  · exact bounded.give free
  · obtain ⟨gitToShards, freeShards, moveShards⟩ := after
    dsimp only at none_free map
    subst none_free map
    exact bounded.move free unbalanced

end Rebalancing

/-! ## From the map of the old assignment -/

theorem getGIDtoShardsMap_fold (shards : Shard → Int) (groups : List Int) (indices : List Shard)
    (map : ShardMap) (known : map.keys = groups) :
    let filled := indices.foldl
      (fun gitToShards shardIndex =>
        if shards shardIndex ∈ groups then
          gitToShards.set (shards shardIndex) (gitToShards.get (shards shardIndex) ++ [shardIndex])
        else gitToShards) map
    filled.keys = groups ∧ ∀ gid, filled.get gid =
      map.get gid ++ indices.filter fun shardIndex => shards shardIndex = gid ∧ gid ∈ groups := by
  induction indices generalizing map with
  | nil => simp [known]
  | cons index indices inductionHypothesis =>
    intro filled
    by_cases live : shards index ∈ groups
    · have step := inductionHypothesis (map.set (shards index) (map.get (shards index) ++ [index]))
        (by simp [ShardMap.set, known, live])
      simp only [filled, List.foldl_cons, if_pos live]
      refine ⟨step.1, ?_⟩
      intro gid
      rw [step.2 gid, ShardMap.get_set]
      by_cases here : gid = shards index
      · subst here
        simp [live]
      · simp [here, Ne.symm here]
    · have step := inductionHypothesis map known
      simp only [filled, List.foldl_cons, if_neg live]
      refine ⟨step.1, ?_⟩
      intro gid
      rw [step.2 gid]
      have skipped : ¬ (shards index = gid ∧ gid ∈ groups) := fun both => live (both.1 ▸ both.2)
      simp [skipped]

section

variable (shards : Shard → Int) (groups : List (Int × List ServerName))

theorem getGIDtoShardsMap_get (gid : Int) : (getGIDtoShardsMap shards groups).get gid =
    (List.finRange NShards).filter fun shardIndex => shards shardIndex = gid ∧ gid ∈ groups.map Prod.fst := by
  have filled := getGIDtoShardsMap_fold shards (groups.map Prod.fst) (List.finRange NShards)
    { keys := groups.map Prod.fst, get := fun _ => [] } rfl
  exact (filled.2 gid).trans (List.nil_append _)

theorem getGIDtoShardsMap_spec : (getGIDtoShardsMap shards groups).keys = groups.map Prod.fst ∧
    ∀ gid ∈ groups.map Prod.fst,
      (getGIDtoShardsMap shards groups).get gid = (List.finRange NShards).filter (shards · = gid) := by
  have filled := getGIDtoShardsMap_fold shards (groups.map Prod.fst) (List.finRange NShards)
    { keys := groups.map Prod.fst, get := fun _ => [] } rfl
  refine ⟨filled.1, fun gid live => ?_⟩
  rw [getGIDtoShardsMap_get]
  simp only [live, and_true]

theorem length_filter_finRange (chosen : Shard → Prop) [DecidablePred chosen] :
    ((List.finRange NShards).filter fun shard => chosen shard).length =
      (Finset.univ.filter chosen).card := by
  rw [← List.toFinset_card_of_nodup ((List.nodup_finRange NShards).filter _)]
  congr 1
  ext shard
  simp

theorem weight_getGIDtoShardsMap : (getGIDtoShardsMap shards groups).weight id (groups.map Prod.fst).toFinset =
    (Finset.univ.filter fun shard => shards shard ∈ groups.map Prod.fst).card := by
  have maps : Set.MapsTo shards (Finset.univ.filter fun shard => shards shard ∈ groups.map Prod.fst)
      (groups.map Prod.fst).toFinset := by
    intro shard member
    simpa using member
  rw [Finset.card_eq_sum_card_fiberwise maps]
  apply Finset.sum_congr rfl
  intro gid member
  have alive := List.mem_toFinset.mp member
  rw [(getGIDtoShardsMap_spec shards groups).2 gid alive, id_eq, length_filter_finRange]
  congr 1
  ext shard
  simp only [Finset.mem_filter, Finset.mem_univ, true_and]
  constructor
  · rintro rfl
    exact ⟨alive, rfl⟩
  · exact fun both => both.2

end

/-- The state in which the loop of `rebalance` starts. -/
abbrev Rebalancing.start (shards : Shard → Int) (groups : List (Int × List ServerName)) : Rebalancing where
  gitToShards := getGIDtoShardsMap shards groups
  freeShards := (List.finRange NShards).filter fun shard =>
    shards shard = 0 ∨ shards shard ∉ (getGIDtoShardsMap shards groups).keys

/-- The groups in the order in which the loop visits them. -/
abbrev liveGroups (groups : List (Int × List ServerName)) : List Int :=
  (groups.map Prod.fst).insertionSort (· ≤ ·)

theorem mem_liveGroups {groups : List (Int × List ServerName)} {gid : Int} :
    gid ∈ liveGroups groups ↔ gid ∈ groups.map Prod.fst := List.mem_insertionSort _

theorem toFinset_liveGroups {groups : List (Int × List ServerName)} :
    (liveGroups groups).toFinset = (groups.map Prod.fst).toFinset := by
  ext gid
  simp only [List.mem_toFinset]
  exact mem_liveGroups

theorem liveGroups_ne_nil {groups : List (Int × List ServerName)} (nonempty : groups ≠ []) :
    liveGroups groups ≠ [] := by
  obtain ⟨entry, member⟩ := List.exists_mem_of_ne_nil groups nonempty
  exact List.ne_nil_of_mem (mem_liveGroups.mpr (List.mem_map_of_mem member))

/-- What the last loop of `rebalance` writes. -/
def Rebalancing.assignment (liveGroup : List Int) (state : Rebalancing) : Shard → Int :=
  liveGroup.foldl
    (fun newShards gid => (state.gitToShards.get gid).foldl
      (fun newShards shardIndex => Function.update newShards shardIndex gid) newShards)
    fun _ => 0

theorem rebalance_eq (shards : Shard → Int) (groups : List (Int × List ServerName)) :
    rebalance (getGIDtoShardsMap shards groups) shards =
      (Loops.run (Rebalancing.turn (liveGroups groups)) rebalanceFuel (.start shards groups)).map fun state =>
        (state.assignment (liveGroups groups), state.moveShards) := by
  have order : (getGIDtoShardsMap shards groups).keys.insertionSort (· ≤ ·) = liveGroups groups := by
    rw [(getGIDtoShardsMap_spec shards groups).1]
  simp only [rebalance, order, Rebalancing.assignment]

theorem card_shards_le (chosen : Shard → Prop) [DecidablePred chosen] :
    (Finset.univ.filter chosen).card ≤ NShards := by
  simpa using Finset.card_le_univ (Finset.univ.filter chosen)

theorem Rebalancing.bounded_initial (shards : Shard → Int) (groups : List (Int × List ServerName)) :
    Bounded (liveGroups groups) (.start shards groups) := by
  unfold Bounded
  simp only [(getGIDtoShardsMap_spec shards groups).1, toFinset_liveGroups, weight_getGIDtoShardsMap,
    length_filter_finRange, mem_liveGroups]
  split
  · have owned := card_shards_le fun shard => shards shard ∈ groups.map Prod.fst
    have free := card_shards_le fun shard => shards shard = 0 ∨ shards shard ∉ groups.map Prod.fst
    omega
  · rename_i zero
    -- Without a group 0, a shard is free when its owner is not live.
    have split : (Finset.univ.filter fun shard => shards shard = 0 ∨ shards shard ∉ groups.map Prod.fst) =
        Finset.univ.filter fun shard => shards shard ∉ groups.map Prod.fst := by
      ext shard
      simp only [Finset.mem_filter, Finset.mem_univ, true_and, or_iff_right_iff_imp]
      intro unassigned
      rwa [unassigned]
    rw [split, Finset.card_filter_add_card_filter_not]
    simp

theorem ShardMap.weight_sq_le (live : Finset Int) (map : ShardMap) {bound : Nat}
    (small : map.weight id live ≤ bound) : map.weight (· ^ 2) live ≤ bound * bound := by
  calc map.weight (· ^ 2) live
      ≤ ∑ gid ∈ live, bound * (map.get gid).length := by
        apply Finset.sum_le_sum
        intro gid member
        have size : (map.get gid).length ≤ bound := (map.le_weight id member).trans small
        calc (map.get gid).length ^ 2
            = (map.get gid).length * (map.get gid).length := pow_two _
          _ ≤ bound * (map.get gid).length := Nat.mul_le_mul_right _ size
    _ = bound * map.weight id live := by
        rw [← Finset.mul_sum]
        rfl
    _ ≤ bound * bound := Nat.mul_le_mul_left _ small

/-- The loop of `rebalance` ends on the map of every old assignment. -/
theorem rebalance_isSome (shards : Shard → Int) (groups : List (Int × List ServerName)) :
    (rebalance (getGIDtoShardsMap shards groups) shards).isSome = true := by
  have enough : (Rebalancing.start shards groups).measure (liveGroups groups) < rebalanceFuel := by
    have owned := card_shards_le fun shard => shards shard ∈ groups.map Prod.fst
    rw [← weight_getGIDtoShardsMap] at owned
    have squares := ShardMap.weight_sq_le _ _ owned
    have free := card_shards_le fun shard =>
      shards shard = 0 ∨ shards shard ∉ (getGIDtoShardsMap shards groups).keys
    simp only [Rebalancing.measure, toFinset_liveGroups, length_filter_finRange, rebalanceFuel, NShards] at *
    omega
  obtain ⟨final, ran, _⟩ := Loops.run_of_measure (fun _ _ => Rebalancing.turn_ne_panic)
    (fun _ _ bounded goesOn => bounded.next goesOn) (Rebalancing.bounded_initial shards groups) enough
  rw [rebalance_eq, ran]
  rfl

end ShardedKV.ShardCtrler
