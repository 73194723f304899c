import Mathlib.Data.List.Forall2
import ShardedKV.ShardCtrler.Assignment

/-!
# The order in which Go visits a map does not matter

A `range` statement visits the entries of a map in any order, another one each time.  Here every
operation is applied with an order for each of its `range` statements.  All replicas still compute
the configurations of the model without orders, because the ids of the groups are sorted before the
loop of `rebalance` looks at them and everything else only fills other maps.
-/

namespace ShardedKV.ShardCtrler

open Services (Justified)

/-! ## Operations with orders -/

/-- The order in which a `range` statement visits the entries of a map. -/
structure Order (Entry : Type) where
  visit : List Entry → List Entry
  perm : ∀ entries, (visit entries).Perm entries

/-- An order for each `range` statement over a map that an operation runs through. -/
structure Ranges where
  /-- `GetGroupMapCopy(oldGroups)` -/
  oldGroups : Order (Int × List ServerName)
  /-- `GetGroupMapCopy(appliedOp.Servers)` -/
  servers : Order (Int × List ServerName)
  /-- `range copyNewServer` -/
  copyNewServer : Order (Int × List ServerName)
  /-- `range newMap` in `getGIDtoShardsMap` -/
  newMap : Order (Int × List ServerName)
  /-- `range gitToShards` in `rebalance` -/
  gitToShards : Order Int

def getGroupMapCopy (order : Order (Int × List ServerName)) (originalMap : List (Int × List ServerName)) :
    List (Int × List ServerName) :=
  (order.visit originalMap).foldl (fun copyMap entry => copyMap.filter (·.1 ≠ entry.1) ++ [entry]) []

namespace Configs

def addRebalancedIn (ranges : Ranges) (configs : Configs) (copyMap : List (Int × List ServerName)) :
    Option Configs :=
  let oldShards := configs.last.shards
  let gidToShardsMap := getGIDtoShardsMap oldShards (ranges.newMap.visit copyMap)
  (rebalance { gidToShardsMap with keys := ranges.gitToShards.visit gidToShardsMap.keys } oldShards).map
    fun balanced => configs.add balanced.1 copyMap

def applyToStateMachineIn (ranges : Ranges) (configs : Configs) : Args → Option Configs
  | .join servers =>
    let copyMap := getGroupMapCopy ranges.oldGroups configs.last.groups
    let copyNewServer := getGroupMapCopy ranges.servers servers
    configs.addRebalancedIn ranges (addGroups copyMap (ranges.copyNewServer.visit copyNewServer))
  | .leave gids =>
    configs.addRebalancedIn ranges (deleteGroups (getGroupMapCopy ranges.oldGroups configs.last.groups) gids)
  | .move shard gid => configs.applyToStateMachine (.move shard gid)
  | .query num => configs.applyToStateMachine (.query num)

end Configs

def State.applyHandlerIn (ranges : Ranges) (sc : State) (op : Op) : Option State :=
  let sc := sc.openSession op.clientID
  if op.seqNum ≤ sc.lastSeq op.clientID then some sc
  else (sc.configs.applyToStateMachineIn ranges op.args).map fun configs => { sc with configs }

/-- A replica after a committed log, each operation of which it has applied with some orders. -/
def replayIn (steps : List (Ranges × Op)) : Option State :=
  steps.foldlM (fun sc step => sc.applyHandlerIn step.1 step.2) {}

/-- The entries of a Go map have different keys. -/
def Args.WellFormed : Args → Prop
  | .join servers => (servers.map Prod.fst).Nodup
  | _ => True

/-- The same configuration, with equal maps of groups. -/
structure Config.Same (one other : Config) : Prop where
  num : one.num = other.num
  shards : one.shards = other.shards
  groups : ∀ gid, one.groups.lookup gid = other.groups.lookup gid

/-! ## Maps as lists of entries -/

section

variable {groups groups' servers servers' : List (Int × List ServerName)}

/-- Two lists of the entries of one map. -/
structure SameEntries (groups groups' : List (Int × List ServerName)) : Prop where
  perm : groups.Perm groups'
  nodup : (groups'.map Prod.fst).Nodup

namespace SameEntries

theorem symm (same : SameEntries groups groups') : SameEntries groups' groups :=
  ⟨same.perm.symm, (same.perm.map Prod.fst).nodup_iff.mpr same.nodup⟩

theorem trans (same : SameEntries groups groups') {groups'' : List (Int × List ServerName)}
    (same' : SameEntries groups' groups'') : SameEntries groups groups'' :=
  ⟨same.perm.trans same'.perm, same'.nodup⟩

theorem lookup (same : SameEntries groups groups') (gid : Int) : groups.lookup gid = groups'.lookup gid := by
  obtain ⟨perm, nodup⟩ := same
  induction perm with
  | nil => rfl
  | cons entry _ inductionHypothesis =>
    rw [List.lookup_cons, List.lookup_cons, inductionHypothesis (List.nodup_cons.mp nodup).2]
  | swap one other rest =>
    obtain ⟨key, value⟩ := one
    obtain ⟨key', value'⟩ := other
    -- the keys differ, so it does not matter which entry comes first
    have apart : key ≠ key' := by
      rintro rfl
      simp at nodup
    simp only [List.lookup_cons]
    by_cases here : gid = key
    · simp [here, beq_eq_false_iff_ne.mpr apart]
    · simp [beq_eq_false_iff_ne.mpr here]
  | trans first second inductionHypothesis inductionHypothesis' =>
    exact (inductionHypothesis ((second.map Prod.fst).nodup_iff.mpr nodup)).trans (inductionHypothesis' nodup)

end SameEntries

theorem Configs.addGroups_of_disjoint (disjoint : ∀ entry ∈ servers, entry.1 ∉ groups.map Prod.fst)
    (nodup : (servers.map Prod.fst).Nodup) : addGroups groups servers = groups ++ servers := by
  unfold addGroups
  induction servers generalizing groups with
  | nil => simp
  | cons entry servers inductionHypothesis =>
    obtain ⟨fresh, nodup⟩ := List.nodup_cons.mp nodup
    have kept : groups.filter (·.1 ≠ entry.1) = groups := by
      rw [List.filter_eq_self]
      intro old member
      have apart : old.1 ≠ entry.1 :=
        fun same => disjoint entry (by simp) (List.mem_map.mpr ⟨old, member, same⟩)
      simpa using apart
    rw [List.foldl_cons, kept, inductionHypothesis, List.append_assoc, List.singleton_append]
    · intro later member
      simp only [List.map_append, List.map_cons, List.map_nil, List.mem_append, List.mem_singleton, not_or]
      exact ⟨disjoint later (List.mem_cons_of_mem _ member),
        fun same => fresh (List.mem_map.mpr ⟨later, member, same⟩)⟩
    · exact nodup

theorem getGroupMapCopy_same (order : Order (Int × List ServerName)) (nodup : (groups.map Prod.fst).Nodup) :
    SameEntries (getGroupMapCopy order groups) groups := by
  have visited : ((order.visit groups).map Prod.fst).Nodup :=
    ((order.perm groups).map Prod.fst).nodup_iff.mpr nodup
  have copied : getGroupMapCopy order groups = order.visit groups :=
    (Configs.addGroups_of_disjoint (by simp) visited).trans (List.nil_append _)
  rw [copied]
  exact ⟨order.perm groups, nodup⟩

theorem Configs.addGroups_perm (nodup : (servers.map Prod.fst).Nodup) :
    (addGroups groups servers).Perm (groups.filter (fun entry => entry.1 ∉ servers.map Prod.fst) ++ servers) := by
  unfold addGroups
  induction servers generalizing groups with
  | nil => simp
  | cons entry servers inductionHypothesis =>
    obtain ⟨fresh, nodup⟩ := List.nodup_cons.mp nodup
    refine (inductionHypothesis nodup).trans ?_
    rw [List.filter_append, List.filter_filter]
    -- no later entry replaces this one
    have stays : [entry].filter (fun other => other.1 ∉ servers.map Prod.fst) = [entry] := by
      simpa using fresh
    rw [stays, List.append_assoc, List.singleton_append]
    refine List.Perm.append (List.Perm.of_eq (List.filter_congr ?_)) (List.Perm.refl _)
    intro old _
    simp only [List.map_cons, List.mem_cons, not_or, ne_eq, Bool.decide_and, Bool.and_comm]

theorem SameEntries.addGroups (same : SameEntries groups groups') (new : SameEntries servers servers') :
    SameEntries (Configs.addGroups groups servers) (Configs.addGroups groups' servers') := by
  have ids : ∀ gid, gid ∈ servers.map Prod.fst ↔ gid ∈ servers'.map Prod.fst :=
    fun gid => (new.perm.map Prod.fst).mem_iff
  have kept : (groups.filter fun entry => entry.1 ∉ servers.map Prod.fst) =
      groups.filter fun entry => entry.1 ∉ servers'.map Prod.fst := by
    apply List.filter_congr
    intro entry _
    simp only [ids]
  refine ⟨?_, ?_⟩
  · refine (Configs.addGroups_perm new.symm.nodup).trans (List.Perm.trans ?_ (Configs.addGroups_perm new.nodup).symm)
    rw [kept]
    exact (same.perm.filter _).append new.perm
  · rw [((Configs.addGroups_perm new.nodup).map Prod.fst).nodup_iff, List.map_append, List.nodup_append]
    refine ⟨same.nodup.sublist (List.filter_sublist.map _), new.nodup, ?_⟩
    intro gid old other added
    obtain ⟨entry, member, rfl⟩ := List.mem_map.mp old
    have outside := (List.mem_filter.mp member).2
    simp only [decide_eq_true_eq] at outside
    rintro rfl
    exact outside added

theorem Configs.deleteGroups_eq_filter (gids : List Int) :
    deleteGroups groups gids = groups.filter fun entry => entry.1 ∉ gids := by
  unfold deleteGroups
  induction gids generalizing groups with
  | nil => simp
  | cons gid gids inductionHypothesis =>
    rw [List.foldl_cons, inductionHypothesis, List.filter_filter]
    apply List.filter_congr
    intro entry _
    simp only [List.mem_cons, not_or, ne_eq, Bool.decide_and, Bool.and_comm]

theorem SameEntries.deleteGroups (same : SameEntries groups groups') (gids : List Int) :
    SameEntries (Configs.deleteGroups groups gids) (Configs.deleteGroups groups' gids) := by
  rw [Configs.deleteGroups_eq_filter, Configs.deleteGroups_eq_filter]
  exact ⟨same.perm.filter _, same.nodup.sublist (List.filter_sublist.map _)⟩

end

/-! ## `rebalance` sorts the groups -/

/-- The loop looks at the lists of the groups, not at the order of the keys. -/
structure SameLists (one other : Rebalancing) : Prop where
  get : one.gitToShards.get = other.gitToShards.get
  freeShards : one.freeShards = other.freeShards
  moveShards : one.moveShards = other.moveShards

theorem SameLists.turn (liveGroup : List Int) {one other : Rebalancing} (same : SameLists one other) :
    Loops.Turn.Related SameLists (one.turn liveGroup) (other.turn liveGroup) := by
  obtain ⟨⟨keys, get⟩, freeShards, moveShards⟩ := one
  obtain ⟨⟨keys', get'⟩, freeShards', moveShards'⟩ := other
  obtain ⟨rfl, rfl, rfl⟩ := same
  -- a turn takes the order of the groups from `liveGroup`, never from the keys of the map
  simp only [Rebalancing.turn]
  split
  · exact .leave
  cases freeShards with
  | cons shard rest => exact .next ⟨rfl, rfl, rfl⟩
  | nil =>
    dsimp only
    split
    · exact .panic
    · exact .next ⟨rfl, rfl, rfl⟩

theorem exists_of_rel_some {Value : Type} {related : Value → Value → Prop} {one : Value} {other : Option Value}
    (rel : Option.Rel related (some one) other) : ∃ found, other = some found ∧ related one found := by
  cases rel with
  | some here => exact ⟨_, rfl, here⟩

theorem exists_of_some_rel {Value : Type} {related : Value → Value → Prop} {one : Option Value} {other : Value}
    (rel : Option.Rel related one (some other)) : ∃ found, one = some found ∧ related found other := by
  cases rel with
  | some here => exact ⟨_, rfl, here⟩

theorem map_eq_of_rel {State Result : Type} {related : State → State → Prop} {one other : Option State}
    (rel : Option.Rel related one other) {result : State → Result}
    (same : ∀ first second, related first second → result first = result second) :
    one.map result = other.map result := by
  cases rel with
  | none => rfl
  | some here => exact congrArg some (same _ _ here)

theorem rebalance_congr {map map' : ShardMap} (keys : map.keys.Perm map'.keys) (get : map.get = map'.get)
    (oldShards : Shard → Int) : rebalance map oldShards = rebalance map' oldShards := by
  have sorted : map.keys.insertionSort (· ≤ ·) = map'.keys.insertionSort (· ≤ ·) := by
    apply List.Perm.eq_of_pairwise' (List.pairwise_insertionSort _ _) (List.pairwise_insertionSort _ _)
    exact (List.perm_insertionSort _ _).trans (keys.trans (List.perm_insertionSort _ _).symm)
  have free : ((List.finRange NShards).filter fun shard => oldShards shard = 0 ∨ oldShards shard ∉ map.keys) =
      (List.finRange NShards).filter fun shard => oldShards shard = 0 ∨ oldShards shard ∉ map'.keys := by
    apply List.filter_congr
    intro shard _
    simp only [keys.mem_iff]
  unfold rebalance
  rw [sorted, free]
  have ended := Loops.run_related (fun _ _ same => SameLists.turn (map'.keys.insertionSort (· ≤ ·)) same)
    rebalanceFuel (show SameLists
      { gitToShards := map, freeShards := (List.finRange NShards).filter fun shard =>
          oldShards shard = 0 ∨ oldShards shard ∉ map'.keys }
      { gitToShards := map', freeShards := (List.finRange NShards).filter fun shard =>
          oldShards shard = 0 ∨ oldShards shard ∉ map'.keys } from ⟨get, rfl, rfl⟩)
  refine map_eq_of_rel ended fun one other same => ?_
  rw [same.get, same.moveShards]

theorem rebalance_ranges (ranges : Ranges) {groups groups' : List (Int × List ServerName)}
    (same : groups.Perm groups') (oldShards : Shard → Int) :
    rebalance { getGIDtoShardsMap oldShards (ranges.newMap.visit groups) with
        keys := ranges.gitToShards.visit (getGIDtoShardsMap oldShards (ranges.newMap.visit groups)).keys } oldShards =
      rebalance (getGIDtoShardsMap oldShards groups') oldShards := by
  have entries : (ranges.newMap.visit groups).Perm groups' := (ranges.newMap.perm groups).trans same
  apply rebalance_congr
  · refine (ranges.gitToShards.perm _).trans ?_
    rw [(getGIDtoShardsMap_spec _ _).1, (getGIDtoShardsMap_spec _ _).1]
    exact entries.map Prod.fst
  · funext gid
    rw [getGIDtoShardsMap_get, getGIDtoShardsMap_get]
    simp only [(entries.map Prod.fst).mem_iff]

/-! ## Replicas -/

/-- The same configuration, with lists of the same entries. -/
structure Config.Alike (one other : Config) : Prop where
  num : one.num = other.num
  shards : one.shards = other.shards
  groups : SameEntries one.groups other.groups

theorem Config.Alike.same {one other model : Config} (alike : one.Alike model) (alike' : other.Alike model) :
    one.Same other where
  num := alike.num.trans alike'.num.symm
  shards := alike.shards.trans alike'.shards.symm
  groups := (alike.groups.trans alike'.groups.symm).lookup

namespace Configs

/-- The two lists have alike configurations. -/
def Alike (one other : Configs) : Prop := List.Forall₂ Config.Alike one.list other.list

variable {one other : Configs} (alike : Alike one other)
include alike

theorem Alike.last : one.last.Alike other.last := by
  have lengths := List.Forall₂.length_eq alike
  have positive := List.length_pos_of_ne_nil one.nonempty
  have here : Config.Alike (one.list.get ⟨one.list.length - 1, by omega⟩)
      (other.list.get ⟨one.list.length - 1, by omega⟩) := List.Forall₂.get alike _ _
  simpa [Configs.last, List.getLast_eq_getElem, lengths] using here

theorem Alike.length_eq : one.list.length = other.list.length :=
  List.Forall₂.length_eq alike

theorem Alike.getElem? (number : Nat) :
    Option.Rel Config.Alike one.list[number]? other.list[number]? := by
  have lengths := alike.length_eq
  by_cases inside : number < one.list.length
  · rw [List.getElem?_eq_getElem inside, List.getElem?_eq_getElem (lengths ▸ inside)]
    exact .some (List.Forall₂.get alike inside (lengths ▸ inside))
  · rw [List.getElem?_eq_none (by omega), List.getElem?_eq_none (by omega)]
    exact .none

theorem Alike.add (shards : Shard → Int)
    {groups groups' : List (Int × List ServerName)} (same : SameEntries groups groups') :
    Alike (one.add shards groups) (other.add shards groups') := by
  refine List.rel_append alike ?_
  exact .cons ⟨by rw [alike.last.num], rfl, same⟩ .nil

theorem Alike.addRebalanced (ranges : Ranges)
    {groups groups' : List (Int × List ServerName)} (same : SameEntries groups groups') :
    Option.Rel Alike (one.addRebalancedIn ranges groups) (other.addRebalanced groups') := by
  simp only [addRebalancedIn, Configs.addRebalanced, alike.last.shards,
    rebalance_ranges ranges same.perm other.last.shards]
  cases rebalance (getGIDtoShardsMap other.last.shards groups') other.last.shards with
  | none => exact .none
  | some balanced => exact .some (alike.add balanced.1 same)

theorem Alike.applyToStateMachine (ranges : Ranges) {args : Args} (wellFormed : args.WellFormed) :
    Option.Rel Alike (one.applyToStateMachineIn ranges args) (other.applyToStateMachine args) := by
  have copied := (getGroupMapCopy_same ranges.oldGroups alike.last.groups.symm.nodup).trans alike.last.groups
  cases args with
  | join servers =>
    have new := getGroupMapCopy_same ranges.servers wellFormed
    have visited : SameEntries (ranges.copyNewServer.visit (getGroupMapCopy ranges.servers servers)) servers :=
      ⟨(ranges.copyNewServer.perm _).trans new.perm, wellFormed⟩
    exact alike.addRebalanced ranges (copied.addGroups visited)
  | leave gids => exact alike.addRebalanced ranges (copied.deleteGroups gids)
  | move shard gid =>
    simp only [applyToStateMachineIn, Configs.applyToStateMachine]
    split
    · rw [alike.last.shards]
      exact .some (alike.add _ alike.last.groups)
    · exact .none
  | query num => exact .some alike

end Configs

/-- A replica that applies operations with orders, and the model without them. -/
structure State.Alike (one other : State) : Prop where
  configs : one.configs.Alike other.configs
  clientSeq : one.clientSeq = other.clientSeq

theorem State.Alike.openSession {one other : State} (alike : one.Alike other) (clientID : Nat) :
    (one.openSession clientID).Alike (other.openSession clientID) := by
  unfold State.openSession
  rw [alike.clientSeq]
  split
  · exact alike
  · exact ⟨alike.configs, rfl⟩

theorem State.Alike.applyHandler {one other : State} (alike : one.Alike other) (ranges : Ranges) {op : Op}
    (wellFormed : op.args.WellFormed) :
    Option.Rel State.Alike (one.applyHandlerIn ranges op) (other.applyHandler op) := by
  have opened := alike.openSession op.clientID
  have sessions : (one.openSession op.clientID).lastSeq op.clientID =
      (other.openSession op.clientID).lastSeq op.clientID := by
    rw [State.lastSeq, opened.clientSeq, State.lastSeq]
  simp only [State.applyHandlerIn, State.applyHandler, sessions]
  by_cases seen : op.seqNum ≤ (other.openSession op.clientID).lastSeq op.clientID
  · rw [if_pos seen, if_pos seen]
    exact .some opened
  · rw [if_neg seen, if_neg seen]
    have applied := opened.configs.applyToStateMachine ranges wellFormed
    generalize (one.openSession op.clientID).configs.applyToStateMachineIn ranges op.args = first at applied ⊢
    generalize (other.openSession op.clientID).configs.applyToStateMachine op.args = second at applied ⊢
    cases applied with
    | none => exact .none
    | some configs => exact .some ⟨configs, opened.clientSeq⟩

theorem replayIn_append (steps : List (Ranges × Op)) (step : Ranges × Op) :
    replayIn (steps ++ [step]) = (replayIn steps).bind fun sc => sc.applyHandlerIn step.1 step.2 := by
  simp [replayIn, List.foldlM_append]

theorem replayIn_alike {steps : List (Ranges × Op)} (wellFormed : ∀ step ∈ steps, step.2.args.WellFormed) :
    Option.Rel State.Alike (replayIn steps) (replay (steps.map Prod.snd)) := by
  induction steps using List.reverseRecOn with
  | nil => exact .some ⟨.cons ⟨rfl, rfl, .refl _, List.nodup_nil⟩ .nil, rfl⟩
  | append_singleton steps step inductionHypothesis =>
    obtain ⟨earlier, last⟩ := List.forall_mem_append.mp wellFormed
    have before := inductionHypothesis earlier
    rw [replayIn_append, List.map_append, List.map_singleton, replay_append]
    generalize replayIn steps = one at before ⊢
    generalize replay (steps.map Prod.snd) = other at before ⊢
    cases before with
    | none => exact .none
    | some alike => exact alike.applyHandler step.1 (last step (by simp))

/-! ## Replicas at two indices -/

/-- What a replica has, another one has as well, and answers a `Query` with it. -/
structure Agrees (sc later : State) : Prop where
  numbered : ∀ (number : Nat) (config : Config), sc.configs.list[number]? = some config → config.num = number
  kept : ∀ (number : Nat) (config : Config), sc.configs.list[number]? = some config →
    ∃ config', later.configs.list[number]? = some config' ∧ config.Same config'
  answers : ∀ number : Nat, number < sc.configs.list.length → ∃ answer answer',
    sc.configs.getConfig number = some answer ∧ later.configs.getConfig number = some answer' ∧
      answer.Same answer' ∧ answer.num = number

/-- A replica that has applied a beginning of what another one has applied, both with any orders. -/
theorem controller_replicas_agree (first second : List (Ranges × Op))
    (wellFormed : ∀ step ∈ second, step.2.args.WellFormed)
    (applied : first.map Prod.snd <+: second.map Prod.snd) (later : State) (replayed : replayIn second = some later) :
    ∃ sc, replayIn first = some sc ∧ Agrees sc later ∧
      (first.map Prod.snd = second.map Prod.snd → sc.configs.list.length = later.configs.list.length) := by
  obtain ⟨more, log⟩ := applied
  have wellFormed' : ∀ step ∈ first, step.2.args.WellFormed := by
    intro step member
    have inside : step.2 ∈ second.map Prod.snd := by
      rw [← log]
      exact List.mem_append_left _ (List.mem_map_of_mem member)
    obtain ⟨step', member', same⟩ := List.mem_map.mp inside
    rw [← same]
    exact wellFormed step' member'
  -- each replica is compared with the model, and the model at one index with itself at the other
  have alike := replayIn_alike wellFormed'
  have alike' := replayIn_alike wellFormed
  rw [replayed, ← log] at alike'
  obtain ⟨model', replayed', later_alike⟩ := exists_of_rel_some alike'
  have ended := replayed'
  rw [replay_append_list] at ended
  obtain ⟨model, reached, rest⟩ := Option.bind_eq_some_iff.mp ended
  rw [reached] at alike
  obtain ⟨sc, ran, sc_alike⟩ := exists_of_some_rel alike
  have kept : ∀ (number : Nat) (config : Config), sc.configs.list[number]? = some config →
      config.num = number ∧ ∃ config', later.configs.list[number]? = some config' ∧ config.Same config' := by
    intro number config found
    have place := sc_alike.configs.getElem? number
    rw [found] at place
    obtain ⟨shared, inModel, here⟩ := exists_of_rel_some place
    have numbered := num_eq_of_getElem? reached inModel
    have inModel' := getElem?_of_replay (List.prefix_append _ more) reached replayed' inModel
    have place' := later_alike.configs.getElem? number
    rw [inModel'] at place'
    obtain ⟨config', found', there⟩ := exists_of_some_rel place'
    exact ⟨here.num.trans numbered, config', found', here.same there⟩
  refine ⟨sc, ran, ⟨fun number config found => (kept number config found).1,
    fun number config found => (kept number config found).2, ?_⟩, ?_⟩
  · intro number inside
    obtain ⟨numbered, config', found', same⟩ := kept number _ (List.getElem?_eq_getElem inside)
    exact ⟨_, config', sc.configs.getConfig_of_lt (List.getElem?_eq_getElem inside),
      later.configs.getConfig_of_lt found', same, numbered⟩
  · intro same
    have nothing : more = [] := by simpa [same] using log
    subst nothing
    cases rest
    rw [sc_alike.configs.length_eq, later_alike.configs.length_eq]

def Ranges.forwards : Ranges :=
  ⟨⟨id, fun _ => .refl _⟩, ⟨id, fun _ => .refl _⟩, ⟨id, fun _ => .refl _⟩, ⟨id, fun _ => .refl _⟩,
    ⟨id, fun _ => .refl _⟩⟩

def Ranges.backwards : Ranges :=
  ⟨⟨List.reverse, List.reverse_perm⟩, ⟨List.reverse, List.reverse_perm⟩, ⟨List.reverse, List.reverse_perm⟩,
    ⟨List.reverse, List.reverse_perm⟩, ⟨List.reverse, List.reverse_perm⟩⟩

/-- Two groups join at once, and one of them leaves. -/
def joinedTogether (ranges : Ranges) : List (Ranges × Op) :=
  [(ranges, ⟨.join [(1, [0]), (2, [1])], 1, 7⟩), (ranges, ⟨.leave [1], 2, 7⟩)]

theorem controller_replicas_agree_backwards :
    ∃ sc later, replayIn (joinedTogether .backwards) = some sc ∧ replayIn (joinedTogether .forwards) = some later ∧
      Agrees sc later := by
  have ran : (replayIn (joinedTogether .forwards)).isSome = true := by decide +kernel
  obtain ⟨later, replayed⟩ := Option.isSome_iff_exists.mp ran
  obtain ⟨sc, replayed', agrees, _⟩ := controller_replicas_agree (joinedTogether .backwards)
    (joinedTogether .forwards) (by simp [joinedTogether, Args.WellFormed]) (by simp [joinedTogether]) later replayed
  exact ⟨sc, later, replayed', replayed, agrees⟩

end ShardedKV.ShardCtrler
