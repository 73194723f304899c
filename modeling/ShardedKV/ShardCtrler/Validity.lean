import ShardedKV.ShardCtrler.Balance

/-!
# Which histories have only valid configurations

A `Join` or a `Leave` makes a valid configuration out of any.  A `Move` writes the group id it is
given, and nothing looks whether there is such a group.  Nor does anything look whether there is such a
shard, or such a number in a `Query`, before they are used as indices.
-/

namespace ShardedKV.ShardCtrler

open Services (Justified)

/-- Every shard belongs to a group of the configuration, or to the group 0 when there is none. -/
def Config.Valid (config : Config) : Prop :=
  if config.groups = [] then ∀ shard, config.shards shard = 0
  else ∀ shard, config.shards shard ∈ config.groups.map Prod.fst

instance (config : Config) : Decidable config.Valid := by
  unfold Config.Valid
  infer_instance

/-- A `Move` to a group that is there, or to the group 0 when there is none. -/
def Args.MovesValidly (groups : List (Int × List ServerName)) : Args → Prop
  | .move _ gid => if groups = [] then gid = 0 else gid ∈ groups.map Prod.fst
  | _ => True

/-- An operation after the operations before it; one with number 0 has no effect. -/
def MovesValidly (before : List Op) (op : Op) : Prop :=
  op.seqNum ≠ 0 → ∀ sc, replay before = some sc → op.args.MovesValidly sc.configs.last.groups

namespace Configs

theorem addRebalanced_valid {configs after : Configs} {groups : List (Int × List ServerName)}
    (added : configs.addRebalanced groups = some after) :
    ∃ config : Config, after.list = configs.list ++ [config] ∧ config.Valid := by
  obtain ⟨balanced, ended, rfl⟩ := Option.map_eq_some_iff.mp added
  refine ⟨_, rfl, ?_⟩
  unfold Config.Valid
  split
  · rename_i empty
    dsimp only at empty
    subst empty
    obtain ⟨moved, without⟩ := rebalance_nil configs.last.shards
    rw [without] at ended
    cases ended
    exact fun _ => rfl
  · rename_i nonempty
    exact rebalance_owner _ groups nonempty ended

/-- A `Move` makes a valid configuration out of a valid one exactly if it moves validly. -/
theorem valid_update_iff {config : Config} (valid : config.Valid) (num : Nat) (shard : Shard) (gid : Int) :
    Config.Valid { num, shards := Function.update config.shards shard gid, groups := config.groups } ↔
      if config.groups = [] then gid = 0 else gid ∈ config.groups.map Prod.fst := by
  unfold Config.Valid at *
  by_cases empty : config.groups = []
  · simp only [empty, if_true] at valid ⊢
    constructor
    · intro zero
      simpa using zero shard
    · intro zero other
      rw [Function.update_apply]
      split
      · exact zero
      · exact valid other
  · simp only [empty, if_false] at valid ⊢
    constructor
    · intro owned
      simpa using owned shard
    · intro member other
      rw [Function.update_apply]
      split
      · exact member
      · exact valid other

/-- All configurations stay valid exactly if the operation moves validly. -/
theorem applyToStateMachine_valid_iff {configs after : Configs} {args : Args}
    (made : configs.applyToStateMachine args = some after) :
    (∀ config ∈ after.list, config.Valid) ↔
      (∀ config ∈ configs.list, config.Valid) ∧ args.MovesValidly configs.last.groups := by
  -- what `rebalance` adds is valid whatever was there before
  have rebalanced : ∀ groups, configs.addRebalanced groups = some after →
      ((∀ config ∈ after.list, config.Valid) ↔ ∀ config ∈ configs.list, config.Valid) := by
    intro groups added
    obtain ⟨config, grown, valid⟩ := addRebalanced_valid added
    rw [grown, List.forall_mem_append, List.forall_mem_singleton]
    exact and_iff_left valid
  cases args with
  | join servers => exact (rebalanced _ made).trans (and_iff_left trivial).symm
  | leave gids => exact (rebalanced _ made).trans (and_iff_left trivial).symm
  | move shard gid =>
    simp only [applyToStateMachine] at made
    split at made
    · cases made
      simp only [add, List.forall_mem_append, List.forall_mem_singleton, Args.MovesValidly]
      exact and_congr_right fun all => valid_update_iff (all _ (List.getLast_mem configs.nonempty)) _ _ _
    · cases made
  | query num =>
    cases made
    exact (and_iff_left trivial).symm

end Configs

/-- The configurations of a history are all valid exactly if every `Move` of it names a group of the
configuration before it. -/
theorem configs_valid_iff (history : List Op) (sc : State) (replayed : replay history = some sc) :
    (∀ config ∈ sc.configs.list, config.Valid) ↔ Justified MovesValidly history := by
  induction history using List.reverseRecOn generalizing sc with
  | nil =>
    cases replayed
    -- the first configuration has no groups and no owners
    refine ⟨fun _ => Justified.nil, fun _ config member => ?_⟩
    rw [List.mem_singleton.mp member]
    exact fun _ => rfl
  | append_singleton history op inductionHypothesis =>
    rw [replay_append] at replayed
    obtain ⟨before, reached, applied⟩ := Option.bind_eq_some_iff.mp replayed
    have earlier := inductionHypothesis before reached
    -- The history before the operation leads to the one state.
    have only : MovesValidly history op ↔
        (op.seqNum ≠ 0 → op.args.MovesValidly before.configs.last.groups) := by
      constructor
      · exact fun moves effective => moves effective before reached
      · intro moves effective other reached'
        rw [reached] at reached'
        cases reached'
        exact moves effective
    have split : Justified MovesValidly (history ++ [op]) ↔
        Justified MovesValidly history ∧ MovesValidly history op :=
      ⟨fun justified => ⟨justified.of_append, justified.last⟩, fun both => both.1.append both.2⟩
    rw [split, ← earlier, only]
    have unseen := replay_unseen reached
    have configs := (State.applyHandler_of_unseen unseen op).1
    rw [applied, Option.map_some, Configs.applied] at configs
    by_cases effective : op.seqNum = 0
    · rw [if_pos effective, Option.some.injEq] at configs
      rw [configs]
      simp [effective]
    · rw [if_neg effective] at configs
      rw [Configs.applyToStateMachine_valid_iff configs.symm]
      simp [effective]

/-- A history that moves shards between the groups it has, and loses all groups at the end. -/
def movedBetweenGroups : List Op :=
  [⟨.join [(1, [0]), (2, [0])], 1, 7⟩, ⟨.move 0 2, 2, 7⟩, ⟨.leave [1, 2], 3, 7⟩]

theorem configs_valid_iff_movedBetweenGroups :
    ∃ sc, replay movedBetweenGroups = some sc ∧ (∀ config ∈ sc.configs.list, config.Valid) ∧
      Justified MovesValidly movedBetweenGroups := by
  have valid : (replay movedBetweenGroups).map (fun sc => decide (∀ config ∈ sc.configs.list, config.Valid)) =
      some true := by decide +kernel
  obtain ⟨sc, replayed, all⟩ := Option.map_eq_some_iff.mp valid
  have all := of_decide_eq_true all
  exact ⟨sc, replayed, all, (configs_valid_iff movedBetweenGroups sc replayed).mp all⟩

/-- A `Move` to a group that has never joined. -/
def movedAway : List Op := [⟨.join [(1, [0])], 1, 7⟩, ⟨.move 0 5, 2, 7⟩]

theorem configs_invalid_movedAway :
    (replay movedAway).map (fun sc => sc.configs.last.groups.map Prod.fst) = some [1] ∧
    (replay movedAway).map (fun sc => sc.configs.last.shards 0) = some 5 ∧
    ∃ sc, replay movedAway = some sc ∧ ¬ ∀ config ∈ sc.configs.list, config.Valid := by
  refine ⟨by decide +kernel, by decide +kernel, ?_⟩
  have invalid : (replay movedAway).map (fun sc => decide (∀ config ∈ sc.configs.list, config.Valid)) =
      some false := by decide +kernel
  obtain ⟨sc, replayed, all⟩ := Option.map_eq_some_iff.mp invalid
  exact ⟨sc, replayed, of_decide_eq_false all⟩

/-! ## Requests that are out of range -/

/-- What the request names can be used as an index: the shard of a `Move` when it is applied, and the number of
a `Query` when it is answered. -/
def Op.InRange (op : Op) : Prop :=
  match op.args with
  | .move shard _ => op.seqNum = 0 ∨ (0 ≤ shard ∧ shard < NShards)
  | .query num => -1 ≤ num
  | _ => True

theorem Configs.getConfig_isSome_iff (configs : Configs) (num : Int) : (configs.getConfig num).isSome ↔ -1 ≤ num := by
  unfold getConfig
  by_cases newest : num = -1 ∨ configs.list.length ≤ num
  · rw [if_pos newest]
    simp only [Option.isSome_some, true_iff]
    omega
  · rw [if_neg newest]
    split
    · simp only [Option.isSome_none, Bool.false_eq_true, false_iff]
      omega
    · rw [List.getElem?_eq_getElem (by omega)]
      simp only [Option.isSome_some, true_iff]
      omega

/-- A log can be replayed exactly if none of its entries moves a shard that does not exist. -/
theorem replay_isSome_iff (log : List Op) : (replay log).isSome ↔ ∀ op ∈ log, op.panics = false := by
  have outcome := configs_replay_cases log
  split at outcome
  · rename_i panics
    obtain ⟨op, member, panic⟩ := panics
    rw [Option.map_eq_none_iff] at outcome
    simp only [outcome, Option.isSome_none, Bool.false_eq_true, false_iff]
    exact fun none => by simp [none op member] at panic
  · rename_i fine
    obtain ⟨configs, reached, -⟩ := outcome
    obtain ⟨sc, replayed, -⟩ := Option.map_eq_some_iff.mp reached
    simp only [replayed, Option.isSome_some, true_iff]
    intro op member
    by_contra panics
    exact fine ⟨op, member, by simpa using panics⟩

theorem applyHandler_isSome_iff {log : List Op} {sc : State} (replayed : replay log = some sc) (op : Op) :
    (sc.applyHandler op).isSome ↔ op.panics = false := by
  have whole := replay_isSome_iff (log ++ [op])
  have before := (replay_isSome_iff log).mp (by rw [replayed]; rfl)
  rw [replay_append, replayed, Option.bind_some] at whole
  rw [whole]
  simp only [List.mem_append, List.mem_singleton]
  exact ⟨fun all => all op (.inr rfl), fun fine other member => member.elim (before other) fun same => same ▸ fine⟩

/-- A request is applied, and answered in every state after it, exactly if it is in range. -/
theorem request_survived_iff (log : List Op) (sc : State) (replayed : replay log = some sc) (op : Op) :
    ((sc.applyHandler op).isSome ∧ ∀ num, op.args = .query num → ∀ more later,
      replay (log ++ op :: more) = some later → (later.configs.getConfig num).isSome) ↔ op.InRange := by
  rw [applyHandler_isSome_iff replayed]
  obtain ⟨args, seqNum, clientID⟩ := op
  unfold Op.InRange Op.panics
  cases args with
  | join servers => simp
  | leave gids => simp
  | move shard gid =>
    simp only [reduceCtorEq, IsEmpty.forall_iff, implies_true, and_true, decide_eq_false_iff_not]
    omega
  | query num =>
    simp only [true_and, Args.query.injEq, forall_eq', Configs.getConfig_isSome_iff]
    refine ⟨fun answered => ?_, fun inRange _ _ _ => inRange⟩
    -- the query itself can be applied, so there is a state to answer it in
    obtain ⟨later, applied⟩ := Option.isSome_iff_exists.mp
      ((applyHandler_isSome_iff replayed ⟨.query num, seqNum, clientID⟩).mpr rfl)
    exact answered [] later (by rw [replay_append, replayed, Option.bind_some, applied])

theorem request_survived_iff_moved : ∃ sc, replay movedBetweenGroups = some sc ∧
    (sc.applyHandler ⟨.move 9 1, 4, 7⟩).isSome ∧ Op.InRange ⟨.move 9 1, 4, 7⟩ := by
  obtain ⟨sc, replayed⟩ := Option.isSome_iff_exists.mp ((replay_isSome_iff movedBetweenGroups).mpr (by decide))
  have inRange : Op.InRange ⟨.move 9 1, 4, 7⟩ := .inr (by decide)
  exact ⟨sc, replayed, ((request_survived_iff movedBetweenGroups sc replayed ⟨.move 9 1, 4, 7⟩).mpr inRange).1, inRange⟩

/-- A `Move` of the shard 10 is in the log for good, and no replica gets past it.  A `Query` for the number -2 is
applied, and panics in the handler that answers it. -/
theorem requests_out_of_range :
    (∀ before after, replay (before ++ ⟨.move 10 1, 1, 7⟩ :: after) = none) ∧
    (replay [⟨.query (-2), 1, 7⟩]).map (fun sc => (sc.configs.getConfig (-2)).isSome) = some false := by
  refine ⟨fun before after => ?_, by decide⟩
  rw [← Option.not_isSome_iff_eq_none, replay_isSome_iff]
  intro fine
  have panics := fine ⟨.move 10 1, 1, 7⟩ (by simp)
  revert panics
  decide

end ShardedKV.ShardCtrler
