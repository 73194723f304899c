import ShardedKV.Services.AgreedLog
import ShardedKV.ShardCtrler.Server
import ShardedKV.ShardCtrler.Termination

/-!
# Retried requests at the controller

`applyHandler` opens a session with the number 0 and compares the number of every operation with
it, but nothing ever writes a larger number.  So a repeated `Join`, `Leave` or `Move` is applied
again.
-/

namespace ShardedKV.ShardCtrler

open Services (Justified)

def SameRequest (one other : Op) : Prop :=
  one.clientID = other.clientID ∧ one.seqNum = other.seqNum

instance (one other : Op) : Decidable (SameRequest one other) := by
  unfold SameRequest
  infer_instance

/-- The log without the later repetitions of a request. -/
def withoutRepetitions (log : List Op) : List Op :=
  log.foldl (fun kept op => if ∃ other ∈ kept, SameRequest other op then kept else kept ++ [op]) []

/-- A clerk repeats what it has sent. -/
def Retried (log : List Op) : Prop :=
  ∀ one ∈ log, ∀ other ∈ log, SameRequest one other → one = other

instance (log : List Op) : Decidable (Retried log) := by
  unfold Retried
  infer_instance

/-- The first occurrences of a client's requests have increasing numbers. -/
def InOrder (log : List Op) : Prop :=
  (withoutRepetitions log).Pairwise fun one other => one.clientID = other.clientID → one.seqNum < other.seqNum

instance (log : List Op) : Decidable (InOrder log) := by
  unfold InOrder
  infer_instance

/-- The operation makes a configuration, or panics. -/
def Op.changes (op : Op) : Bool :=
  match op.args with
  | .query _ => false
  | _ => 0 < op.seqNum

/-- A `Move` of a shard that does not exist. -/
def Op.panics (op : Op) : Bool :=
  match op.args with
  | .move shard _ => 0 < op.seqNum ∧ ¬ (0 ≤ shard ∧ shard < NShards)
  | _ => false

/-- No request that makes a configuration is repeated. -/
def RepetitionsInert (log : List Op) : Prop :=
  Justified (fun before op => (∃ other ∈ before, SameRequest other op) → op.changes = false) log

/-! ## One operation -/

/-- No session of the state has a number. -/
def State.Unseen (sc : State) : Prop := ∀ client, sc.lastSeq client = 0

theorem Configs.addRebalanced_eq_some (configs : Configs) (copyMap : List (Int × List ServerName)) :
    ∃ shards, configs.addRebalanced copyMap = some (configs.add shards copyMap) := by
  obtain ⟨balanced, ended⟩ := Option.isSome_iff_exists.mp (rebalance_isSome configs.last.shards copyMap)
  exact ⟨balanced.1, by simp [addRebalanced, ended]⟩

theorem Configs.length_add (configs : Configs) (shards : Shard → Int) (groups : List (Int × List ServerName)) :
    (configs.add shards groups).list.length = configs.list.length + 1 := by
  simp [add]

theorem State.lastSeq_openSession (sc : State) (clientID client : Nat) :
    (sc.openSession clientID).lastSeq client = sc.lastSeq client := by
  unfold openSession
  cases known : sc.clientSeq clientID with
  | some number => rfl
  | none =>
    by_cases here : client = clientID
    · subst here
      simp [lastSeq, known]
    · simp [lastSeq, Function.update_of_ne here]

theorem State.configs_openSession (sc : State) (clientID : Nat) :
    (sc.openSession clientID).configs = sc.configs := by
  unfold openSession
  split <;> rfl

/-- What an operation makes of the configurations, whatever was applied before. -/
def Configs.applied (configs : Configs) (op : Op) : Option Configs :=
  if op.seqNum = 0 then some configs else configs.applyToStateMachine op.args

theorem State.applyHandler_of_unseen {sc : State} (unseen : sc.Unseen) (op : Op) :
    (sc.applyHandler op).map State.configs = sc.configs.applied op ∧
      ∀ after, sc.applyHandler op = some after → after.Unseen := by
  have still : (sc.openSession op.clientID).Unseen := by
    intro client
    rw [lastSeq_openSession]
    exact unseen client
  unfold applyHandler Configs.applied
  dsimp only
  rw [still, configs_openSession]
  by_cases outside : op.seqNum = 0
  · simp only [outside, le_refl, if_true, Option.map_some, configs_openSession, Option.some.injEq, true_and]
    rintro _ rfl
    exact still
  · simp only [outside, Nat.le_zero, if_false, Option.map_map, Function.comp_def, Option.map_id', true_and]
    intro after applied
    obtain ⟨configs, _, rfl⟩ := Option.map_eq_some_iff.mp applied
    exact still

theorem Configs.applied_cases (configs : Configs) (op : Op) :
    if op.panics then configs.applied op = none
    else ∃ after, configs.applied op = some after ∧
      after.list.length = configs.list.length + if op.changes then 1 else 0 := by
  obtain ⟨args, seqNum, clientID⟩ := op
  unfold applied Op.panics Op.changes
  by_cases outside : seqNum = 0
  · subst outside
    cases args <;> simp
  · have positive : 0 < seqNum := Nat.pos_of_ne_zero outside
    cases args with
    | join servers =>
      obtain ⟨shards, balanced⟩ := configs.addRebalanced_eq_some (addGroups configs.last.groups servers)
      simp [outside, positive, applyToStateMachine, balanced, length_add]
    | leave gids =>
      obtain ⟨shards, balanced⟩ := configs.addRebalanced_eq_some (deleteGroups configs.last.groups gids)
      simp [outside, positive, applyToStateMachine, balanced, length_add]
    | move shard gid =>
      by_cases inside : 0 ≤ shard ∧ shard < NShards
      · simp only [positive, inside, if_false, outside, applyToStateMachine, decide_true, if_true]
        exact ⟨_, rfl, length_add _ _ _⟩
      · simp only [positive, inside, not_false_eq_true, and_self, decide_true, if_true, outside, if_false,
          applyToStateMachine, dif_neg]
    | query num => simp [outside, applyToStateMachine]

/-! ## The whole log -/

theorem replay_append (log : List Op) (op : Op) :
    replay (log ++ [op]) = (replay log).bind fun sc => sc.applyHandler op := by
  simp [replay, List.foldlM_append]

theorem replay_unseen {log : List Op} {sc : State} (replayed : replay log = some sc) : sc.Unseen := by
  induction log using List.reverseRecOn generalizing sc with
  | nil =>
    cases replayed
    exact fun _ => rfl
  | append_singleton log op inductionHypothesis =>
    rw [replay_append] at replayed
    obtain ⟨before, reached, applied⟩ := Option.bind_eq_some_iff.mp replayed
    exact (State.applyHandler_of_unseen (inductionHypothesis reached) op).2 sc applied

theorem configs_replay_append (log : List Op) (op : Op) :
    (replay (log ++ [op])).map State.configs =
      ((replay log).map State.configs).bind fun configs => configs.applied op := by
  rw [replay_append]
  cases reached : replay log with
  | none => rfl
  | some sc => exact (State.applyHandler_of_unseen (replay_unseen reached) op).1

theorem configs_replay_cases (log : List Op) :
    if ∃ op ∈ log, op.panics then (replay log).map State.configs = none
    else ∃ configs, (replay log).map State.configs = some configs ∧
      configs.list.length = 1 + log.countP Op.changes := by
  induction log using List.reverseRecOn with
  | nil => exact ⟨_, rfl, rfl⟩
  | append_singleton log op inductionHypothesis =>
    rw [configs_replay_append]
    simp only [List.mem_append, List.mem_singleton, or_and_right, exists_or, exists_eq_left]
    by_cases before : ∃ op ∈ log, op.panics
    · rw [if_pos before] at inductionHypothesis
      rw [if_pos (.inl before), inductionHypothesis]
      rfl
    · rw [if_neg before] at inductionHypothesis
      obtain ⟨configs, reached, length⟩ := inductionHypothesis
      have applied := configs.applied_cases op
      rw [reached, Option.bind_some]
      by_cases panics : op.panics = true
      · rw [if_pos panics] at applied
        rw [if_pos (.inr panics)]
        exact applied
      · rw [if_neg panics] at applied
        rw [if_neg (by rintro (earlier | now); exacts [before earlier, panics now])]
        obtain ⟨after, made, grown⟩ := applied
        refine ⟨after, made, ?_⟩
        rw [grown, length, List.countP_append, List.countP_singleton, Nat.add_assoc]

/-! ## Without the repetitions -/

theorem withoutRepetitions_append (log : List Op) (op : Op) :
    withoutRepetitions (log ++ [op]) = if ∃ other ∈ withoutRepetitions log, SameRequest other op then
      withoutRepetitions log else withoutRepetitions log ++ [op] := by
  unfold withoutRepetitions
  rw [List.foldl_append]
  rfl

theorem SameRequest.trans {first second third : Op} (early : SameRequest first second)
    (late : SameRequest second third) : SameRequest first third :=
  ⟨early.1.trans late.1, early.2.trans late.2⟩

theorem mem_of_mem_withoutRepetitions {log : List Op} {op : Op} (member : op ∈ withoutRepetitions log) :
    op ∈ log := by
  induction log using List.reverseRecOn with
  | nil => simp [withoutRepetitions] at member
  | append_singleton log last inductionHypothesis =>
    rw [withoutRepetitions_append] at member
    split at member
    · exact List.mem_append_left _ (inductionHypothesis member)
    · rcases List.mem_append.mp member with old | new
      · exact List.mem_append_left _ (inductionHypothesis old)
      · exact List.mem_append_right _ new

theorem exists_first {log : List Op} {op : Op} (member : op ∈ log) :
    ∃ other ∈ withoutRepetitions log, SameRequest other op := by
  induction log using List.reverseRecOn with
  | nil => simp at member
  | append_singleton log last inductionHypothesis =>
    rw [withoutRepetitions_append]
    rcases List.mem_append.mp member with old | new
    · obtain ⟨other, kept, same⟩ := inductionHypothesis old
      split
      · exact ⟨other, kept, same⟩
      · exact ⟨other, List.mem_append_left _ kept, same⟩
    · obtain rfl := List.mem_singleton.mp new
      split
      · assumption
      · exact ⟨op, by simp, rfl, rfl⟩

theorem repeated_iff (log : List Op) (op : Op) :
    (∃ other ∈ withoutRepetitions log, SameRequest other op) ↔ ∃ other ∈ log, SameRequest other op := by
  constructor
  · rintro ⟨other, member, same⟩
    exact ⟨other, mem_of_mem_withoutRepetitions member, same⟩
  · rintro ⟨other, member, same⟩
    obtain ⟨first, kept, alike⟩ := exists_first member
    exact ⟨first, kept, alike.trans same⟩

theorem Configs.applied_of_inert (configs : Configs) {op : Op} (inert : op.changes = false) :
    configs.applied op = some configs := by
  obtain ⟨args, seqNum, clientID⟩ := op
  unfold applied
  cases args with
  | query num => simp [applyToStateMachine]
  | join servers => simp_all [Op.changes]
  | leave gids => simp_all [Op.changes]
  | move shard gid => simp_all [Op.changes]

theorem RepetitionsInert.configs_eq {log : List Op} (inert : RepetitionsInert log) :
    (replay log).map State.configs = (replay (withoutRepetitions log)).map State.configs := by
  induction log using List.reverseRecOn with
  | nil => rfl
  | append_singleton log op inductionHypothesis =>
    have before := inductionHypothesis inert.of_append
    rw [configs_replay_append, withoutRepetitions_append]
    split
    · rename_i again
      -- The repetition leaves the configurations as they are.
      have idle := inert.last ((repeated_iff log op).mp again)
      rw [← before]
      cases (replay log).map State.configs with
      | none => rfl
      | some configs => exact configs.applied_of_inert idle
    · rw [configs_replay_append, before]

/-- The first occurrences make as many configurations as the log only if no repetition makes one. -/
theorem countP_withoutRepetitions (log : List Op) :
    (withoutRepetitions log).countP Op.changes ≤ log.countP Op.changes ∧
      ((withoutRepetitions log).countP Op.changes = log.countP Op.changes → RepetitionsInert log) := by
  induction log using List.reverseRecOn with
  | nil => exact ⟨le_refl _, fun _ => Justified.nil⟩
  | append_singleton log op inductionHypothesis =>
    obtain ⟨fewer, equal⟩ := inductionHypothesis
    rw [withoutRepetitions_append, List.countP_append, List.countP_singleton]
    split
    · cases changes : op.changes with
      | true => exact ⟨by simp; omega, fun same => absurd same (by simp; omega)⟩
      | false =>
        refine ⟨by simpa using fewer, fun same => ?_⟩
        exact (equal (by simpa using same)).append fun _ => changes
    · rename_i new
      rw [List.countP_append, List.countP_singleton]
      refine ⟨by omega, fun same => ?_⟩
      exact (equal (by omega)).append fun again => absurd ((repeated_iff log op).mpr again) new

theorem replay_withoutRepetitions_iff (log : List Op) (retried : Retried log) :
    (replay log).map State.configs = (replay (withoutRepetitions log)).map State.configs ↔
      (∃ op ∈ log, op.panics) ∨ RepetitionsInert log := by
  have whole := configs_replay_cases log
  have once := configs_replay_cases (withoutRepetitions log)
  by_cases panics : ∃ op ∈ log, op.panics
  · -- The first occurrence of a request that panics is the same operation.
    have panicsOnce : ∃ op ∈ withoutRepetitions log, op.panics := by
      obtain ⟨op, member, panic⟩ := panics
      obtain ⟨first, kept, same⟩ := exists_first member
      rw [← retried first (mem_of_mem_withoutRepetitions kept) op member same] at panic
      exact ⟨first, kept, panic⟩
    rw [if_pos panics] at whole
    rw [if_pos panicsOnce] at once
    rw [whole, once]
    exact ⟨fun _ => .inl panics, fun _ => rfl⟩
  · have panicsNever : ¬ ∃ op ∈ withoutRepetitions log, op.panics := by
      rintro ⟨op, kept, panic⟩
      exact panics ⟨op, mem_of_mem_withoutRepetitions kept, panic⟩
    rw [if_neg panics] at whole
    rw [if_neg panicsNever] at once
    constructor
    · intro same
      right
      obtain ⟨configs, replayed, length⟩ := whole
      obtain ⟨configs', replayed', length'⟩ := once
      rw [replayed, replayed'] at same
      cases same
      exact (countP_withoutRepetitions log).2 (by omega)
    · rintro (panic | inert)
      · exact absurd panic panics
      · exact inert.configs_eq

/-- The reply to a `Query` is lost and the clerk sends it again. -/
def retriedQuery : List Op :=
  [⟨.join [(1, [0])], 1, 7⟩, ⟨.query (-1), 2, 7⟩, ⟨.query (-1), 2, 7⟩]

theorem replay_withoutRepetitions_retriedQuery :
    withoutRepetitions retriedQuery = [⟨.join [(1, [0])], 1, 7⟩, ⟨.query (-1), 2, 7⟩] ∧
    (replay retriedQuery).map State.configs = (replay (withoutRepetitions retriedQuery)).map State.configs := by
  refine ⟨by decide, (replay_withoutRepetitions_iff retriedQuery (by decide)).mpr (.inr ?_)⟩
  have first : RepetitionsInert [⟨.join [(1, [0])], 1, 7⟩] := Justified.nil.append (by simp)
  have second : RepetitionsInert [⟨.join [(1, [0])], 1, 7⟩, ⟨.query (-1), 2, 7⟩] := first.append fun _ => rfl
  exact second.append fun _ => rfl

/-- The reply to a `Join` is lost and the clerk sends it again. -/
def retriedJoin : List Op := [⟨.join [(1, [0])], 1, 7⟩, ⟨.join [(1, [0])], 1, 7⟩]

theorem replay_retriedJoin :
    Retried retriedJoin ∧ InOrder retriedJoin ∧
    withoutRepetitions retriedJoin = [⟨.join [(1, [0])], 1, 7⟩] ∧
    (replay retriedJoin).map (fun sc => sc.configs.list.map Config.num) = some [0, 1, 2] ∧
    (replay (withoutRepetitions retriedJoin)).map (fun sc => sc.configs.list.map Config.num) = some [0, 1] ∧
    (replay retriedJoin).map State.configs ≠ (replay (withoutRepetitions retriedJoin)).map State.configs := by
  refine ⟨by decide, by decide, by decide, by decide +kernel, by decide +kernel, ?_⟩
  intro same
  have lengths := congrArg (Option.map fun configs => configs.list.length) same
  revert lengths
  decide +kernel

end ShardedKV.ShardCtrler
