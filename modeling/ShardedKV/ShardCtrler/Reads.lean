import ShardedKV.ShardCtrler.Invariant

/-!
# Queries never go back

The handler of a `Query` reads the configurations when it wakes up, so the answer is that of the
process at some index at or after the entry of the `Query`.  An entry of a later `Query` is committed
after everything that any process had applied when the earlier one returned.
-/

namespace ShardedKV.ShardCtrler

open Services

variable {n : Nat}

/-! ## What a query returns -/

/-- The configuration with this number of every replica that has one. -/
structure IsConfiguration (log : List Op) (number : Nat) (config : Config) : Prop where
  num : config.num = number
  reached : ∃ count sc, replay (log.take count) = some sc ∧ config ∈ sc.configs.list
  unique : ∀ count sc other, replay (log.take count) = some sc → other ∈ sc.configs.list → other.num = number →
    other = config

theorem isConfiguration_of_getElem? {log : List Op} {index number : Nat} {sc : State} {config : Config}
    (replayed : replay (log.take index) = some sc) (found : sc.configs.list[number]? = some config) :
    IsConfiguration log number config where
  num := num_eq_of_getElem? replayed found
  reached := ⟨index, sc, replayed, List.mem_of_getElem? found⟩
  unique := by
    intro count sc' other replayed' member same
    obtain ⟨place, found'⟩ := List.mem_iff_getElem?.mp member
    obtain rfl : place = number := (num_eq_of_getElem? replayed' found').symm.trans same
    -- one of the two replicas is ahead of the other
    rcases Nat.le_total index count with behind | ahead
    · have kept := getElem?_of_replay (List.take_prefix_take_left behind) replayed replayed' found
      rw [found'] at kept
      cases kept
      rfl
    · have kept := getElem?_of_replay (List.take_prefix_take_left ahead) replayed' replayed found'
      rw [found] at kept
      cases kept
      rfl

theorem Configs.getConfig_mem {configs : Configs} {index : Int} {config : Config}
    (answer : configs.getConfig index = some config) : config ∈ configs.list := by
  simp only [getConfig] at answer
  split at answer
  · cases answer
    exact List.getLast_mem configs.nonempty
  split at answer
  · cases answer
  · exact List.mem_of_getElem? answer

/-- What a `Query` has returned was read at an index that was committed by then. -/
theorem Consistent.read {system : System n} (consistent : Consistent system) {t client seqNum : Nat} {config : Config}
    (answered : system.records[t]? = some (.respond client seqNum (some config))) :
    ∃ args sc index, index ≤ (Trace.committed (system.records.take t)).length ∧
      replay (system.log.take index) = some sc ∧ { args, seqNum, clientID := client } ∈ system.log.take index ∧
      sc.configs.getConfig args.num = some config := by
  have explained : Explained (system.records.take t) _ := consistent.explained t _ answered
  obtain ⟨args, sc, index, reflects, member, answer⟩ := explained.2 config rfl
  have split := Trace.committed_split system.records t
  have replayed := (reflects.mono (Trace.committed (system.records.drop t))).state_eq
  rw [← split, machine_run] at replayed
  refine ⟨args, sc, index, reflects.inside, replayed.symm, ?_, answer⟩
  rw [System.log, split]
  exact mem_take_append member _

theorem Consistent.committed_after {system : System n} (consistent : Consistent system) {u position : Nat} {args : Args}
    {op : Op} (invoked : system.records[u]? = some (.invoke op.clientID op.seqNum args))
    (found : system.log[position]? = some op) :
    op.args = args ∧ (Trace.committed (system.records.take u)).length ≤ position := by
  obtain ⟨w, committed, before⟩ := Trace.exists_commit found
  have issued : Issued (system.records.take w) op := consistent.explained w _ committed
  obtain ⟨place, there⟩ := List.mem_iff_getElem?.mp issued
  obtain ⟨early, there⟩ := getElem?_take_eq_some.mp there
  obtain rfl := Trace.number_unique (numbered consistent.explained) there invoked ⟨rfl, rfl⟩
  rw [there] at invoked
  cases invoked
  refine ⟨rfl, ?_⟩
  calc (Trace.committed (system.records.take place)).length
      ≤ (Trace.committed (system.records.take w)).length := Trace.length_committed_take_le _ (Nat.le_of_lt early)
    _ ≤ position := by
      rw [before]
      exact List.length_take_le _ _

/-- A `Query` that is invoked after another one has returned. -/
theorem reads_never_go_back {system : System n} (reachable : system.Reachable) {t u v : Nat}
    {client client' seqNum seqNum' : Nat} {num : Int} {earlier later : Config}
    (answered : system.records[t]? = some (.respond client seqNum (some earlier))) (before : t < u)
    (invoked : system.records[u]? = some (.invoke client' seqNum' (.query num)))
    (returned : system.records[v]? = some (.respond client' seqNum' (some later))) :
    (num = -1 → earlier.num ≤ later.num) ∧
      (0 ≤ num → num ≤ earlier.num → IsConfiguration system.log num.toNat later) := by
  have consistent := reachable.consistent
  obtain ⟨_, sc, index, inside, replayed, _, answer⟩ := consistent.read answered
  obtain ⟨args, sc', index', inside', replayed', member, answer'⟩ := consistent.read returned
  obtain ⟨position, found⟩ := List.mem_iff_getElem?.mp member
  obtain ⟨reached, found⟩ := getElem?_take_eq_some.mp found
  obtain ⟨rfl, after⟩ := consistent.committed_after invoked found
  -- so the second process has applied all that the first one had
  have further : index ≤ index' := by
    have grown := Trace.length_committed_take_le system.records (Nat.le_of_lt before)
    omega
  obtain ⟨place, here⟩ := List.mem_iff_getElem?.mp (Configs.getConfig_mem answer)
  have number := num_eq_of_getElem? replayed here
  have kept := getElem?_of_replay (List.take_prefix_take_left further) replayed replayed' here
  have within : place < sc'.configs.list.length := (List.getElem?_eq_some_iff.mp kept).1
  constructor
  · -- the last configuration has the largest number
    rintro rfl
    simp only [Args.num, Configs.getConfig, true_or, if_true, Option.some.injEq] at answer'
    have last := num_eq_of_getElem? replayed' sc'.configs.getElem?_last
    rw [← answer', last, number]
    omega
  · -- the configuration was made before the first answer, so it is at its place
    intro nonnegative small
    have lower : num.toNat < sc'.configs.list.length := by omega
    have asked := sc'.configs.getConfig_of_lt (List.getElem?_eq_getElem lower)
    rw [Int.toNat_of_nonneg nonnegative] at asked
    have same := asked.symm.trans answer'
    exact isConfiguration_of_getElem? replayed' ((List.getElem?_eq_getElem lower).trans same)

/-- A shard is moved, a clerk reads the newest configuration and another one the first and then the newest. -/
def movedAndRead : List (System.Action 1) :=
  [.invoke 0 (.move 3 7), .send 0 0, .start 0 true 1, .proceed 0 .register, .commit ⟨.move 3 7, 1, 0⟩, .deliver 0,
    .proceed 0 .answer, .receive 0,
   .invoke 0 (.query (-1)), .send 0 0, .start 1 true 2, .proceed 1 .register, .commit ⟨.query (-1), 2, 0⟩, .deliver 0,
    .proceed 1 .answer, .proceed 1 .readConfig, .receive 0,
   .invoke 1 (.query 0), .send 1 0, .start 2 true 3, .proceed 2 .register, .commit ⟨.query 0, 1, 1⟩, .deliver 0,
    .proceed 2 .answer, .proceed 2 .readConfig, .receive 1,
   .invoke 1 (.query (-1)), .send 1 0, .start 3 true 4, .proceed 3 .register, .commit ⟨.query (-1), 2, 1⟩, .deliver 0,
    .proceed 3 .answer, .proceed 3 .readConfig, .receive 1]

theorem reads_never_go_back_movedAndRead :
    ∃ earlier first newest : Config, earlier.num = 1 ∧
      (System.after movedAndRead).records[5]? = some (.respond 0 2 (some earlier)) ∧
      (System.after movedAndRead).records[6]? = some (.invoke 1 1 (.query 0)) ∧
      (System.after movedAndRead).records[8]? = some (.respond 1 1 (some first)) ∧
      (System.after movedAndRead).records[9]? = some (.invoke 1 2 (.query (-1))) ∧
      (System.after movedAndRead).records[11]? = some (.respond 1 2 (some newest)) ∧
      IsConfiguration (System.after movedAndRead).log 0 first ∧ earlier.num ≤ newest.num := by
  let moved : Config := { num := 1, shards := Function.update (fun _ => 0) 3 7 }
  have answered : (System.after movedAndRead).records[5]? = some (.respond 0 2 (some moved)) := by decide +kernel
  have invoked : (System.after movedAndRead).records[6]? = some (.invoke 1 1 (.query 0)) := by decide +kernel
  have returned : (System.after movedAndRead).records[8]? = some (.respond 1 1 (some {})) := by decide +kernel
  have again : (System.after movedAndRead).records[9]? = some (.invoke 1 2 (.query (-1))) := by decide +kernel
  have last : (System.after movedAndRead).records[11]? = some (.respond 1 2 (some moved)) := by decide +kernel
  have reachable := System.reachable_after movedAndRead
  exact ⟨moved, {}, moved, rfl, answered, invoked, returned, again, last,
    (reads_never_go_back reachable answered (by decide) invoked returned).2 (by decide) (by decide),
    (reads_never_go_back reachable answered (by decide) again last).1 rfl⟩

end ShardedKV.ShardCtrler
