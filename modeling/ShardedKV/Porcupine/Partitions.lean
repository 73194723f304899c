import ShardedKV.Linearizability.Locality
import ShardedKV.Porcupine.Verdicts

/-!
# Checking a store key by key

`Model.Partition` has to be such that a history is linearizable if and only if each partition is.  The
partition of `KvModel` is: the operations on each key against a model of one value decide the whole
history against a store.
-/

namespace ShardedKV.Porcupine

open Linearizability (KeepsTime exists_merge)

/-! ## The partition -/

theorem foldl_byKey (history : KvHistory) (m : GoString → KvHistory) (key : GoString) :
    history.foldl (fun m v => Function.update m v.input.key (m v.input.key ++ [v])) m key =
      m key ++ history.filter fun v => v.input.key = key := by
  induction history generalizing m with
  | nil => simp
  | cons v history inductionHypothesis =>
    rw [List.foldl_cons, inductionHypothesis]
    by_cases same : key = v.input.key
    · subst same
      simp
    · rw [Function.update_of_ne same, List.filter_cons_of_neg (by simpa using Ne.symm same)]

theorem byKey_eq (history : KvHistory) (key : GoString) :
    byKey history key = history.filter fun v => v.input.key = key := by
  rw [byKey, foldl_byKey, List.nil_append]

theorem mem_keys {history : KvHistory} {key : GoString} : key ∈ keys history ↔ ∃ v ∈ history, v.input.key = key := by
  simp [keys]

theorem nodup_keys (history : KvHistory) : (keys history).Nodup :=
  (List.perm_insertionSort _ _).nodup_iff.mpr (List.nodup_dedup _)

theorem flatten_filters_perm {Record Key : Type} [DecidableEq Key] {key : Record → Key} {keys : List Key}
    (distinct : keys.Nodup) {records : List Record} (all : ∀ record ∈ records, key record ∈ keys) :
    (keys.map fun found => records.filter (key · = found)).flatten.Perm records := by
  induction records with
  | nil => simp
  | cons first rest inductionHypothesis =>
    have further := inductionHypothesis fun record member => all record (List.mem_cons_of_mem _ member)
    obtain ⟨before, after, rfl⟩ := List.append_of_mem (all first List.mem_cons_self)
    have elsewhere : ∀ others : List Key, (∀ found ∈ others, found ≠ key first) →
        (others.map fun found => (first :: rest).filter (key · = found)) =
          others.map fun found => rest.filter (key · = found) := by
      intro others different
      refine List.map_congr_left fun found member => List.filter_cons_of_neg ?_
      simpa using (different found member).symm
    rw [List.nodup_append] at distinct
    rw [List.map_append, List.map_cons, List.flatten_append, List.flatten_cons] at further ⊢
    rw [elsewhere before fun found member => distinct.2.2 found member _ List.mem_cons_self,
      elsewhere after fun found member same => (List.nodup_cons.mp distinct.2.1).1 (same ▸ member),
      List.filter_cons_of_pos (by simp), List.cons_append]
    exact List.perm_middle.trans (further.cons first)

/-! ## The whole store -/

/-- A map from keys to values; a key that was never written holds the empty string. -/
def storeModel : Model (GoString → GoString) KvInput KvOutput where
  init := fun _ => []
  step := fun store inp out =>
    if inp.op = 0 then (out.value = store inp.key, store)
    else if inp.op = 1 then (true, Function.update store inp.key inp.value)
    else (true, Function.update store inp.key (store inp.key ++ inp.value))
  equal := fun _ _ => false

theorem storeModel_step (store : GoString → GoString) (inp : KvInput) (out : KvOutput) :
    storeModel.step store inp out = ((kvModel.step (store inp.key) inp out).1,
      Function.update store inp.key (kvModel.step (store inp.key) inp out).2) := by
  simp only [storeModel, kvModel]
  split
  · rw [Function.update_eq_self]
  · split <;> rfl

theorem storeModel_legal_iff (store : GoString → GoString) (operations : List (KvInput × KvOutput)) :
    storeModel.Legal store operations ↔
      ∀ key, kvModel.Legal (store key) (operations.filter fun operation => operation.1.key = key) := by
  induction operations generalizing store with
  | nil => simp [Model.Legal]
  | cons operation rest inductionHypothesis =>
    obtain ⟨inp, out⟩ := operation
    rw [Model.Legal, storeModel_step, inductionHypothesis]
    dsimp only
    constructor
    · rintro ⟨accepted, legal⟩ key
      have here := legal key
      by_cases same : key = inp.key
      · subst same
        rw [Function.update_self] at here
        rw [List.filter_cons_of_pos (by simp)]
        exact ⟨accepted, here⟩
      · rw [Function.update_of_ne same] at here
        rwa [List.filter_cons_of_neg (by simpa using Ne.symm same)]
    · intro legal
      have here := legal inp.key
      rw [List.filter_cons_of_pos (by simp)] at here
      refine ⟨here.1, fun key => ?_⟩
      by_cases same : key = inp.key
      · subst same
        rw [Function.update_self]
        exact here.2
      · have other := legal key
        rw [List.filter_cons_of_neg (by simpa using Ne.symm same)] at other
        rwa [Function.update_of_ne same]

theorem filter_operations (order : KvHistory) (key : GoString) :
    ((order.map fun v => (v.input, v.output)).filter fun operation => operation.1.key = key) =
      (order.filter fun v => v.input.key = key).map fun v => (v.input, v.output) := by
  rw [List.filter_map]
  rfl

theorem linearizable_iff_parts {history : KvHistory} (timed : ∀ v ∈ history, v.call ≤ v.ret) :
    storeModel.Linearizable history ↔ ∀ part ∈ kvPartition history, kvModel.Linearizable part := by
  constructor
  · rintro ⟨order, perm, realTime, legal⟩ part isPart
    obtain ⟨key, -, rfl⟩ := List.mem_map.mp isPart
    rw [byKey_eq]
    refine ⟨order.filter fun v => v.input.key = key, perm.filter _, realTime.filter _, ?_⟩
    rw [← filter_operations]
    exact (storeModel_legal_iff _ _).mp legal key
  · intro parts
    have explained : ∀ key, ∃ order, kvModel.Explains (history.filter fun v => v.input.key = key) order := by
      intro key
      rw [← byKey_eq]
      by_cases used : key ∈ keys history
      · exact parts _ (List.mem_map.mpr ⟨key, used, rfl⟩)
      · have empty : byKey history key = [] := by
          rw [byKey_eq, List.filter_eq_nil_iff]
          exact fun v member isKey => used (mem_keys.mpr ⟨v, member, by simpa using isKey⟩)
        rw [empty]
        exact ⟨[], .refl _, .nil, trivial⟩
    choose orders explains using explained
    obtain ⟨order, perm, filters, realTime⟩ :=
      exists_merge timed (fun key => (explains key).perm) fun key => (explains key).realTime
    refine ⟨order, perm, realTime, (storeModel_legal_iff _ _).mpr fun key => ?_⟩
    rw [filter_operations, filters]
    exact (explains key).legal

/-- `KvModel.Partition` keeps every operation, in parts that are not empty and each have one key, and a
history is linearizable if and only if each of its parts is. -/
theorem kvPartition_correct {history : KvHistory} (timed : ∀ v ∈ history, v.call ≤ v.ret) :
    (kvPartition history).flatten.Perm history ∧
      (∀ part ∈ kvPartition history, part ≠ [] ∧ ∃ key, part = history.filter fun v => v.input.key = key) ∧
      (storeModel.Linearizable history ↔ ∀ part ∈ kvPartition history, kvModel.Linearizable part) := by
  refine ⟨?_, fun part isPart => ?_, linearizable_iff_parts timed⟩
  · rw [kvPartition, show byKey history = fun key => history.filter fun v => v.input.key = key from
      funext (byKey_eq history)]
    exact flatten_filters_perm (nodup_keys history) fun v member => mem_keys.mpr ⟨v, member, rfl⟩
  · obtain ⟨key, isKey, rfl⟩ := List.mem_map.mp isPart
    obtain ⟨v, member, isKeyOf⟩ := mem_keys.mp isKey
    rw [byKey_eq]
    exact ⟨List.ne_nil_of_mem (List.mem_filter.mpr ⟨member, by simpa using isKeyOf⟩), key, rfl⟩

theorem kvPartition_correct_overlapping : kvPartition (appended ++ overlapping) = [overlapping, appended] ∧
    (storeModel.Linearizable (appended ++ overlapping) ↔
      kvModel.Linearizable overlapping ∧ kvModel.Linearizable appended) := by
  have isPartition : kvPartition (appended ++ overlapping) = [overlapping, appended] := by decide
  have correct := (@kvPartition_correct (appended ++ overlapping) (by decide)).2.2
  rw [isPartition] at correct
  exact ⟨isPartition, by simpa using correct⟩

/-! ## `checkOperations` with `KvModel` -/

variable {history : KvHistory} {partitions : List (List (Entry KvInput KvOutput))} {computeInfo : Bool} {timeout : Int}
  {state : Parallel GoString}

/-- What `checkOperations` gives to `checkParallel`. -/
def ChecksOperations (history : KvHistory) (partitions : List (List (Entry KvInput KvOutput))) : Prop :=
  List.Forall₂ MakesEntries (kvPartition history) partitions

theorem ChecksOperations.given (checks : ChecksOperations history partitions) (timed : ∀ v ∈ history, v.call ≤ v.ret) :
    Given (kvPartition history) partitions := by
  have timedParts : ∀ part ∈ kvPartition history, ∀ v ∈ part, v.call ≤ v.ret := by
    intro part isPart v member
    obtain ⟨key, -, rfl⟩ := List.mem_map.mp isPart
    rw [byKey_eq, List.mem_filter] at member
    exact timed v member.1
  exact ((List.forall₂_and_left _ _).mpr ⟨timedParts, checks⟩).imp fun _ _ both => ⟨both.2, both.1⟩

/-- `CheckOperations` with `KvModel`, with or without a timeout: Ok and Illegal are right about the whole
history. -/
theorem checkOperations_kvModel (timed : ∀ v ∈ history, v.call ≤ v.ret) (checks : ChecksOperations history partitions)
    (reached : state.Reachable kvModel partitions computeInfo timeout) {result : CheckResult}
    (returned : state.main = .returned result) :
    (result = .ok → storeModel.Linearizable history) ∧ (result = .illegal → ¬ storeModel.Linearizable history) ∧
      (result = .unknown → 0 < timeout) := by
  obtain ⟨weight, seen, pending, coordinated⟩ := reached.coordinated kvModel_equalSound (checks.given timed)
  obtain ⟨accepts, rejects, expires⟩ := coordinated.result_spec returned
  refine ⟨fun isOk => (linearizable_iff_parts timed).mpr (accepts isOk), fun isIllegal linearizable => ?_, expires⟩
  obtain ⟨part, isPart, not⟩ := rejects isIllegal
  exact not ((linearizable_iff_parts timed).mp linearizable part isPart)

theorem checkOperations_kvModel_overlapping :
    overlappingChecked.main = .returned .ok ∧ storeModel.Linearizable (appended ++ overlapping) := by
  have checks : ChecksOperations (appended ++ overlapping) [overlappingEntries, appendedEntries] := by
    have isPartition : kvPartition (appended ++ overlapping) = [overlapping, appended] := by decide
    rw [ChecksOperations, isPartition]
    exact .cons overlapping_makesEntries (.cons appended_makesEntries .nil)
  have isOk : overlappingChecked.main = .returned .ok := by decide +kernel
  exact ⟨isOk, (checkOperations_kvModel (by decide) checks ⟨_, overlappingChecked_eq⟩ isOk).1 rfl⟩

end ShardedKV.Porcupine
