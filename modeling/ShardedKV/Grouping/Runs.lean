import Mathlib.Data.List.Basic
import Mathlib.Data.List.Infix
import Mathlib.Data.List.Nodup
import Mathlib.Data.List.TakeWhile

/-!
# Runs of equal keys

A scan over a sorted list that takes the records with the key of the first one, then those with
the key of the next, and so on, by two nested loops over the indices.  In a sorted list every key has
one run, and the run has all its records.
-/

namespace ShardedKV.Grouping

variable {Record Key : Type} [DecidableEq Key] (key : Record → Key)

/-- The maximal runs of records with one key, each with its key. -/
def runs : List Record → List (Key × List Record)
  | [] => []
  | first :: rest =>
    (key first, first :: rest.takeWhile (key · = key first)) :: runs (rest.dropWhile (key · = key first))
termination_by records => records.length
decreasing_by
  have shorter := (List.dropWhile_sublist (l := rest) (key · = key first)).length_le
  rw [List.length_cons]
  omega

/-! ## The loops -/

/-- The inner loop: on from `j` as long as the key there is that at `i`. -/
def runEnd (records : List Record) (i j : Nat) : Nat :=
  if j < records.length ∧ records[j]?.map key = records[i]?.map key then runEnd records i (j + 1) else j
termination_by records.length - j

theorem le_runEnd (records : List Record) (i j : Nat) : j ≤ runEnd key records i j := by
  fun_induction runEnd key records i j with
  | case1 j _ inductionHypothesis => omega
  | case2 j _ => exact le_refl j

/-- The outer loop from `i` on, with what the inner one has found. -/
def scan (records : List Record) (i : Nat) : List (Key × List Record) :=
  if inside : i < records.length then
    let j := runEnd key records i (i + 1)
    (key records[i], records.extract i j) :: scan records j
  else []
termination_by records.length - i
decreasing_by
  have onward := le_runEnd key records i (i + 1)
  omega

theorem runEnd_eq {records : List Record} {i : Nat} (inside : i < records.length) (j : Nat) :
    runEnd key records i j = j + ((records.drop j).takeWhile (key · = key records[i])).length := by
  fun_induction runEnd key records i j with
  | case1 j goesOn inductionHypothesis =>
    obtain ⟨within, same⟩ := goesOn
    rw [List.getElem?_eq_getElem within, List.getElem?_eq_getElem inside] at same
    have same : key records[j] = key records[i] := Option.some.inj same
    rw [inductionHypothesis, List.drop_eq_getElem_cons within, List.takeWhile_cons_of_pos (by simpa using same),
      List.length_cons]
    omega
  | case2 j stops =>
    by_cases within : j < records.length
    · have other : key records[j] ≠ key records[i] := fun same => stops ⟨within, by simp [within, inside, same]⟩
      rw [List.drop_eq_getElem_cons within, List.takeWhile_cons_of_neg (by simpa using other), List.length_nil,
        Nat.add_zero]
    · rw [List.drop_eq_nil_of_le (by omega), List.takeWhile_nil, List.length_nil, Nat.add_zero]

theorem scan_eq_runs (records : List Record) (i : Nat) : scan key records i = runs key (records.drop i) := by
  fun_induction scan key records i with
  | case1 i inside j inductionHypothesis =>
    have found : j = i + 1 + ((records.drop (i + 1)).takeWhile (key · = key records[i])).length :=
      runEnd_eq key inside (i + 1)
    have run : _ <+: records.drop (i + 1) := List.takeWhile_prefix (key · = key records[i])
    have split : (records.drop (i + 1)).takeWhile (key · = key records[i]) ++
        (records.drop (i + 1)).dropWhile (key · = key records[i]) = records.drop (i + 1) :=
      List.takeWhile_append_dropWhile
    have size : j - i = ((records.drop (i + 1)).takeWhile (key · = key records[i])).length + 1 := by omega
    have left : records.drop j = (records.drop (i + 1)).dropWhile (key · = key records[i]) := by
      rw [found, ← List.drop_drop]
      nth_rewrite 2 [← split]
      exact List.drop_left
    rw [inductionHypothesis, left, List.drop_eq_getElem_cons inside, runs, List.extract_eq_take_drop, size,
      List.drop_eq_getElem_cons inside, List.take_succ_cons, ← List.prefix_iff_eq_take.mp run]
  | case2 i outside => rw [List.drop_eq_nil_of_le (by omega), runs]

/-! ## Runs and keys -/

theorem mem_keys_runs {records : List Record} {found : Key} :
    found ∈ (runs key records).map Prod.fst ↔ found ∈ records.map key := by
  fun_induction runs key records with
  | case1 => simp
  | case2 first rest inductionHypothesis =>
    have whole : rest = rest.takeWhile (key · = key first) ++ rest.dropWhile (key · = key first) := by simp
    rw [List.map_cons, List.mem_cons, inductionHypothesis, List.map_cons, List.mem_cons]
    conv_rhs => rw [whole, List.map_append, List.mem_append]
    constructor
    · rintro (rfl | later)
      · exact .inl rfl
      · exact .inr (.inr later)
    · rintro (rfl | inRun | later)
      · exact .inl rfl
      · obtain ⟨record, member, rfl⟩ := List.mem_map.mp inRun
        exact .inl (by simpa using List.mem_takeWhile_imp member)
      · exact .inr later

section Sorted

variable {less : Key → Key → Prop} (antisymm : ∀ one other, ¬ less one other → ¬ less other one → one = other)

/-- No record comes before one with a smaller key. -/
def Sorted (less : Key → Key → Prop) (records : List Record) : Prop :=
  records.Pairwise fun one other => ¬ less (key other) (key one)

variable {key}

include antisymm in
theorem key_ne_of_mem_dropWhile {first : Record} {rest : List Record} (sorted : Sorted key less (first :: rest))
    {record : Record} (member : record ∈ rest.dropWhile (key · = key first)) : key record ≠ key first := by
  intro same
  cases remains : rest.dropWhile (key · = key first) with
  | nil => simp [remains] at member
  | cons next more =>
    have whole : rest = rest.takeWhile (key · = key first) ++ next :: more := by
      rw [← remains, List.takeWhile_append_dropWhile]
    have other : key next ≠ key first := by
      have := List.head?_dropWhile_not (key · = key first) rest
      rw [remains] at this
      simpa using this
    obtain ⟨fromFirst, sortedRest⟩ := List.pairwise_cons.mp sorted
    have notBefore : ¬ less (key next) (key first) := fromFirst next (by rw [whole]; simp)
    rw [remains, List.mem_cons] at member
    rcases member with rfl | later
    · exact other same
    · have ordered : Sorted key less (next :: more) := by
        rw [whole] at sortedRest
        exact (List.pairwise_append.mp sortedRest).2.1
      have notAfter := (List.pairwise_cons.mp ordered).1 record later
      rw [same] at notAfter
      exact other (antisymm _ _ notBefore notAfter)

omit [DecidableEq Key] in
theorem Sorted.dropWhile {first : Record} {rest : List Record} (sorted : Sorted key less (first :: rest))
    (among : Record → Bool) : Sorted key less (rest.dropWhile among) :=
  (List.pairwise_cons.mp sorted).2.sublist (List.dropWhile_sublist among)

include antisymm in
theorem runs_nodup {records : List Record} (sorted : Sorted key less records) :
    ((runs key records).map Prod.fst).Nodup := by
  fun_induction runs key records with
  | case1 => exact List.nodup_nil
  | case2 first rest inductionHypothesis =>
    rw [List.map_cons, List.nodup_cons]
    refine ⟨?_, inductionHypothesis (sorted.dropWhile _)⟩
    rw [mem_keys_runs]
    intro again
    obtain ⟨record, member, same⟩ := List.mem_map.mp again
    exact key_ne_of_mem_dropWhile antisymm sorted member same

include antisymm in
theorem eq_filter_of_mem_runs {records : List Record} (sorted : Sorted key less records) {found : Key}
    {run : List Record} (member : (found, run) ∈ runs key records) : run = records.filter (key · = found) := by
  fun_induction runs key records with
  | case1 => simp at member
  | case2 first rest inductionHypothesis =>
    have whole : rest = rest.takeWhile (key · = key first) ++ rest.dropWhile (key · = key first) := by simp
    have within : ∀ record ∈ rest.takeWhile (key · = key first), key record = key first :=
      fun record inRun => by simpa using List.mem_takeWhile_imp inRun
    have beyond : ∀ record ∈ rest.dropWhile (key · = key first), key record ≠ key first :=
      fun record after => key_ne_of_mem_dropWhile antisymm sorted after
    rw [List.mem_cons, Prod.mk.injEq] at member
    rcases member with ⟨rfl, rfl⟩ | later
    · have none : (rest.dropWhile (key · = key first)).filter (key · = key first) = [] := by
        simpa [List.filter_eq_nil_iff] using beyond
      have all : (rest.takeWhile (key · = key first)).filter (key · = key first) =
          rest.takeWhile (key · = key first) := by
        simpa [List.filter_eq_self] using within
      rw [List.filter_cons_of_pos (by simp)]
      conv_rhs => rw [whole, List.filter_append, all, none, List.append_nil]
    · have other : found ≠ key first := by
        rintro rfl
        have again := (mem_keys_runs key).mp (List.mem_map.mpr ⟨_, later, rfl⟩)
        obtain ⟨record, after, same⟩ := List.mem_map.mp again
        exact beyond record after same
      have none : (rest.takeWhile (key · = key first)).filter (key · = found) = [] := by
        rw [List.filter_eq_nil_iff]
        intro record inRun
        simpa [within record inRun] using other.symm
      rw [inductionHypothesis (sorted.dropWhile _) later, List.filter_cons_of_neg (by simpa using other.symm)]
      conv_rhs => rw [whole, List.filter_append, none, List.nil_append]

theorem filter_eq_singleton {Value : Type} {entries : List (Key × Value)}
    (nodup : (entries.map Prod.fst).Nodup) {entry : Key × Value} (member : entry ∈ entries) :
    entries.filter (·.1 = entry.1) = [entry] := by
  induction entries with
  | nil => simp at member
  | cons first rest inductionHypothesis =>
    rw [List.map_cons, List.nodup_cons] at nodup
    rcases List.mem_cons.mp member with rfl | later
    · have none : rest.filter (·.1 = entry.1) = [] := by
        rw [List.filter_eq_nil_iff]
        intro other inRest same
        exact nodup.1 (List.mem_map.mpr ⟨other, inRest, by simpa using same⟩)
      rw [List.filter_cons_of_pos (by simp), none]
    · have other : first.1 ≠ entry.1 := fun same => nodup.1 (same ▸ List.mem_map.mpr ⟨entry, later, rfl⟩)
      rw [List.filter_cons_of_neg (by simpa using other), inductionHypothesis nodup.2 later]

/-! ## Records in parts -/

include antisymm in
/-- If the records are divided by key, then the runs of the parts have the keys of the whole, each once. -/
theorem keys_perm_of_parts {records whole : List Record} {count : Nat} (part : Key → Nat) {parts : Nat → List Record}
    (sortedWhole : Sorted key less whole) (permWhole : whole.Perm records)
    (sortedParts : ∀ number, Sorted key less (parts number))
    (permParts : ∀ number < count, (parts number).Perm (records.filter fun record => part (key record) = number))
    (covered : ∀ record ∈ records, part (key record) < count) :
    ((List.range count).flatMap fun number => (runs key (parts number)).map Prod.fst).Perm
      ((runs key whole).map Prod.fst) := by
  have inPart : ∀ number < count, ∀ found, found ∈ (runs key (parts number)).map Prod.fst ↔
      found ∈ records.map key ∧ part found = number := by
    intro number inside found
    rw [mem_keys_runs, ((permParts number inside).map key).mem_iff]
    simp only [List.mem_map, List.mem_filter, decide_eq_true_eq]
    constructor
    · rintro ⟨record, ⟨member, here⟩, rfl⟩
      exact ⟨⟨record, member, rfl⟩, here⟩
    · rintro ⟨⟨record, member, rfl⟩, here⟩
      exact ⟨record, ⟨member, here⟩, rfl⟩
  rw [List.perm_ext_iff_of_nodup]
  · intro found
    rw [mem_keys_runs, (permWhole.map key).mem_iff, List.mem_flatMap]
    constructor
    · rintro ⟨number, inside, member⟩
      exact ((inPart number (List.mem_range.mp inside) found).mp member).1
    · intro member
      have inside : part found < count := by
        obtain ⟨record, here, rfl⟩ := List.mem_map.mp member
        exact covered record here
      exact ⟨part found, List.mem_range.mpr inside, (inPart _ inside found).mpr ⟨member, rfl⟩⟩
  · rw [List.nodup_flatMap]
    refine ⟨fun number _ => runs_nodup antisymm (sortedParts number), ?_⟩
    -- a key that two parts had would be hashed to both
    refine List.nodup_range.pairwise_of_forall_ne fun one inOne other inOther apart found inFirst inSecond => apart ?_
    have first := (inPart one (List.mem_range.mp inOne) found).mp inFirst
    have second := (inPart other (List.mem_range.mp inOther) found).mp inSecond
    exact first.2.symm.trans second.2
  · exact runs_nodup antisymm sortedWhole

end Sorted

end ShardedKV.Grouping
