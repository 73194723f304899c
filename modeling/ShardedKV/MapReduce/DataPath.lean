import Mathlib.Algebra.Order.BigOperators.Group.List
import Mathlib.Algebra.Order.Ring.Nat
import Mathlib.Data.List.Sort
import ShardedKV.MapReduce.Execution

/-!
# The distributed data path

Every map task executed once and every reduce task executed once after them, each alone: the lines
of the output files together are those of the sequential program.
-/

namespace ShardedKV.MapReduce

open Storage (Disk Descriptor)

/-! ## Tasks one after the other -/

namespace Job

/-- The files after the execution of a task, if it ends within the fuel. -/
def execute (job : Job) (fuel : Nat) (files : Files) (task : Kind × Nat) : Option Files :=
  (Execution.begin job (job.taskinfo 0 task) task.1).bind fun execution =>
    (Loops.run (Execution.turn job) fuel (execution, files)).map Prod.snd

def executeAll (job : Job) (fuel : Nat) (tasks : List (Kind × Nat)) (files : Files) : Option Files :=
  tasks.foldlM (job.execute fuel) files

variable {job : Job} {files : Files} {task : Kind × Nat}

/-- What an execution that nobody disturbs keeps. -/
structure Undisturbed (job : Job) (files : Files) (task : Kind × Nat) (state : Execution × Files) : Prop where
  underway : Underway job state.2 state.1
  same : state.1.task = task
  others : ∀ other, other ≠ task → job.Complete files other → job.Complete state.2 other

/-- A turn of such an execution ends it with complete files or brings it nearer to that. -/
theorem Undisturbed.turn (roundTrips : job.RoundTrips) {state : Execution × Files}
    (undisturbed : job.Undisturbed files task state) (has : job.Has task)
    (mapped : ∀ reduceTask, task = (.reduce, reduceTask) → ∀ mapTask < job.nMap, job.Complete files (.map, mapTask)) :
    Execution.turn job state = .leave ∧ job.Complete state.2 task ∨
      ∃ next, Execution.turn job state = .next next ∧ job.Undisturbed files task next ∧
        next.1.work job < state.1.work job := by
  obtain ⟨execution, now⟩ := state
  obtain ⟨underway, same, others⟩ := undisturbed
  by_cases unfinished : ∀ kind number, execution ≠ .finished kind number
  · have readable : ∀ reduceTask, execution.task = (.reduce, reduceTask) → job.Readable now reduceTask := by
      intro reduceTask reducing
      obtain rfl := same.symm.trans reducing
      apply readable_of_complete roundTrips _ has
      exact fun mapTask less => others _ (by simp) (mapped reduceTask rfl mapTask less)
    obtain ⟨next, files', stepped, advances⟩ := underway.step readable unfinished
    refine .inr ⟨(next, files'), ?_, ⟨advances.underway, advances.task.trans same, ?_⟩, advances.less⟩
    · cases execution with
      | finished kind number => exact absurd rfl (unfinished kind number)
      | _ => simp only [Execution.turn, stepped]
    · exact fun other apart complete => advances.complete (same ▸ apart) (others other apart complete)
  · push Not at unfinished
    obtain ⟨kind, number, rfl⟩ := unfinished
    cases underway with
    | finished complete => exact .inl ⟨rfl, same ▸ complete⟩

/-- A bound on the steps of a task. -/
def steps (job : Job) (task : Kind × Nat) : Nat :=
  ((Execution.begin job (job.taskinfo 0 task) task.1).map (Execution.work job)).getD 0

theorem execute_complete (roundTrips : job.RoundTrips) (positive : 1 ≤ job.nReduce) (has : job.Has task)
    (mapped : ∀ reduceTask, task = (.reduce, reduceTask) → ∀ mapTask < job.nMap, job.Complete files (.map, mapTask))
    {fuel : Nat} (enough : job.steps task < fuel) :
    ∃ files', job.execute fuel files task = some files' ∧ job.Complete files' task ∧
      ∀ other, job.Complete files other → job.Complete files' other := by
  obtain ⟨execution, begun⟩ := exists_begin positive 0 task
  obtain ⟨underway, same⟩ : Underway job files execution ∧ execution.task = task := underway_begin has begun
  simp only [steps, begun, Option.map_some, Option.getD_some] at enough
  have start : job.Undisturbed files task (execution, files) := ⟨underway, same, fun _ _ complete => complete⟩
  have safe : ∀ state, job.Undisturbed files task state → Execution.turn job state ≠ .panic := by
    intro state undisturbed
    rcases undisturbed.turn roundTrips has mapped with ⟨left, _⟩ | ⟨next, onward, _⟩
    · simp [left]
    · simp [onward]
  have keeps : ∀ state after, job.Undisturbed files task state → Execution.turn job state = .next after →
      job.Undisturbed files task after ∧ after.1.work job < state.1.work job := by
    intro state after undisturbed turned
    rcases undisturbed.turn roundTrips has mapped with ⟨left, _⟩ | ⟨next, onward, nearer⟩
    · simp [left] at turned
    · rw [onward] at turned
      cases turned
      exact nearer
  obtain ⟨⟨final, files'⟩, ran, kept, left⟩ := Loops.run_of_measure safe keeps start enough
  have complete : job.Complete files' task := by
    rcases kept.turn roundTrips has mapped with ⟨_, complete⟩ | ⟨next, onward, _⟩
    · exact complete
    · simp [onward] at left
  refine ⟨files', by simp [execute, begun, ran], complete, fun other before => ?_⟩
  by_cases own : other = task
  · rw [own]
    exact complete
  · exact kept.others other own before

theorem executeAll_complete (roundTrips : job.RoundTrips) (files : Files) (positive : 1 ≤ job.nReduce) {kind : Kind}
    {numbers : List Nat}
    (has : ∀ number ∈ numbers, job.Has (kind, number))
    (mapped : kind = .reduce → ∀ mapTask < job.nMap, job.Complete files (.map, mapTask)) {fuel : Nat}
    (enough : ∀ number ∈ numbers, job.steps (kind, number) < fuel) :
    ∃ files', job.executeAll fuel (numbers.map (Prod.mk kind)) files = some files' ∧
      (∀ number ∈ numbers, job.Complete files' (kind, number)) ∧
      ∀ other, job.Complete files other → job.Complete files' other := by
  induction numbers generalizing files with
  | nil => exact ⟨files, rfl, by simp, fun _ complete => complete⟩
  | cons number numbers inductionHypothesis =>
    obtain ⟨middle, ran, complete, kept⟩ := execute_complete roundTrips positive (has number (by simp))
      (fun _ reducing => mapped (congrArg Prod.fst reducing)) (enough number (by simp))
    have mapped' : kind = .reduce → ∀ mapTask < job.nMap, job.Complete middle (.map, mapTask) :=
      fun reducing mapTask less => kept _ (mapped reducing mapTask less)
    obtain ⟨files', rest, completes, keeps⟩ := inductionHypothesis middle
      (fun other later => has other (by simp [later])) mapped' (fun other later => enough other (by simp [later]))
    refine ⟨files', by simpa [executeAll, ran] using rest, ?_, fun other before => keeps other (kept other before)⟩
    intro other member
    rcases List.mem_cons.mp member with rfl | later
    · exact keeps _ complete
    · exact completes other later

/-! ## The records of a key -/

/-- What `mapf` emits for all input files together. -/
def allEmitted (job : Job) : List KeyValue :=
  job.files.flatMap fun filename => job.mapf filename (job.content filename)

/-- The values emitted for a key. -/
def valuesOf (job : Job) (key : GoString) : List GoString :=
  (job.allEmitted.filter (·.key = key)).map KeyValue.value

theorem flatMap_emitted : (List.range job.nMap).flatMap job.emitted = job.allEmitted := by
  have indexed : ∀ (files : List GoString) (emit : GoString → List KeyValue),
      ((List.range files.length).flatMap fun i => (files[i]?.map emit).getD []) = files.flatMap emit := by
    intro files emit
    induction files using List.reverseRecOn with
    | nil => rfl
    | append_singleton files file inductionHypothesis =>
      rw [List.length_append, List.length_singleton, List.range_succ, List.flatMap_append, List.flatMap_append,
        ← inductionHypothesis]
      congr 1
      · refine List.flatMap_congr fun i inside => ?_
        rw [List.getElem?_append_left (List.mem_range.mp inside)]
      · simp
  rw [allEmitted, ← indexed]
  refine List.flatMap_congr fun i _ => ?_
  rw [emitted]
  cases job.files[i]? <;> rfl

theorem collected_eq {reduceTask : Nat} (has : job.Has (.reduce, reduceTask)) :
    job.collected reduceTask job.nMap =
      job.allEmitted.filter fun kv => ihash kv.key % job.nReduce = reduceTask := by
  rw [← flatMap_emitted, List.filter_flatMap, collected]
  exact List.flatMap_congr fun i _ => bucket_eq i has

end Job

theorem groups_eq (kva : List KeyValue) :
    groups kva = (Grouping.runs KeyValue.key kva).map fun run => (run.1, run.2.map KeyValue.value) := by
  rw [groups, Grouping.scan_eq_runs, List.drop_zero]

/-- The calls of `reducef` for sorted records: one for each key, with all its values. -/
theorem values_of_mem_groups (sorter : Sorter) {kva : List KeyValue} {group : GoString × List GoString}
    (member : group ∈ groups (sorter.sort kva)) :
    group.2.Perm ((kva.filter (·.key = group.1)).map KeyValue.value) := by
  rw [groups_eq] at member
  obtain ⟨⟨key, run⟩, inRuns, rfl⟩ := List.mem_map.mp member
  dsimp only
  rw [Grouping.eq_filter_of_mem_runs GoString.eq_of_not_lt (sorter.sorted kva) inRuns]
  exact ((sorter.perm kva).filter _).map _

theorem keys_groups (kva : List KeyValue) :
    (groups kva).map Prod.fst = (Grouping.runs KeyValue.key kva).map Prod.fst := by
  simp [groups_eq, Function.comp_def]

/-- A `reducef` that does not look at the order gives one line for each key, whatever the sort does. -/
theorem reduceLines_sort {reducef : GoString → List GoString → GoString}
    (orderFree : ∀ key values values', values.Perm values' → reducef key values = reducef key values')
    (sorter : Sorter) (kva : List KeyValue) :
    reduceLines reducef (sorter.sort kva) = ((groups (sorter.sort kva)).map Prod.fst).map fun key =>
      line key (reducef key ((kva.filter (·.key = key)).map KeyValue.value)) := by
  rw [reduceLines, List.map_map]
  refine List.map_congr_left fun group member => ?_
  rw [Function.comp_apply, orderFree _ _ _ (values_of_mem_groups sorter member)]

namespace Job

variable {job : Job}

/-- The calls of `reducef` in a reduce task. -/
def calls (job : Job) (reduceTask : Nat) : List (GoString × List GoString) := groups (job.sorted reduceTask)

/-- The key is hashed to this reduce task, so its records are those that the task has of it. -/
theorem filter_collected {reduceTask : Nat} (has : job.Has (.reduce, reduceTask)) {key : GoString}
    (here : ihash key % job.nReduce = reduceTask) :
    ((job.collected reduceTask job.nMap).filter (·.key = key)).map KeyValue.value = job.valuesOf key := by
  rw [collected_eq has, List.filter_filter, valuesOf]
  congr 1
  refine List.filter_congr fun kv _ => ?_
  by_cases same : kv.key = key <;> simp [same, here]

theorem mem_keys_calls {reduceTask : Nat} (has : job.Has (.reduce, reduceTask)) {key : GoString} :
    key ∈ (job.calls reduceTask).map Prod.fst ↔
      key ∈ job.allEmitted.map KeyValue.key ∧ ihash key % job.nReduce = reduceTask := by
  rw [calls, keys_groups, Grouping.mem_keys_runs, sorted, ((job.sorter.perm _).map _).mem_iff, collected_eq has]
  simp only [List.mem_map, List.mem_filter, decide_eq_true_eq]
  constructor
  · rintro ⟨kv, ⟨member, here⟩, rfl⟩
    exact ⟨⟨kv, member, rfl⟩, here⟩
  · rintro ⟨⟨kv, member, rfl⟩, here⟩
    exact ⟨kv, ⟨member, here⟩, rfl⟩

theorem emitted_of_mem_calls : ∀ reduceTask < job.nReduce, ∀ call ∈ job.calls reduceTask,
    call.1 ∈ job.allEmitted.map KeyValue.key :=
  fun _ inside _ member => ((mem_keys_calls inside).mp (List.mem_map_of_mem member)).1

theorem nodup_keys_calls (job : Job) (reduceTask : Nat) : ((job.calls reduceTask).map Prod.fst).Nodup := by
  rw [calls, keys_groups]
  exact Grouping.runs_nodup GoString.eq_of_not_lt (job.sorter.sorted _)

/-- The key is in the calls of one reduce task, once, with the values that were emitted for it. -/
theorem calledOnce (positive : 1 ≤ job.nReduce) {key : GoString} (emitted : key ∈ job.allEmitted.map KeyValue.key) :
    ∃ reduceTask < job.nReduce, ∃ values, values.Perm (job.valuesOf key) ∧
      (job.calls reduceTask).filter (·.1 = key) = [(key, values)] ∧
      ∀ other < job.nReduce, other ≠ reduceTask → ∀ call ∈ job.calls other, call.1 ≠ key := by
  have has : job.Has (.reduce, ihash key % job.nReduce) := Nat.mod_lt _ positive
  obtain ⟨⟨_, values⟩, member, rfl⟩ := List.mem_map.mp ((mem_keys_calls has).mpr ⟨emitted, rfl⟩)
  refine ⟨_, has, values, ?_, Grouping.filter_eq_singleton (job.nodup_keys_calls _) member, ?_⟩
  · rw [← filter_collected has rfl]
    exact values_of_mem_groups job.sorter member
  · rintro other inside apart call inOther rfl
    exact apart ((mem_keys_calls inside).mp (List.mem_map_of_mem inOther)).2.symm

/-- The lines of a reduce task that begin with a key are those of the calls with that key, if no key has a blank. -/
theorem filter_lines {reduceTask : Nat} (inside : reduceTask < job.nReduce) {key : GoString}
    (emitted : key ∈ job.allEmitted.map KeyValue.key)
    (noBlanks : ∀ other ∈ job.allEmitted.map KeyValue.key, 32 ∉ other) :
    (job.lines reduceTask).filter ((key ++ [32]).isPrefixOf ·) =
      ((job.calls reduceTask).filter (·.1 = key)).map fun call => line call.1 (job.reducef call.1 call.2) := by
  rw [lines, reduceLines, List.filter_map]
  congr 1
  refine List.filter_congr fun call member => ?_
  rw [Function.comp_apply, Bool.eq_iff_iff, List.isPrefixOf_iff_prefix, decide_eq_true_iff, line]
  constructor
  · rintro ⟨rest, same⟩
    -- both texts have their first blank after the key
    simp only [List.append_assoc, List.cons_append, List.nil_append] at same
    have first := GoString.takeWhile_ne (noBlanks key emitted) rest
    rwa [same, GoString.takeWhile_ne (noBlanks _ (emitted_of_mem_calls _ inside call member))] at first
  · rintro rfl
    exact ⟨job.reducef call.1 call.2 ++ [10], by simp⟩

theorem lines_perm (positive : 1 ≤ job.nReduce)
    (orderFree : ∀ key values values', values.Perm values' → job.reducef key values = job.reducef key values')
    (sequential : Sorter) :
    ((List.range job.nReduce).flatMap job.lines).Perm (sequentialLines job sequential) := by
  -- the line of a key, which is the same in both programs
  let lineOf := fun key => line key (job.reducef key (job.valuesOf key))
  have distributed : (List.range job.nReduce).flatMap job.lines =
      ((List.range job.nReduce).flatMap fun reduceTask => (job.calls reduceTask).map Prod.fst).map lineOf := by
    rw [List.map_flatMap]
    refine List.flatMap_congr fun reduceTask inside => ?_
    have has : job.Has (.reduce, reduceTask) := List.mem_range.mp inside
    rw [lines, sorted, reduceLines_sort orderFree]
    refine List.map_congr_left fun key member => ?_
    rw [filter_collected has ((mem_keys_calls has).mp member).2]
  have alone : sequentialLines job sequential =
      ((groups (sequential.sort job.allEmitted)).map Prod.fst).map lineOf :=
    reduceLines_sort orderFree sequential job.allEmitted
  rw [distributed, alone]
  apply List.Perm.map
  simp only [calls, keys_groups]
  refine Grouping.keys_perm_of_parts GoString.eq_of_not_lt (fun key => ihash key % job.nReduce) (sequential.sorted _)
    (sequential.perm _) (fun reduceTask => job.sorter.sorted _) ?_ fun kv _ => Nat.mod_lt (ihash kv.key) positive
  intro reduceTask inside
  rw [← collected_eq inside]
  exact job.sorter.perm _

end Job

/-- Each map task is executed once, in any order, and then each reduce task.  Two keys can have the same line only if
one of them has a blank in it. -/
theorem distributed_eq_sequential (job : Job) (sequential : Sorter) (positive : 1 ≤ job.nReduce)
    (roundTrips : job.RoundTrips)
    (orderFree : ∀ key values values', values.Perm values' → job.reducef key values = job.reducef key values')
    (files : Files) {maps reduces : List Nat} (mapsOnce : maps.Perm (List.range job.nMap))
    (reducesOnce : reduces.Perm (List.range job.nReduce)) :
    ∃ fuel final, job.executeAll fuel (maps.map (Prod.mk .map) ++ reduces.map (Prod.mk .reduce)) files = some final ∧
      (∀ reduceTask < job.nReduce, final.read (.out reduceTask) = some (job.lines reduceTask).flatten) ∧
      (mrsequential job sequential files).read (.out 0) = some (sequentialLines job sequential).flatten ∧
      ((List.range job.nReduce).flatMap job.lines).Perm (sequentialLines job sequential) ∧
      (∀ reduceTask, job.lines reduceTask =
        (job.calls reduceTask).map fun call => call.1 ++ [32] ++ job.reducef call.1 call.2 ++ [10]) ∧
      (∀ key ∈ job.allEmitted.map KeyValue.key, ∃ reduceTask < job.nReduce, ∃ values,
        values.Perm (job.valuesOf key) ∧ key ++ [32] ++ job.reducef key values ++ [10] ∈ job.lines reduceTask ∧
        (job.calls reduceTask).filter (·.1 = key) = [(key, values)] ∧
        (∀ other < job.nReduce, other ≠ reduceTask → ∀ call ∈ job.calls other, call.1 ≠ key) ∧
        ((∀ other ∈ job.allEmitted.map KeyValue.key, 32 ∉ other) →
          (job.lines reduceTask).filter ((key ++ [32]).isPrefixOf ·) =
            [key ++ [32] ++ job.reducef key values ++ [10]] ∧
          ∀ other < job.nReduce, other ≠ reduceTask → ∀ text ∈ job.lines other, ¬ key ++ [32] <+: text)) ∧
      ∀ reduceTask < job.nReduce, ∀ call ∈ job.calls reduceTask, call.1 ∈ job.allEmitted.map KeyValue.key := by
  have hasMap : ∀ number ∈ maps, job.Has (.map, number) := fun number member =>
    List.mem_range.mp (mapsOnce.mem_iff.mp member)
  have hasReduce : ∀ number ∈ reduces, job.Has (.reduce, number) := fun number member =>
    List.mem_range.mp (reducesOnce.mem_iff.mp member)
  -- one fuel for all of them: the sum of their bounds
  let tasks := maps.map (Prod.mk Kind.map) ++ reduces.map (Prod.mk Kind.reduce)
  have enough : ∀ task ∈ tasks, job.steps task < (tasks.map job.steps).sum + 1 := fun task member =>
    Nat.lt_succ_of_le (List.le_sum_of_mem (List.mem_map_of_mem member))
  obtain ⟨mapped, ranMaps, completeMaps, _⟩ := Job.executeAll_complete roundTrips files positive hasMap
    (by rintro ⟨⟩) fun number member => enough _ (by simp [tasks, member])
  obtain ⟨final, ranReduces, completeReduces, _⟩ := Job.executeAll_complete roundTrips mapped positive hasReduce
    (fun _ mapTask less => completeMaps mapTask (mapsOnce.mem_iff.mpr (List.mem_range.mpr less)))
    fun number member => enough _ (by simp [tasks, member])
  refine ⟨(tasks.map job.steps).sum + 1, final, ?_, ?_, ?_, Job.lines_perm positive orderFree sequential, fun _ => rfl,
    ?_, Job.emitted_of_mem_calls⟩
  · rw [Job.executeAll, List.foldlM_append]
    exact Option.bind_eq_some_iff.mpr ⟨mapped, ranMaps, ranReduces⟩
  · exact fun reduceTask less => completeReduces reduceTask (reducesOnce.mem_iff.mpr (List.mem_range.mpr less))
  · rw [mrsequential, Disk.read_writeAll Disk.directory_create]
    · rw [Disk.file_create, List.nil_append]
    · rw [Disk.file_create, List.length_nil]
  · intro key emitted
    obtain ⟨reduceTask, inside, values, perm, once, nowhere⟩ := Job.calledOnce positive emitted
    have called : (key, values) ∈ job.calls reduceTask := List.mem_of_mem_filter (once ▸ List.mem_singleton_self _)
    refine ⟨reduceTask, inside, values, perm, List.mem_map_of_mem called, once, nowhere, fun noBlanks => ⟨?_, ?_⟩⟩
    · rw [Job.filter_lines inside emitted noBlanks, once]
      rfl
    · intro other inOther apart text member begins
      have among : text ∈ (job.lines other).filter ((key ++ [32]).isPrefixOf ·) :=
        List.mem_filter.mpr ⟨member, List.isPrefixOf_iff_prefix.mpr begins⟩
      rw [Job.filter_lines inOther emitted noBlanks] at among
      obtain ⟨call, inCalls, _⟩ := List.mem_map.mp among
      obtain ⟨inCalls, same⟩ := List.mem_filter.mp inCalls
      exact nowhere other inOther apart call inCalls (of_decide_eq_true same)

/-! ## A job -/

/-- The characters are those that JSON writes as they are. -/
def Plain (text : GoString) : Prop := ∀ byte ∈ text, 32 ≤ byte ∧ byte < 127 ∧ byte ∉ [34, 38, 60, 62, 92]

instance (text : GoString) : Decidable (Plain text) := List.decidableBAll _ _

/-- The bytes after a fixed text. -/
def expect (text bytes : GoString) : Option GoString :=
  if text.isPrefixOf bytes then some (bytes.drop text.length) else none

theorem expect_append (text rest : GoString) : expect text (text ++ rest) = some rest := by
  simp [expect]

/-- The bytes of `encoding/json` for plain texts, such as `{"Key":"a","Value":"1"}` and a newline. -/
def json : Codec where
  encode := fun kv => [123, 34, 75, 101, 121, 34, 58, 34] ++ kv.key ++
    [34, 44, 34, 86, 97, 108, 117, 101, 34, 58, 34] ++ kv.value ++ [34, 125, 10]
  decode := fun bytes => do
    let bytes ← expect [123, 34, 75, 101, 121, 34, 58, 34] bytes
    let key := bytes.takeWhile (· ≠ 34)
    let bytes ← expect [34, 44, 34, 86, 97, 108, 117, 101, 34, 58, 34] (bytes.drop key.length)
    let value := bytes.takeWhile (· ≠ 34)
    let bytes ← expect [34, 125, 10] (bytes.drop value.length)
    some (⟨key, value⟩, bytes)
  decode_nil := rfl

theorem roundTrips_json {job : Job} (encodes : job.codec = json)
    (plain : ∀ filename ∈ job.files, ∀ kv ∈ job.mapf filename (job.content filename), Plain kv.key ∧ Plain kv.value) :
    job.RoundTrips := by
  intro filename member kv emitted rest
  -- a plain text is read up to the quote after it
  have upToQuote : ∀ text, Plain text → ∀ more rest : GoString,
      (text ++ (34 :: more ++ rest)).takeWhile (· ≠ 34) = text := by
    intro text plain more rest
    exact GoString.takeWhile_ne (fun quote => (plain 34 quote).2.2 (by simp)) (more ++ rest)
  obtain ⟨plainKey, plainValue⟩ := plain filename member kv emitted
  rw [encodes]
  simp only [json, List.append_assoc, expect_append, Option.bind_eq_bind, Option.bind_some,
    upToQuote _ plainKey, upToQuote _ plainValue, List.drop_left]

def insertion : Sorter where
  sort := List.insertionSort fun one other => one.key ≤ other.key
  perm := List.perm_insertionSort _
  sorted := by
    intro kva
    have total : Std.Total fun one other : KeyValue => one.key ≤ other.key := ⟨fun _ _ => List.le_total _ _⟩
    have trans : IsTrans KeyValue fun one other => one.key ≤ other.key := ⟨fun _ _ _ => List.le_trans⟩
    exact List.pairwise_insertionSort _ kva

/-- Counts the bytes of two files, which both have a `b`. -/
def byteCount : Job where
  files := [[97], [99]]
  content := fun filename => filename ++ [98]
  nReduce := 2
  mapf := fun _ content => content.map fun byte => ⟨[byte], [49]⟩
  reducef := fun _ values => [48 + values.length.toUInt8]
  codec := json
  sorter := insertion

theorem distributed_eq_sequential_byteCount :
    ∃ fuel final, byteCount.executeAll fuel [(.map, 1), (.map, 0), (.reduce, 0), (.reduce, 1)] .empty = some final ∧
      final.read (.out 0) = some [97, 32, 49, 10, 99, 32, 49, 10] ∧ final.read (.out 1) = some [98, 32, 50, 10] ∧
      (mrsequential byteCount insertion .empty).read (.out 0) =
        some [97, 32, 49, 10, 98, 32, 50, 10, 99, 32, 49, 10] := by
  have orderFree : ∀ key values values', values.Perm values' →
      byteCount.reducef key values = byteCount.reducef key values' := by
    intro key values values' perm
    simp [byteCount, perm.length_eq]
  have mapsOnce : [1, 0].Perm (List.range byteCount.nMap) := by decide
  have reducesOnce : [0, 1].Perm (List.range byteCount.nReduce) := by decide
  obtain ⟨fuel, final, ran, written, alone, _⟩ := distributed_eq_sequential byteCount insertion (by decide)
    (roundTrips_json rfl (by decide +kernel)) orderFree .empty mapsOnce reducesOnce
  refine ⟨fuel, final, ran, ?_, ?_, ?_⟩
  · rw [written 0 (by decide)]
    decide +kernel
  · rw [written 1 (by decide)]
    decide +kernel
  · rw [alone]
    decide +kernel

end ShardedKV.MapReduce
