import ShardedKV.MapReduce.Worker

/-!
# One execution of a task

What an execution has written and read so far, and what a step of it adds to that and leaves alone.
-/

namespace ShardedKV.MapReduce

open Storage (Disk Descriptor)

/-! ## The results of a job -/

namespace Job

def nMap (job : Job) : Nat := job.files.length

def count (job : Job) : Kind → Nat
  | .map => job.nMap
  | .reduce => job.nReduce

/-- The task is one of the job. -/
def Has (job : Job) (task : Kind × Nat) : Prop := task.2 < job.count task.1

/-- What the coordinator replies when it hands out a task. -/
def taskinfo (job : Job) (startTime : Nat) : Kind × Nat → Taskinfo
  | (.map, mapTask) =>
    { rpcType := .map, taskId := mapTask, filename := job.files[mapTask]?.getD [], nMap := job.nMap,
      nReduce := job.nReduce, startTime }
  | (.reduce, reduceTask) =>
    { rpcType := .reduce, taskId := reduceTask, nMap := job.nMap, nReduce := job.nReduce, startTime }

/-- What `mapf` emits for an input file. -/
def emitted (job : Job) (mapTask : Nat) : List KeyValue :=
  match job.files[mapTask]? with
  | none => []
  | some filename => job.mapf filename (job.content filename)

def intermediate (job : Job) (mapTask : Nat) : List (List KeyValue) := partition job.nReduce (job.emitted mapTask)

def bucket (job : Job) (mapTask reduceTask : Nat) : List KeyValue := (job.intermediate mapTask)[reduceTask]?.getD []

/-- What a reduce task reads from the files of the first map tasks. -/
def collected (job : Job) (reduceTask count : Nat) : List KeyValue :=
  (List.range count).flatMap fun mapTask => job.bucket mapTask reduceTask

/-- What a reduce task sorts. -/
def sorted (job : Job) (reduceTask : Nat) : List KeyValue := job.sorter.sort (job.collected reduceTask job.nMap)

def lines (job : Job) (reduceTask : Nat) : List GoString := reduceLines job.reducef (job.sorted reduceTask)

def encoded (job : Job) (records : List KeyValue) : GoString := records.flatMap job.codec.encode

/-- The first files of a map task are there with all their records. -/
def Written (job : Job) (files : Files) (mapTask count : Nat) : Prop :=
  ∀ reduceTask < count, files.read (.intermediate mapTask reduceTask) =
    some (job.encoded (job.bucket mapTask reduceTask))

/-- A reduce task finds all it has to read, and can decode it. -/
structure Readable (job : Job) (files : Files) (reduceTask : Nat) : Prop where
  read : ∀ mapTask < job.nMap, files.read (.intermediate mapTask reduceTask) =
    some (job.encoded (job.bucket mapTask reduceTask))
  decode : ∀ mapTask, ∀ kv ∈ job.bucket mapTask reduceTask, ∀ rest,
    job.codec.decode (job.codec.encode kv ++ rest) = some (kv, rest)

/-- The files of a task are complete. -/
def Complete (job : Job) (files : Files) : Kind × Nat → Prop
  | (.map, task) => job.Written files task job.nReduce
  | (.reduce, task) => files.read (.out task) = some (job.lines task).flatten

end Job

theorem length_partition (nReduce : Nat) (kva : List KeyValue) : (partition nReduce kva).length = nReduce := by
  induction kva using List.reverseRecOn with
  | nil => simp [partition]
  | append_singleton kva kv inductionHypothesis => simpa [partition] using inductionHypothesis

/-- A bucket has the records whose keys are hashed to it, in the order of `kva`. -/
theorem getElem?_partition {nReduce bucket : Nat} (inside : bucket < nReduce) (kva : List KeyValue) :
    (partition nReduce kva)[bucket]? = some (kva.filter fun kv => ihash kv.key % nReduce = bucket) := by
  induction kva using List.reverseRecOn with
  | nil => simp [partition, inside]
  | append_singleton kva kv inductionHypothesis =>
    have grown : partition nReduce (kva ++ [kv]) =
        (partition nReduce kva).modify (ihash kv.key % nReduce) (· ++ [kv]) := by
      simp [partition]
    rw [grown, List.getElem?_modify, inductionHypothesis, List.filter_append]
    by_cases here : ihash kv.key % nReduce = bucket <;> simp [here]

namespace Job

variable {job : Job} {files : Files}

theorem bucket_eq (mapTask : Nat) {reduceTask : Nat} (has : job.Has (.reduce, reduceTask)) :
    job.bucket mapTask reduceTask =
      (job.emitted mapTask).filter fun kv => ihash kv.key % job.nReduce = reduceTask := by
  have inside : reduceTask < job.nReduce := has
  rw [bucket, intermediate, getElem?_partition inside, Option.getD_some]

theorem readable_of_complete (roundTrips : job.RoundTrips)
    (complete : ∀ mapTask < job.nMap, job.Complete files (.map, mapTask)) {reduceTask : Nat}
    (has : job.Has (.reduce, reduceTask)) : job.Readable files reduceTask := by
  refine ⟨fun mapTask less => complete mapTask less reduceTask has, fun mapTask kv member => ?_⟩
  rw [bucket_eq mapTask has, List.mem_filter, emitted] at member
  cases named : job.files[mapTask]? with
  | none => simp [named] at member
  | some filename =>
    rw [named] at member
    exact roundTrips filename (List.mem_of_getElem? named) kv member.1

theorem encoded_append (one other : List KeyValue) :
    job.encoded (one ++ other) = job.encoded one ++ job.encoded other := by
  simp [encoded]

theorem collected_succ (reduceTask count : Nat) :
    job.collected reduceTask (count + 1) = job.collected reduceTask count ++ job.bucket count reduceTask := by
  simp [collected, List.range_succ]

theorem length_collected_mono (reduceTask : Nat) {count count' : Nat} (le : count ≤ count') :
    (job.collected reduceTask count).length ≤ (job.collected reduceTask count').length := by
  induction le with
  | refl => exact le_refl _
  | step _ inductionHypothesis =>
    rw [collected_succ, List.length_append]
    omega

theorem bucket_of_drop {mapTask reduceTask : Nat} {records : List KeyValue} {more : List (List KeyValue)}
    (left : (job.intermediate mapTask).drop reduceTask = records :: more) :
    job.bucket mapTask reduceTask = records ∧ reduceTask < job.nReduce ∧
      (job.intermediate mapTask).drop (reduceTask + 1) = more := by
  have here : (job.intermediate mapTask)[reduceTask]? = some records := by
    rw [← List.head?_drop, left, List.head?_cons]
  refine ⟨by simp [bucket, here], ?_, ?_⟩
  · have inside := (List.getElem?_eq_some_iff.mp here).1
    rwa [intermediate, length_partition] at inside
  · rw [← List.tail_drop, left, List.tail_cons]

end Job

/-! ## Where an execution stands -/

namespace Execution

/-- The inode it has created and not yet renamed. -/
def temp : Execution → Option Nat
  | naming _ _ inode _ _ => some inode
  | _ => none

/-- The names whose files the next step may change. -/
def touches (files : Files) : Execution → FileName → Prop
  | creating _ _ _, .temp inode => inode = files.contents.length
  | naming _ _ inode _ _, .temp inode' => inode' = inode
  | naming task bucket _ _ _, .intermediate mapTask reduceTask => mapTask = task ∧ reduceTask = bucket
  | encoding task bucket _ _ _, .intermediate mapTask reduceTask => mapTask = task ∧ reduceTask = bucket
  | output task _, .out reduceTask => reduceTask = task
  | writing task _ _, .out reduceTask => reduceTask = task
  | _, _ => False

/-- The names whose files it has written or will read. -/
def uses (execution : Execution) : FileName → Prop
  | .temp inode => execution.temp = some inode
  | .intermediate mapTask reduceTask => execution.task = (.map, mapTask) ∨ execution.task = (.reduce, reduceTask)
  | .out reduceTask => execution.task = (.reduce, reduceTask)

/-- A bound on the steps that are left. -/
def work (job : Job) : Execution → Nat
  | creating _ _ intermediate => 1 + (intermediate.map fun records => 3 + records.length).sum
  | naming _ _ _ records intermediate =>
    3 + records.length + (intermediate.map fun records => 3 + records.length).sum
  | encoding _ _ _ records intermediate =>
    2 + records.length + (intermediate.map fun records => 3 + records.length).sum
  | opening task nMap i kva =>
    4 + (job.lines task).length + ((job.collected task nMap).length - kva.length) + 2 * (nMap - i)
  | decoding task nMap i _ kva =>
    3 + (job.lines task).length + ((job.collected task nMap).length - kva.length) + 2 * (nMap - i)
  | output task _ => 2 + (job.lines task).length
  | writing _ _ lines => 1 + lines.length
  | finished _ _ => 0

theorem step_spec {job : Job} {files files' : Files} {execution next : Execution}
    (stepped : execution.step job files = some (next, files')) :
    next.task = execution.task ∧
      ∀ inode, next.temp = some inode → inode = files.contents.length ∨ execution.temp = some inode := by
  cases execution with
  | creating task bucket intermediate =>
    cases intermediate <;> · cases stepped; simp [Execution.task, temp]
  | naming => cases stepped; simp [Execution.task, temp]
  | encoding task bucket file records intermediate =>
    cases records <;> · cases stepped; simp [Execution.task, temp]
  | opening task nMap i kva =>
    simp only [step] at stepped
    split at stepped
    · obtain ⟨inode, _, same⟩ := Option.map_eq_some_iff.mp stepped
      cases same
      simp [Execution.task, temp]
    · cases stepped
      simp [Execution.task, temp]
  | decoding task nMap i file kva =>
    simp only [step] at stepped
    split at stepped <;> · cases stepped; simp [Execution.task, temp]
  | output => cases stepped; simp [Execution.task, temp]
  | writing task file lines =>
    cases lines <;> · cases stepped; simp [Execution.task, temp]
  | finished => cases stepped; simp [Execution.task, temp]

end Execution

/-- What an execution has done so far is there and is right. -/
inductive Underway (job : Job) (files : Files) : Execution → Prop where
  | creating {task bucket : Nat} {intermediate : List (List KeyValue)}
      (left : (job.intermediate task).drop bucket = intermediate) (written : job.Written files task bucket) :
      Underway job files (.creating task bucket intermediate)
  | naming {task bucket inode : Nat} {records : List KeyValue} {intermediate : List (List KeyValue)}
      (left : (job.intermediate task).drop bucket = records :: intermediate)
      (written : job.Written files task bucket) (named : files.directory (.temp inode) = some inode)
      (empty : files.file inode = []) : Underway job files (.naming task bucket inode records intermediate)
  | encoding {task bucket : Nat} {file : Descriptor} {seen records : List KeyValue}
      {intermediate : List (List KeyValue)}
      (left : (job.intermediate task).drop bucket = (seen ++ records) :: intermediate)
      (written : job.Written files task bucket)
      (named : files.directory (.intermediate task bucket) = some file.inode)
      (bytes : files.file file.inode = job.encoded seen) (atEnd : file.offset = (job.encoded seen).length) :
      Underway job files (.encoding task bucket file records intermediate)
  | opening {task i : Nat} {kva : List KeyValue} (within : i ≤ job.nMap)
      (read : kva = job.collected task i) :
      Underway job files (.opening task job.nMap i kva)
  | decoding {task i : Nat} {file : Descriptor} {kva seen unseen : List KeyValue} (within : i < job.nMap)
      (split : job.bucket i task = seen ++ unseen)
      (read : kva = job.collected task i ++ seen)
      (named : files.directory (.intermediate i task) = some file.inode)
      (atSeen : file.offset = (job.encoded seen).length) :
      Underway job files (.decoding task job.nMap i file kva)
  | output {task : Nat} {kva : List KeyValue} (read : kva = job.sorted task) :
      Underway job files (.output task kva)
  | writing {task : Nat} {file : Descriptor} {seen lines : List GoString} (split : job.lines task = seen ++ lines)
      (named : files.directory (.out task) = some file.inode) (bytes : files.file file.inode = seen.flatten)
      (atEnd : file.offset = seen.flatten.length) : Underway job files (.writing task file lines)
  | finished {kind : Kind} {task : Nat} (complete : job.Complete files (kind, task)) :
      Underway job files (.finished kind task)

theorem underway_begin {job : Job} {files : Files} {task : Kind × Nat} {startTime : Nat} {execution : Execution}
    (has : job.Has task) (begun : Execution.begin job (job.taskinfo startTime task) task.1 = some execution) :
    Underway job files execution ∧ execution.task = task := by
  obtain ⟨kind, number⟩ := task
  cases kind with
  | map =>
    have named : job.files[number]? = some job.files[number] := List.getElem?_eq_getElem has
    simp only [Execution.begin, Execution.execMap, Job.taskinfo, named, Option.getD_some] at begun
    split at begun
    · -- a record and no bucket for it
      cases begun
    · cases begun
      refine ⟨.creating ?_ fun _ less => absurd less (Nat.not_lt_zero _), rfl⟩
      simp [Job.intermediate, Job.emitted, named]
  | reduce =>
    cases begun
    exact ⟨.opening (Nat.zero_le _) rfl, rfl⟩

theorem exists_begin {job : Job} (positive : 1 ≤ job.nReduce) (startTime : Nat) (task : Kind × Nat) :
    ∃ execution, Execution.begin job (job.taskinfo startTime task) task.1 = some execution := by
  obtain ⟨kind, number⟩ := task
  cases kind with
  | map =>
    have some : ¬ job.nReduce = 0 := by omega
    simp [Execution.begin, Execution.execMap, Job.taskinfo, some]
  | reduce => exact ⟨_, rfl⟩

/-! ## One step -/

/-- What a step of an execution does. -/
structure Advances (job : Job) (files : Files) (execution next : Execution) (files' : Files) : Prop where
  underway : Underway job files' next
  task : next.task = execution.task
  keeps : files.Keeps (execution.touches files) files'
  less : next.work job < execution.work job

section Steps

variable {job : Job} {files files' : Files} {touched : FileName → Prop}

theorem Job.Written.keeps {mapTask count : Nat} (written : job.Written files mapTask count)
    (keeps : files.Keeps touched files')
    (apart : ∀ reduceTask < count, ¬ touched (.intermediate mapTask reduceTask)) :
    job.Written files' mapTask count := by
  intro reduceTask less
  rw [keeps.read (apart reduceTask less)]
  exact written reduceTask less

theorem Job.Written.add {mapTask count : Nat} (written : job.Written files mapTask count)
    (last : files.read (.intermediate mapTask count) = some (job.encoded (job.bucket mapTask count))) :
    job.Written files mapTask (count + 1) := by
  intro reduceTask less
  rcases Nat.lt_succ_iff_lt_or_eq.mp less with before | rfl
  · exact written reduceTask before
  · exact last

theorem Underway.step_map {execution : Execution} {mapTask : Nat} (underway : Underway job files execution)
    (mapping : execution.task = (.map, mapTask)) (unfinished : ∀ kind task, execution ≠ .finished kind task) :
    ∃ next files', execution.step job files = some (next, files') ∧ Advances job files execution next files' := by
  cases underway with
  | @creating task bucket intermediate left written =>
    cases intermediate with
    | nil =>
      refine ⟨_, _, rfl, .finished ?_, rfl, .refl, by simp [Execution.work]⟩
      have all : job.nReduce ≤ bucket := by
        have short := List.drop_eq_nil_iff.mp left
        rwa [Job.intermediate, length_partition] at short
      exact fun reduceTask less => written reduceTask (by omega)
    | cons records intermediate =>
      have keeps : files.Keeps (Execution.touches files (.creating task bucket (records :: intermediate)))
          (files.make (.temp files.contents.length)) := Disk.keeps_make rfl
      refine ⟨_, _, rfl, .naming left (written.keeps keeps ?_) Disk.directory_make Disk.file_make, rfl, keeps, ?_⟩
      · exact fun _ _ => id
      · simp [Execution.work]
  | @naming task bucket inode records intermediate left written named empty =>
    have keeps : files.Keeps (Execution.touches files (.naming task bucket inode records intermediate))
        (files.rename (.temp inode) (.intermediate task bucket)) := Disk.keeps_rename rfl ⟨rfl, rfl⟩
    -- the file has its final name before it has a record
    have left' : (job.intermediate task).drop bucket = ([] ++ records) :: intermediate := left
    refine ⟨_, _, rfl, .encoding left' (written.keeps keeps ?_) (Disk.directory_rename named) ?_ rfl, rfl, keeps,
      by simp [Execution.work]⟩
    · rintro reduceTask less ⟨_, rfl⟩
      exact Nat.lt_irrefl _ less
    · simpa [Job.encoded] using empty
  | @encoding task bucket file seen records intermediate left written named bytes atEnd =>
    obtain ⟨whole, _, after⟩ := Job.bucket_of_drop left
    cases records with
    | nil =>
      -- `Close`: the bucket is complete
      refine ⟨_, _, rfl, .creating after (written.add ?_), rfl, .refl, by simp [Execution.work]⟩
      simp [Disk.read, named, bytes, whole]
    | cons kv records =>
      have keeps : files.Keeps (Execution.touches files (.encoding task bucket file (kv :: records) intermediate))
          (files.write file (job.codec.encode kv)) := by
        apply Disk.keeps_write _ named
        exact ⟨rfl, rfl⟩
      have left' : (job.intermediate task).drop bucket = ((seen ++ [kv]) ++ records) :: intermediate := by
        simpa using left
      refine ⟨_, _, rfl, .encoding left' (written.keeps keeps ?_) named ?_ ?_, rfl, keeps, by simp [Execution.work]⟩
      · rintro reduceTask less ⟨_, rfl⟩
        exact Nat.lt_irrefl _ less
      · rw [Disk.file_write_end named (by rw [bytes, atEnd]), bytes, Job.encoded_append]
        simp [Job.encoded]
      · rw [Job.encoded_append, List.length_append, atEnd]
        simp [Job.encoded]
  | opening => cases mapping
  | decoding => cases mapping
  | output => cases mapping
  | writing => cases mapping
  | finished => exact absurd rfl (unfinished _ _)

theorem unread_eq {mapTask reduceTask : Nat} {file : Descriptor} {seen unseen : List KeyValue}
    (readable : job.Readable files reduceTask) (within : mapTask < job.nMap)
    (split : job.bucket mapTask reduceTask = seen ++ unseen)
    (named : files.directory (.intermediate mapTask reduceTask) = some file.inode)
    (atSeen : file.offset = (job.encoded seen).length) :
    (files.file file.inode).drop file.offset = job.encoded unseen := by
  have whole := readable.read mapTask within
  simp only [Disk.read, named, Option.map_some, Option.some.injEq] at whole
  rw [whole, split, Job.encoded_append, atSeen, List.drop_left]

theorem length_read_lt {mapTask reduceTask : Nat} {seen unseen : List KeyValue} {kv : KeyValue}
    (within : mapTask < job.nMap) (split : job.bucket mapTask reduceTask = seen ++ kv :: unseen) :
    (job.collected reduceTask mapTask ++ seen).length < (job.collected reduceTask job.nMap).length := by
  have grows : (job.collected reduceTask (mapTask + 1)).length ≤ (job.collected reduceTask job.nMap).length :=
    Job.length_collected_mono reduceTask within
  rw [Job.collected_succ, split] at grows
  simp only [List.length_append, List.length_cons] at grows ⊢
  omega

theorem Underway.step_reduce {execution : Execution} {reduceTask : Nat} (underway : Underway job files execution)
    (reducing : execution.task = (.reduce, reduceTask)) (readable : job.Readable files reduceTask)
    (unfinished : ∀ kind task, execution ≠ .finished kind task) :
    ∃ next files', execution.step job files = some (next, files') ∧ Advances job files execution next files' := by
  cases underway with
  | creating => cases reducing
  | naming => cases reducing
  | encoding => cases reducing
  | @opening task i kva within read =>
    cases reducing
    rcases Nat.lt_or_eq_of_le within with less | rfl
    · have there := readable.read i less
      obtain ⟨inode, named, _⟩ := Option.map_eq_some_iff.mp there
      refine ⟨.decoding reduceTask job.nMap i { inode } kva, files, by simp [Execution.step, less, named], ?_, rfl,
        .refl, ?_⟩
      · have split : job.bucket i reduceTask = [] ++ job.bucket i reduceTask := rfl
        exact .decoding less split (by simpa using read) named rfl
      · simp [Execution.work]
    · refine ⟨.output reduceTask (job.sorter.sort kva), files, by simp [Execution.step], .output ?_, rfl, .refl, ?_⟩
      · rw [read, Job.sorted]
      · simp [Execution.work]
        omega
  | @decoding task i file kva seen unseen within split read named atSeen =>
    cases reducing
    have unread := unread_eq readable within split named atSeen
    cases unseen with
    | nil =>
      -- the decode error at the end of the file
      refine ⟨.opening reduceTask job.nMap (i + 1) kva, files, ?_, .opening within ?_, rfl, .refl, ?_⟩
      · simp [Execution.step, unread, Job.encoded, job.codec.decode_nil]
      · rw [read, Job.collected_succ, split, List.append_nil]
      · simp [Execution.work]
        omega
    | cons kv unseen =>
      have split' : job.bucket i reduceTask = (seen ++ [kv]) ++ unseen := by simpa using split
      have decoded : job.codec.decode (job.encoded (kv :: unseen)) = some (kv, job.encoded unseen) := by
        rw [Job.encoded, List.flatMap_cons, readable.decode i kv (by simp [split])]
        rfl
      refine ⟨.decoding reduceTask job.nMap i { file with offset := file.offset + (job.codec.encode kv).length }
        (kva ++ [kv]), files, ?_, .decoding within split' ?_ named ?_, rfl, .refl, ?_⟩
      · simp [Execution.step, unread, decoded]
        simp [Job.encoded]
      · rw [read, List.append_assoc]
      · rw [Job.encoded_append, List.length_append, atSeen]
        simp [Job.encoded]
      · have fewer := length_read_lt within split
        rw [← read] at fewer
        simp [Execution.work]
        omega
  | @output task kva read =>
    cases reducing
    have split : job.lines reduceTask = [] ++ reduceLines job.reducef kva := by simp [Job.lines, read]
    refine ⟨_, _, rfl, .writing split Disk.directory_create Disk.file_create rfl, rfl, Disk.keeps_create rfl, ?_⟩
    simp [Execution.work, read, Job.lines]
  | @writing task file seen lines split named bytes atEnd =>
    cases reducing
    cases lines with
    | nil =>
      refine ⟨_, _, rfl, .finished ?_, rfl, .refl, by simp [Execution.work]⟩
      simp [Job.Complete, Disk.read, named, bytes, split]
    | cons line lines =>
      have split' : job.lines reduceTask = (seen ++ [line]) ++ lines := by simpa using split
      have keeps : files.Keeps (Execution.touches files (.writing reduceTask file (line :: lines)))
          (files.write file line) := by
        apply Disk.keeps_write _ named
        rfl
      refine ⟨_, _, rfl, .writing split' named ?_ ?_, rfl, keeps, by simp [Execution.work]⟩
      · rw [Disk.file_write_end named (by rw [bytes, atEnd]), bytes]
        simp
      · simp [atEnd]
  | finished => exact absurd rfl (unfinished _ _)

theorem Underway.step {execution : Execution} (underway : Underway job files execution)
    (readable : ∀ reduceTask, execution.task = (.reduce, reduceTask) → job.Readable files reduceTask)
    (unfinished : ∀ kind task, execution ≠ .finished kind task) :
    ∃ next files', execution.step job files = some (next, files') ∧ Advances job files execution next files' := by
  obtain ⟨kind, task, same⟩ : ∃ kind task, execution.task = (kind, task) := ⟨_, _, rfl⟩
  cases kind with
  | map => exact underway.step_map same unfinished
  | reduce => exact underway.step_reduce same (readable task same) unfinished

/-! ## The files of other tasks -/

theorem Execution.task_of_touches_intermediate {execution : Execution} {mapTask reduceTask : Nat}
    (touches : execution.touches files (.intermediate mapTask reduceTask)) : execution.task = (.map, mapTask) := by
  cases execution <;> simp_all [Execution.touches, Execution.task]

theorem Execution.task_of_touches_out {execution : Execution} {reduceTask : Nat}
    (touches : execution.touches files (.out reduceTask)) : execution.task = (.reduce, reduceTask) := by
  cases execution <;> simp_all [Execution.touches, Execution.task]

theorem Job.Complete.keeps {task : Kind × Nat} (complete : job.Complete files task)
    (keeps : files.Keeps touched files') (apartMap : ∀ mapTask reduceTask, task = (.map, mapTask) →
      ¬ touched (.intermediate mapTask reduceTask))
    (apartReduce : ∀ reduceTask, task = (.reduce, reduceTask) → ¬ touched (.out reduceTask)) :
    job.Complete files' task := by
  obtain ⟨kind, number⟩ := task
  cases kind with
  | map => exact Job.Written.keeps complete keeps fun reduceTask _ => apartMap number reduceTask rfl
  | reduce =>
    change files'.read _ = _
    rw [keeps.read (apartReduce number rfl)]
    exact complete

theorem Advances.complete {execution next : Execution} (advances : Advances job files execution next files')
    {task : Kind × Nat} (other : task ≠ execution.task) (complete : job.Complete files task) :
    job.Complete files' task :=
  complete.keeps advances.keeps
    (fun _ _ same touches => other (same.trans (Execution.task_of_touches_intermediate touches).symm))
    (fun _ same touches => other (same.trans (Execution.task_of_touches_out touches).symm))

end Steps

end ShardedKV.MapReduce
