import ShardedKV.MapReduce.Pool
import ShardedKV.MapReduce.Reports

/-!
# The files of finished tasks

`execMap` renames its temporary file before it has written a record and `execReduce` truncates its
output in place, so a second execution of a task destroys the files of the first.  As long as no task
is handed out that somebody still executes, the files of a task stay complete from the moment it is
done.
-/

namespace ShardedKV.MapReduce

variable {n : Nat} {job : Job}

/-! ## The executions under way -/

theorem flatMap_update_perm {ι α : Type} [DecidableEq ι] {ids : List ι} {id : ι} (nodup : ids.Nodup) (member : id ∈ ids)
    (lists : ι → List α) :
    ∃ rest, ∀ list, (ids.flatMap (Function.update lists id list)).Perm (list ++ rest) := by
  obtain ⟨before, after, rfl⟩ := List.append_of_mem member
  obtain ⟨_, ⟨notAfter, _⟩, notBefore⟩ : before.Nodup ∧ (id ∉ after ∧ _) ∧ _ := by
    simpa only [List.nodup_append, List.nodup_cons] using nodup
  refine ⟨before.flatMap lists ++ after.flatMap lists, fun list => ?_⟩
  have beside : ∀ others : List ι, id ∉ others →
      others.flatMap (Function.update lists id list) = others.flatMap lists := by
    intro others absent
    refine List.flatMap_congr fun other inside => Function.update_of_ne ?_ _ _
    rintro rfl
    exact absent inside
  rw [List.flatMap_append, List.flatMap_cons, Function.update_self, beside after notAfter,
    beside before fun member => notBefore id member id (.head _) rfl]
  exact List.perm_append_comm_assoc _ _ _

def Worker.executions : Worker → List Execution
  | executing execution => [execution]
  | _ => []

/-- A report stands for an execution that has come to its end. -/
def Report.execution (report : Report) : Execution := .finished report.task.1 report.task.2

/-- The task a reply hands out. -/
def Taskinfo.task (reply : Taskinfo) : Option (Kind × Nat) :=
  match reply.rpcType with
  | .map => some (.map, reply.taskId)
  | .reduce => some (.reduce, reply.taskId)
  | _ => none

def Coordinator.TaskDone (c : Coordinator) (task : Kind × Nat) : Prop := c.statusOf task = some .done

namespace System

def executions (system : System n) : List Execution :=
  (List.finRange n).flatMap (fun id => (system.worker id).executions) ++ system.reports.map Report.execution

/-- Somebody executes the task, or a report of it is on its way. -/
def Outstanding (system : System n) (task : Kind × Nat) : Prop :=
  ∃ execution ∈ system.executions, execution.task = task

/-- No task is handed out that is outstanding. -/
def Exclusive (system : System n) : Action n → Prop
  | .request _ now time => ∀ task ∈ (system.coordinator.assignTask now time).2.task, ¬ system.Outstanding task
  | _ => True

variable {system next : System n}

theorem executions_setWorker (system : System n) (id : Fin n) :
    ∃ rest, system.executions.Perm ((system.worker id).executions ++ rest) ∧
      ∀ worker, (system.setWorker id worker).executions.Perm (worker.executions ++ rest) := by
  obtain ⟨rest, perm⟩ := flatMap_update_perm (List.nodup_finRange n) (List.mem_finRange id)
    fun id => (system.worker id).executions
  have changed : ∀ worker, (system.setWorker id worker).executions.Perm
      (worker.executions ++ (rest ++ system.reports.map Report.execution)) := by
    intro worker
    have moved := (perm worker.executions).append_right (system.reports.map Report.execution)
    rw [List.append_assoc] at moved
    refine List.Perm.trans (.of_eq ?_) moved
    simp only [executions, setWorker, Function.apply_update fun _ => Worker.executions]
  refine ⟨_, ?_, changed⟩
  have same : system.setWorker id (system.worker id) = system := by simp [setWorker]
  have unchanged := changed (system.worker id)
  rwa [same] at unchanged

theorem executions_eraseIdx {position : Nat} {report : Report} (found : system.reports[position]? = some report) :
    system.executions.Perm
      (report.execution :: { system with reports := system.reports.eraseIdx position }.executions) := by
  obtain ⟨inside, rfl⟩ := List.getElem?_eq_some_iff.mp found
  have moved := (List.getElem_cons_eraseIdx_perm inside).symm.map Report.execution
  rw [List.map_cons] at moved
  exact (List.Perm.append_left _ moved).trans List.perm_middle

theorem executions_readStage {position : Nat} {report : Report} (found : system.reports[position]? = some report)
    (stage : Option Stage) :
    { system with reports := system.reports.set position { report with stage } }.executions = system.executions := by
  have same : (system.reports.set position { report with stage }).map Report.execution =
      system.reports.map Report.execution := map_set_of_eq found rfl
  simp only [executions, same]

end System

/-! ## Runs in which no task is executed twice at a time -/

structure Tidy (job : Job) (system : System n) : Prop where
  counted : Counted job system
  mapped : system.coordinator.stage ≠ .mapping → ∀ mapTask < job.nMap, system.coordinator.TaskDone (.map, mapTask)
  pool : Pool job system.files system.coordinator.TaskDone system.executions

theorem task_taskinfo (time : Nat) (task : Kind × Nat) : (job.taskinfo time task).task = some task := by
  obtain ⟨kind, number⟩ := task
  cases kind <;> rfl

theorem temp_begin {reply : Taskinfo} {kind : Kind} {execution : Execution}
    (begun : Execution.begin job reply kind = some execution) : execution.temp = none := by
  cases kind with
  | map =>
    simp only [Execution.begin, Execution.execMap] at begun
    split at begun
    · cases begun
    · cases begun
      rfl
  | reduce =>
    cases begun
    rfl

theorem Assigned.mapped {c c' : Coordinator} {now : Nat → Nat} {time : Nat} {reply : Taskinfo}
    (assigned : Assigned job c now time c' reply)
    (before : c.stage ≠ .mapping → ∀ mapTask < job.nMap, c.TaskDone (.map, mapTask)) (after : c'.stage ≠ .mapping)
    {mapTask : Nat} (inside : mapTask < job.nMap) : c'.TaskDone (.map, mapTask) := by
  refine (assigned.done_iff _).mpr ?_
  cases assigned with
  | handed _ _ sameStage => exact before (sameStage ▸ after) mapTask inside
  | refused _ stage _ =>
    rcases stage with same | ⟨kind, here, _, complete⟩
    · exact before (same ▸ after) mapTask inside
    · cases kind with
      | map => exact complete mapTask inside
      | reduce => exact before (by simp [here, Kind.stage]) mapTask inside

namespace Tidy

variable {system next : System n}

section

variable (tidy : Tidy job system)
include tidy

theorem inStage (action : System.Action n) : system.InStage action := by
  cases action with
  | readStage position =>
    rintro ⟨⟨kind, number⟩, stage⟩ found rfl reducing
    -- in the reduce stage all map tasks are done, and one with a report on its way is not
    have member : Execution.finished .map number ∈ system.executions :=
      List.mem_append_right _ (List.mem_map_of_mem (List.mem_of_getElem? found))
    exact tidy.pool.undone _ member (tidy.mapped (by simp [reducing]) number (tidy.pool.has _ member))
  | _ => trivial

theorem exit (id : Fin n) {worker : Worker} (nothing : worker.executions = []) :
    Pool job system.files system.coordinator.TaskDone (system.setWorker id worker).executions := by
  obtain ⟨rest, before, after⟩ := system.executions_setWorker id
  have left := (tidy.pool.perm before).sublist (List.sublist_append_right _ _)
  have same := after worker
  rw [nothing, List.nil_append] at same
  exact left.perm same.symm

theorem request {id : Fin n} {coordinator : Coordinator} {reply : Taskinfo}
    {now : Nat → Nat} {time : Nat} (exclusive : system.Exclusive (.request id now time))
    (idle : system.worker id = .idle) (replied : system.coordinator.assignTask now time = (coordinator, reply)) :
    Pool job system.files system.coordinator.TaskDone (system.setWorker id (System.receive job reply)).executions := by
  obtain ⟨_, assigned⟩ := assignTask_spec tidy.counted.tables replied
  cases received : System.receive job reply with
  | idle => exact tidy.exit id rfl
  | exited => exact tidy.exit id rfl
  | executing execution =>
    cases assigned with
    | refused nothing => exact absurd received (receive_refused nothing execution)
    | @handed task has stage _ free =>
      have begun := receive_taskinfo received
      obtain ⟨underway, same⟩ : Underway job system.files execution ∧ _ := underway_begin has begun
      obtain ⟨rest, before, after⟩ := system.executions_setWorker id
      rw [idle] at before
      refine ((tidy.pool.perm before).join (same ▸ has) underway (temp_begin begun) ?_ ?_ ?_).perm
        (after (.executing execution)).symm
      · -- here the condition on the run is used
        intro other member own
        refine exclusive task (by simp [replied, task_taskinfo]) ⟨other, before.mem_iff.mpr member, own.trans same⟩
      · rw [same]
        rcases free with isIdle | late
        · simp [Coordinator.TaskDone, isIdle]
        · simp [Coordinator.TaskDone, late.working]
      · rw [same]
        intro reducing
        exact tidy.mapped (by simp [stage, reducing, Kind.stage])

theorem advance {id : Fin n} {execution continued : Execution} {files : Files}
    (executing : system.worker id = .executing execution)
    (moved : execution.step job system.files = some (continued, files)) :
    Pool job files system.coordinator.TaskDone (system.setWorker id (.executing continued)).executions := by
  obtain ⟨rest, before, after⟩ := system.executions_setWorker id
  rw [executing] at before
  exact ((tidy.pool.perm before).advance moved).perm (after (.executing continued)).symm

theorem report {id : Fin n} {kind : Kind} {number : Nat}
    (executing : system.worker id = .executing (.finished kind number)) {executed : List (Kind × Nat)} :
    Pool job system.files system.coordinator.TaskDone ({ system.setWorker id .idle with
      reports := system.reports ++ [{ task := (kind, number) }], executed } : System n).executions := by
  obtain ⟨rest, before, after⟩ := system.executions_setWorker id
  rw [executing] at before
  -- the execution goes from the worker to its report
  have moved : ({ system.setWorker id .idle with
      reports := system.reports ++ [{ task := (kind, number) }], executed } : System n).executions =
      (system.setWorker id .idle).executions ++ [.finished kind number] := by
    simp [System.executions, System.setWorker, Report.execution]
  rw [moved]
  exact tidy.pool.perm (before.trans (List.perm_append_comm.trans ((after .idle).symm.append_right _)))

theorem dropReport (position : Nat) :
    Pool job system.files system.coordinator.TaskDone
      { system with reports := system.reports.eraseIdx position }.executions :=
  tidy.pool.sublist (((List.eraseIdx_sublist _ _).map _).append_left _)

theorem check {position : Nat} {report : Report} {stage : Stage} {coordinator : Coordinator}
    (found : system.reports[position]? = some report) (read : report.stage = some stage)
    (checked : system.coordinator.checkTask stage report.task.2 = some coordinator) :
    Pool job system.files coordinator.TaskDone
      { system with reports := system.reports.eraseIdx position }.executions := by
  obtain ⟨_, _, statuses⟩ := checkTask_spec tidy.counted.tables checked
  have pool := tidy.pool.perm (System.executions_eraseIdx found)
  refine pool.leave (fun _ => statusOf_checkTask_of_done tidy.counted.tables checked) fun task isDone => ?_
  rcases statuses task with same | ⟨own, here, _⟩
  · exact .inl (same.symm.trans isDone)
  · have itself : task = report.task := Prod.ext (tidy.counted.kind_eq found (here ▸ read)) own
    cases pool.underway _ (.head _) with
    | finished complete => exact .inr ⟨itself, itself ▸ complete⟩

theorem step {action : System.Action n} (exclusive : system.Exclusive action)
    (taken : System.Taken job system action next) : Tidy job next := by
  have counted := tidy.counted.step (tidy.inStage action) taken
  cases taken with
  | request idle replied =>
    obtain ⟨_, assigned⟩ := assignTask_spec tidy.counted.tables replied
    refine ⟨counted, fun after mapTask inside => assigned.mapped tidy.mapped after inside, ?_⟩
    have same : system.coordinator.TaskDone = Coordinator.TaskDone _ :=
      funext fun task => propext (assigned.done_iff task).symm
    exact same ▸ tidy.request exclusive idle replied
  | fail => exact ⟨counted, tidy.mapped, tidy.exit _ rfl⟩
  | advance executing moved => exact ⟨counted, tidy.mapped, tidy.advance executing moved⟩
  | report executing => exact ⟨counted, tidy.mapped, tidy.report executing⟩
  | crash => exact ⟨counted, tidy.mapped, tidy.exit _ rfl⟩
  | readStage found =>
    refine ⟨counted, tidy.mapped, ?_⟩
    rw [System.executions_readStage found]
    exact tidy.pool
  | outOfRange => exact ⟨counted, tidy.mapped, tidy.dropReport _⟩
  | check found read checked =>
    obtain ⟨_, sameStage, _⟩ := checkTask_spec tidy.counted.tables checked
    refine ⟨counted, fun after mapTask inside => ?_, tidy.check found read checked⟩
    exact statusOf_checkTask_of_done tidy.counted.tables checked (tidy.mapped (sameStage ▸ after) mapTask inside)
  | lose => exact ⟨counted, tidy.mapped, tidy.dropReport _⟩

end

theorem initial (roundTrips : job.RoundTrips) (files : Files) : Tidy job (System.initial job files : System n) := by
  have counted : Counted job (System.initial job files : System n) := .initial job files
  have nothing : (System.initial job files : System n).executions = [] := by
    simp [System.executions, System.initial, Worker.executions]
  refine ⟨counted, fun after => absurd rfl after, ?_⟩
  rw [nothing]
  refine ⟨roundTrips, by simp, by simp, by simp, by simp, by simp, fun task isDone => ?_⟩
  have executed := counted.done task isDone
  simp [System.initial] at executed

end Tidy

/-! ## The files of a task that is done -/

/-- A task stays done, and its files keep their inodes. -/
structure Stays (task : Kind × Nat) (system next : System n) : Prop where
  done : next.coordinator.TaskDone task
  directory : ∀ name, FileName.task name = some task → next.files.directory name = system.files.directory name

theorem Stays.trans {task : Kind × Nat} {system middle next : System n} (first : Stays task system middle)
    (second : Stays task middle next) : Stays task system next :=
  ⟨second.done, fun name result => (second.directory name result).trans (first.directory name result)⟩

namespace Tidy

variable {system next : System n} {task : Kind × Nat}

theorem stays (tidy : Tidy job system) {action : System.Action n} (taken : System.Taken job system action next)
    (isDone : system.coordinator.TaskDone task) : Stays task system next := by
  cases taken with
  | request _ replied =>
    obtain ⟨_, assigned⟩ := assignTask_spec tidy.counted.tables replied
    exact ⟨(assigned.done_iff task).mpr isDone, fun _ _ => rfl⟩
  | advance executing moved =>
    refine ⟨isDone, fun name result => ?_⟩
    obtain ⟨rest, before, _⟩ := system.executions_setWorker _
    rw [executing] at before
    exact (tidy.pool.perm before).directory_advance moved result isDone
  | check _ _ checked =>
    exact ⟨statusOf_checkTask_of_done tidy.counted.tables checked isDone, fun _ _ => rfl⟩
  | _ => exact ⟨isDone, fun _ _ => rfl⟩

theorem run (tidy : Tidy job system) {actions : List (System.Action n)}
    (ran : System.run job system actions = some next)
    (exclusive : Transitions.Throughout (System.step job) System.Exclusive system actions) :
    Tidy job next := Transitions.run_invariant
  (fun _ _ _ tidy exclusive stepped => tidy.step exclusive (System.taken_of_step stepped)) tidy exclusive ran

theorem run_stays (tidy : Tidy job system) {actions : List (System.Action n)}
    (ran : System.run job system actions = some next)
    (exclusive : Transitions.Throughout (System.step job) System.Exclusive system actions)
    (isDone : system.coordinator.TaskDone task) : Stays task system next := by
  have keeps : ∀ state action next, Tidy job state ∧ Stays task system state → state.Exclusive action →
      System.step job state action = some next → Tidy job next ∧ Stays task system next := by
    rintro state action next ⟨tidy, stays⟩ exclusive stepped
    have taken := System.taken_of_step stepped
    exact ⟨tidy.step exclusive taken, stays.trans (tidy.stays taken stays.done)⟩
  exact (Transitions.run_invariant keeps ⟨tidy, isDone, fun _ _ => rfl⟩ exclusive ran).2

end Tidy

/-- Whoever has opened the file reads these bytes later. -/
def OpensTo (files later : Files) (name : FileName) (bytes : GoString) : Prop :=
  ∃ inode, files.directory name = some inode ∧ later.file inode = bytes

/-- If no task is handed out while it is outstanding, the files of every task stay complete from the moment it is
done, for readers that have opened them at any time since. -/
theorem finished_files_stay_complete (job : Job) (roundTrips : job.RoundTrips) (files : Files)
    {actions more : List (System.Action n)} {system later : System n}
    (ran : System.run job (.initial job files) actions = some system)
    (ranOn : System.run job system more = some later)
    (exclusive : Transitions.Throughout (System.step job) System.Exclusive (.initial job files) actions)
    (exclusiveOn : Transitions.Throughout (System.step job) System.Exclusive system more) :
    (∀ mapTask reduceTask, system.coordinator.statusOf (.map, mapTask) = some .done → reduceTask < job.nReduce →
      OpensTo system.files later.files (.intermediate mapTask reduceTask)
        (job.encoded (job.bucket mapTask reduceTask))) ∧
    ∀ reduceTask, system.coordinator.statusOf (.reduce, reduceTask) = some .done →
      OpensTo system.files later.files (.out reduceTask) (job.lines reduceTask).flatten := by
  have tidy : Tidy job system := (Tidy.initial roundTrips files).run ran exclusive
  have tidyLater : Tidy job later := tidy.run ranOn exclusiveOn
  have opens : ∀ task name bytes, system.coordinator.TaskDone task → FileName.task name = some task →
      (job.Complete later.files task → later.files.read name = some bytes) →
      OpensTo system.files later.files name bytes := by
    intro task name bytes isDone result complete
    have stays := tidy.run_stays ranOn exclusiveOn isDone
    -- the name leads to the same inode at both times, and at the later one the file is complete
    obtain ⟨inode, named, same⟩ := Option.map_eq_some_iff.mp (complete (tidyLater.pool.complete task stays.done))
    exact ⟨inode, (stays.directory name result).symm.trans named, same⟩
  refine ⟨fun mapTask reduceTask isDone inside => ?_, fun reduceTask isDone => ?_⟩
  · exact opens (.map, mapTask) _ _ isDone rfl fun complete => complete reduceTask inside
  · exact opens (.reduce, reduceTask) _ _ isDone rfl id

/-! ## A second execution -/

instance (system : System n) (task : Kind × Nat) : Decidable (system.Outstanding task) :=
  inferInstanceAs (Decidable (∃ execution ∈ system.executions, execution.task = task))

instance (system : System n) : (action : System.Action n) → Decidable (system.Exclusive action)
  | .request _ now time => inferInstanceAs (Decidable (∀ task ∈ (system.coordinator.assignTask now time).2.task,
    ¬ system.Outstanding task))
  | .advance _ | .report _ | .crash _ | .readStage _ | .check _ | .lose _ => .isTrue trivial

/-- When the first execution of the map task is reported, worker 1 has not yet renamed its temporary file. -/
def secondMap : List (System.Action 4) :=
  [[asks worker0 0, asks worker1 elevenSeconds], finishes worker0 6, [.advance worker1, .advance worker1]].flatten

/-- When the first execution of the reduce task is reported, worker 1 has read its input. -/
def secondReduce : List (System.Action 4) :=
  [[asks worker0 0], finishes worker0 6, [asks worker0 0, asks worker0 0, asks worker1 elevenSeconds],
    List.replicate 5 (.advance worker1), finishes worker0 9, [.advance worker1]].flatten

theorem finished_files_destroyed :
    (∃ system, System.run smallJob (.initial smallJob .empty) secondMap = some system ∧
      system.coordinator.statusOf (.map, 0) = some .done ∧ system.files.read (.intermediate 0 0) = some []) ∧
    (∃ system, System.run smallJob (.initial smallJob .empty) secondReduce = some system ∧
      system.coordinator.statusOf (.reduce, 0) = some .done ∧ system.files.read (.out 0) = some []) ∧
    smallJob.encoded (smallJob.bucket 0 0) ≠ [] ∧ (smallJob.lines 0).flatten ≠ [] := by
  have mapped : (System.run smallJob (.initial smallJob .empty) secondMap).map (fun system =>
      (system.coordinator.statusOf (.map, 0), system.files.read (.intermediate 0 0))) =
      some (some .done, some []) := by decide +kernel
  have reduced : (System.run smallJob (.initial smallJob .empty) secondReduce).map (fun system =>
      (system.coordinator.statusOf (.reduce, 0), system.files.read (.out 0))) =
      some (some .done, some []) := by decide +kernel
  refine ⟨?_, ?_, by decide +kernel, by decide +kernel⟩
  · obtain ⟨system, ran, outcome⟩ := Option.map_eq_some_iff.mp mapped
    exact ⟨system, ran, Prod.ext_iff.mp outcome⟩
  · obtain ⟨system, ran, outcome⟩ := Option.map_eq_some_iff.mp reduced
    exact ⟨system, ran, Prod.ext_iff.mp outcome⟩

/-- Worker 0 crashes when it has written one record, and worker 1 executes the map task again. -/
def crashed : List (System.Action 4) :=
  [asks worker0 0 :: List.replicate 3 (.advance worker0), [.crash worker0, asks worker1 elevenSeconds],
    finishes worker1 6].flatten

def reducedAfterCrash : List (System.Action 4) :=
  [[asks worker1 elevenSeconds, asks worker1 elevenSeconds], finishes worker1 9].flatten

/-- The files are those of two records, `{"Key":"a","Value":"1"}` and the same with `b`. -/
theorem finished_files_stay_complete_crashed :
    ∃ system later, System.run smallJob (.initial smallJob .empty) crashed = some system ∧
      System.run smallJob system reducedAfterCrash = some later ∧
      OpensTo system.files later.files (.intermediate 0 0)
        [123, 34, 75, 101, 121, 34, 58, 34, 97, 34, 44, 34, 86, 97, 108, 117, 101, 34, 58, 34, 49, 34, 125, 10,
          123, 34, 75, 101, 121, 34, 58, 34, 98, 34, 44, 34, 86, 97, 108, 117, 101, 34, 58, 34, 49, 34, 125, 10] ∧
      later.files.read (.out 0) = some [97, 32, 49, 10, 98, 32, 49, 10] := by
  have first : (System.run smallJob (.initial smallJob .empty) crashed).map
      (fun system => system.coordinator.statusOf (.map, 0)) = some (some .done) := by decide +kernel
  have second : ∀ system ∈ System.run smallJob (.initial smallJob .empty) crashed,
      (System.run smallJob system reducedAfterCrash).map (fun later => later.files.read (.out 0)) =
        some (some [97, 32, 49, 10, 98, 32, 49, 10]) := by decide +kernel
  have exclusive : Transitions.Throughout (System.step smallJob) System.Exclusive (.initial smallJob .empty)
      crashed := by
    decide +kernel
  have exclusiveOn : ∀ system ∈ System.run smallJob (.initial smallJob .empty) crashed,
      Transitions.Throughout (System.step smallJob) System.Exclusive system reducedAfterCrash := by decide +kernel
  obtain ⟨system, ran, done⟩ := Option.map_eq_some_iff.mp first
  obtain ⟨later, ranOn, lines⟩ := Option.map_eq_some_iff.mp (second system ran)
  obtain ⟨inode, named, bytes⟩ := (finished_files_stay_complete smallJob (roundTrips_json rfl (by decide +kernel))
    .empty ran ranOn exclusive (exclusiveOn system ran)).1 0 0 done (by decide)
  exact ⟨system, later, ran, ranOn, ⟨inode, named, bytes.trans (by decide +kernel)⟩, lines⟩

end ShardedKV.MapReduce
