import ShardedKV.MapReduce.DataPath
import ShardedKV.MapReduce.System

/-!
# What a report counts for

A report carries the number of its task only, and `checkTask` takes the kind from the stage it reads
when the report arrives.  As long as no report of a map task arrives in the reduce stage, a task is
done only after an execution of it was finished.
-/

namespace ShardedKV.MapReduce

variable {n : Nat} {job : Job}

/-! ## Parts of a step -/

theorem receive_taskinfo {task : Kind × Nat} {time : Nat} {execution : Execution}
    (received : System.receive job (job.taskinfo time task) = .executing execution) :
    Execution.begin job (job.taskinfo time task) task.1 = some execution := by
  obtain ⟨kind, number⟩ := task
  cases kind <;>
  · simp only [System.receive, Job.taskinfo] at received ⊢
    cases begun : Execution.begin job _ _ with
    | none => simp [begun] at received
    | some other => simpa [begun] using received

theorem receive_refused {reply : Taskinfo} (nothing : reply.rpcType = .fail ∨ reply.rpcType = .allDone)
    (execution : Execution) : System.receive job reply ≠ .executing execution := by
  rcases nothing with same | same <;> simp [System.receive, same]

theorem Coordinator.TimesOut.working {c : Coordinator} {now : Nat → Nat} {task : Kind × Nat}
    (late : c.TimesOut now task) : c.statusOf task = some .working := by
  obtain ⟨_, entry, found, working, _⟩ := late
  rw [Option.mem_def] at found
  simp [Coordinator.statusOf, found, working]

/-! ## Reports in their stage -/

/-- No report of a map task is looked at in the reduce stage. -/
def System.InStage (system : System n) : System.Action n → Prop
  | .readStage position => ∀ report ∈ system.reports[position]?, report.task.1 = .map →
    system.coordinator.stage ≠ .reducing
  | _ => True

/-- The task is one of the job, and it was not too early for it. -/
structure Started (job : Job) (c : Coordinator) (task : Kind × Nat) : Prop where
  has : job.Has task
  late : task.1 = .reduce → c.stage ≠ .mapping

structure Counted (job : Job) (system : System n) : Prop where
  tables : Tables job system.coordinator
  running : system.panicked = false
  executing : ∀ id execution, system.worker id = .executing execution →
    Started job system.coordinator execution.task
  started : ∀ report ∈ system.reports, Started job system.coordinator report.task
  reported : ∀ report ∈ system.reports, report.task ∈ system.executed
  read : ∀ report ∈ system.reports, ∀ kind : Kind, report.stage = some kind.stage → kind = report.task.1
  done : ∀ task, system.coordinator.statusOf task = some .done → task ∈ system.executed
  finished : system.coordinator.stage = .finished → ∀ number < job.nReduce,
    system.coordinator.statusOf (.reduce, number) = some .done

section Assigned

variable {c c' : Coordinator} {now : Nat → Nat} {time : Nat} {reply : Taskinfo}

theorem Assigned.notMapping (assigned : Assigned job c now time c' reply) (after : c.stage ≠ .mapping) :
    c'.stage ≠ .mapping := by
  cases assigned with
  | handed _ _ sameStage => rwa [sameStage]
  | refused _ stage _ =>
    rcases stage with same | ⟨kind, _, next, _⟩
    · rwa [same]
    · rw [next]
      cases kind <;> simp [Kind.nextStage]

theorem Assigned.done_iff (assigned : Assigned job c now time c' reply) (task : Kind × Nat) :
    c'.statusOf task = some .done ↔ c.statusOf task = some .done := by
  have kept : c'.statusOf task = c.statusOf task ∨ c.TimesOut now task ∧ c'.statusOf task = some .idle →
      (c'.statusOf task = some .done ↔ c.statusOf task = some .done) := by
    rintro (same | ⟨late, idle⟩)
    · rw [same]
    · simp [idle, late.working]
  cases assigned with
  | @handed task' _ _ _ free working others =>
    by_cases own : task = task'
    · subst own
      rcases free with idle | late
      · simp [working, idle]
      · simp [working, late.working]
    · exact kept (others task own)
  | refused _ _ others => exact kept (others task)

theorem Assigned.finished (assigned : Assigned job c now time c' reply)
    (before : c.stage = .finished → ∀ number < job.nReduce, c.statusOf (.reduce, number) = some .done)
    (after : c'.stage = .finished) {number : Nat} (inside : number < job.nReduce) :
    c'.statusOf (.reduce, number) = some .done := by
  rw [assigned.done_iff]
  cases assigned with
  | @handed task _ stage sameStage =>
    rw [sameStage, stage] at after
    cases kind : task.1 <;> simp [kind, Kind.stage] at after
  | refused _ stage _ =>
    rcases stage with same | ⟨kind, _, next, complete⟩
    · exact before (same ▸ after) number inside
    · rw [next] at after
      cases kind with
      | map => cases after
      | reduce => exact complete number inside

end Assigned

namespace Counted

variable {system next : System n}

section

variable (counted : Counted job system)
include counted

theorem setWorker (id : Fin n) {worker : Worker}
    (started : ∀ execution, worker = .executing execution → Started job system.coordinator execution.task) :
    Counted job (system.setWorker id worker) :=
  { counted with
    executing := (Function.forall_update_iff system.worker fun _ worker => ∀ execution,
      worker = .executing execution → Started job system.coordinator execution.task).mpr
      ⟨started, fun other _ => counted.executing other⟩ }

theorem request {coordinator : Coordinator} {reply : Taskinfo} {now : Nat → Nat}
    {time : Nat} (id : Fin n) (replied : system.coordinator.assignTask now time = (coordinator, reply)) :
    Counted job { system.setWorker id (System.receive job reply) with coordinator } := by
  obtain ⟨tables, assigned⟩ := assignTask_spec counted.tables replied
  have later : ∀ task, Started job system.coordinator task → Started job coordinator task :=
    fun task started => ⟨started.has, fun reducing => assigned.notMapping (started.late reducing)⟩
  have renewed : Counted job { system with coordinator } := by
    refine ⟨tables, counted.running, ?_, ?_, counted.reported, counted.read, ?_, ?_⟩
    · exact fun id execution executing => later _ (counted.executing id execution executing)
    · exact fun report member => later _ (counted.started report member)
    · exact fun task done => counted.done task ((assigned.done_iff task).mp done)
    · exact fun after number inside => assigned.finished counted.finished after inside
  apply renewed.setWorker
  -- the worker begins with the task it was handed, in the stage of its kind
  intro execution received
  cases assigned with
  | @handed task has stage sameStage =>
    obtain ⟨_, same⟩ : Underway job system.files execution ∧ _ := underway_begin has (receive_taskinfo received)
    rw [same]
    refine ⟨has, fun reducing => ?_⟩
    change coordinator.stage ≠ _
    simp [sameStage, stage, reducing, Kind.stage]
  | refused nothing => exact absurd received (receive_refused nothing execution)

theorem advance {id : Fin n} {execution continued : Execution} {files : Files}
    (executing : system.worker id = .executing execution)
    (moved : execution.step job system.files = some (continued, files)) :
    Counted job { system.setWorker id (.executing continued) with files } := by
  have renewed : Counted job { system with files } := { counted with }
  apply renewed.setWorker id
  rintro _ ⟨⟩
  rw [(Execution.step_spec moved).1]
  exact counted.executing id execution executing

theorem report {id : Fin n} {kind : Kind} {number : Nat}
    (executing : system.worker id = .executing (.finished kind number)) :
    Counted job { system.setWorker id .idle with
      reports := system.reports ++ [{ task := (kind, number) }]
      executed := system.executed ++ [(kind, number)] } := by
  have started := counted.executing id _ executing
  have idle : Counted job (system.setWorker id .idle) := counted.setWorker id (by simp)
  refine ⟨idle.tables, idle.running, idle.executing, ?_, ?_, ?_, ?_, idle.finished⟩
  · exact List.forall_mem_append.mpr ⟨idle.started, List.forall_mem_singleton.mpr started⟩
  · refine List.forall_mem_append.mpr ⟨fun report member => ?_, List.forall_mem_singleton.mpr (by simp)⟩
    exact List.mem_append_left _ (idle.reported report member)
  · exact List.forall_mem_append.mpr ⟨idle.read, List.forall_mem_singleton.mpr (by simp)⟩
  · exact fun task done => List.mem_append_left _ (idle.done task done)

theorem readStage {position : Nat} {report : Report}
    (inStage : system.InStage (.readStage position)) (found : system.reports[position]? = some report) :
    Counted job { system with
      reports := system.reports.set position { report with stage := some system.coordinator.stage } } := by
  have member := List.mem_of_getElem? found
  refine ⟨counted.tables, counted.running, counted.executing, ?_, ?_, ?_, counted.done, counted.finished⟩
  · intro other inSet
    rcases List.mem_or_eq_of_mem_set inSet with old | rfl
    · exact counted.started other old
    · exact counted.started report member
  · intro other inSet
    rcases List.mem_or_eq_of_mem_set inSet with old | rfl
    · exact counted.reported other old
    · exact counted.reported report member
  · intro other inSet kind stage
    rcases List.mem_or_eq_of_mem_set inSet with old | rfl
    · exact counted.read other old kind stage
    · -- reduce tasks are not handed out in the mapping stage, so only a map report can come in the wrong one
      have now : system.coordinator.stage = kind.stage := by simpa using stage
      cases own : report.task.1 with
      | map =>
        cases kind with
        | map => rfl
        | reduce => exact absurd now (inStage report found own)
      | reduce =>
        cases kind with
        | map => exact absurd now ((counted.started report member).late own)
        | reduce => rfl

theorem dropReport (position : Nat) :
    Counted job { system with reports := system.reports.eraseIdx position } where
  tables := counted.tables
  running := counted.running
  executing := counted.executing
  started := fun report member => counted.started report (List.mem_of_mem_eraseIdx member)
  reported := fun report member => counted.reported report (List.mem_of_mem_eraseIdx member)
  read := fun report member => counted.read report (List.mem_of_mem_eraseIdx member)
  done := counted.done
  finished := counted.finished

theorem kind_eq {position : Nat} {report : Report} {kind : Kind}
    (found : system.reports[position]? = some report) (read : report.stage = some kind.stage) :
    kind = report.task.1 :=
  counted.read report (List.mem_of_getElem? found) kind read

theorem inRange {position : Nat} {report : Report} {stage : Stage}
    (found : system.reports[position]? = some report) (read : report.stage = some stage) :
    (system.coordinator.checkTask stage report.task.2).isSome := by
  apply checkTask_isSome counted.tables
  rintro kind rfl
  rw [counted.kind_eq found read]
  exact (counted.started report (List.mem_of_getElem? found)).has

theorem check {position : Nat} {report : Report} {stage : Stage}
    {coordinator : Coordinator} (found : system.reports[position]? = some report) (read : report.stage = some stage)
    (checked : system.coordinator.checkTask stage report.task.2 = some coordinator) :
    Counted job { system with reports := system.reports.eraseIdx position, coordinator } := by
  obtain ⟨tables, sameStage, statuses⟩ := checkTask_spec counted.tables checked
  have dropped := counted.dropReport position
  refine ⟨tables, dropped.running, ?_, ?_, dropped.reported, dropped.read, ?_, ?_⟩
  · exact fun id execution executing => ⟨(dropped.executing id execution executing).has,
      sameStage ▸ (dropped.executing id execution executing).late⟩
  · exact fun other inRest => ⟨(dropped.started other inRest).has, sameStage ▸ (dropped.started other inRest).late⟩
  · intro task done
    rcases statuses task with same | ⟨own, here, _⟩
    · exact counted.done task (same ▸ done)
    · have itself : task = report.task := Prod.ext (counted.kind_eq found (here ▸ read)) own
      rw [itself]
      exact counted.reported report (List.mem_of_getElem? found)
  · intro finished number inside
    exact statusOf_checkTask_of_done counted.tables checked (counted.finished (sameStage ▸ finished) number inside)

theorem step {action : System.Action n} (inStage : system.InStage action)
    (taken : System.Taken job system action next) : Counted job next := by
  cases taken with
  | request _ replied => exact counted.request _ replied
  | fail => exact counted.setWorker _ (by simp)
  | advance executing moved => exact counted.advance executing moved
  | report executing => exact counted.report executing
  | crash => exact counted.setWorker _ (by simp)
  | readStage found => exact counted.readStage inStage found
  | outOfRange found read out =>
    have inRange := counted.inRange found read
    simp [out] at inRange
  | check found read checked => exact counted.check found read checked
  | lose => exact counted.dropReport _

end

theorem initial (job : Job) (files : Files) : Counted job (System.initial job files : System n) where
  tables := .makeCoordinator job
  running := rfl
  executing := by simp [System.initial]
  started := by simp [System.initial]
  reported := by simp [System.initial]
  read := by simp [System.initial]
  done := by
    rintro ⟨kind, number⟩ done
    cases kind <;> simp [System.initial, Coordinator.makeCoordinator, Coordinator.statusOf, Coordinator.table] at done
  finished := by simp [System.initial, Coordinator.makeCoordinator]

end Counted

/-- If every report is looked at in the stage of its task, then a task is done only after it was executed,
and no report is out of range. -/
theorem reports_count (job : Job) (files : Files) {actions : List (System.Action n)} {system : System n}
    (ran : System.run job (.initial job files) actions = some system)
    (inStage : Transitions.Throughout (System.step job) System.InStage (.initial job files) actions) :
    (∀ task, system.coordinator.statusOf task = some .done → task ∈ system.executed) ∧ system.panicked = false ∧
      (system.done = true → ∀ number < job.nReduce, (.reduce, number) ∈ system.executed) := by
  have counted : Counted job system := Transitions.run_invariant
    (fun state action next counted inStage stepped => counted.step inStage (System.taken_of_step stepped))
    (.initial job files) inStage ran
  refine ⟨counted.done, counted.running, fun finished number inside => counted.done _ ?_⟩
  exact counted.finished (by simpa [System.done, Coordinator.isDone] using finished) number inside

/-! ## A report in a later stage -/

/-- The clock of the coordinator when eleven seconds have passed. -/
def elevenSeconds : Nat := 11000000000

def worker0 : Fin 4 := 0

def worker1 : Fin 4 := 1

def smallJob : Job := { byteCount with files := [[97]], nReduce := 1 }

/-- A request at a time at which every clock reading is the same. -/
def asks (id : Fin n) (time : Nat) : System.Action n := .request id (fun _ => time) time

/-- A worker comes to the end of its execution, and the coordinator processes the report at once. -/
def finishes (id : Fin n) (steps : Nat) : List (System.Action n) :=
  List.replicate steps (.advance id) ++ [.report id, .readStage 0, .check 0]

/-- Worker 1 gets the map task when worker 0 has had it for eleven seconds, and reports it when worker 0 has begun
with the reduce task. -/
def lateReport : List (System.Action 4) :=
  [[asks 0 0, asks 1 elevenSeconds], finishes 0 6, [asks 2 elevenSeconds, asks 0 elevenSeconds], finishes 1 6,
    [asks 2 elevenSeconds]].flatten

/-- The second map task is reported late, and there is no second reduce task. -/
def lateOutOfRange : List (System.Action 4) :=
  [[asks 0 0, asks 1 0, asks 2 elevenSeconds, asks 3 elevenSeconds], finishes 2 6, finishes 3 6,
    [asks 2 elevenSeconds], finishes 1 6].flatten

theorem reports_miscount :
    (∃ system, System.run smallJob (.initial smallJob .empty) lateReport = some system ∧ system.done = true ∧
      system.coordinator.statusOf (.reduce, 0) = some .done ∧ (.reduce, 0) ∉ system.executed) ∧
    ∃ system, System.run { byteCount with nReduce := 1 } (.initial { byteCount with nReduce := 1 } .empty)
      lateOutOfRange = some system ∧ system.panicked = true := by
  have counted : (System.run smallJob (.initial smallJob .empty) lateReport).map (fun system =>
      (system.done, system.coordinator.statusOf (.reduce, 0), system.executed)) =
      some (true, some .done, [(.map, 0), (.map, 0)]) := by decide +kernel
  have panicked : (System.run { byteCount with nReduce := 1 } (.initial { byteCount with nReduce := 1 } .empty)
      lateOutOfRange).map System.panicked = some true := by decide +kernel
  obtain ⟨system, ran, outcome⟩ := Option.map_eq_some_iff.mp counted
  simp only [Prod.mk.injEq] at outcome
  obtain ⟨finished, done, executed⟩ := outcome
  exact ⟨⟨system, ran, finished, done, by simp [executed]⟩, Option.map_eq_some_iff.mp panicked⟩

/-- One worker executes both tasks. -/
def oneWorker : List (System.Action 4) :=
  [[asks 0 0], finishes 0 6, [asks 0 0, asks 0 0], finishes 0 9, [asks 0 0]].flatten

instance (system : System n) : (action : System.Action n) → Decidable (system.InStage action)
  | .readStage position => inferInstanceAs (Decidable (∀ report ∈ system.reports[position]?,
    report.task.1 = .map → system.coordinator.stage ≠ .reducing))
  | .request _ _ _ | .advance _ | .report _ | .crash _ | .check _ | .lose _ => .isTrue trivial

theorem reports_count_oneWorker :
    ∃ system, System.run smallJob (.initial smallJob .empty) oneWorker = some system ∧ system.done = true ∧
      (.reduce, 0) ∈ system.executed := by
  have finished : (System.run smallJob (.initial smallJob .empty) oneWorker).map System.done = some true := by
    decide +kernel
  obtain ⟨system, ran, done⟩ := Option.map_eq_some_iff.mp finished
  have inStage : Transitions.Throughout (System.step smallJob) System.InStage (.initial smallJob .empty) oneWorker := by
    decide +kernel
  exact ⟨system, ran, done, (reports_count smallJob .empty ran inStage).2.2 done 0 (by decide)⟩

end ShardedKV.MapReduce
