import ShardedKV.MapReduce.Execution

/-!
# What the handlers do to the tables

Each handler is described by the status it leaves every task with.
-/

namespace ShardedKV.MapReduce

variable {job : Job} {c c' : Coordinator} {now : Nat → Nat} {time : Nat}

namespace Coordinator

def statusOf (c : Coordinator) (task : Kind × Nat) : Option Status := (c.table task.1)[task.2]?.map Task.status

/-- `timeOutTask` takes the task back. -/
def TimesOut (c : Coordinator) (now : Nat → Nat) (task : Kind × Nat) : Prop :=
  c.stage = task.1.stage ∧ ∃ found ∈ (c.table task.1)[task.2]?,
    found.status = .working ∧ now task.2 - found.startTime > 10000000000

end Coordinator

/-- What the coordinator never changes of a task. -/
def Task.label (task : Task) : Nat × GoString := (task.taskId, task.fileName)

def Job.labels (job : Job) : Kind → List (Nat × GoString)
  | .map => job.files.mapIdx Prod.mk
  | .reduce => (List.range job.nReduce).map fun number => (number, [])

/-- The tables have the tasks of the job. -/
structure Tables (job : Job) (c : Coordinator) : Prop where
  nMap : c.nMap = job.nMap
  nReduce : c.nReduce = job.nReduce
  labels : ∀ kind, (c.table kind).map Task.label = job.labels kind

/-- What `assignTask` does. -/
inductive Assigned (job : Job) (c : Coordinator) (now : Nat → Nat) (time : Nat) : Coordinator → Taskinfo → Prop where
  | handed {c' : Coordinator} {task : Kind × Nat} (has : job.Has task) (stage : c.stage = task.1.stage)
      (sameStage : c'.stage = c.stage) (free : c.statusOf task = some .idle ∨ c.TimesOut now task)
      (working : c'.statusOf task = some .working)
      (others : ∀ other, other ≠ task → c'.statusOf other = c.statusOf other ∨
        c.TimesOut now other ∧ c'.statusOf other = some .idle) :
      Assigned job c now time c' (job.taskinfo time task)
  | refused {c' : Coordinator} {reply : Taskinfo} (nothing : reply.rpcType = .fail ∨ reply.rpcType = .allDone)
      (stage : c'.stage = c.stage ∨ ∃ kind : Kind, c.stage = kind.stage ∧ c'.stage = kind.nextStage ∧
        ∀ number < job.count kind, c.statusOf (kind, number) = some .done)
      (others : ∀ other, c'.statusOf other = c.statusOf other ∨
        c.TimesOut now other ∧ c'.statusOf other = some .idle) :
      Assigned job c now time c' reply

/-! ## The tables of the job -/

theorem Tables.makeCoordinator (job : Job) : Tables job (.makeCoordinator job.files job.nReduce) where
  nMap := rfl
  nReduce := rfl
  labels := by
    intro kind
    cases kind with
    | map => exact List.ext_getElem? fun number => by simp [Job.labels, Task.label, Coordinator.table,
        Coordinator.makeCoordinator, List.getElem?_mapIdx, Function.comp_def]
    | reduce => exact List.map_map

namespace Tables

theorem length (tables : Tables job c) (kind : Kind) : (c.table kind).length = job.count kind := by
  have labels := congrArg List.length (tables.labels kind)
  cases kind <;> simpa [Job.labels, Job.count, Job.nMap] using labels

theorem label_eq (tables : Tables job c) {kind : Kind} {number : Nat} {task : Task}
    (found : (c.table kind)[number]? = some task) :
    task.taskId = number ∧ task.fileName = (job.taskinfo time (kind, number)).filename := by
  have label : (job.labels kind)[number]? = some task.label := by
    rw [← tables.labels kind, List.getElem?_map, found, Option.map_some]
  cases kind with
  | map =>
    simp only [Job.labels, List.getElem?_mapIdx, Option.map_eq_some_iff, Task.label, Prod.mk.injEq] at label
    obtain ⟨filename, named, rfl, rfl⟩ := label
    simp [Job.taskinfo, named]
  | reduce =>
    simp only [Job.labels, List.getElem?_map, Option.map_eq_some_iff, Task.label, Prod.mk.injEq] at label
    obtain ⟨other, ranged, same, named⟩ := label
    obtain ⟨_, here⟩ := List.getElem?_eq_some_iff.mp ranged
    rw [List.getElem_range] at here
    exact ⟨by omega, by simp [Job.taskinfo, ← named]⟩

theorem setTable (tables : Tables job c) {kind : Kind} {tasks : List Task}
    (labels : tasks.map Task.label = (c.table kind).map Task.label) : Tables job (c.setTable tasks kind) := by
  cases kind with
  | map =>
    refine ⟨tables.nMap, tables.nReduce, fun other => ?_⟩
    cases other with
    | map => exact labels.trans (tables.labels .map)
    | reduce => exact tables.labels .reduce
  | reduce =>
    refine ⟨tables.nMap, tables.nReduce, fun other => ?_⟩
    cases other with
    | map => exact tables.labels .map
    | reduce => exact labels.trans (tables.labels .reduce)

end Tables

theorem labels_timeOutTask (now : Nat → Nat) (tasks : List Task) :
    (timeOutTask now tasks).map Task.label = tasks.map Task.label := by
  refine List.ext_getElem? fun number => ?_
  simp only [timeOutTask, List.getElem?_map, List.getElem?_mapIdx, Option.map_map]
  congr 1
  funext task
  simp only [Function.comp_apply]
  split <;> rfl

theorem map_set_of_eq {α β : Type} {label : α → β} {list : List α} {number : Nat} {element element' : α}
    (found : list[number]? = some element) (same : label element' = label element) :
    (list.set number element').map label = list.map label := by
  refine List.ext_getElem? fun other => ?_
  rw [List.getElem?_map, List.getElem?_map]
  by_cases here : number = other
  · subst here
    rw [List.getElem?_set_self (List.getElem?_eq_some_iff.mp found).1, found, Option.map_some, Option.map_some, same]
  · rw [List.getElem?_set_ne here]

/-! ## The statuses -/

namespace Coordinator

theorem statusOf_setTable (c : Coordinator) (tasks : List Task) (kind : Kind) (task : Kind × Nat) :
    (c.setTable tasks kind).statusOf task =
      if task.1 = kind then tasks[task.2]?.map Task.status else c.statusOf task := by
  obtain ⟨other, number⟩ := task
  cases kind <;> cases other <;> rfl

theorem statusOf_set (c : Coordinator) {kind : Kind} {number : Nat} {task : Task}
    (inside : number < (c.table kind).length) (other : Kind × Nat) :
    (c.setTable ((c.table kind).set number task) kind).statusOf other =
      if other = (kind, number) then some task.status else c.statusOf other := by
  obtain ⟨kind', number'⟩ := other
  rw [statusOf_setTable]
  by_cases same : kind' = kind
  · subst same
    by_cases here : number' = number
    · subst here
      simp [List.getElem?_set_self inside]
    · simp [statusOf, here, List.getElem?_set_ne (Ne.symm here)]
  · simp [same]

theorem stage_setTable (c : Coordinator) (tasks : List Task) (kind : Kind) :
    (c.setTable tasks kind).stage = c.stage := by
  cases kind <;> rfl

theorem statusOf_timeOut {kind : Kind} (stage : c.stage = kind.stage) (task : Kind × Nat) :
    (c.setTable (timeOutTask now (c.table kind)) kind).statusOf task = c.statusOf task ∨
      c.TimesOut now task ∧ (c.setTable (timeOutTask now (c.table kind)) kind).statusOf task = some .idle := by
  rw [statusOf_setTable]
  split
  · rename_i own
    subst own
    simp only [statusOf, timeOutTask, List.getElem?_mapIdx]
    cases found : (c.table task.1)[task.2]? with
    | none => exact .inl rfl
    | some entry =>
      by_cases late : entry.status = .working ∧ now task.2 - entry.startTime > 10000000000
      · exact .inr ⟨⟨stage, entry, found, late⟩, by simp [late]⟩
      · exact .inl (by simp [late])
  · exact .inl rfl

end Coordinator

/-! ## The handlers -/

theorem findIdleTask_eq_some {tasks : List Task} {number : Nat} (found : findIdleTask tasks = some number) :
    ∃ task, tasks[number]? = some task ∧ task.status = .idle := by
  obtain ⟨inside, idle, _⟩ := List.findIdx?_eq_some_iff_getElem.mp found
  exact ⟨_, List.getElem?_eq_getElem inside, by simpa using idle⟩

variable (tables : Tables job c)
include tables

theorem statusOf_of_complete {kind : Kind} (complete : finduncompletedTask (c.table kind) = true) {number : Nat}
    (inside : number < job.count kind) : c.statusOf (kind, number) = some .done := by
  rw [← tables.length kind] at inside
  have done := List.all_eq_true.mp complete _ (List.getElem_mem inside)
  rw [decide_eq_true_eq] at done
  simp [Coordinator.statusOf, List.getElem?_eq_getElem inside, done]

theorem taskinfo_eq {kind : Kind} {number : Nat} {task : Task} (found : (c.table kind)[number]? = some task) :
    { rpcType := kind.rpcType, taskId := task.taskId, filename := task.fileName, nMap := c.nMap, nReduce := c.nReduce,
      startTime := time : Taskinfo } = job.taskinfo time (kind, number) := by
  obtain ⟨sameId, sameName⟩ : _ ∧ task.fileName = (job.taskinfo time (kind, number)).filename := tables.label_eq found
  rw [sameId, sameName, tables.nMap, tables.nReduce]
  cases kind <;> rfl

/-- `assign` in the stage of its kind. -/
theorem assign_spec {kind : Kind} (stage : c.stage = kind.stage) {reply : Taskinfo}
    (assigned : c.assign kind now time = (c', reply)) : Tables job c' ∧ Assigned job c now time c' reply := by
  have kept := tables.setTable (labels_timeOutTask now (c.table kind))
  have statuses : ∀ task, _ ∨ c.TimesOut now task ∧ _ := c.statusOf_timeOut stage
  have sameStage := c.stage_setTable (timeOutTask now (c.table kind)) kind
  simp only [Coordinator.assign] at assigned
  generalize c.setTable (timeOutTask now (c.table kind)) kind = timed at kept statuses sameStage assigned
  split at assigned
  · -- everything is done and nothing has timed out
    rename_i complete
    cases assigned
    refine ⟨⟨kept.nMap, kept.nReduce, fun other => ?_⟩, .refused (.inl rfl) (.inr ⟨kind, stage, rfl, ?_⟩) statuses⟩
    · cases other with
      | map => exact kept.labels .map
      | reduce => exact kept.labels .reduce
    · intro number inside
      have done := statusOf_of_complete kept complete inside
      rcases statuses (kind, number) with same | ⟨_, idle⟩
      · exact same.symm.trans done
      · simp [idle] at done
  cases idle : findIdleTask (timed.table kind) with
  | none =>
    -- every task that is not done is being worked on
    simp only [idle, Prod.mk.injEq] at assigned
    obtain ⟨rfl, rfl⟩ := assigned
    exact ⟨kept, .refused (.inl rfl) (.inl sameStage) statuses⟩
  | some number =>
    obtain ⟨task, found, free⟩ := findIdleTask_eq_some idle
    have inside : number < (timed.table kind).length := (List.getElem?_eq_some_iff.mp found).1
    simp only [idle, found, Prod.mk.injEq] at assigned
    obtain ⟨rfl, rfl⟩ := assigned
    have after : ∀ other, _ = if other = (kind, number) then some (task.start time).status else timed.statusOf other :=
      timed.statusOf_set inside
    rw [taskinfo_eq kept found]
    refine ⟨kept.setTable (map_set_of_eq found rfl), .handed ?_ stage ?_ ?_ ?_ ?_⟩
    · rwa [kept.length] at inside
    · exact (timed.stage_setTable _ _).trans sameStage
    · -- it may have been taken back just now
      have here : timed.statusOf (kind, number) = some .idle := by simp [Coordinator.statusOf, found, free]
      rcases statuses (kind, number) with same | ⟨late, _⟩
      · exact .inl (same.symm.trans here)
      · exact .inr late
    · rw [after, if_pos rfl]
      rfl
    · intro other apart
      rw [after, if_neg apart]
      exact statuses other

theorem assignTask_spec {reply : Taskinfo}
    (assigned : c.assignTask now time = (c', reply)) : Tables job c' ∧ Assigned job c now time c' reply := by
  cases stage : c.stage with
  | mapping =>
    simp only [Coordinator.assignTask, stage] at assigned
    have mapping : c.stage = Kind.map.stage := stage
    exact assign_spec tables mapping assigned
  | reducing =>
    simp only [Coordinator.assignTask, stage] at assigned
    have reducing : c.stage = Kind.reduce.stage := stage
    exact assign_spec tables reducing assigned
  | finished =>
    simp only [Coordinator.assignTask, stage, Prod.mk.injEq] at assigned
    obtain ⟨rfl, rfl⟩ := assigned
    exact ⟨tables, .refused (.inr rfl) (.inl rfl) fun _ => .inl rfl⟩
  | assignMap =>
    simp only [Coordinator.assignTask, stage, Prod.mk.injEq] at assigned
    obtain ⟨rfl, rfl⟩ := assigned
    exact ⟨tables, .refused (.inl rfl) (.inl rfl) fun _ => .inl rfl⟩

/-- `checkTask` finishes at most the task of its number in the table of the stage it has read. -/
theorem checkTask_spec {stage : Stage} {number : Nat} (checked : c.checkTask stage number = some c') :
    Tables job c' ∧ c'.stage = c.stage ∧ ∀ task, c'.statusOf task = c.statusOf task ∨
      task.2 = number ∧ stage = task.1.stage ∧ c'.statusOf task = some .done := by
  have marked : ∀ kind tasks, stage = Kind.stage kind → markDone (c.table kind) number = some tasks →
      Tables job (c.setTable tasks kind) ∧ (c.setTable tasks kind).stage = c.stage ∧
        ∀ task, (c.setTable tasks kind).statusOf task = c.statusOf task ∨
          task.2 = number ∧ stage = task.1.stage ∧ (c.setTable tasks kind).statusOf task = some .done := by
    intro kind tasks same marked
    cases found : (c.table kind)[number]? with
    | none => simp [markDone, found] at marked
    | some entry =>
      simp only [markDone, found, Option.some.injEq] at marked
      subst marked
      split
      · have inside := (List.getElem?_eq_some_iff.mp found).1
        refine ⟨tables.setTable (map_set_of_eq found rfl), c.stage_setTable _ _, fun task => ?_⟩
        rw [c.statusOf_set inside]
        by_cases own : task = (kind, number)
        · subst own
          exact .inr ⟨rfl, same, by simp⟩
        · exact .inl (if_neg own)
      · -- the task was taken back or is done already
        refine ⟨tables.setTable rfl, c.stage_setTable _ _, fun task => .inl ?_⟩
        rw [c.statusOf_setTable]
        split
        · rename_i own
          subst own
          rfl
        · rfl
  cases stage with
  | mapping =>
    obtain ⟨tasks, done, rfl⟩ := Option.map_eq_some_iff.mp checked
    exact marked .map tasks rfl done
  | reducing =>
    obtain ⟨tasks, done, rfl⟩ := Option.map_eq_some_iff.mp checked
    exact marked .reduce tasks rfl done
  | finished =>
    cases checked
    exact ⟨tables, rfl, fun _ => .inl rfl⟩
  | assignMap =>
    cases checked
    exact ⟨tables, rfl, fun _ => .inl rfl⟩

theorem statusOf_checkTask_of_done {stage : Stage} {number : Nat}
    (checked : c.checkTask stage number = some c') {task : Kind × Nat} (done : c.statusOf task = some .done) :
    c'.statusOf task = some .done := by
  obtain ⟨_, _, statuses⟩ := checkTask_spec tables checked
  rcases statuses task with same | ⟨_, _, becomes⟩
  · exact same.trans done
  · exact becomes

theorem checkTask_isSome {stage : Stage} {number : Nat}
    (has : ∀ kind, stage = Kind.stage kind → job.Has (kind, number)) : (c.checkTask stage number).isSome := by
  have inRange : ∀ kind, stage = Kind.stage kind → (markDone (c.table kind) number).isSome := by
    intro kind same
    have inside : number < (c.table kind).length := tables.length kind ▸ has kind same
    simp [markDone, List.getElem?_eq_getElem inside]
  cases stage with
  | mapping => simpa [Coordinator.checkTask, Coordinator.table] using inRange .map rfl
  | reducing => simpa [Coordinator.checkTask, Coordinator.table] using inRange .reduce rfl
  | finished => rfl
  | assignMap => rfl

end ShardedKV.MapReduce
