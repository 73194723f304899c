import ShardedKV.MapReduce.Tables
import ShardedKV.Transitions.Runs

/-!
# The coordinator and its workers

Any number of workers take the steps of their executions in any order, each may crash at any
point, and a report may be on its way for as long as it likes or be lost.  The clock readings of the
coordinator are arbitrary.
-/

namespace ShardedKV.MapReduce

/-- A report on its way.  Only the number of its task is sent. -/
structure Report where
  task : Kind × Nat
  /-- What `checkTask` has read of the stage before it takes the lock. -/
  stage : Option Stage := none
deriving DecidableEq, Repr

inductive Worker where
  | idle
  | executing (execution : Execution)
  | exited
deriving DecidableEq, Repr

structure System (n : Nat) where
  coordinator : Coordinator
  files : Files
  worker : Fin n → Worker := fun _ => .idle
  reports : List Report := []
  /-- The tasks whose execution some worker has finished. -/
  executed : List (Kind × Nat) := []
  /-- The process of the coordinator has panicked. -/
  panicked : Bool := false

namespace System

variable {n : Nat}

def initial (job : Job) (files : Files) : System n where
  coordinator := .makeCoordinator job.files job.nReduce
  files := files

def setWorker (system : System n) (id : Fin n) (worker : Worker) : System n :=
  { system with worker := Function.update system.worker id worker }

/-! ### The workers -/

/-- What the loop of `Worker` does with the reply to a request. -/
def receive (job : Job) (reply : Taskinfo) : Worker :=
  match reply.rpcType with
  | .map => ((Execution.begin job reply .map).map Worker.executing).getD .exited
  | .reduce => ((Execution.begin job reply .reduce).map Worker.executing).getD .exited
  | .allDone => .exited
  | _ => .idle

def request (job : Job) (system : System n) (id : Fin n) (now : Nat → Nat) (time : Nat) : Option (System n) :=
  if system.worker id ≠ .idle ∨ system.panicked then none
  else
    let (coordinator, reply) := system.coordinator.assignTask now time
    some { system.setWorker id (receive job reply) with coordinator }

/-- One step on the files. -/
def advance (job : Job) (system : System n) (id : Fin n) : Option (System n) :=
  match system.worker id with
  | .executing execution =>
    match execution.step job system.files with
    | none => some (system.setWorker id .exited)
    | some (next, files) => some { system.setWorker id (.executing next) with files }
  | _ => none

/-- The end of an execution and the call of `reportTask`. -/
def report (system : System n) (id : Fin n) : Option (System n) :=
  match system.worker id with
  | .executing (.finished kind number) =>
    some { system.setWorker id .idle with
      reports := system.reports ++ [{ task := (kind, number) }]
      executed := system.executed ++ [(kind, number)] }
  | _ => none

def crash (system : System n) (id : Fin n) : System n := system.setWorker id .exited

/-! ### The reports -/

/-- `checkTask` reads the stage. -/
def readStage (system : System n) (position : Nat) : Option (System n) :=
  match system.reports[position]? with
  | none => none
  | some report =>
    if report.stage.isSome ∨ system.panicked then none
    else some { system with
      reports := system.reports.set position { report with stage := some system.coordinator.stage } }

/-- The rest of `checkTask`. -/
def check (system : System n) (position : Nat) : Option (System n) :=
  match system.reports[position]? with
  | none => none
  | some report =>
    match report.stage with
    | none => none
    | some stage =>
      if system.panicked then none
      else
        let reports := system.reports.eraseIdx position
        match system.coordinator.checkTask stage report.task.2 with
        | none => some { system with reports, panicked := true }
        | some coordinator => some { system with reports, coordinator }

/-- A report that never arrives. -/
def lose (system : System n) (position : Nat) : Option (System n) :=
  match system.reports[position]? with
  | none => none
  | some report =>
    if report.stage.isSome then none
    else some { system with reports := system.reports.eraseIdx position }

inductive Action (n : Nat) where
  | request (id : Fin n) (now : Nat → Nat) (time : Nat)
  | advance (id : Fin n)
  | report (id : Fin n)
  | crash (id : Fin n)
  | readStage (position : Nat)
  | check (position : Nat)
  | lose (position : Nat)

def step (job : Job) (system : System n) : Action n → Option (System n)
  | .request id now time => system.request job id now time
  | .advance id => system.advance job id
  | .report id => system.report id
  | .crash id => some (system.crash id)
  | .readStage position => system.readStage position
  | .check position => system.check position
  | .lose position => system.lose position

def run (job : Job) (system : System n) (actions : List (Action n)) : Option (System n) :=
  Transitions.run (step job) system actions

/-- `Done()`. -/
def done (system : System n) : Bool := system.coordinator.isDone

/-! ### What a step does -/

/-- The steps one by one. -/
inductive Taken (job : Job) (system : System n) : Action n → System n → Prop where
  | request {id : Fin n} {now : Nat → Nat} {time : Nat} {coordinator : Coordinator} {reply : Taskinfo}
      (idle : system.worker id = .idle) (replied : system.coordinator.assignTask now time = (coordinator, reply)) :
      Taken job system (.request id now time) { system.setWorker id (receive job reply) with coordinator }
  | fail {id : Fin n} : Taken job system (.advance id) (system.setWorker id .exited)
  | advance {id : Fin n} {execution next : Execution} {files : Files}
      (executing : system.worker id = .executing execution)
      (moved : execution.step job system.files = some (next, files)) :
      Taken job system (.advance id) { system.setWorker id (.executing next) with files }
  | report {id : Fin n} {kind : Kind} {number : Nat}
      (executing : system.worker id = .executing (.finished kind number)) :
      Taken job system (.report id) { system.setWorker id .idle with
        reports := system.reports ++ [{ task := (kind, number) }]
        executed := system.executed ++ [(kind, number)] }
  | crash {id : Fin n} : Taken job system (.crash id) (system.setWorker id .exited)
  | readStage {position : Nat} {report : Report} (found : system.reports[position]? = some report) :
      Taken job system (.readStage position) { system with
        reports := system.reports.set position { report with stage := some system.coordinator.stage } }
  | outOfRange {position : Nat} {report : Report} {stage : Stage} (found : system.reports[position]? = some report)
      (read : report.stage = some stage) (out : system.coordinator.checkTask stage report.task.2 = none) :
      Taken job system (.check position) { system with
        reports := system.reports.eraseIdx position
        panicked := true }
  | check {position : Nat} {report : Report} {stage : Stage} {coordinator : Coordinator}
      (found : system.reports[position]? = some report) (read : report.stage = some stage)
      (checked : system.coordinator.checkTask stage report.task.2 = some coordinator) :
      Taken job system (.check position) { system with
        reports := system.reports.eraseIdx position
        coordinator }
  | lose {position : Nat} :
      Taken job system (.lose position) { system with reports := system.reports.eraseIdx position }

variable {job : Job} {system next : System n}

theorem taken_request {id : Fin n} {now : Nat → Nat} {time : Nat}
    (stepped : system.request job id now time = some next) : Taken job system (.request id now time) next := by
  simp only [request] at stepped
  split at stepped
  · cases stepped
  · rename_i possible
    cases stepped
    exact .request (by simpa using fun idle => possible (.inl idle)) rfl

theorem taken_advance {id : Fin n} (stepped : system.advance job id = some next) :
    Taken job system (.advance id) next := by
  simp only [advance] at stepped
  split at stepped
  · rename_i execution executing
    cases moved : execution.step job system.files with
    | none =>
      simp only [moved, Option.some.injEq] at stepped
      exact stepped ▸ .fail
    | some continued =>
      simp only [moved, Option.some.injEq] at stepped
      exact stepped ▸ .advance executing moved
  · cases stepped

theorem taken_report {id : Fin n} (stepped : system.report id = some next) : Taken job system (.report id) next := by
  simp only [report] at stepped
  split at stepped
  · rename_i kind number executing
    cases stepped
    exact .report executing
  · cases stepped

theorem taken_readStage {position : Nat} (stepped : system.readStage position = some next) :
    Taken job system (.readStage position) next := by
  simp only [readStage] at stepped
  split at stepped
  · cases stepped
  · rename_i report found
    split at stepped
    · cases stepped
    · cases stepped
      exact .readStage found

theorem taken_check {position : Nat} (stepped : system.check position = some next) :
    Taken job system (.check position) next := by
  simp only [check] at stepped
  split at stepped
  · cases stepped
  rename_i report found
  split at stepped
  · cases stepped
  rename_i stage read
  split at stepped
  · cases stepped
  split at stepped
  · rename_i out
    cases stepped
    exact .outOfRange found read out
  · rename_i coordinator checked
    cases stepped
    exact .check found read checked

theorem taken_lose {position : Nat} (stepped : system.lose position = some next) :
    Taken job system (.lose position) next := by
  simp only [lose] at stepped
  split at stepped
  · cases stepped
  · split at stepped
    · cases stepped
    · cases stepped
      exact .lose

theorem taken_of_step {action : Action n} (stepped : system.step job action = some next) :
    Taken job system action next := by
  cases action with
  | request id now time => exact taken_request stepped
  | advance id => exact taken_advance stepped
  | report id => exact taken_report stepped
  | crash id =>
    cases stepped
    exact .crash
  | readStage position => exact taken_readStage stepped
  | check position => exact taken_check stepped
  | lose position => exact taken_lose stepped

end System

end ShardedKV.MapReduce
