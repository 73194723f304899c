import Mathlib.Data.List.Basic
import Mathlib.Tactic.Common
import ShardedKV.Strings

/-!
# The coordinator

`mr/coordinator.go` and `mr/rpc.go`: the tables of the map and the reduce tasks, the handler of a
request for a task and that of a report.
-/

namespace ShardedKV.MapReduce

inductive RPCtype where
  | map
  | reduce
  | request
  | workDone
  | fail
  | allDone
deriving DecidableEq, Repr

structure Taskinfo where
  rpcType : RPCtype
  taskId : Nat := 0
  filename : GoString := []
  nMap : Nat := 0
  nReduce : Nat := 0
  startTime : Nat := 0
deriving DecidableEq, Repr

inductive Status where
  | idle
  | working
  | done
deriving DecidableEq, Repr

structure Task where
  taskId : Nat
  fileName : GoString := []
  startTime : Nat := 0
  status : Status := .idle
deriving DecidableEq, Repr

inductive Stage where
  | assignMap
  | mapping
  | reducing
  | finished
deriving DecidableEq, Repr

/-- The two kinds of tasks. -/
inductive Kind where
  | map
  | reduce
deriving DecidableEq, Repr

/-- The stage in which the tasks of a kind are handed out, and the stage after it. -/
def Kind.stage : Kind → Stage
  | .map => .mapping
  | .reduce => .reducing

def Kind.nextStage : Kind → Stage
  | .map => .reducing
  | .reduce => .finished

def Kind.rpcType : Kind → RPCtype
  | .map => .map
  | .reduce => .reduce

/-! ## The tables -/

/-- `idx` reads the clock at `now idx`, in nanoseconds. -/
def timeOutTask (now : Nat → Nat) (tasks : List Task) : List Task :=
  tasks.mapIdx fun idx t =>
    if t.status = .working ∧ now idx - t.startTime > 10000000000 then { t with status := .idle } else t

def findIdleTask (tasks : List Task) : Option Nat := tasks.findIdx? (·.status = .idle)

/-- True when no uncompleted task was found. -/
def finduncompletedTask (tasks : List Task) : Bool := tasks.all (·.status = .done)

/-- The end of `assignTask`. -/
def Task.start (task : Task) (time : Nat) : Task := { task with status := .working, startTime := time }

/-- Indexing out of range panics. -/
def markDone (tasks : List Task) (taskId : Nat) : Option (List Task) :=
  match tasks[taskId]? with
  | none => none
  | some task => some (if task.status = .working then tasks.set taskId { task with status := .done } else tasks)

/-! ## The handlers -/

structure Coordinator where
  nReduce : Nat
  nMap : Nat
  stage : Stage
  mapTask : List Task
  reduceTask : List Task
deriving DecidableEq, Repr

namespace Coordinator

def table (c : Coordinator) : Kind → List Task
  | .map => c.mapTask
  | .reduce => c.reduceTask

def setTable (c : Coordinator) (tasks : List Task) : Kind → Coordinator
  | .map => { c with mapTask := tasks }
  | .reduce => { c with reduceTask := tasks }

/-- `assignTask` in the stage of the kind. -/
def assign (c : Coordinator) (kind : Kind) (now : Nat → Nat) (time : Nat) : Coordinator × Taskinfo :=
  let c := c.setTable (timeOutTask now (c.table kind)) kind
  if finduncompletedTask (c.table kind) then ({ c with stage := kind.nextStage }, { rpcType := .fail })
  else
    match findIdleTask (c.table kind) with
    | none => (c, { rpcType := .fail })
    | some idx =>
      match (c.table kind)[idx]? with
      | none => (c, { rpcType := .fail })
      | some task =>
        (c.setTable ((c.table kind).set idx (task.start time)) kind,
          { rpcType := kind.rpcType, taskId := task.taskId, filename := task.fileName, nMap := c.nMap,
            nReduce := c.nReduce, startTime := time })

def assignTask (c : Coordinator) (now : Nat → Nat) (time : Nat) : Coordinator × Taskinfo :=
  match c.stage with
  | .mapping => c.assign .map now time
  | .reducing => c.assign .reduce now time
  | .finished => (c, { rpcType := .allDone })
  | .assignMap => (c, { rpcType := .fail })

/-- `checkTask` after it has read the stage, which it does without the lock.  `none` is a panic. -/
def checkTask (c : Coordinator) (stage : Stage) (taskId : Nat) : Option Coordinator :=
  match stage with
  | .mapping => (markDone c.mapTask taskId).map fun mapTask => { c with mapTask }
  | .reducing => (markDone c.reduceTask taskId).map fun reduceTask => { c with reduceTask }
  | _ => some c

def isDone (c : Coordinator) : Bool := c.stage = .finished

def makeCoordinator (files : List GoString) (nReduce : Nat) : Coordinator where
  nReduce := nReduce
  nMap := files.length
  stage := .mapping
  mapTask := files.mapIdx fun i fileName => { taskId := i, fileName }
  reduceTask := (List.range nReduce).map fun i => { taskId := i }

end Coordinator

end ShardedKV.MapReduce
