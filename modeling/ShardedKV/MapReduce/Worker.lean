import Mathlib.Algebra.Order.Ring.Nat
import Mathlib.Data.UInt
import ShardedKV.Grouping.Runs
import ShardedKV.Loops.Turns
import ShardedKV.MapReduce.Coordinator
import ShardedKV.Storage.Disk

/-!
# The workers

`mr/worker.go`: `execMap` and `execReduce` as the sequence of their steps on files, and the sequential
program of `main/mrsequential.go`.
-/

namespace ShardedKV.MapReduce

open Storage (Disk Descriptor)

structure KeyValue where
  key : GoString
  value : GoString
deriving DecidableEq, Repr

/-- FNV-1a with 32 bits, without the highest. -/
def ihash (key : GoString) : Nat :=
  (key.foldl (fun h byte => (h ^^^ byte.toUInt32) * 16777619) 2166136261 &&& (0x7fffffff : UInt32)).toNat

/-- `encoding/json`.  Nothing is read at the end of a file. -/
structure Codec where
  encode : KeyValue → GoString
  decode : GoString → Option (KeyValue × GoString)
  decode_nil : decode [] = none

/-- `sort.Sort(ByKey(kva))`: some permutation that is sorted by key. -/
structure Sorter where
  sort : List KeyValue → List KeyValue
  perm : ∀ kva, (sort kva).Perm kva
  sorted : ∀ kva, Grouping.Sorted KeyValue.key (· < ·) (sort kva)

/-- The program, its input files and what the workers use. -/
structure Job where
  files : List GoString
  content : GoString → GoString
  nReduce : Nat
  mapf : GoString → GoString → List KeyValue
  reducef : GoString → List GoString → GoString
  codec : Codec
  sorter : Sorter

/-- Every record that `mapf` emits for an input file is read back from its encoding.  `encoding/json` does so if its
texts are valid UTF-8. -/
def Job.RoundTrips (job : Job) : Prop :=
  ∀ filename ∈ job.files, ∀ kv ∈ job.mapf filename (job.content filename), ∀ rest,
    job.codec.decode (job.codec.encode kv ++ rest) = some (kv, rest)

/-- `temp` is the name `TempFile` invents for an inode, the others are `mr-i-j` and `mr-out-j`. -/
inductive FileName where
  | temp (inode : Nat)
  | intermediate (mapTask reduceTask : Nat)
  | out (reduceTask : Nat)
deriving DecidableEq, Repr

abbrev Files := Disk FileName UInt8

/-! ## What is computed -/

/-- The loop over `kva` that fills `intermediate`. -/
def partition (nReduce : Nat) (kva : List KeyValue) : List (List KeyValue) :=
  kva.foldl (fun intermediate kv => intermediate.modify (ihash kv.key % nReduce) (· ++ [kv]))
    (List.replicate nReduce [])

/-- The key and the values of each call of `reducef`, in the order of the two nested loops. -/
def groups (kva : List KeyValue) : List (GoString × List GoString) :=
  (Grouping.scan KeyValue.key kva 0).map fun run => (run.1, run.2.map KeyValue.value)

/-- `"%v %v\n"`. -/
def line (key output : GoString) : GoString := key ++ [32] ++ output ++ [10]

def reduceLines (reducef : GoString → List GoString → GoString) (kva : List KeyValue) : List GoString :=
  (groups kva).map fun group => line group.1 (reducef group.1 group.2)

/-- `main` of `mrsequential.go`, which writes these lines to `mr-out-0`. -/
def sequentialLines (job : Job) (sorter : Sorter) : List GoString :=
  reduceLines job.reducef (sorter.sort (job.files.flatMap fun filename => job.mapf filename (job.content filename)))

/-! ## The steps on files -/

/-- Where `execMap` or `execReduce` stands. -/
inductive Execution where
  /-- Before `TempFile`; the buckets from this one on are left. -/
  | creating (task bucket : Nat) (intermediate : List (List KeyValue))
  | naming (task bucket inode : Nat) (records : List KeyValue) (intermediate : List (List KeyValue))
  /-- The records that are left of this bucket, and the buckets after it. -/
  | encoding (task bucket : Nat) (file : Descriptor) (records : List KeyValue) (intermediate : List (List KeyValue))
  /-- Before `Open` of the file of map task `i`. -/
  | opening (task nMap i : Nat) (kva : List KeyValue)
  | decoding (task nMap i : Nat) (file : Descriptor) (kva : List KeyValue)
  /-- Before `Create`, with the sorted records. -/
  | output (task : Nat) (kva : List KeyValue)
  | writing (task : Nat) (file : Descriptor) (lines : List GoString)
  | finished (kind : Kind) (task : Nat)
deriving DecidableEq, Repr

namespace Execution

/-- The beginning of `execMap`, up to the first file; `none` is a division by zero. -/
def execMap (job : Job) (t : Taskinfo) : Option Execution :=
  let kva := job.mapf t.filename (job.content t.filename)
  if t.nReduce = 0 ∧ kva ≠ [] then none else some (.creating t.taskId 0 (partition t.nReduce kva))

def execReduce (t : Taskinfo) : Execution := .opening t.taskId t.nMap 0 []

/-- The call in the loop of `Worker`. -/
def begin (job : Job) (t : Taskinfo) : Kind → Option Execution
  | .map => execMap job t
  | .reduce => some (execReduce t)

/-- The task that is executed. -/
def task : Execution → Kind × Nat
  | creating task _ _ | naming task _ _ _ _ | encoding task _ _ _ _ => (.map, task)
  | opening task _ _ _ | decoding task _ _ _ _ | output task _ | writing task _ _ => (.reduce, task)
  | finished kind task => (kind, task)

/-- The next step on the files.  `none` is a panic; a finished execution stays as it is. -/
def step (job : Job) (files : Files) : Execution → Option (Execution × Files)
  | creating task _ [] => some (finished .map task, files)
  | creating task bucket (records :: intermediate) =>
    let inode := files.contents.length
    some (naming task bucket inode records intermediate, files.make (.temp inode))
  | naming task bucket inode records intermediate =>
    some (encoding task bucket { inode } records intermediate,
      files.rename (.temp inode) (.intermediate task bucket))
  | encoding task bucket file (kv :: records) intermediate =>
    let data := job.codec.encode kv
    some (encoding task bucket { file with offset := file.offset + data.length } records intermediate,
      files.write file data)
  -- the `Close` of the bucket
  | encoding task bucket _ [] intermediate => some (creating task (bucket + 1) intermediate, files)
  | opening task nMap i kva =>
    if i < nMap then
      (files.directory (.intermediate i task)).map fun inode => (decoding task nMap i { inode } kva, files)
    else some (output task (job.sorter.sort kva), files)
  | decoding task nMap i file kva =>
    let unread := (files.file file.inode).drop file.offset
    match job.codec.decode unread with
    | none => some (opening task nMap (i + 1) kva, files)
    | some (kv, rest) =>
      some (decoding task nMap i { file with offset := file.offset + (unread.length - rest.length) } (kva ++ [kv]),
        files)
  | output task kva =>
    let (files, inode) := files.create (.out task)
    some (writing task { inode } (reduceLines job.reducef kva), files)
  | writing task file (line :: lines) =>
    some (writing task { file with offset := file.offset + line.length } lines, files.write file line)
  | writing task _ [] => some (finished .reduce task, files)
  | finished kind task => some (finished kind task, files)

/-- One turn of an execution that nobody disturbs. -/
def turn (job : Job) (state : Execution × Files) : Loops.Turn (Execution × Files) :=
  match state.1 with
  | finished _ _ => .leave
  | execution =>
    match execution.step job state.2 with
    | none => .panic
    | some next => .next next

end Execution

/-- `mrsequential` writes its lines one after the other to a file it creates. -/
def mrsequential (job : Job) (sorter : Sorter) (files : Files) : Files :=
  let (files, inode) := files.create (.out 0)
  files.writeAll { inode } (sequentialLines job sorter)

end ShardedKV.MapReduce
