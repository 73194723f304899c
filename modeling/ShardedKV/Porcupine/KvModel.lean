import Mathlib.Data.List.Dedup
import Mathlib.Data.List.Sort
import ShardedKV.Porcupine.Checker
import ShardedKV.Strings

/-!
# The model of the key/value store

`models/kv.go`: the operations of the key/value tests are checked key by key, against a model of one
value.
-/

namespace ShardedKV.Porcupine

structure KvInput where
  /-- 0 for get, 1 for put, 2 for append. -/
  op : UInt8
  key : GoString
  value : GoString := []
deriving DecidableEq, Inhabited, Repr

structure KvOutput where
  value : GoString := []
deriving DecidableEq, Inhabited, Repr

/-- `KvModel`, with the `ShallowEqual` that `fillDefault` gives it. -/
def kvModel : Model GoString KvInput KvOutput where
  init := []
  step := fun st inp out =>
    if inp.op = 0 then (out.value = st, st)
    else if inp.op = 1 then (true, inp.value)
    else (true, st ++ inp.value)
  equal := fun state1 state2 => state1 = state2

abbrev KvHistory := List (Operation KvInput KvOutput)

/-- The map `m` of `KvModel.Partition` after its loop. -/
def byKey (history : KvHistory) : GoString → KvHistory :=
  history.foldl (fun m v => Function.update m v.input.key (m v.input.key ++ [v])) fun _ => []

/-- The keys of the map: in whatever order they are found, `sort.Strings` puts them in one. -/
def keys (history : KvHistory) : List GoString :=
  (history.map fun v => v.input.key).dedup.insertionSort (· ≤ ·)

/-- `KvModel.Partition`. -/
def kvPartition (history : KvHistory) : List KvHistory := (keys history).map (byKey history)

end ShardedKV.Porcupine
