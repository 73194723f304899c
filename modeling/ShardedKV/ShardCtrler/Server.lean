import ShardedKV.ShardCtrler.Rebalance

/-!
# The shard controller

`shardctrler/server.go`: what the committed operations do to the list of configurations.
-/

namespace ShardedKV.ShardCtrler

/-- The fields of `Op` that belong to its `ArgsType`. -/
inductive Args where
  | join (servers : List (Int × List ServerName))
  | leave (gids : List Int)
  | move (shard gid : Int)
  | query (num : Int)
deriving DecidableEq, Repr

structure Op where
  args : Args
  seqNum : Nat
  clientID : Nat
deriving DecidableEq, Repr

/-- `configs`, which always has an element. -/
structure Configs where
  list : List Config
  nonempty : list ≠ []
deriving DecidableEq

namespace Configs

def last (configs : Configs) : Config := configs.list.getLast configs.nonempty

def add (configs : Configs) (shards : Shard → Int) (groups : List (Int × List ServerName)) : Configs where
  list := configs.list ++ [{ num := configs.last.num + 1, shards, groups }]
  nonempty := by simp

def addGroups (groups servers : List (Int × List ServerName)) : List (Int × List ServerName) :=
  servers.foldl (fun copyMap entry => copyMap.filter (·.1 ≠ entry.1) ++ [entry]) groups

def deleteGroups (groups : List (Int × List ServerName)) (gids : List Int) : List (Int × List ServerName) :=
  gids.foldl (fun copyMap gid => copyMap.filter (·.1 ≠ gid)) groups

def addRebalanced (configs : Configs) (copyMap : List (Int × List ServerName)) : Option Configs :=
  let oldShards := configs.last.shards
  (rebalance (getGIDtoShardsMap oldShards copyMap) oldShards).map fun balanced => configs.add balanced.1 copyMap

/-- `none` is a panic.  The method does not write `sc.clientSeq`. -/
def applyToStateMachine (configs : Configs) : Args → Option Configs
  | .join servers => configs.addRebalanced (addGroups configs.last.groups servers)
  | .leave gids => configs.addRebalanced (deleteGroups configs.last.groups gids)
  | .move shard gid =>
    if inside : 0 ≤ shard ∧ shard < NShards then
      some (configs.add (Function.update configs.last.shards ⟨shard.toNat, by omega⟩ gid) configs.last.groups)
    else none
  | .query _ => some configs

/-- `none` is the panic of a negative index. -/
def getConfig (configs : Configs) (index : Int) : Option Config :=
  if index = -1 ∨ configs.list.length ≤ index then some configs.last
  else if index < 0 then none
  else configs.list[index.toNat]?

end Configs

theorem Configs.singleton_ne_nil : [({} : Config)] ≠ [] := by simp

/-- What a replica holds; the defaults are those of `StartServer`. -/
structure State where
  configs : Configs := { list := [{}], nonempty := Configs.singleton_ne_nil }
  clientSeq : Nat → Option Nat := fun _ => none

namespace State

def lastSeq (sc : State) (clientID : Nat) : Nat := (sc.clientSeq clientID).getD 0

def openSession (sc : State) (clientID : Nat) : State :=
  match sc.clientSeq clientID with
  | some _ => sc
  | none => { sc with clientSeq := Function.update sc.clientSeq clientID (some 0) }

/-- The command case of `applyHandler`. -/
def applyHandler (sc : State) (op : Op) : Option State :=
  let sc := sc.openSession op.clientID
  if op.seqNum ≤ sc.lastSeq op.clientID then some sc
  -- the session keeps its number, so a repetition is executed again
  else (sc.configs.applyToStateMachine op.args).map fun configs => { sc with configs }

end State

/-- A replica after a committed log. -/
def replay (log : List Op) : Option State := log.foldlM State.applyHandler {}

end ShardedKV.ShardCtrler
