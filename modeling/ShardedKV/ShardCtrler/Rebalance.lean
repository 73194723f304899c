import Mathlib.Algebra.BigOperators.Group.Finset.Basic
import Mathlib.Data.List.FinRange
import Mathlib.Data.List.Sort
import ShardedKV.Loops.Turns
import ShardedKV.ShardCtrler.Config

/-!
# Rebalancing

`getGIDtoShardsMap` and `rebalance` of `shardctrler/server.go`: free shards go to the group with the
fewest shards, and then the group with the most gives its last one to the group with the fewest
until their numbers differ by at most one.
-/

namespace ShardedKV.ShardCtrler

open Loops (Turn)

/-- A Go map from group ids to shards: its keys, and what a lookup returns. -/
structure ShardMap where
  keys : List Int
  get : Int → List Shard

def ShardMap.set (map : ShardMap) (gid : Int) (shards : List Shard) : ShardMap where
  keys := if gid ∈ map.keys then map.keys else map.keys ++ [gid]
  get := Function.update map.get gid shards

def getGIDtoShardsMap (shards : Shard → Int) (newMap : List (Int × List ServerName)) : ShardMap :=
  (List.finRange NShards).foldl
    (fun gitToShards shardIndex =>
      let gid := shards shardIndex
      if gid ∈ newMap.map Prod.fst then gitToShards.set gid (gitToShards.get gid ++ [shardIndex])
      else gitToShards)
    { keys := newMap.map Prod.fst, get := fun _ => [] }

/-- The groups with the most and the fewest shards, as far as they have been looked at. -/
structure Extremes where
  maxShards : Int := -1
  maxGID : Int := -1
  minShards : Int := NShards + 1
  minGID : Int := -1

namespace Extremes

def visit (shardsOf : Int → List Shard) (extremes : Extremes) (gid : Int) : Extremes :=
  let count : Int := (shardsOf gid).length
  let extremes := if extremes.maxShards < count then { extremes with maxShards := count, maxGID := gid }
    else extremes
  if count < extremes.minShards then { extremes with minShards := count, minGID := gid } else extremes

def of (liveGroup : List Int) (shardsOf : Int → List Shard) : Extremes :=
  liveGroup.foldl (visit shardsOf) {}

end Extremes

/-- What the loop of `rebalance` changes; `freeShards` are those from `freeShardsIndex` on. -/
structure Rebalancing where
  gitToShards : ShardMap
  freeShards : List Shard
  moveShards : List Shard := []

def Rebalancing.turn (liveGroup : List Int) (state : Rebalancing) : Turn Rebalancing :=
  let shardsOf := state.gitToShards.get
  let extremes := Extremes.of liveGroup shardsOf
  if extremes.maxShards - extremes.minShards ≤ 1 ∧ state.freeShards = [] then .leave
  else
    match state.freeShards with
    | moveShardIndex :: rest => .next {
        gitToShards := state.gitToShards.set extremes.minGID (shardsOf extremes.minGID ++ [moveShardIndex]),
        freeShards := rest,
        moveShards := state.moveShards ++ [moveShardIndex] }
    | [] =>
      match (shardsOf extremes.maxGID).getLast? with
      -- The index `length - 1` of an empty slice.
      | none => .panic
      | some moveShardIndex =>
        let gitToShards := state.gitToShards.set extremes.maxGID (shardsOf extremes.maxGID).dropLast
        .next { state with
          gitToShards := gitToShards.set extremes.minGID (gitToShards.get extremes.minGID ++ [moveShardIndex]),
          moveShards := state.moveShards ++ [moveShardIndex] }

/-- More turns than the loop can take. -/
def rebalanceFuel : Nat := 1000

/-- The new assignment and the shards that were moved, in the order of the moves; `none` if the
loop panics or does not end. -/
def rebalance (gitToShards : ShardMap) (oldShards : Shard → Int) : Option ((Shard → Int) × List Shard) :=
  let liveGroup := gitToShards.keys.insertionSort (· ≤ ·)
  let freeShards := (List.finRange NShards).filter fun shardIndex =>
    oldShards shardIndex = 0 ∨ oldShards shardIndex ∉ gitToShards.keys
  (Loops.run (Rebalancing.turn liveGroup) rebalanceFuel { gitToShards, freeShards }).map fun state =>
    let newShards := liveGroup.foldl
      (fun newShards gid => (state.gitToShards.get gid).foldl
        (fun newShards shardIndex => Function.update newShards shardIndex gid) newShards)
      fun _ => 0
    (newShards, state.moveShards)

end ShardedKV.ShardCtrler
