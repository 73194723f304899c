import Mathlib.Data.Fintype.Basic
import Mathlib.Data.Int.Notation

/-!
# Configurations

`shardctrler/common.go`: an assignment of the shards to replica groups.
-/

namespace ShardedKV.ShardCtrler

abbrev NShards : Nat := 10

instance nShards_neZero : @NeZero Nat Zero.ofOfNat0 NShards := Nat.instNeZeroSucc

abbrev Shard := Fin NShards

/-- A name in the list of a group stands for a server of that group. -/
abbrev ServerName := Nat

/-- The zero value is `Config{}`.  `groups` is a Go map as the list of its entries. -/
structure Config where
  num : Nat := 0
  shards : Shard → Int := fun _ => 0
  groups : List (Int × List ServerName) := []
deriving DecidableEq

end ShardedKV.ShardCtrler
