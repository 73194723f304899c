import ShardedKV.ShardKV.Safety

/-!
# When a shard is dropped

`ShardsConfirm` reads the shards to confirm and the groups to ask under the lock, and the number it
asks about later.  If the group has moved on in between and gives the same shard away again, to
another group, then the group it asks may say that it has the shard in the new configuration
because it had it in the old one.
-/

namespace ShardedKV.ShardKV

open Services
open ShardCtrler (Shard Config)

/-- The entry after `prior` has made the shard `NO_SERVING` in the configuration and deleted its keys. -/
def DroppedAt (entries prior : List (Int × Command)) (gid : Int) (number : Nat) (shard : Shard) : Prop :=
  ∃ message, prior ++ [(gid, .shardConfirmOperation message)] <+: entries ∧
    message.configNum = number ∧ message.shardIndex = shard ∧
    (stateOf gid prior).config.num = number ∧ (stateOf gid prior).shardsState shard = .bePulled

/-- The owner of the shard in the configuration has received what the group had when the
configuration took effect. -/
def Received (controller : Controller) (prior : List (Int × Command)) (gid : Int) (number : Nat)
    (shard : Shard) : Prop :=
  (∃ kv, Entered prior gid number kv) ∧ ∀ kv, Entered prior gid number kv →
    Pulled prior ((controller.config number).shards shard) number shard (restrict shard kv.store.currentState)

/-! ## A configuration takes effect once -/

theorem stateOf_mono {gid : Int} {measure : GroupState → Nat}
    (keeps : ∀ kv command, measure kv ≤ measure (GroupState.apply gid kv command).1)
    {first second : List (Int × Command)} (grows : first <+: second) :
    measure (stateOf gid first) ≤ measure (stateOf gid second) := by
  obtain ⟨more, rfl⟩ := grows
  induction more generalizing first with
  | nil => simp
  | cons entry more inductionHypothesis =>
    rw [List.append_cons]
    refine le_trans ?_ inductionHypothesis
    obtain ⟨group, command⟩ := entry
    by_cases here : group = gid
    · subst here
      rw [stateOf_append_self]
      exact keeps _ command
    · rw [stateOf_append_of_ne here]

theorem stateOf_number_mono (gid : Int) {first second : List (Int × Command)} (grows : first <+: second) :
    (stateOf gid first).config.num ≤ (stateOf gid second).config.num :=
  stateOf_mono (fun kv command => (GroupState.stays_apply gid kv command).number) grows

/-- The entry after `prior` has brought the group into the configuration of the number. -/
structure TakenAt (entries prior : List (Int × Command)) (gid : Int) (config : Config) (number : Nat) : Prop where
  inside : prior ++ [(gid, .configOperation config)] <+: entries
  before : (stateOf gid prior).config.num + 1 = number
  reached : (stateOf gid (prior ++ [(gid, .configOperation config)])).config.num = number

theorem TakenAt.mono {entries more prior : List (Int × Command)} {gid : Int} {config : Config} {number : Nat}
    (taken : TakenAt entries prior gid config number) (grows : entries <+: more) :
    TakenAt more prior gid config number :=
  { taken with inside := taken.inside.trans grows }

theorem TakenAt.unique {entries prior prior' : List (Int × Command)} {gid : Int} {config config' : Config}
    {number : Nat} (one : TakenAt entries prior gid config number)
    (other : TakenAt entries prior' gid config' number) : prior = prior' ∧ config = config' := by
  have reached := one.reached
  have before := one.before
  have reached' := other.reached
  have before' := other.before
  -- A beginning that includes the one entry has the number already.
  have notBefore : ¬ prior ++ [(gid, .configOperation config)] <+: prior' := by
    intro included
    have := stateOf_number_mono gid included
    omega
  have notAfter : ¬ prior' ++ [(gid, .configOperation config')] <+: prior := by
    intro included
    have := stateOf_number_mono gid included
    omega
  have lengths : prior.length = prior'.length := by
    rcases Nat.lt_trichotomy prior.length prior'.length with less | same | more
    · refine absurd (List.prefix_of_prefix_length_le one.inside ?_ (by simp; omega)) notBefore
      exact (List.prefix_append _ _).trans other.inside
    · exact same
    · refine absurd (List.prefix_of_prefix_length_le other.inside ?_ (by simp; omega)) notAfter
      exact (List.prefix_append _ _).trans one.inside
  have same : prior ++ [(gid, .configOperation config)] = prior' ++ [(gid, .configOperation config')] :=
    (List.prefix_of_prefix_length_le one.inside other.inside (by simp [lengths])).eq_of_length (by simp [lengths])
  obtain ⟨rfl, entry⟩ := List.append_inj same lengths
  cases entry
  exact ⟨rfl, rfl⟩

theorem Entered.takenAt {entries : List (Int × Command)} {gid : Int} {number : Nat} {kv : GroupState}
    (entered : Entered entries gid number kv) : ∃ prior config, TakenAt entries prior gid config number ∧
      kv = stateOf gid (prior ++ [(gid, .configOperation config)]) := by
  obtain ⟨prior, config, inside, before, rfl, reached⟩ := entered
  rw [← stateOf_append_self] at reached
  exact ⟨prior, config, ⟨inside, before, reached⟩, (stateOf_append_self _ _ _).symm⟩

theorem entered_unique {entries : List (Int × Command)} {gid : Int} {number : Nat} {first second : GroupState}
    (inFirst : Entered entries gid number first) (inSecond : Entered entries gid number second) :
    first = second := by
  obtain ⟨prior, config, taken, rfl⟩ := inFirst.takenAt
  obtain ⟨prior', config', taken', rfl⟩ := inSecond.takenAt
  obtain ⟨rfl, rfl⟩ := taken.unique taken'
  rfl

/-! ## Dropped after received -/

theorem received_before_dropped (controller : Controller) (system : System)
    (reached : System.ReachableAttentively controller system) (prior : List (Int × Command)) (gid : Int)
    (number : Nat) (shard : Shard) (dropped : DroppedAt system.records.committed prior gid number shard) :
    Received controller prior gid number shard := by
  obtain ⟨protocol, consistent⟩ := reached.consistent
  obtain ⟨message, ⟨more, whole⟩, rfl, rfl, current, bePulled⟩ := dropped
  have kept := consistent.kept trivial
  rw [← whole] at kept
  obtain ⟨kv, entered, pulled⟩ := kept.of_append.last current bePulled
  refine ⟨⟨kv, entered⟩, ?_⟩
  intro other again
  rw [entered_unique again entered]
  exact pulled

/-- Group 2 receives shard 0 and group 1 drops it when group 2 has confirmed that. -/
def confirmedShard : System := System.afterAttentively twoOwners [
  .getLastConfig 1 0 2, .commit 1 0, .deliver 1 0 false, .getLastConfig 2 0 2, .commit 2 0, .deliver 2 0 false,
  .invoke 7 (.append [100] [9]), .send 7 1 0, .start 0 true 2, .commit 1 1, .deliver 1 0 false,
  .getLastConfig 1 0 2, .commit 1 2, .deliver 1 0 false, .getLastConfig 2 0 2, .commit 2 1, .deliver 2 0 false,
  .collect 2 0 false, .spawn 0, .servePull 0, .finishPull 0, .commit 2 2, .deliver 2 0 false,
  .collect 1 0 true, .spawn 1, .serveConfirm 0 true, .finishConfirm 0, .commit 1 3]

theorem received_before_dropped_confirmedShard :
    DroppedAt confirmedShard.records.committed (confirmedShard.records.committed.take 6) 1 2 0 ∧
    Received twoOwners (confirmedShard.records.committed.take 6) 1 2 0 := by
  have dropped : DroppedAt confirmedShard.records.committed
      (confirmedShard.records.committed.take 6) 1 2 0 :=
    ⟨⟨2, 0, .serving⟩, ⟨[], by rfl⟩, rfl, rfl, by decide, by decide⟩
  exact ⟨dropped, received_before_dropped twoOwners confirmedShard
    (System.reachable_afterAttentively _ _) _ 1 2 0 dropped⟩

/-! ## Dropped too early -/

/-- Shard 0 goes from group 1 to group 2, back to group 1 and on to group 3. -/
def wandering : Controller where
  config := fun number => {
    num := number
    shards := fun shard => if shard = 0 then
        match number with
        | 0 => 0
        | 1 => 1
        | 2 => 2
        | 3 => 1
        | _ => 3
      else 3
    groups := [(1, [1, 0]), (2, [0]), (3, [0])] }
  num_eq := fun _ => rfl

/-- Server 0 leads group 1 and collects in configuration 2 what it has to confirm with group 2.
Server 1 takes over, and the shard goes to group 2 and comes back.  When group 1 has given it away
to group 3 in configuration 4, server 0 goes on with its round: it reads that number and asks group
2, which is in configuration 5 and says OK, and it leads again when the reply arrives. -/
def droppedShard : System := System.after wandering [
  .getLastConfig 1 0 9, .commit 1 0, .deliver 1 0 false, .getLastConfig 2 0 9, .commit 2 0, .deliver 2 0 false,
  .invoke 7 (.put [] [9]), .send 7 1 0, .start 0 true 2, .recheck 0, .register 0, .commit 1 1,
  .deliver 1 0 false, .push 1 0, .answer 0, .receive 7,
  .getLastConfig 1 0 9, .commit 1 2, .deliver 1 0 false, .getLastConfig 2 0 9, .commit 2 1, .deliver 2 0 false,
  .collect 1 0 true,
  .deliver 1 1 false, .deliver 1 1 false, .deliver 1 1 false,
  .collect 2 0 false, .spawn 1, .servePull 0, .finishPull 0, .commit 2 2, .deliver 2 0 false,
  .collect 1 1 true, .spawn 2, .serveConfirm 0 true, .finishConfirm 0, .commit 1 3, .deliver 1 1 false,
  .getLastConfig 1 1 9, .commit 1 4, .deliver 1 1 false, .getLastConfig 2 0 9, .commit 2 3, .deliver 2 0 false,
  .collect 1 1 false, .spawn 3, .servePull 1, .finishPull 1, .commit 1 5, .deliver 1 1 false,
  .collect 2 0 true, .spawn 4, .serveConfirm 1 true, .finishConfirm 1, .commit 2 4, .deliver 2 0 false,
  .getLastConfig 1 1 9, .commit 1 6, .deliver 1 1 false, .getLastConfig 2 0 9, .commit 2 5, .deliver 2 0 false,
  .getLastConfig 2 0 9, .commit 2 6, .deliver 2 0 false,
  .deliver 1 0 false, .deliver 1 0 false, .deliver 1 0 false, .deliver 1 0 false,
  .spawn 0, .serveConfirm 2 true, .finishConfirm 2, .commit 1 7, .deliver 1 0 false]

theorem Pulled.entriesOf_ne_nil {entries : List (Int × Command)} {gid : Int} {number : Nat} {shard : Shard}
    {data : Data} (pulled : Pulled entries gid number shard data) : entriesOf gid entries ≠ [] := by
  obtain ⟨prior, message, ⟨more, rfl⟩, _⟩ := pulled
  rw [entriesOf_append, entriesOf_append_self]
  simp

/-- Group 1 drops shard 0 in configuration 4, in which it moves to group 3, while the log of group 3
is empty. -/
theorem dropped_not_received :
    System.Reachable wandering droppedShard ∧
    (wandering.config 3).shards 0 = 1 ∧ (wandering.config 4).shards 0 = 3 ∧
    (wandering.config 4).groups.lookup 3 = some [0] ∧
    DroppedAt droppedShard.records.committed (droppedShard.records.committed.take 14) 1 4 0 ∧
    ¬ Received wandering (droppedShard.records.committed.take 14) 1 4 0 ∧
    (droppedShard.log 3).length = 0 ∧
    ((droppedShard.replica 1 0).server.kv.shardsState 0 = .noServing ∧
      (droppedShard.replica 1 0).server.kv.store.currentState [] = none) := by
  refine ⟨System.reachable_after _ _, rfl, rfl, rfl, ⟨⟨4, 0, .serving⟩, ⟨[], by rfl⟩, rfl, rfl, by decide,
    by decide⟩, ?_, by decide, by decide⟩
  rintro ⟨⟨kv, entered⟩, received⟩
  exact (received kv entered).entriesOf_ne_nil (List.eq_nil_of_length_eq_zero (by decide))

end ShardedKV.ShardKV
