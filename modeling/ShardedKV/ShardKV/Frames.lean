import ShardedKV.ShardKV.Residency

/-!
# What a migration leaves alone

All shards of a group share one map and one table of clients.  `mergeShardData` writes whatever keys
a message has, so that the other shards are not disturbed rests on what messages there can be.
-/

namespace ShardedKV.ShardKV

open Services
open ShardCtrler (Shard Config)
open KvRaft (Op Store)

variable {controller : Controller} {system next : System} {gid : Int}

/-- The data of an entry have keys of its own shard only. -/
def Command.OwnKeys : Command → Prop
  | .shardRequestOperation message => ∀ key, message.shardData key ≠ none → key2shard key = message.shardIndex
  | _ => True

/-! ## A served shard -/

/-- The entry is about other shards, or a configuration that leaves the shard with the group. -/
def Command.Spares (gid : Int) (shard : Shard) : Command → Prop
  | .kvOperation op => key2shard op.key ≠ shard
  | .configOperation config => config.shards shard = gid
  | .shardRequestOperation message => message.shardIndex ≠ shard
  | .shardConfirmOperation message => message.shardIndex ≠ shard
  | .noOperation => True

/-- The group serves the shard and has the same keys and values in it. -/
structure Undisturbed (shard : Shard) (before after : GroupState) : Prop where
  serving : after.shardsState shard = .serving
  values : ∀ key, key2shard key = shard → after.store.currentState key = before.store.currentState key

theorem GroupState.updateShardsState_serving {kv : GroupState} {shard : Shard}
    (before : kv.prevConfig.num ≠ 0 → kv.prevConfig.shards shard = gid) (after : kv.config.shards shard = gid) :
    (kv.updateShardsState gid).shardsState shard = .serving := by
  unfold GroupState.updateShardsState
  split
  · simp [after]
  · rename_i configured
    simp [before configured, after]

theorem GroupState.apply_undisturbed {kv : GroupState} {shard : Shard} (serves : kv.shardsState shard = .serving)
    (owns : kv.config.num ≠ 0 → kv.config.shards shard = gid) {command : Command} (own : command.OwnKeys)
    (spares : command.Spares gid shard) : Undisturbed shard kv (kv.apply gid command).1 := by
  have same : Undisturbed shard kv kv := ⟨serves, fun _ _ => rfl⟩
  cases command with
  | kvOperation op =>
    dsimp only [GroupState.apply]
    split
    · exact same
    · refine ⟨serves, fun key inside => ?_⟩
      apply Store.currentState_applyCommand_of_ne
      rintro rfl
      exact spares inside
  | configOperation config =>
    dsimp only [GroupState.apply]
    split
    · refine ⟨GroupState.updateShardsState_serving owns spares, fun key _ => ?_⟩
      rw [GroupState.store_updateShardsState]
    · exact same
  | shardRequestOperation message =>
    have other : shard ≠ message.shardIndex := Ne.symm spares
    dsimp only [GroupState.apply]
    repeat' split
    · exact same
    · refine ⟨?_, fun key inside => ?_⟩
      · simp [GroupState.mergeClientSeqNum, GroupState.mergeShardData, GroupState.setShardState, other, serves]
      · have missing : message.shardData key = none := by
          by_contra present
          exact other (inside.symm.trans (own key present))
        simp [GroupState.mergeClientSeqNum, GroupState.mergeShardData, GroupState.setShardState, missing]
    · exact same
  | shardConfirmOperation message =>
    have other : shard ≠ message.shardIndex := Ne.symm spares
    dsimp only [GroupState.apply]
    repeat' split
    · exact same
    · refine ⟨?_, fun key inside => ?_⟩
      · simp [GroupState.deleteShard, GroupState.setShardState, other, serves]
      · simp [GroupState.deleteShard, GroupState.setShardState, inside, other]
    · exact same
  | noOperation => exact same

/-! ### The entries of a log -/

theorem System.step_proposed {action : System.Action} (stepped : system.step controller action = some next)
    {command : Command} (member : command ∈ system.proposed gid) : command ∈ next.proposed gid := by
  have kept : ∀ place other,
      command ∈ Function.update system.proposed place (system.proposed place ++ [other]) gid := by
    intro place other
    by_cases here : gid = place
    · subst here
      simp [member]
    · simpa [here] using member
  cases action <;>
    simp only [step, invoke, send, giveUp, receive, start, recheck, register, timeout, answer, cleanup, commit, deliver,
      redeliver, push, install, restart, getLastConfig, raftLogChecker, collect, spawn, servePull, finishPull, losePull,
      serveConfirm, finishConfirm, loseConfirm] at stepped <;>
    repeat' split at stepped
  all_goals cases stepped
  all_goals first
    | exact member
    | exact kept _ _

theorem System.step_log_proposed (before : ∀ gid, ∀ command ∈ system.log gid, command ∈ system.proposed gid)
    {action : System.Action} (stepped : system.step controller action = some next) :
    ∀ gid, ∀ command ∈ next.log gid, command ∈ next.proposed gid := by
  intro gid command logged
  by_cases commits : ∃ place position, action = .commit place position
  · obtain ⟨place, position, rfl⟩ := commits
    simp only [System.step, System.commit] at stepped
    split at stepped
    · cases stepped
    rename_i proposal found
    cases stepped
    rw [System.log_commit] at logged
    rcases List.mem_append.mp logged with earlier | last
    · exact before gid command earlier
    · by_cases here : place = gid
      · subst here
        rw [if_pos rfl, List.mem_singleton] at last
        subst last
        exact List.mem_of_getElem? found
      · simp [here] at last
  · have same := System.step_committed stepped (fun place position same => commits ⟨place, position, same⟩)
    rw [System.log, same] at logged
    exact System.step_proposed stepped (before gid command logged)

theorem System.run_log_proposed (before : ∀ gid, ∀ command ∈ system.log gid, command ∈ system.proposed gid)
    {actions : List System.Action} (ran : system.run controller actions = some next) :
    ∀ gid, ∀ command ∈ next.log gid, command ∈ next.proposed gid := by
  rw [System.run_eq] at ran
  exact Transitions.run_keeps (fun _ _ _ kept stepped => System.step_log_proposed kept stepped) before ran

/-- What a group agrees on was given to `Start` in the group. -/
theorem System.Reachable.log_proposed (reached : System.Reachable controller system) (gid : Int) :
    ∀ command ∈ system.log gid, command ∈ system.proposed gid := by
  obtain ⟨actions, ran⟩ := reached
  exact System.run_log_proposed (by intro _ _ logged; cases logged) ran gid

theorem Consistent.ownKeys {attentive : Prop} {protocol : Protocol}
    (consistent : Consistent controller attentive protocol system) {command : Command}
    (member : command ∈ system.proposed gid) : command.OwnKeys := by
  have permitted := consistent.proposed gid command member
  cases command with
  | shardRequestOperation message =>
    obtain ⟨_, given, offered, _⟩ := permitted
    obtain ⟨kv, _, data⟩ := consistent.mirrored.now.handed _ _ _ _ offered
    intro key present
    by_contra outside
    simp [data, restrict, outside] at present
  | _ => trivial

/-- The group was in the state after some entries of its log, or a server of it is. -/
def System.Reaches (system : System) (gid : Int) (kv : GroupState) : Prop :=
  (∃ count, kv = (machine gid).run ((system.log gid).take count)) ∨
    ∃ server, kv = (system.replica gid server).server.kv

theorem Consistent.reflects {attentive : Prop} {protocol : Protocol}
    (consistent : Consistent controller attentive protocol system) {kv : GroupState} (was : system.Reaches gid kv) :
    ∃ index, (machine gid).Reflects (system.log gid) kv index := by
  rcases was with ⟨count, rfl⟩ | ⟨server, rfl⟩
  · refine ⟨min count (system.log gid).length, Nat.min_le_right _ _, ?_⟩
    rw [← List.take_eq_take_min]
  · exact ⟨_, (consistent.replicas gid server).reflects⟩

theorem served_shard_undisturbed (controller : Controller) (system : System)
    (reached : System.Reachable controller system) (gid : Int) :
    (∀ command ∈ system.log gid, command ∈ system.proposed gid) ∧
    ∀ kv, system.Reaches gid kv → ∀ shard, kv.shardsState shard = .serving →
      ∀ command ∈ system.proposed gid, command.Spares gid shard →
        Undisturbed shard kv (kv.apply gid command).1 := by
  refine ⟨reached.log_proposed gid, ?_⟩
  intro kv was shard serves command member spares
  obtain ⟨protocol, consistent⟩ := reached.consistent
  obtain ⟨index, reflects⟩ := consistent.reflects was
  obtain ⟨earlier, _, invariant, rel⟩ := consistent.mirrored.known reflects
  obtain ⟨inside, owns⟩ := invariant.holding_owner ((rel.serving_iff shard).mp serves)
  refine GroupState.apply_undisturbed serves (fun _ => ?_) (consistent.ownKeys member) spares
  rw [rel.config (by omega)]
  exact owns

theorem served_shard_undisturbed_movedShard :
    ((machine 1).run ((movedShard.log 1).take 2)).shardsState 1 = .serving ∧
    Undisturbed 1 ((machine 1).run ((movedShard.log 1).take 2))
      (((machine 1).run ((movedShard.log 1).take 2)).apply 1 (.configOperation (twoOwners.config 2))).1 := by
  refine ⟨by decide, ?_⟩
  have logged : .configOperation (twoOwners.config 2) ∈ movedShard.log 1 :=
    List.mem_of_getElem? (show (movedShard.log 1)[2]? = some (.configOperation (twoOwners.config 2)) by rfl)
  obtain ⟨proposed, undisturbed⟩ := served_shard_undisturbed twoOwners movedShard (System.reachable_after _ _) 1
  exact undisturbed _ (.inl ⟨2, rfl⟩) 1 (by decide) _ (proposed _ logged) (by rfl)

/-! ## Entries in any order -/

/-- The configuration and the shard of a migration entry. -/
def Command.migration : Command → Option (Nat × Shard)
  | .shardRequestOperation message => some (message.configNum, message.shardIndex)
  | .shardConfirmOperation message => some (message.configNum, message.shardIndex)
  | _ => none

/-- An entry of the same kind for the same configuration and shard, with any data. -/
inductive Command.Repeats : Command → Command → Prop where
  | request {message again : ShardRequestMsg} (configNum : again.configNum = message.configNum)
      (shardIndex : again.shardIndex = message.shardIndex) :
      Command.Repeats (.shardRequestOperation message) (.shardRequestOperation again)
  | confirm {message again : ShardConfirmMsg} (configNum : again.configNum = message.configNum)
      (shardIndex : again.shardIndex = message.shardIndex) :
      Command.Repeats (.shardConfirmOperation message) (.shardConfirmOperation again)

/-- The state after the entries. -/
def GroupState.applyAll (gid : Int) (kv : GroupState) (entries : List Command) : GroupState :=
  entries.foldl (fun kv entry => (kv.apply gid entry).1) kv

/-- The number of a client after a number has arrived for it. -/
def mergeSeqNum (arrived known : Option Nat) : Option Nat :=
  match arrived with
  | some value => if known.getD 0 < value then some value else known
  | none => known

theorem mergeSeqNum_right_comm (first second known : Option Nat) :
    mergeSeqNum first (mergeSeqNum second known) = mergeSeqNum second (mergeSeqNum first known) := by
  cases first with
  | none => rfl
  | some value =>
    cases second with
    | none => rfl
    | some other =>
      unfold mergeSeqNum
      dsimp only
      -- the largest of the three numbers is left, and `known` itself if it is the largest
      split_ifs <;> simp_all <;> omega

/-- What a migration entry does to a group that is in its configuration and has the shard in the
state that the entry is for. -/
structure Change where
  shard : Shard
  expected : ShardState
  shardState : ShardState
  value : GoString → Option GoString → Option GoString
  clientSeqNum : Nat → Option Nat

def Change.make (change : Change) (kv : GroupState) : GroupState :=
  { kv with
    store := {
      currentState := fun key =>
        if key2shard key = change.shard then change.value key (kv.store.currentState key)
        else kv.store.currentState key
      clientSeq := fun client => mergeSeqNum (change.clientSeqNum client) (kv.store.clientSeq client) }
    shardsState := Function.update kv.shardsState change.shard change.shardState }

def Change.Enabled (change : Change) (configNum : Nat) (kv : GroupState) : Prop :=
  configNum = kv.config.num ∧ kv.shardsState change.shard = change.expected

instance (change : Change) (configNum : Nat) (kv : GroupState) : Decidable (change.Enabled configNum kv) :=
  inferInstanceAs (Decidable (_ ∧ _))

def Change.apply (change : Change) (configNum : Nat) (kv : GroupState) : GroupState :=
  if change.Enabled configNum kv then change.make kv else kv

theorem Change.make_comm (first second : Change) (different : first.shard ≠ second.shard) (kv : GroupState) :
    first.make (second.make kv) = second.make (first.make kv) := by
  unfold Change.make
  dsimp only
  congr 1
  · congr 1
    · funext key
      by_cases inside : key2shard key = first.shard
      · simp [inside, different]
      · simp [inside]
    · funext client
      exact mergeSeqNum_right_comm _ _ _
  · exact Function.update_comm different.symm _ _ _

theorem Change.enabled_make {change other : Change} (different : change.shard ≠ other.shard) (number : Nat)
    (kv : GroupState) : change.Enabled number (other.make kv) ↔ change.Enabled number kv := by
  simp [Change.Enabled, Change.make, different]

theorem Change.apply_comm {first second : Change} (different : first.shard ≠ second.shard) (number : Nat)
    (kv : GroupState) :
    first.apply number (second.apply number kv) = second.apply number (first.apply number kv) := by
  by_cases one : first.Enabled number kv <;> by_cases two : second.Enabled number kv <;>
    simp [Change.apply, one, two, Change.enabled_make different, Change.enabled_make different.symm,
      Change.make_comm first second different]

def ShardRequestMsg.change (message : ShardRequestMsg) : Change where
  shard := message.shardIndex
  expected := .pulling
  shardState := .serving
  value := fun key old => (message.shardData key).or old
  clientSeqNum := message.clientSeqNum

def ShardConfirmMsg.change (message : ShardConfirmMsg) : Change where
  shard := message.shardIndex
  expected := .bePulled
  shardState := .noServing
  value := fun _ _ => none
  clientSeqNum := fun _ => none

theorem ShardRequestMsg.change_make {message : ShardRequestMsg}
    (own : Command.OwnKeys (.shardRequestOperation message)) (kv : GroupState) :
    message.change.make kv =
      (kv.mergeShardData message.shardIndex message.shardData).mergeClientSeqNum message.clientSeqNum := by
  simp only [Change.make, ShardRequestMsg.change, GroupState.mergeClientSeqNum, GroupState.mergeShardData,
    GroupState.setShardState]
  congr 2
  funext key
  by_cases inside : key2shard key = message.shardIndex
  · exact if_pos inside
  · have missing : message.shardData key = none := by
      by_contra present
      exact inside (own key present)
    rw [missing]
    exact if_neg inside

theorem ShardConfirmMsg.change_make (message : ShardConfirmMsg) (kv : GroupState) :
    message.change.make kv = (kv.setShardState message.shardIndex .noServing).deleteShard message.shardIndex := rfl

theorem Command.exists_change {entry : Command} {number : Nat} {shard : Shard}
    (migrates : entry.migration = some (number, shard)) (own : entry.OwnKeys) (gid : Int) :
    ∃ change : Change, change.shard = shard ∧ ∀ kv, (kv.apply gid entry).1 = change.apply number kv := by
  cases entry with
  | shardRequestOperation message =>
    cases migrates
    refine ⟨message.change, rfl, fun kv => ?_⟩
    simp only [GroupState.apply, Change.apply, Change.Enabled, ShardRequestMsg.change_make own]
    split_ifs <;> simp_all [ShardRequestMsg.change]
  | shardConfirmOperation message =>
    cases migrates
    refine ⟨message.change, rfl, fun kv => ?_⟩
    simp only [GroupState.apply, Change.apply, Change.Enabled, ShardConfirmMsg.change_make]
    split_ifs <;> simp_all [ShardConfirmMsg.change]
  | kvOperation op => cases migrates
  | configOperation config => cases migrates
  | noOperation => cases migrates

theorem Command.Repeats.apply_apply {entry again : Command} (repeats : entry.Repeats again) (gid : Int)
    (kv : GroupState) : ((kv.apply gid entry).1.apply gid again).1 = (kv.apply gid entry).1 := by
  cases repeats with
  | request configNum shardIndex =>
    simp only [GroupState.apply, configNum, shardIndex]
    split_ifs <;> simp_all [GroupState.mergeClientSeqNum, GroupState.mergeShardData, GroupState.setShardState]
  | confirm configNum shardIndex =>
    simp only [GroupState.apply, configNum, shardIndex]
    split_ifs <;> simp_all [GroupState.deleteShard, GroupState.setShardState]

theorem migrations_any_order (gid : Int) (kv : GroupState) (entries : List Command)
    (migrates : ∀ entry ∈ entries, ∃ shard, entry.migration = some (kv.config.num, shard))
    (different : (entries.map Command.migration).Nodup) (own : ∀ entry ∈ entries, entry.OwnKeys) :
    (∀ reordered, entries.Perm reordered → kv.applyAll gid reordered = kv.applyAll gid entries) ∧
    ∀ entry ∈ entries, ∀ again, entry.Repeats again →
      ((kv.applyAll gid entries).apply gid again).1 = kv.applyAll gid entries := by
  have order : ∀ reordered, entries.Perm reordered → kv.applyAll gid reordered = kv.applyAll gid entries := by
    intro reordered permuted
    refine (permuted.foldl_eq' (fun first isFirst second isSecond state => ?_) kv).symm
    by_cases same : first = second
    · rw [same]
    obtain ⟨shard, forShard⟩ := migrates first isFirst
    obtain ⟨other, forOther⟩ := migrates second isSecond
    obtain ⟨change, rfl, changes⟩ := Command.exists_change forShard (own first isFirst) gid
    obtain ⟨change', rfl, changes'⟩ := Command.exists_change forOther (own second isSecond) gid
    have apart : change.shard ≠ change'.shard := by
      intro shared
      refine same (List.inj_on_of_nodup_map different isFirst isSecond ?_)
      rw [forShard, forOther, shared]
    simp only [changes, changes']
    exact Change.apply_comm apart.symm _ _
  refine ⟨order, fun entry member again repeats => ?_⟩
  -- the entry that is repeated can as well be the last one
  obtain ⟨before, after, rfl⟩ := List.append_of_mem member
  have last : (before ++ entry :: after).Perm (before ++ after ++ [entry]) :=
    List.perm_middle.trans (List.perm_append_singleton _ _).symm
  rw [← order _ last]
  simp only [GroupState.applyAll, List.foldl_append, List.foldl_cons, List.foldl_nil]
  exact repeats.apply_apply gid _

/-- Group 2 waits for shard 0 and gives shard 1 away. -/
def exchanging : GroupState where
  shardsState := fun shard => if shard = 0 then .pulling else if shard = 1 then .bePulled else .noServing
  config := { num := 2 }

def arriving : Command :=
  .shardRequestOperation ⟨2, 0, 2, fun key => if key = [100] then some [9] else none, fun _ => none⟩

def leaving : Command := .shardConfirmOperation ⟨2, 1, .serving⟩

theorem migrations_any_order_exchanging :
    (exchanging.apply 2 arriving).1.shardsState 0 = .serving ∧
    (exchanging.apply 2 leaving).1.shardsState 1 = .noServing ∧
    exchanging.applyAll 2 [leaving, arriving] = exchanging.applyAll 2 [arriving, leaving] ∧
    ((exchanging.applyAll 2 [arriving, leaving]).apply 2 arriving).1 = exchanging.applyAll 2 [arriving, leaving] := by
  have migrates : ∀ entry ∈ [arriving, leaving], ∃ shard, entry.migration = some (exchanging.config.num, shard) := by
    simp only [List.mem_cons, List.not_mem_nil, or_false]
    rintro entry (rfl | rfl)
    · exact ⟨0, rfl⟩
    · exact ⟨1, rfl⟩
  have own : ∀ entry ∈ [arriving, leaving], entry.OwnKeys := by
    simp only [List.mem_cons, List.not_mem_nil, or_false]
    rintro entry (rfl | rfl)
    · intro key present
      have same : key = [100] := by
        by_contra other
        simp [other] at present
      rw [same]
      rfl
    · trivial
  obtain ⟨order, again⟩ := migrations_any_order 2 exchanging [arriving, leaving] migrates (by decide) own
  exact ⟨by decide, by decide, order _ (.swap _ _ _), again arriving (by simp) arriving (.request rfl rfl)⟩

end ShardedKV.ShardKV
