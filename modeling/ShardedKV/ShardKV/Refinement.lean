import ShardedKV.KvRaft.Store
import ShardedKV.Migration.Invariant
import ShardedKV.ShardKV.System

/-!
# The groups follow the migration protocol

The states that the groups compute from their logs, with the operations they have executed in the
order of the commits, mirror a state of the protocol in which shards move between groups.  Every
entry that a leader may propose makes a step of the protocol, or none.
-/

namespace ShardedKV.ShardKV

open Services
open ShardCtrler (Shard Config)
open KvRaft (Op Store Operation sequential)
open Migration (Extends)

/-! ## All logs together -/

/-- The state of a group after the committed entries of all groups. -/
def stateOf (gid : Int) (entries : List (Int × Command)) : GroupState :=
  (machine gid).run (entriesOf gid entries)

@[simp] theorem entriesOf_append_self (gid : Int) (entries : List (Int × Command)) (command : Command) :
    entriesOf gid (entries ++ [(gid, command)]) = entriesOf gid entries ++ [command] := by
  simp [entriesOf]

theorem entriesOf_append_of_ne {gid other : Int} (apart : other ≠ gid) (entries : List (Int × Command))
    (command : Command) : entriesOf gid (entries ++ [(other, command)]) = entriesOf gid entries := by
  simp [entriesOf, apart]

@[simp] theorem stateOf_append_self (gid : Int) (entries : List (Int × Command)) (command : Command) :
    stateOf gid (entries ++ [(gid, command)]) = ((stateOf gid entries).apply gid command).1 := by
  simp only [stateOf, entriesOf_append_self, Machine.run_append]
  rfl

theorem stateOf_append_of_ne {gid other : Int} (apart : other ≠ gid) (entries : List (Int × Command))
    (command : Command) : stateOf gid (entries ++ [(other, command)]) = stateOf gid entries := by
  rw [stateOf, entriesOf_append_of_ne apart, stateOf]

/-- The command on which `applyToStateMachine` runs, if it does. -/
def GroupState.executes (kv : GroupState) : Command → Option Op
  | .kvOperation op =>
    if kv.shardsState (key2shard op.key) = .serving ∧ kv.store.lastSeq op.clientID < op.seqNum then some op
    else none
  | _ => none

/-- The executed operations of all groups, in the order of their commits. -/
def executed (entries : List (Int × Command)) : List Op :=
  (List.range entries.length).filterMap fun t =>
    entries[t]?.bind fun entry => (stateOf entry.1 (entries.take t)).executes entry.2

theorem executed_append (entries : List (Int × Command)) (gid : Int) (command : Command) :
    executed (entries ++ [(gid, command)]) =
      executed entries ++ ((stateOf gid entries).executes command).toList := by
  have before : ∀ t ∈ List.range entries.length,
      ((entries ++ [(gid, command)])[t]?.bind fun entry =>
        (stateOf entry.1 ((entries ++ [(gid, command)]).take t)).executes entry.2) =
      entries[t]?.bind fun entry => (stateOf entry.1 (entries.take t)).executes entry.2 := by
    intro t member
    have inside : t < entries.length := List.mem_range.mp member
    rw [List.getElem?_append_left inside, List.take_append_of_le_length (Nat.le_of_lt inside)]
  unfold executed
  rw [List.length_append, List.length_singleton, List.range_succ, List.filterMap_append,
    List.filterMap_congr before]
  simp [List.filterMap_cons]
  cases (stateOf gid entries).executes command <;> rfl

/-- The map that the executed operations make. -/
def contents (entries : List (Int × Command)) : GoString → GoString :=
  (executed entries).foldl (fun contents op => (sequential.step contents op.operation).1) sequential.initial

/-- An operation with the number was executed by some group. -/
def Executed (entries : List (Int × Command)) (client seqNum : Nat) : Prop :=
  ∃ op ∈ executed entries, op.clientID = client ∧ op.seqNum = seqNum

theorem Executed.append {entries : List (Int × Command)} {client seqNum : Nat}
    (present : Executed entries client seqNum) (entry : Int × Command) :
    Executed (entries ++ [entry]) client seqNum := by
  obtain ⟨op, member, same⟩ := present
  refine ⟨op, ?_, same⟩
  rw [executed_append]
  exact List.mem_append_left _ member

theorem Executed.append_list {client seqNum : Nat} (more : List (Int × Command)) {entries : List (Int × Command)}
    (present : Executed entries client seqNum) : Executed (entries ++ more) client seqNum := by
  induction more generalizing entries with
  | nil => simpa using present
  | cons entry more inductionHypothesis =>
    rw [List.append_cons]
    exact inductionHypothesis (present.append entry)

theorem contents_append (entries : List (Int × Command)) (gid : Int) (command : Command) :
    contents (entries ++ [(gid, command)]) =
      match (stateOf gid entries).executes command with
      | none => contents entries
      | some op => (sequential.step (contents entries) op.operation).1 := by
  unfold contents
  rw [executed_append]
  cases (stateOf gid entries).executes command <;> simp

theorem executes_eq_some {kv : GroupState} {command : Command} {op : Op} :
    kv.executes command = some op ↔ command = .kvOperation op ∧
      kv.shardsState (key2shard op.key) = .serving ∧ kv.store.lastSeq op.clientID < op.seqNum := by
  cases command with
  | kvOperation other =>
    simp only [GroupState.executes, Command.kvOperation.injEq]
    split
    · rename_i runs
      constructor
      · intro same
        cases same
        exact ⟨rfl, runs⟩
      · rintro ⟨rfl, _⟩
        rfl
    · rename_i skipped
      constructor
      · intro same
        cases same
      · rintro ⟨rfl, runs⟩
        exact absurd runs skipped
  | configOperation config => simp [GroupState.executes]
  | shardRequestOperation message => simp [GroupState.executes]
  | shardConfirmOperation message => simp [GroupState.executes]
  | noOperation => simp [GroupState.executes]

theorem GroupState.store_updateShardsState (gid : Int) (kv : GroupState) :
    (kv.updateShardsState gid).store = kv.store := by
  unfold GroupState.updateShardsState
  split <;> rfl

theorem GroupState.config_updateShardsState (gid : Int) (kv : GroupState) :
    (kv.updateShardsState gid).config = kv.config := by
  unfold GroupState.updateShardsState
  split <;> rfl

/-! ## Groups in the protocol -/

abbrev Data := GoString → Option GoString

abbrev Protocol := Migration.State Int Shard Nat Data

def scheme (controller : Controller) : Migration.Scheme Int Shard Data where
  owner := fun number shard => (controller.config number).shards shard
  empty := fun _ => none

/-- The part of a map that belongs to a shard. -/
def restrict (shard : Shard) (data : Data) : Data :=
  fun key => if key2shard key = shard then data key else none

def ShardState.phase : ShardState → Migration.Phase
  | .serving => .holding
  | .noServing => .absent
  | .pulling => .awaiting
  | .bePulled => .releasing

/-- The state of a group as the protocol sees it. -/
structure GroupRel (controller : Controller) (protocol : Protocol) (gid : Int) (kv : GroupState) :
    Prop where
  number : kv.config.num = protocol.number gid
  config : protocol.number gid ≠ 0 → kv.config = controller.config (protocol.number gid)
  prevConfig : 2 ≤ protocol.number gid → kv.prevConfig = controller.config (protocol.number gid - 1)
  phase : ∀ shard, protocol.phase gid shard = (kv.shardsState shard).phase
  data : ∀ shard, protocol.data gid shard = restrict shard kv.store.currentState
  session : ∀ client, protocol.session gid client = kv.store.lastSeq client

/-- The group took the configuration of the number, and was in the state afterwards. -/
def Entered (entries : List (Int × Command)) (gid : Int) (number : Nat) (kv : GroupState) : Prop :=
  ∃ prior config, prior ++ [(gid, .configOperation config)] <+: entries ∧
    (stateOf gid prior).config.num + 1 = number ∧
    kv = ((stateOf gid prior).apply gid (.configOperation config)).1 ∧ kv.config.num = number

/-- An entry of the group's log has made the shard `SERVING` in the configuration, with the data. -/
def Pulled (entries : List (Int × Command)) (gid : Int) (number : Nat) (shard : Shard) (data : Data) : Prop :=
  ∃ prior message, prior ++ [(gid, .shardRequestOperation message)] <+: entries ∧
    message.configNum = number ∧ message.shardIndex = shard ∧ message.shardData = data ∧
    (stateOf gid prior).config.num = number ∧ (stateOf gid prior).shardsState shard = .pulling

/-- The committed entries of all groups have brought the protocol to the state. -/
structure Mirrors (controller : Controller) (entries : List (Int × Command)) (protocol : Protocol) :
    Prop where
  invariant : Migration.Invariant (scheme controller) protocol
  groups : ∀ gid, GroupRel controller protocol gid (stateOf gid entries)
  truth : ∀ key, (protocol.truth (key2shard key) key).getD [] = contents entries key
  done : ∀ shard client seqNum, protocol.done shard client seqNum ↔
    ∃ op ∈ executed entries, op.clientID = client ∧ op.seqNum = seqNum ∧ key2shard op.key = shard
  handed : ∀ number shard data sessions, protocol.handoff number shard = some (data, sessions) →
    ∃ kv, Entered entries ((scheme controller).owner (number - 1) shard) number kv ∧
      data = restrict shard kv.store.currentState
  arrived : ∀ number shard, protocol.received number shard → ∃ data sessions,
    protocol.handoff number shard = some (data, sessions) ∧
      Pulled entries ((scheme controller).owner number shard) number shard data

/-- What a leader may propose.  A configuration is the next one of a group whose migrations are
complete, or an old one; shard data are what the old owner had when it gave the shard up. -/
def Legit (controller : Controller) (protocol : Protocol) (gid : Int) : Command → Prop
  | .kvOperation op =>
    (∀ number, 1 ≤ number → number < op.seqNum → ∃ place, protocol.done place op.clientID number) ∧
      ∀ place, protocol.done place op.clientID op.seqNum → place = key2shard op.key
  | .configOperation config =>
    ∃ number, 1 ≤ number ∧ config = controller.config number ∧ number ≤ protocol.number gid + 1 ∧
      (number = protocol.number gid + 1 → number = 1 ∨
        ∀ shard, protocol.phase gid shard = .holding ∨ protocol.phase gid shard = .absent)
  | .shardRequestOperation message =>
    message.configNum ≤ protocol.number gid ∧
      ∃ given, protocol.handoff message.configNum message.shardIndex = some (message.shardData, given) ∧
        (∀ client, given client ≤ (message.clientSeqNum client).getD 0) ∧
        ∀ client, (message.clientSeqNum client).getD 0 = 0 ∨
          ∃ place, protocol.done place client ((message.clientSeqNum client).getD 0)
  | .shardConfirmOperation message => message.configNum ≤ protocol.number gid
  | .noOperation => True

variable {controller : Controller} {entries : List (Int × Command)} {protocol : Protocol} {gid : Int}

theorem restrict_restrict (shard : Shard) (data : Data) :
    restrict shard (restrict shard data) = restrict shard data := by
  funext key
  simp only [restrict]
  split <;> rfl

theorem Entered.append {number : Nat} {kv : GroupState} (entered : Entered entries gid number kv)
    (entry : Int × Command) : Entered (entries ++ [entry]) gid number kv := by
  obtain ⟨prior, config, inside, rest⟩ := entered
  exact ⟨prior, config, inside.trans (List.prefix_append _ _), rest⟩

theorem Pulled.append {number : Nat} {shard : Shard} {data : Data} (pulled : Pulled entries gid number shard data)
    (entry : Int × Command) : Pulled (entries ++ [entry]) gid number shard data := by
  obtain ⟨prior, message, inside, rest⟩ := pulled
  exact ⟨prior, message, inside.trans (List.prefix_append _ _), rest⟩

theorem GroupRel.of_eq {before after : Protocol} {kv : GroupState} (rel : GroupRel controller before gid kv)
    (number : after.number gid = before.number gid)
    (phase : ∀ shard, after.phase gid shard = before.phase gid shard)
    (data : ∀ shard, after.data gid shard = before.data gid shard)
    (session : ∀ client, after.session gid client = before.session gid client) :
    GroupRel controller after gid kv where
  number := by rw [number]; exact rel.number
  config := by rw [number]; exact rel.config
  prevConfig := by rw [number]; exact rel.prevConfig
  phase := fun shard => (phase shard).trans (rel.phase shard)
  data := fun shard => (data shard).trans (rel.data shard)
  session := fun client => (session client).trans (rel.session client)

theorem GroupRel.serving_iff {kv : GroupState} (rel : GroupRel controller protocol gid kv) (shard : Shard) :
    kv.shardsState shard = .serving ↔ protocol.phase gid shard = .holding := by
  rw [rel.phase]
  cases kv.shardsState shard <;> simp [ShardState.phase]

theorem GroupRel.pulling_iff {kv : GroupState} (rel : GroupRel controller protocol gid kv) (shard : Shard) :
    kv.shardsState shard = .pulling ↔ protocol.phase gid shard = .awaiting := by
  rw [rel.phase]
  cases kv.shardsState shard <;> simp [ShardState.phase]

theorem GroupRel.bePulled_iff {kv : GroupState} (rel : GroupRel controller protocol gid kv) (shard : Shard) :
    kv.shardsState shard = .bePulled ↔ protocol.phase gid shard = .releasing := by
  rw [rel.phase]
  cases kv.shardsState shard <;> simp [ShardState.phase]

theorem Legit.mono {before after : Protocol} (extends_ : Extends before after) {command : Command}
    (notOperation : ∀ op, command ≠ .kvOperation op) (legit : Legit controller before gid command) :
    Legit controller after gid command := by
  have grows := extends_.number gid
  cases command with
  | kvOperation op => exact absurd rfl (notOperation op)
  | configOperation config =>
    obtain ⟨number, positive, same, bound, ready⟩ := legit
    refine ⟨number, positive, same, by omega, ?_⟩
    intro next
    -- The group is still in the configuration before, in which readiness does not end.
    have still : after.number gid = before.number gid := by omega
    refine (ready (by omega)).imp id ?_
    intro settled shard
    rcases extends_.phase gid shard still with same | ⟨waits, _⟩ | ⟨releases, _⟩
    · rw [same]
      exact settled shard
    · simpa [waits] using settled shard
    · simpa [releases] using settled shard
  | shardRequestOperation message =>
    obtain ⟨bound, given, offered, covers, sound⟩ := legit
    refine ⟨by omega, given, extends_.handoff _ _ _ offered, covers, ?_⟩
    intro client
    exact (sound client).imp id fun ⟨place, done⟩ => ⟨place, extends_.done _ _ _ done⟩
  | shardConfirmOperation message =>
    simp only [Legit] at legit ⊢
    omega
  | noOperation => trivial

/-! ## Every entry is a step or nothing -/

namespace Mirrors

theorem initial : Mirrors controller [] (Migration.initial (scheme controller)) where
  invariant := Migration.invariant_initial
  groups := by
    intro gid
    refine ⟨rfl, fun inside => absurd rfl inside, ?_, fun _ => rfl, ?_, fun _ => rfl⟩
    · intro inside
      simp [Migration.initial] at inside
    · intro shard
      funext key
      simp only [restrict]
      split <;> rfl
  truth := fun _ => rfl
  done := by simp [Migration.initial, executed]
  handed := by simp [Migration.initial]
  arrived := by simp [Migration.initial]

variable (mirrors : Mirrors controller entries protocol)
include mirrors

theorem supported {number : Nat} {shard : Shard} {data : Data}
    {sessions : Nat → Nat} (offered : protocol.handoff number shard = some (data, sessions)) :
    restrict shard data = data := by
  obtain ⟨kv, _, rfl⟩ := mirrors.handed number shard data sessions offered
  exact restrict_restrict shard _

theorem handed_append (entry : Int × Command) {number : Nat} {shard : Shard} {data : Data} {sessions : Nat → Nat}
    (offered : protocol.handoff number shard = some (data, sessions)) :
    ∃ kv, Entered (entries ++ [entry]) ((scheme controller).owner (number - 1) shard) number kv ∧
      data = restrict shard kv.store.currentState := by
  obtain ⟨kv, entered, same⟩ := mirrors.handed number shard data sessions offered
  exact ⟨kv, entered.append entry, same⟩

theorem arrived_append (entry : Int × Command) {number : Nat}
    {shard : Shard} (received : protocol.received number shard) : ∃ data sessions,
    protocol.handoff number shard = some (data, sessions) ∧
      Pulled (entries ++ [entry]) ((scheme controller).owner number shard) number shard data := by
  obtain ⟨data, sessions, offered, pulled⟩ := mirrors.arrived number shard received
  exact ⟨data, sessions, offered, pulled.append entry⟩

theorem groups_append {command : Command} {after : Protocol}
    (rel : GroupRel controller after gid ((stateOf gid entries).apply gid command).1)
    (frame : ∀ other, other ≠ gid → after.number other = protocol.number other ∧
      (∀ shard, after.phase other shard = protocol.phase other shard) ∧
      (∀ shard, after.data other shard = protocol.data other shard) ∧
      ∀ client, after.session other client = protocol.session other client) (other : Int) :
    GroupRel controller after other (stateOf other (entries ++ [(gid, command)])) := by
  by_cases here : other = gid
  · subst here
    rw [stateOf_append_self]
    exact rel
  · rw [stateOf_append_of_ne (Ne.symm here)]
    obtain ⟨number, phase, data, session⟩ := frame other here
    exact (mirrors.groups other).of_eq number phase data session

theorem unexecuted {command : Command} {after : Protocol} (invariant : Migration.Invariant (scheme controller) after)
    (rel : GroupRel controller after gid ((stateOf gid entries).apply gid command).1)
    (frame : ∀ other, other ≠ gid → after.number other = protocol.number other ∧
      (∀ shard, after.phase other shard = protocol.phase other shard) ∧
      (∀ shard, after.data other shard = protocol.data other shard) ∧
      ∀ client, after.session other client = protocol.session other client)
    (nothing : (stateOf gid entries).executes command = none)
    (truth : after.truth = protocol.truth) (done : after.done = protocol.done)
    (handed : ∀ number shard data sessions, after.handoff number shard = some (data, sessions) →
      ∃ kv, Entered (entries ++ [(gid, command)]) ((scheme controller).owner (number - 1) shard) number kv ∧
        data = restrict shard kv.store.currentState)
    (arrived : ∀ number shard, after.received number shard → ∃ data sessions,
      after.handoff number shard = some (data, sessions) ∧
        Pulled (entries ++ [(gid, command)]) ((scheme controller).owner number shard) number shard data) :
    Mirrors controller (entries ++ [(gid, command)]) after where
  invariant := invariant
  groups := mirrors.groups_append rel frame
  truth := by
    intro key
    rw [contents_append, nothing, truth]
    exact mirrors.truth key
  done := by
    intro shard client seqNum
    rw [executed_append, nothing, done]
    simpa using mirrors.done shard client seqNum
  handed := handed
  arrived := arrived

theorem silent {command : Command} (rel : GroupRel controller protocol gid ((stateOf gid entries).apply gid command).1)
    (nothing : (stateOf gid entries).executes command = none) :
    Mirrors controller (entries ++ [(gid, command)]) protocol :=
  mirrors.unexecuted mirrors.invariant rel
    (fun _ _ => ⟨rfl, fun _ => rfl, fun _ => rfl, fun _ => rfl⟩) nothing rfl rfl
    (fun _ _ _ _ offered => mirrors.handed_append _ offered)
    (fun _ _ received => mirrors.arrived_append _ received)

end Mirrors

/-! ### What an entry does to a group -/

theorem GroupState.apply_configOperation {kv : GroupState} {config : Config}
    (takes : kv.config.num = 0 ∨ config.num = kv.config.num + 1) :
    (kv.apply gid (.configOperation config)).1 =
      { kv with prevConfig := kv.config, config := config }.updateShardsState gid := by
  simp [GroupState.apply, takes]

theorem restrict_merge_self {shard : Shard} {mine theirs : Data} (vacant : restrict shard mine = fun _ => none)
    (supported : restrict shard theirs = theirs) :
    restrict shard (fun key => (theirs key).or (mine key)) = theirs := by
  funext key
  have mineAt := congrFun vacant key
  have theirsAt := congrFun supported key
  by_cases inside : key2shard key = shard
  · simp only [restrict, if_pos inside] at mineAt ⊢
    simp [mineAt]
  · simpa only [restrict, if_neg inside] using theirsAt

theorem restrict_merge_of_ne {shard other : Shard} {mine theirs : Data} (apart : other ≠ shard)
    (supported : restrict shard theirs = theirs) :
    restrict other (fun key => (theirs key).or (mine key)) = restrict other mine := by
  funext key
  by_cases inside : key2shard key = other
  · have outside : key2shard key ≠ shard := fun same => apart (inside.symm.trans same)
    have theirsAt := congrFun supported key
    simp only [restrict, if_neg outside] at theirsAt
    simp [restrict, inside, ← theirsAt]
  · simp [restrict, inside]

theorem GroupState.lastSeq_mergeClientSeqNum (kv : GroupState) (clientSeqNum : Nat → Option Nat) (client : Nat) :
    (kv.mergeClientSeqNum clientSeqNum).store.lastSeq client =
      max (kv.store.lastSeq client) ((clientSeqNum client).getD 0) := by
  cases arrives : clientSeqNum client with
  | none => simp [GroupState.mergeClientSeqNum, Store.lastSeq, arrives]
  | some value =>
    by_cases less : kv.store.lastSeq client < value
    · have newer : (kv.mergeClientSeqNum clientSeqNum).store.clientSeq client = some value := by
        simp [GroupState.mergeClientSeqNum, arrives, less]
      rw [Store.lastSeq, newer]
      exact (Nat.max_eq_right (Nat.le_of_lt less)).symm
    · have kept : (kv.mergeClientSeqNum clientSeqNum).store.clientSeq client = kv.store.clientSeq client := by
        simp [GroupState.mergeClientSeqNum, arrives, less]
      rw [Store.lastSeq, kept]
      exact (Nat.max_eq_left (Nat.not_lt.mp less)).symm

/-- The sequential store changes only at the key of the operation, and by what it has there. -/
theorem sequential_step_congr {first second : GoString → GoString} {key : GoString}
    (same : first key = second key) (operation : Operation) :
    (sequential.step first operation).1 key = (sequential.step second operation).1 key := by
  cases operation with
  | get place => exact same
  | put place value =>
    by_cases equal : key = place <;> simp [sequential, equal, same]
  | append place value =>
    by_cases equal : key = place
    · subst equal
      simp [sequential, same]
    · simp [sequential, equal, same]

theorem sequential_step_of_ne {contents : GoString → GoString} {op : Op} {key : GoString}
    (apart : key ≠ op.key) : (sequential.step contents op.operation).1 key = contents key := by
  obtain ⟨client, number, place, value, optype⟩ := op
  cases optype <;> simp_all [sequential, Op.operation]

theorem restrict_effect_self {op : Op} (data : Data) :
    restrict (key2shard op.key) (op.effect data) = op.effect (restrict (key2shard op.key) data) := by
  funext key
  obtain ⟨client, number, place, value, optype⟩ := op
  by_cases equal : key = place
  · subst equal
    cases optype <;> simp [restrict, Op.effect]
  · cases optype <;> simp [restrict, Op.effect, equal]

theorem restrict_effect_of_ne {op : Op} {shard : Shard} (apart : shard ≠ key2shard op.key) (data : Data) :
    restrict shard (op.effect data) = restrict shard data := by
  funext key
  obtain ⟨client, number, place, value, optype⟩ := op
  by_cases equal : key = place
  · subst equal
    simp [restrict, Ne.symm apart]
  · cases optype <;> simp [restrict, Op.effect, equal]

namespace Mirrors

variable (mirrors : Mirrors controller entries protocol)
include mirrors

theorem execute {op : Op} (serving : (stateOf gid entries).shardsState (key2shard op.key) = .serving)
    (fresh : (stateOf gid entries).store.lastSeq op.clientID < op.seqNum)
    (legit : Legit controller protocol gid (.kvOperation op)) :
    ∃ after, Extends protocol after ∧ Mirrors controller (entries ++ [(gid, .kvOperation op)]) after := by
  have rel := mirrors.groups gid
  have holding := (rel.serving_iff _).mp serving
  have unseen : protocol.session gid op.clientID < op.seqNum := by
    rw [rel.session]
    exact fresh
  have step : Migration.Step (scheme controller) protocol
      (protocol.execute gid (key2shard op.key) op.clientID op.seqNum op.effect) :=
    .execute gid _ _ _ _ holding unseen legit.1 legit.2
  have runs : (stateOf gid entries).executes (.kvOperation op) = some op :=
    executes_eq_some.mpr ⟨rfl, serving, fresh⟩
  have applied : ((stateOf gid entries).apply gid (.kvOperation op)).1 =
      { stateOf gid entries with store := ((stateOf gid entries).store.applyCommand op).1 } := by
    simp [GroupState.apply, serving]
  refine ⟨_, step.extends mirrors.invariant, mirrors.invariant.step step, ?_, ?_, ?_,
    fun _ _ _ _ offered => mirrors.handed_append _ offered,
    fun _ _ received => mirrors.arrived_append _ received⟩
  · apply mirrors.groups_append
    · rw [applied]
      refine ⟨rel.number, rel.config, rel.prevConfig, rel.phase, ?_, ?_⟩
      · intro shard
        simp only [Store.currentState_applyCommand, if_neg (Nat.not_le.mpr fresh)]
        by_cases here : shard = key2shard op.key
        · subst here
          simp [Migration.State.execute, restrict_effect_self, rel.data]
        · simp [Migration.State.execute, here, restrict_effect_of_ne here, rel.data]
      · intro client
        simp only [Store.lastSeq_applyCommand, Migration.State.execute, true_and, rel.session]
        split
        · rename_i same
          rw [same]
          omega
        · rfl
    · intro other apart
      simp [Migration.State.execute, apart]
  · -- the operation changes what is executed on its own shard only
    intro key
    rw [contents_append, runs]
    simp only [Migration.State.execute]
    by_cases here : key2shard key = key2shard op.key
    · rw [if_pos here]
      have effect := congrFun (op.getD_effect (protocol.truth (key2shard op.key))) key
      refine effect.trans (sequential_step_congr ?_ op.operation)
      rw [← here]
      exact mirrors.truth key
    · rw [if_neg here, sequential_step_of_ne (by rintro rfl; exact here rfl)]
      exact mirrors.truth key
  · intro shard client seqNum
    rw [executed_append, runs]
    simp only [Migration.State.execute, mirrors.done, Option.toList_some, List.mem_append, List.mem_singleton]
    constructor
    · rintro (⟨found, member, same⟩ | ⟨rfl, rfl, rfl⟩)
      · exact ⟨found, .inl member, same⟩
      · exact ⟨op, .inr rfl, rfl, rfl, rfl⟩
    · rintro ⟨found, member | rfl, sameClient, sameNumber, sameShard⟩
      · exact .inl ⟨found, member, sameClient, sameNumber, sameShard⟩
      · exact .inr ⟨sameShard.symm, sameClient.symm, sameNumber.symm⟩

/-- A client's operation at a group that does not serve its shard, or that has executed it. -/
theorem skip {op : Op} (skipped : (stateOf gid entries).shardsState (key2shard op.key) ≠ .serving ∨
      op.seqNum ≤ (stateOf gid entries).store.lastSeq op.clientID) :
    Mirrors controller (entries ++ [(gid, .kvOperation op)]) protocol := by
  have rel := mirrors.groups gid
  apply mirrors.silent
  · by_cases serving : (stateOf gid entries).shardsState (key2shard op.key) = .serving
    · have seen := skipped.resolve_left (fun notServing => notServing serving)
      simp only [GroupState.apply, serving, ne_eq, not_true_eq_false, if_false]
      -- a repetition opens a session at most, which has seen nothing
      refine ⟨rel.number, rel.config, rel.prevConfig, rel.phase, ?_, ?_⟩
      · intro shard
        simp only [Store.currentState_applyCommand, if_pos seen]
        exact rel.data shard
      · intro client
        simp only [Store.lastSeq_applyCommand]
        split
        · rename_i same
          subst same
          rw [Nat.max_eq_left seen]
          exact rel.session _
        · exact rel.session client
    · simpa [GroupState.apply, serving] using rel
  · cases runs : (stateOf gid entries).executes (.kvOperation op) with
    | none => rfl
    | some other =>
      obtain ⟨same, serving, fresh⟩ := executes_eq_some.mp runs
      cases same
      rcases skipped with notServing | seen
      · exact absurd serving notServing
      · omega

theorem kvOperation {op : Op} (legit : Legit controller protocol gid (.kvOperation op)) :
    ∃ after, Extends protocol after ∧ Mirrors controller (entries ++ [(gid, .kvOperation op)]) after := by
  by_cases serving : (stateOf gid entries).shardsState (key2shard op.key) = .serving
  · by_cases fresh : (stateOf gid entries).store.lastSeq op.clientID < op.seqNum
    · exact mirrors.execute serving fresh legit
    · exact ⟨protocol, .refl protocol, mirrors.skip (.inr (by omega))⟩
  · exact ⟨protocol, .refl protocol, mirrors.skip (.inl serving)⟩

theorem enter (outside : protocol.number gid = 0) :
    ∃ after, Extends protocol after ∧
      Mirrors controller (entries ++ [(gid, .configOperation (controller.config 1))]) after := by
  have rel := mirrors.groups gid
  have unset : (stateOf gid entries).config.num = 0 := by rw [rel.number, outside]
  have step : Migration.Step (scheme controller) protocol (protocol.enter (scheme controller) gid) :=
    .enter gid outside
  refine ⟨_, step.extends mirrors.invariant, ?_⟩
  apply mirrors.unexecuted (mirrors.invariant.step step) _ _ rfl rfl rfl
    (fun _ _ _ _ offered => mirrors.handed_append _ offered)
    (fun _ _ received => mirrors.arrived_append _ received)
  · rw [GroupState.apply_configOperation (.inl unset)]
    simp only [GroupState.updateShardsState, unset, if_true]
    refine ⟨?_, ?_, ?_, ?_, rel.data, rel.session⟩
    · simp [Migration.State.enter, controller.num_eq]
    · simp [Migration.State.enter]
    · simp [Migration.State.enter]
    · intro shard
      simp only [Migration.State.enter, true_and, scheme]
      split
      · rfl
      · exact rel.phase shard
  · intro other apart
    simp [Migration.State.enter, apart]

theorem advance (inside : 1 ≤ protocol.number gid)
    (settled : ∀ shard, protocol.phase gid shard = .holding ∨ protocol.phase gid shard = .absent) :
    ∃ after, Extends protocol after ∧
      Mirrors controller
        (entries ++ [(gid, .configOperation (controller.config (protocol.number gid + 1)))]) after := by
  have rel := mirrors.groups gid
  have set : (stateOf gid entries).config.num ≠ 0 := by
    rw [rel.number]
    omega
  have applied : ((stateOf gid entries).apply gid
      (.configOperation (controller.config (protocol.number gid + 1)))).1 = _ :=
    GroupState.apply_configOperation (.inr (by rw [controller.num_eq, rel.number]))
  have step : Migration.Step (scheme controller) protocol (protocol.advance (scheme controller) gid) :=
    .advance gid inside settled
  have further := step.extends mirrors.invariant
  refine ⟨_, further, ?_⟩
  apply mirrors.unexecuted (mirrors.invariant.step step) _ _ rfl rfl rfl
  · intro count shard data sessions offered
    simp only [Migration.State.advance] at offered
    split at offered
    · -- what the group has at this entry is what it hands over
      rename_i leaves
      cases offered
      refine ⟨((stateOf gid entries).apply gid
        (.configOperation (controller.config (protocol.number gid + 1)))).1, ?_, ?_⟩
      · rw [leaves.1, Nat.add_sub_cancel, leaves.2.1]
        refine ⟨entries, _, List.prefix_rfl, ?_, rfl, ?_⟩
        · rw [rel.number]
        · rw [applied, GroupState.config_updateShardsState, controller.num_eq]
      · rw [applied, GroupState.store_updateShardsState]
        exact rel.data shard
    · exact mirrors.handed_append _ offered
  · intro count shard received
    obtain ⟨data, sessions, offered, pulled⟩ := mirrors.arrived_append _ received
    exact ⟨data, sessions, further.handoff _ _ _ offered, pulled⟩
  · rw [applied]
    simp only [GroupState.updateShardsState, set, if_false]
    refine ⟨?_, ?_, ?_, ?_, rel.data, rel.session⟩
    · simp [Migration.State.advance, controller.num_eq]
    · simp [Migration.State.advance]
    · intro _
      simpa [Migration.State.advance] using rel.config (by omega)
    · -- the four cases of `updateShardsState` are the four next phases
      intro shard
      simp only [Migration.State.advance, if_true, Migration.State.nextPhase, scheme, rel.config (by omega)]
      by_cases owned : (controller.config (protocol.number gid)).shards shard = gid <;>
        by_cases owns : (controller.config (protocol.number gid + 1)).shards shard = gid <;>
        simp [owned, owns, ShardState.phase]
  · intro other apart
    simp [Migration.State.advance, apart]

theorem configOperation {config : Config} (legit : Legit controller protocol gid (.configOperation config)) :
    ∃ after, Extends protocol after ∧ Mirrors controller (entries ++ [(gid, .configOperation config)]) after := by
  have rel := mirrors.groups gid
  obtain ⟨number, positive, rfl, bound, ready⟩ := legit
  by_cases takes : (stateOf gid entries).config.num = 0 ∨
      (controller.config number).num = (stateOf gid entries).config.num + 1
  · rw [controller.num_eq, rel.number] at takes
    obtain rfl : number = protocol.number gid + 1 := by omega
    by_cases outside : protocol.number gid = 0
    · rw [outside]
      exact mirrors.enter outside
    · exact mirrors.advance (by omega) ((ready rfl).resolve_left (by omega))
  · refine ⟨protocol, .refl protocol, mirrors.silent ?_ rfl⟩
    simpa [GroupState.apply, takes] using rel

theorem shardRequestOperation {message : ShardRequestMsg}
    (legit : Legit controller protocol gid (.shardRequestOperation message)) :
    ∃ after, Extends protocol after ∧
      Mirrors controller (entries ++ [(gid, .shardRequestOperation message)]) after := by
  have rel := mirrors.groups gid
  obtain ⟨_, given, offered, covers, sound⟩ := legit
  have nothing : (stateOf gid entries).executes (.shardRequestOperation message) = none := rfl
  by_cases inTime : message.configNum = (stateOf gid entries).config.num ∧
      (stateOf gid entries).shardsState message.shardIndex = .pulling
  · obtain ⟨current, pulling⟩ := inTime
    have awaiting := (rel.pulling_iff _).mp pulling
    rw [rel.number] at current
    have step : Migration.Step (scheme controller) protocol
        (protocol.receive gid message.shardIndex message.shardData
          (fun client => (message.clientSeqNum client).getD 0)) :=
      .receive gid _ _ given _ awaiting (current ▸ offered) covers sound
    have applied : ((stateOf gid entries).apply gid (.shardRequestOperation message)).1 =
        ((stateOf gid entries).mergeShardData message.shardIndex message.shardData).mergeClientSeqNum
          message.clientSeqNum := by
      simp [GroupState.apply, rel.number, current, pulling]
    have further := step.extends mirrors.invariant
    refine ⟨_, further, ?_⟩
    apply mirrors.unexecuted (mirrors.invariant.step step) _ _ nothing rfl rfl
    · intro number shard data sessions handed
      exact mirrors.handed_append _ handed
    · rintro number shard (received | ⟨rfl, rfl⟩)
      · exact mirrors.arrived_append _ received
      · refine ⟨message.shardData, given, current ▸ offered, ?_⟩
        rw [(mirrors.invariant.awaiting_owner awaiting).2.1]
        exact ⟨entries, message, List.prefix_rfl, current, rfl, rfl, rel.number, pulling⟩
    · rw [applied]
      refine ⟨rel.number, rel.config, rel.prevConfig, ?_, ?_, ?_⟩
      · intro shard
        simp only [GroupState.mergeShardData, GroupState.mergeClientSeqNum, GroupState.setShardState,
          Migration.State.receive, true_and]
        by_cases here : shard = message.shardIndex
        · subst here
          simp [ShardState.phase]
        · simp [here, rel.phase]
      · intro shard
        -- The group has no keys of the shard before, and the data have no other keys.
        have mine : restrict message.shardIndex (stateOf gid entries).store.currentState = fun _ => none := by
          rw [← rel.data]
          exact mirrors.invariant.vacant _ _ (.inr awaiting)
        have theirs := mirrors.supported offered
        simp only [Migration.State.receive, true_and]
        by_cases here : shard = message.shardIndex
        · subst here
          rw [if_pos rfl]
          exact (restrict_merge_self mine theirs).symm
        · rw [if_neg here, rel.data]
          exact (restrict_merge_of_ne here theirs).symm
      · intro client
        rw [GroupState.lastSeq_mergeClientSeqNum]
        simp only [Migration.State.receive, if_true, rel.session]
        rfl
    · intro other apart
      simp [Migration.State.receive, apart]
  · refine ⟨protocol, .refl protocol, mirrors.silent ?_ nothing⟩
    by_cases current : message.configNum = (stateOf gid entries).config.num
    · have late : (stateOf gid entries).shardsState message.shardIndex ≠ .pulling :=
        fun pulling => inTime ⟨current, pulling⟩
      simpa [GroupState.apply, current, late] using rel
    · simpa [GroupState.apply, current] using rel

theorem shardConfirmOperation {message : ShardConfirmMsg} :
    ∃ after, Extends protocol after ∧
      Mirrors controller (entries ++ [(gid, .shardConfirmOperation message)]) after := by
  have rel := mirrors.groups gid
  have nothing : (stateOf gid entries).executes (.shardConfirmOperation message) = none := rfl
  by_cases inTime : message.configNum = (stateOf gid entries).config.num ∧
      (stateOf gid entries).shardsState message.shardIndex = .bePulled
  · obtain ⟨current, bePulled⟩ := inTime
    have releasing := (rel.bePulled_iff _).mp bePulled
    have step : Migration.Step (scheme controller) protocol
        (protocol.release (scheme controller) gid message.shardIndex) := .release gid _ releasing
    have applied : ((stateOf gid entries).apply gid (.shardConfirmOperation message)).1 =
        ((stateOf gid entries).setShardState message.shardIndex .noServing).deleteShard message.shardIndex := by
      simp [GroupState.apply, current, bePulled]
    refine ⟨_, step.extends mirrors.invariant, ?_⟩
    apply mirrors.unexecuted (mirrors.invariant.step step) _ _ nothing rfl rfl
      (fun _ _ _ _ offered => mirrors.handed_append _ offered)
      (fun _ _ received => mirrors.arrived_append _ received)
    · rw [applied]
      refine ⟨rel.number, rel.config, rel.prevConfig, ?_, ?_, rel.session⟩
      · intro shard
        simp only [GroupState.deleteShard, GroupState.setShardState, Migration.State.release, true_and]
        by_cases here : shard = message.shardIndex
        · subst here
          simp [ShardState.phase]
        · simp [here, rel.phase]
      · intro shard
        simp only [GroupState.deleteShard, GroupState.setShardState, Migration.State.release, true_and, rel.data]
        funext key
        by_cases here : shard = message.shardIndex
        · subst here
          by_cases inside : key2shard key = message.shardIndex <;> simp [restrict, scheme, inside]
        · by_cases inside : key2shard key = message.shardIndex
          · simp [restrict, here, inside, Ne.symm here]
          · simp [restrict, here, inside]
    · intro other apart
      simp [Migration.State.release, apart]
  · refine ⟨protocol, .refl protocol, mirrors.silent ?_ nothing⟩
    by_cases current : message.configNum = (stateOf gid entries).config.num
    · have late : (stateOf gid entries).shardsState message.shardIndex ≠ .bePulled :=
        fun bePulled => inTime ⟨current, bePulled⟩
      simpa [GroupState.apply, current, late] using rel
    · simpa [GroupState.apply, current] using rel

theorem commit {command : Command} (legit : Legit controller protocol gid command) :
    ∃ after, Extends protocol after ∧ Mirrors controller (entries ++ [(gid, command)]) after := by
  cases command with
  | kvOperation op => exact mirrors.kvOperation legit
  | configOperation config => exact mirrors.configOperation legit
  | shardRequestOperation message => exact mirrors.shardRequestOperation legit
  | shardConfirmOperation message => exact mirrors.shardConfirmOperation
  | noOperation => exact ⟨protocol, .refl protocol, mirrors.silent (mirrors.groups gid) rfl⟩

end Mirrors

end ShardedKV.ShardKV
