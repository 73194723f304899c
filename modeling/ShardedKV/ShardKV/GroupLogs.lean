import ShardedKV.KvRaft.Invariant
import ShardedKV.ShardKV.Refinement

/-!
# The logs of the groups and what clerks see of them

An entry that a state includes has no effect when it is applied to the state again.  A group that
serves a shard has what the executed operations make of it, so an answer of any group is an answer
of the one map.
-/

namespace ShardedKV.ShardKV

open Services
open ShardCtrler (Shard Config)
open KvRaft (Op Operation)

/-! ## Groups along their logs -/

/-- What no entry of a group's log undoes. -/
structure Stays (before after : GroupState) : Prop where
  number : before.config.num ≤ after.config.num
  pulling : after.config.num = before.config.num → ∀ shard, after.shardsState shard = .pulling →
    before.shardsState shard = .pulling
  bePulled : after.config.num = before.config.num → ∀ shard, after.shardsState shard = .bePulled →
    before.shardsState shard = .bePulled

theorem Stays.refl (kv : GroupState) : Stays kv kv :=
  ⟨le_refl _, fun _ _ same => same, fun _ _ same => same⟩

theorem Stays.setShardState {kv after : GroupState} {shard : Shard} {shardState : ShardState}
    (number : after.config.num = kv.config.num)
    (changed : after.shardsState = Function.update kv.shardsState shard shardState)
    (settled : shardState = .serving ∨ shardState = .noServing) : Stays kv after := by
  have old : ∀ other, after.shardsState other = .pulling ∨ after.shardsState other = .bePulled →
      after.shardsState other = kv.shardsState other := by
    intro other busy
    rw [changed] at busy ⊢
    by_cases here : other = shard
    · subst here
      rcases settled with rfl | rfl <;> simp at busy
    · rw [Function.update_of_ne here]
  refine ⟨by omega, ?_, ?_⟩
  · intro _ other pulling
    rw [← old other (.inl pulling), pulling]
  · intro _ other bePulled
    rw [← old other (.inr bePulled), bePulled]

theorem GroupState.stays_apply (gid : Int) (kv : GroupState) (command : Command) :
    Stays kv (kv.apply gid command).1 := by
  cases command with
  | kvOperation op =>
    dsimp only [GroupState.apply]
    split
    · exact .refl kv
    · exact ⟨le_refl _, fun _ _ same => same, fun _ _ same => same⟩
  | configOperation config =>
    dsimp only [GroupState.apply]
    split
    · rename_i takes
      change Stays kv (GroupState.updateShardsState gid { kv with prevConfig := kv.config, config := config })
      have number : (GroupState.updateShardsState gid
          { kv with prevConfig := kv.config, config := config }).config.num = config.num := by
        rw [GroupState.config_updateShardsState]
      by_cases outside : kv.config.num = 0
      · -- The first configuration only adds shards that are served.
        have served : ∀ shard, (GroupState.updateShardsState gid
            { kv with prevConfig := kv.config, config := config }).shardsState shard =
              if config.shards shard = gid then .serving else kv.shardsState shard := by
          intro shard
          simp [GroupState.updateShardsState, outside]
        refine ⟨by omega, ?_, ?_⟩
        · intro _ shard pulling
          rw [served] at pulling
          split at pulling
          · cases pulling
          · exact pulling
        · intro _ shard bePulled
          rw [served] at bePulled
          split at bePulled
          · cases bePulled
          · exact bePulled
      · have next := takes.resolve_left outside
        exact ⟨by omega, by omega, by omega⟩
    · exact .refl kv
  | shardRequestOperation message =>
    dsimp only [GroupState.apply]
    split
    · exact .refl kv
    split
    · exact .setShardState rfl rfl (.inl rfl)
    · exact .refl kv
  | shardConfirmOperation message =>
    dsimp only [GroupState.apply]
    split
    · exact .refl kv
    split
    · exact .setShardState rfl rfl (.inr rfl)
    · exact .refl kv
  | noOperation => exact .refl kv

/-- A message about a shard names a configuration that the group has reached. -/
def Timely (gid : Int) (before : List Command) : Command → Prop
  | .shardRequestOperation message => message.configNum ≤ ((machine gid).run before).config.num
  | .shardConfirmOperation message => message.configNum ≤ ((machine gid).run before).config.num
  | _ => True

/-- The message about a shard has no effect on the state, and will have none. -/
def Settled (kv : GroupState) : Command → Prop
  | .shardRequestOperation message => message.configNum ≤ kv.config.num ∧
      (kv.config.num = message.configNum → kv.shardsState message.shardIndex ≠ .pulling)
  | .shardConfirmOperation message => message.configNum ≤ kv.config.num ∧
      (kv.config.num = message.configNum → kv.shardsState message.shardIndex ≠ .bePulled)
  | _ => True

theorem Settled.stays {before after : GroupState} (stays : Stays before after) {command : Command}
    (settled : Settled before command) : Settled after command := by
  have number := stays.number
  cases command with
  | shardRequestOperation message =>
    obtain ⟨reached, quiet⟩ := settled
    refine ⟨by omega, ?_⟩
    intro current pulling
    exact quiet (by omega) (stays.pulling (by omega) _ pulling)
  | shardConfirmOperation message =>
    obtain ⟨reached, quiet⟩ := settled
    refine ⟨by omega, ?_⟩
    intro current bePulled
    exact quiet (by omega) (stays.bePulled (by omega) _ bePulled)
  | kvOperation op => trivial
  | configOperation config => trivial
  | noOperation => trivial

theorem settled_apply {gid : Int} {before : List Command} {command : Command}
    (timely : Timely gid before command) :
    Settled (((machine gid).run before).apply gid command).1 command := by
  cases command with
  | shardRequestOperation message =>
    simp only [Timely] at timely
    simp only [Settled, GroupState.apply]
    split
    · rename_i stale
      exact ⟨timely, fun current => absurd current.symm stale⟩
    split
    · exact ⟨timely, fun _ => by simp [GroupState.mergeClientSeqNum, GroupState.mergeShardData,
        GroupState.setShardState]⟩
    · rename_i quiet
      exact ⟨timely, fun _ => quiet⟩
  | shardConfirmOperation message =>
    simp only [Timely] at timely
    simp only [Settled, GroupState.apply]
    split
    · rename_i stale
      exact ⟨timely, fun current => absurd current.symm stale⟩
    split
    · exact ⟨timely, fun _ => by simp [GroupState.deleteShard, GroupState.setShardState]⟩
    · rename_i quiet
      exact ⟨timely, fun _ => quiet⟩
  | kvOperation op => trivial
  | configOperation config => trivial
  | noOperation => trivial

theorem Settled.apply_eq {gid : Int} {kv : GroupState} {command : Command} (settled : Settled kv command)
    (unchecked : Server.checksIndex command = false) : (kv.apply gid command).1 = kv := by
  cases command with
  | shardRequestOperation message =>
    simp only [GroupState.apply]
    split
    · rfl
    · rename_i current
      rw [if_neg (settled.2 (by omega))]
  | shardConfirmOperation message =>
    simp only [GroupState.apply]
    split
    · rfl
    · rename_i current
      rw [if_neg (settled.2 (by omega))]
  | kvOperation op => simp [Server.checksIndex] at unchecked
  | configOperation config => simp [Server.checksIndex] at unchecked
  | noOperation => rfl

theorem settled_of_included {gid : Int} {log : List Command} (timely : Justified (Timely gid) log)
    {position count : Nat} {command : Command} (found : log[position]? = some command) (included : position < count) :
    Settled ((machine gid).run (log.take count)) command := by
  induction count with
  | zero => omega
  | succ count inductionHypothesis =>
    cases next : log[count]? with
    | none =>
      have short : log.length ≤ count := List.getElem?_eq_none_iff.mp next
      have inside : position < log.length := (List.getElem?_eq_some_iff.mp found).1
      rw [List.take_of_length_le (by omega), ← List.take_of_length_le short]
      exact inductionHypothesis (by omega)
    | some other =>
      rw [List.take_add_one, next, Option.toList_some, (machine gid).run_append]
      by_cases last : position = count
      · subst last
        rw [found] at next
        cases next
        exact settled_apply (timely position command found)
      · exact (inductionHypothesis (by omega)).stays (GroupState.stays_apply gid _ other)

/-! ## Records -/

abbrev Records := Trace Operation (Option GoString) (Int × Command)

/-- The command was made for an invocation of its clerk, whose earlier numbers were all executed. -/
structure Issued (records : Records) (op : Op) : Prop where
  invoked : Record.invoke op.clientID op.seqNum op.operation ∈ records
  positive : 1 ≤ op.seqNum
  earlier : ∀ number, 1 ≤ number → number < op.seqNum → Executed records.committed op.clientID number

/-- A group that serves the shard of an operation has the contents of the shard, and its table
knows whether the operation was executed. -/
def UpToDate (entries : List (Int × Command)) (gid : Int) (op : Op) : Prop :=
  (stateOf gid entries).shardsState (key2shard op.key) = .serving →
    (∀ key, key2shard key = key2shard op.key → (stateOf gid entries).store.value key = contents entries key) ∧
      (op.seqNum ≤ (stateOf gid entries).store.lastSeq op.clientID ↔
        Executed entries op.clientID op.seqNum)

/-- The entry at some index of some group answers the request. -/
def AnsweredAt (entries : List (Int × Command)) (client seqNum : Nat) (ret : Option GoString) : Prop :=
  ∃ gid index op, (machine gid).output (entriesOf gid entries) index = some (some (.kvOperation op)) ∧
    op.clientID = client ∧ op.seqNum = seqNum ∧ op.ret = ret

/-- Why a record may follow the records before it. -/
def Explained (before : Records) : Record Operation (Option GoString) (Int × Command) → Prop
  | .invoke client seqNum _ => ∀ operation, Record.invoke client seqNum operation ∉ before
  | .commit (gid, command) => ∀ op, command = .kvOperation op →
      Issued before op ∧ UpToDate before.committed gid op
  | .respond client seqNum ret =>
    (∀ ret', Record.respond client seqNum ret' ∉ before) ∧ AnsweredAt before.committed client seqNum ret

theorem Explained.newNumber {before : Records} {record : Record Operation (Option GoString) (Int × Command)}
    (explained : Explained before record) : Trace.NewNumber before record := by
  cases record with
  | invoke client seqNum operation => exact explained
  | commit entry => trivial
  | respond client seqNum ret => exact explained.1

theorem numbered {records : Records} (explained : Justified Explained records) :
    Justified Trace.NewNumber records :=
  explained.imp fun _ _ reason => reason.newNumber

variable {controller : Controller} {protocol : Protocol} {gid : Int}

theorem entriesOf_append (gid : Int) (entries more : List (Int × Command)) :
    entriesOf gid (entries ++ more) = entriesOf gid entries ++ entriesOf gid more := by
  simp [entriesOf]

theorem System.log_commit (system : System) (gid place : Int) (command : Command) :
    System.log { system with records := system.records ++ [.commit (place, command)] } gid =
      system.log gid ++ if place = gid then [command] else [] := by
  simp only [System.log, Trace.committed_commit, entriesOf_append]
  by_cases here : place = gid <;> simp [entriesOf, here]

theorem Issued.append {records : Records} {op : Op} (issued : Issued records op)
    (record : Record Operation (Option GoString) (Int × Command)) : Issued (records ++ [record]) op where
  invoked := List.mem_append_left _ issued.invoked
  positive := issued.positive
  earlier := by
    intro number positive less
    have before := issued.earlier number positive less
    cases record with
    | invoke client seqNum operation => simpa using before
    | commit entry => simpa using before.append entry
    | respond client seqNum ret => simpa using before

/-! ## Executed operations -/

theorem mem_executed {entries : List (Int × Command)} {op : Op} (member : op ∈ executed entries) :
    ∃ (t : Nat) (gid : Int), entries[t]? = some (gid, .kvOperation op) ∧
      (stateOf gid (entries.take t)).executes (.kvOperation op) = some op := by
  simp only [executed, List.mem_filterMap, Option.bind_eq_some_iff] at member
  obtain ⟨t, _, ⟨gid, command⟩, here, runs⟩ := member
  obtain ⟨rfl, _⟩ := executes_eq_some.mp runs
  exact ⟨t, gid, here, runs⟩

theorem invoked_of_mem_executed {records : Records} (explained : Justified Explained records) {op : Op}
    (member : op ∈ executed records.committed) :
    Record.invoke op.clientID op.seqNum op.operation ∈ records := by
  obtain ⟨t, gid, here, _⟩ := mem_executed member
  obtain ⟨u, committed⟩ := Trace.mem_committed.mp (List.mem_of_getElem? here)
  exact List.mem_of_mem_take ((explained u _ committed) op rfl).1.invoked

theorem operation_key_eq {first second : Op} (same : first.operation = second.operation) :
    first.key = second.key := by
  obtain ⟨client, number, key, value, optype⟩ := first
  obtain ⟨client', number', key', value', optype'⟩ := second
  cases optype <;> cases optype' <;> simp_all [Op.operation]

theorem Issued.legit {records : Records} (explained : Justified Explained records)
    (mirrors : Mirrors controller records.committed protocol) {op : Op} (issued : Issued records op) :
    Legit controller protocol gid (.kvOperation op) := by
  refine ⟨?_, ?_⟩
  · intro number positive less
    obtain ⟨other, member, sameClient, sameNumber⟩ := issued.earlier number positive less
    exact ⟨key2shard other.key, (mirrors.done _ _ _).mpr ⟨other, member, sameClient, sameNumber, rfl⟩⟩
  · intro place done
    obtain ⟨other, member, sameClient, sameNumber, rfl⟩ := (mirrors.done _ _ _).mp done
    -- One number has one invocation, so the two commands have one key.
    have invoked := invoked_of_mem_executed explained member
    rw [sameClient, sameNumber] at invoked
    rw [operation_key_eq (Trace.operation_unique (numbered explained) invoked issued.invoked)]

theorem Issued.upToDate {records : Records} (explained : Justified Explained records)
    (mirrors : Mirrors controller records.committed protocol) {op : Op} (issued : Issued records op) :
    UpToDate records.committed gid op := by
  intro serving
  have rel := mirrors.groups gid
  have holding := (rel.serving_iff _).mp serving
  have legit : Legit controller protocol gid (.kvOperation op) := issued.legit explained mirrors
  refine ⟨?_, ?_⟩
  · intro key inside
    have current := congrFun (mirrors.invariant.current gid _ holding).data_eq key
    rw [rel.data, restrict, if_pos inside, ← inside] at current
    rw [← mirrors.truth, ← current]
    rfl
  · rw [← rel.session, mirrors.invariant.le_session_iff holding issued.positive legit.2, mirrors.done]
    constructor
    · rintro ⟨other, member, sameClient, sameNumber, _⟩
      exact ⟨other, member, sameClient, sameNumber⟩
    · rintro ⟨other, member, sameClient, sameNumber⟩
      refine ⟨other, member, sameClient, sameNumber, ?_⟩
      exact legit.2 _ ((mirrors.done _ _ _).mpr ⟨other, member, sameClient, sameNumber, rfl⟩)

/-! ## Answers -/

theorem apply_kvOperation_output {kv : GroupState} {command : Command} {op : Op}
    (output : (kv.apply gid command).2 = some (.kvOperation op)) :
    ∃ entry, command = .kvOperation entry ∧ kv.shardsState (key2shard entry.key) = .serving ∧
      (kv.store.applyCommand entry).2 = op := by
  cases command with
  | kvOperation entry =>
    simp only [GroupState.apply] at output
    split at output
    · cases output
    · rename_i serving
      simp only [Option.some.injEq, Command.kvOperation.injEq] at output
      exact ⟨entry, rfl, by simpa using serving, output⟩
  | configOperation config =>
    simp only [GroupState.apply] at output
    split at output <;> cases output
  | shardRequestOperation message =>
    simp only [GroupState.apply] at output
    split at output
    · cases output
    split at output <;> cases output
  | shardConfirmOperation message =>
    simp only [GroupState.apply] at output
    split at output
    · cases output
    split at output <;> cases output
  | noOperation => cases output

theorem exists_moment {records : Records} {position : Nat} {command : Command}
    (found : (entriesOf gid records.committed)[position]? = some command) :
    ∃ t : Nat, records[t]? = some (.commit (gid, command)) ∧
      entriesOf gid (Trace.committed (records.take t)) = (entriesOf gid records.committed).take position := by
  obtain ⟨moment, ⟨group, other⟩, here, chosen, before⟩ := exists_selected found
  simp only [Option.ite_none_right_eq_some, Option.some.injEq] at chosen
  obtain ⟨rfl, rfl⟩ := chosen
  obtain ⟨t, committed, same⟩ := Trace.exists_commit here
  refine ⟨t, committed, ?_⟩
  rw [same]
  exact before

theorem exists_answer {records : Records} {index : Nat} {op : Op}
    (output : (machine gid).output (entriesOf gid records.committed) index = some (some (.kvOperation op))) :
    ∃ (t : Nat) (entry : Op), records[t]? = some (.commit (gid, .kvOperation entry)) ∧
      (stateOf gid (Trace.committed (records.take t))).shardsState (key2shard entry.key) = .serving ∧
      ((stateOf gid (Trace.committed (records.take t))).store.applyCommand entry).2 = op := by
  obtain ⟨position, command, _, found, produced⟩ := (machine gid).output_eq_some.mp output
  obtain ⟨t, committed, before⟩ := exists_moment found
  obtain ⟨entry, rfl, serving, applied⟩ := apply_kvOperation_output produced
  rw [← before] at serving applied
  exact ⟨t, entry, committed, serving, applied⟩

theorem applyCommand_kind {store : KvRaft.Store} {entry op : Op} (applied : (store.applyCommand entry).2 = op) :
    entry.clientID = op.clientID ∧ entry.seqNum = op.seqNum ∧ entry.optype = op.optype := by
  rw [KvRaft.Store.applyCommand_snd] at applied
  subst applied
  split <;> simp_all

theorem AnsweredAt.executed {records : Records} (explained : Justified Explained records) {client seqNum : Nat}
    {ret : Option GoString} (answered : AnsweredAt records.committed client seqNum ret) :
    Executed records.committed client seqNum := by
  obtain ⟨gid, index, op, output, rfl, rfl, _⟩ := answered
  obtain ⟨t, entry, committed, serving, applied⟩ := exists_answer output
  obtain ⟨sameClient, sameNumber, _⟩ := applyCommand_kind applied
  rw [← sameClient, ← sameNumber]
  rw [Trace.committed_split records (t + 1)]
  apply Executed.append_list
  rw [Trace.committed_take_succ committed]
  obtain ⟨_, known⟩ := ((explained t _ committed) entry rfl).2 serving
  by_cases seen : entry.seqNum ≤
      (stateOf gid (Trace.committed (records.take t))).store.lastSeq entry.clientID
  · exact (known.mp seen).append _
  · refine ⟨entry, ?_, rfl, rfl⟩
    simp only [Record.entry, Option.toList_some]
    rw [executed_append, executes_eq_some.mpr ⟨rfl, serving, by omega⟩]
    simp

end ShardedKV.ShardKV
