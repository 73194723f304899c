import ShardedKV.ShardKV.Deployment

/-!
# The deployment refines the groups over their logs

What the apply loops of a group read is one log, and what the servers are told by the controller are
the configurations of the controller's one log.  So the groups of a deployment behave as over agreed
logs, under any controller that hands out these configurations.
-/

/-! ## What the controller tells -/

namespace ShardedKV.ShardCtrler

open Services

theorem IsConfiguration.mono {log longer : List Op} (begins : log <+: longer) {number : Nat} {config : Config}
    (made : IsConfiguration log number config) : IsConfiguration longer number config := by
  obtain ⟨count, sc, replayed, member⟩ := made.reached
  obtain ⟨place, found⟩ := List.mem_iff_getElem?.mp member
  obtain rfl : place = number := (num_eq_of_getElem? replayed found).symm.trans made.num
  rw [List.prefix_iff_eq_take.mp begins, List.take_take] at replayed
  exact isConfiguration_of_getElem? replayed found

theorem IsConfiguration.eq {log : List Op} {number : Nat} {config other : Config}
    (made : IsConfiguration log number config) (isOther : IsConfiguration log number other) : other = config := by
  obtain ⟨count, sc, replayed, member⟩ := isOther.reached
  exact made.unique count sc other replayed member isOther.num

variable {n : Nat} {system : System n} {client seqNum : Nat} {newConfig : Config}

theorem Consistent.made (consistent : Consistent system) {t : Nat}
    (answered : system.records[t]? = some (.respond client seqNum (some newConfig))) :
    ∃ index sc, index ≤ (Trace.committed (system.records.take t)).length ∧
      replay (system.log.take index) = some sc ∧ newConfig.num < sc.configs.list.length := by
  obtain ⟨_, sc, index, inside, replayed, -, answer⟩ := consistent.read answered
  obtain ⟨place, found⟩ := List.mem_iff_getElem?.mp (Configs.getConfig_mem answer)
  refine ⟨index, sc, inside, replayed, ?_⟩
  rw [num_eq_of_getElem? replayed found]
  exact (List.getElem?_eq_some_iff.mp found).1

theorem Consistent.isConfiguration (consistent : Consistent system)
    (answered : Record.respond client seqNum (some newConfig) ∈ system.records) {number : Nat}
    (known : number ≤ newConfig.num) : ∃ config, IsConfiguration system.log number config := by
  obtain ⟨t, found⟩ := List.mem_iff_getElem?.mp answered
  obtain ⟨index, sc, -, replayed, bound⟩ := consistent.made found
  exact ⟨_, isConfiguration_of_getElem? replayed (List.getElem?_eq_getElem (Nat.lt_of_le_of_lt known bound))⟩

/-- A `Query` for a number that was already answered returns the configuration with this number. -/
theorem Consistent.fetched (consistent : Consistent system) {since client' seqNum' number : Nat} {config : Config}
    (answered : Record.respond client seqNum (some newConfig) ∈ system.records.take since)
    (invoked : Record.invoke client' seqNum' (.query number) ∈ system.records.drop since)
    (returned : Record.respond client' seqNum' (some config) ∈ system.records) (known : number ≤ newConfig.num) :
    IsConfiguration system.log number config := by
  obtain ⟨t, answered⟩ := List.mem_iff_getElem?.mp answered
  obtain ⟨early, answered⟩ := getElem?_take_eq_some.mp answered
  obtain ⟨u, invoked⟩ := List.mem_iff_getElem?.mp invoked
  rw [List.getElem?_drop] at invoked
  obtain ⟨v, returned⟩ := List.mem_iff_getElem?.mp returned
  obtain ⟨index, sc, inside, replayed, bound⟩ := consistent.made answered
  obtain ⟨args, sc', index', inside', replayed', member, answer⟩ := consistent.read returned
  obtain ⟨position, found⟩ := List.mem_iff_getElem?.mp member
  obtain ⟨reached, found⟩ := getElem?_take_eq_some.mp found
  obtain ⟨rfl, after⟩ := consistent.committed_after invoked found
  have grown := Trace.length_committed_take_le system.records (show t ≤ since + u by omega)
  have begins : system.log.take index <+: system.log.take index' := List.take_prefix_take_left (by omega)
  have here : number < sc.configs.list.length := by omega
  have kept := getElem?_of_replay begins replayed replayed' (List.getElem?_eq_getElem here)
  refine isConfiguration_of_getElem? replayed' (kept.trans ?_)
  have asked := sc'.configs.getConfig_of_lt kept
  exact asked.symm.trans answer

end ShardedKV.ShardCtrler

namespace ShardedKV.ShardKV

open Services
open Linearizability (Linearizable)
open Raft (Cluster Feeds)
open ShardCtrler (IsConfiguration)
open KvRaft (sequential)

theorem configOf_eq_some_iff {log : List ShardCtrler.Op} {number : Nat} {config : ShardCtrler.Config} :
    configOf log number = some config ↔ IsConfiguration log number config := by
  have sound : ∀ other, configOf log number = some other → IsConfiguration log number other := by
    intro other found
    obtain ⟨count, -, found⟩ := List.exists_of_findSome?_eq_some found
    obtain ⟨sc, replayed, here⟩ := Option.bind_eq_some_iff.mp found
    exact ShardCtrler.isConfiguration_of_getElem? replayed here
  refine ⟨sound config, fun made => ?_⟩
  obtain ⟨count, sc, replayed, member⟩ := made.reached
  cases found : configOf log number with
  | some other => rw [made.eq (sound other found)]
  | none =>
    obtain ⟨place, here⟩ := List.mem_iff_getElem?.mp member
    obtain rfl : place = number := (ShardCtrler.num_eq_of_getElem? replayed here).symm.trans made.num
    have missing := List.findSome?_eq_none_iff.mp found (min count log.length) (by simp)
    rw [← List.take_eq_take_min, replayed, Option.bind_some, here] at missing
    cases missing

/-- The controller hands out what the log of its servers makes. -/
def Follows (controller : Controller) (log : List ShardCtrler.Op) : Prop :=
  ∀ number config, IsConfiguration log number config → controller.config number = config

theorem exists_follows (log : List ShardCtrler.Op) (groups : List (Int × List ShardCtrler.ServerName)) :
    ∃ controller, Follows controller log ∧
      ∀ number, configOf log number = none → controller.config number = { num := number, groups } := by
  refine ⟨⟨fun number => (configOf log number).getD { num := number, groups }, fun number => ?_⟩,
    fun number config made => ?_, fun number unmade => ?_⟩
  · cases found : configOf log number with
    | none => rfl
    | some config => exact (configOf_eq_some_iff.mp found).num
  · simp only [configOf_eq_some_iff.mpr made, Option.getD_some]
  · simp only [unmade, Option.getD_none]

/-! ## The groups -/

variable {controller : Controller} {system after : System} {gid : Int}

theorem System.Reachable.step {action : System.Action} (reached : System.Reachable controller system)
    (stepped : system.step controller action = some after) : System.Reachable controller after := by
  obtain ⟨actions, ran⟩ := reached
  refine ⟨actions ++ [action], ?_⟩
  rw [System.run_eq] at ran ⊢
  rw [Transitions.run_append, ran, Option.bind_some, Transitions.run, stepped]
  rfl

theorem position_setReplica (system : System) (gid : Int) (name : ShardCtrler.ServerName) (changed : Replica)
    (same : changed.position = (system.replica gid name).position) (place : Int) (other : ShardCtrler.ServerName) :
    ((system.setReplica gid name changed).replica place other).position = (system.replica place other).position := by
  by_cases here : place = gid
  · subst here
    by_cases equal : other = name
    · subst equal
      simp [System.setReplica, same]
    · simp [System.setReplica, Function.update_of_ne equal]
  · simp [System.setReplica, Function.update_of_ne here]

/-- Nothing has happened to the logs or to the apply loops. -/
structure LogFree (system after : System) : Prop where
  log : ∀ gid, after.log gid = system.log gid
  snapshots : after.snapshots = system.snapshots
  position : ∀ gid name, (after.replica gid name).position = (system.replica gid name).position

theorem System.step_logFree {action : System.Action} (aboveRaft : action.aboveRaft = true)
    (stepped : system.step controller action = some after) : LogFree system after := by
  have committed : after.records.committed = system.records.committed := by
    refine System.step_committed stepped ?_
    rintro gid position rfl
    cases aboveRaft
  refine ⟨fun gid => by rw [System.log, committed, System.log], ?_, ?_⟩
  all_goals
    cases action with
    | start | commit | deliver | redeliver | install | restart | getLastConfig | raftLogChecker => cases aboveRaft
    | _ =>
      simp only [step, invoke, send, giveUp, receive, recheck, register, timeout, answer, cleanup, push, collect, spawn,
        servePull, finishPull, losePull, serveConfirm, finishConfirm, loseConfirm] at stepped
      repeat' split at stepped
      all_goals cases stepped
      all_goals first | rfl | exact fun _ _ => rfl | (refine position_setReplica system _ _ _ ?_; rfl)

theorem System.mem_propose {place : Int} {command other : Command} (member : command ∈ system.proposed place) :
    command ∈ (system.propose gid other).proposed place := by
  simp only [System.propose, Function.update_apply]
  split
  · rename_i here
    subst here
    exact List.mem_append_left _ member
  · exact member

theorem System.start_logFree {id index : Nat} {isLeader : Bool} {call : Call} (located : system.calls[id]? = some call)
    (stepped : system.start id isLeader index = some after) :
    LogFree system after ∧ (isLeader = true →
      (system.replica call.gid call.server).server.kv.isWrongGroup call.gid (key2shard call.request.op.key) = false →
      .kvOperation call.request.op ∈ after.proposed call.gid) := by
  simp only [System.start, located] at stepped
  repeat' split at stepped
  · cases stepped
  · rename_i notLeader
    cases stepped
    exact ⟨⟨fun _ => rfl, rfl, fun _ _ => rfl⟩, fun isLeader => by simp [isLeader] at notLeader⟩
  · rename_i wrongGroup
    cases stepped
    exact ⟨⟨fun _ => rfl, rfl, fun _ _ => rfl⟩, fun _ rightGroup => by simp [rightGroup] at wrongGroup⟩
  · cases stepped
    exact ⟨⟨fun _ => rfl, rfl, fun _ _ => rfl⟩, fun _ _ => by simp [System.propose]⟩

theorem System.step_unasked {action : System.Action} (aboveRaft : action.aboveRaft = true) :
    system.step controller action = system.step .unasked action := by
  cases action <;> first | rfl | cases aboveRaft

theorem Server.applyHandler_included (gid : Int) (kv : Server) (commandIndex : Nat) (command : Command) :
    (kv.applyHandler gid commandIndex command).1.lastIncludedIndex = kv.lastIncludedIndex := by
  unfold Server.applyHandler
  split <;> rfl

section Handling

variable {name : ShardCtrler.ServerName} {command : Command}

/-- What handling a command does to the position of the apply loop and to the snapshots. -/
theorem System.handle_eq (system : System) (gid : Int) (name : ShardCtrler.ServerName) (commandIndex : Nat)
    (command : Command) (takes : Bool) :
    ∃ changed kv, system.handle gid name commandIndex command takes = { system.setReplica gid name changed with
        snapshots := if takes then
          Function.update system.snapshots gid (system.snapshots gid ++ [(commandIndex, kv)]) else system.snapshots } ∧
      changed.position = ⟨max (system.replica gid name).applied commandIndex,
        (system.replica gid name).position.included,
        if takes then commandIndex else (system.replica gid name).position.stored⟩ := by
  have included := Server.applyHandler_included gid (system.replica gid name).server commandIndex command
  simp only [System.handle]
  generalize Server.applyHandler gid (system.replica gid name).server commandIndex command = result at included ⊢
  cases takes with
  | false => exact ⟨_, result.1.kv, rfl, by simp [Replica.position, included]⟩
  | true => exact ⟨_, result.1.kv, rfl, by simp [Replica.position, included]⟩

theorem System.deliver_eq (ready : ¬ ((system.replica gid name).stopped ∨ (system.replica gid name).sending.isSome))
    (found : (system.log gid)[(system.replica gid name).applied]? = some command) (takeSnapshot : Bool) :
    system.deliver gid name takeSnapshot = some (system.handle gid name ((system.replica gid name).applied + 1) command
      (takeSnapshot && ((system.replica gid name).server.applyHandler gid
        ((system.replica gid name).applied + 1) command).2.isSome)) := by
  have unsent : (system.replica gid name).sending = none := by
    simp only [not_or, Bool.not_eq_true, Option.isSome_eq_false_iff, Option.isNone_iff_eq_none] at ready
    exact ready.2
  have moved : max (system.replica gid name).applied ((system.replica gid name).applied + 1) =
      (system.replica gid name).applied + 1 := by omega
  simp only [System.deliver, found, if_neg ready, System.handle, moved]
  cases handled : (system.replica gid name).server.applyHandler gid ((system.replica gid name).applied + 1) command with
  | mk kv message =>
    cases message with
    | none => simp [unsent]
    | some message =>
      have sends : ∀ waiting : Option Nat, waiting.map (fun channel => (channel, message)) =
          waiting.bind fun channel => some (channel, message) := fun waiting => by rw [Option.map_eq_bind]; rfl
      cases takeSnapshot <;> simp [sends]

theorem System.redeliver_eq {commandIndex : Nat}
    (ready : ¬ ((system.replica gid name).stopped ∨ (system.replica gid name).sending.isSome))
    (positive : 0 < commandIndex) (covered : commandIndex ≤ (system.replica gid name).server.lastIncludedIndex)
    (applied : commandIndex ≤ (system.replica gid name).applied)
    (found : (system.log gid)[commandIndex - 1]? = some command) :
    system.redeliver gid name commandIndex = some (system.handle gid name commandIndex command false) := by
  rw [not_or] at ready
  simp only [System.redeliver, found, System.handle, max_eq_left applied]
  exact if_neg (by simp [ready.1, ready.2, covered, Nat.pos_iff_ne_zero.mp positive])

end Handling

theorem System.log_agree (system : System) (gid place : Int) (commandIndex : Nat) (command : Command) :
    (system.agree place commandIndex command).log gid =
      if place = gid ∧ commandIndex = (system.log gid).length + 1 then system.log gid ++ [command]
      else system.log gid := by
  unfold System.agree
  split
  · rename_i isNext
    rw [System.log_commit]
    by_cases here : place = gid
    · subst here
      simp [isNext]
    · simp [here]
  · rename_i isKnown
    rw [if_neg]
    rintro ⟨rfl, isNext⟩
    exact isKnown isNext

theorem System.agree_eq (system : System) (gid : Int) (commandIndex : Nat) (command : Command) :
    ∃ records, system.agree gid commandIndex command = { system with records } := by
  unfold System.agree
  split
  · exact ⟨_, rfl⟩
  · exact ⟨_, rfl⟩

/-! ## The relation -/

variable {n : Int → Nat} {m : Nat} {deployment next : Deployment n m} {server : Fin (n gid)}

/-- The configuration a goroutine of `getLastConfig` waits for is made, and proposed. -/
structure Fetching (deployment : Deployment n m) (fetch : Fetch n) : Prop where
  answered : ∃ client seqNum newConfig, fetch.target ≤ ShardCtrler.Config.num newConfig ∧
    Record.respond client seqNum (some newConfig) ∈ deployment.ctrler.system.records.take fetch.since
  proposed : ∀ config, IsConfiguration deployment.ctrler.system.log fetch.target config →
    .configOperation config ∈ deployment.system.proposed fetch.gid

structure Refines (deployment : Deployment n m) : Prop where
  ctrler : ∃ state position, ShardCtrler.Refines deployment.ctrler state position
  reachable : ∀ controller, Follows controller deployment.ctrler.system.log →
    System.Reachable controller deployment.system
  feeds : ∀ gid, ∃ state, Feeds state (deployment.cluster gid) (deployment.system.log gid) (deployment.position gid)
    (deployment.received gid)
  started : ∀ gid index term command, (index, term, command) ∈ (deployment.cluster gid).started →
    command ∈ deployment.system.proposed gid
  archived : ∀ gid taker index data, (taker, index, data) ∈ (deployment.cluster gid).taken →
    ∃ kv, (index, kv) ∈ deployment.system.snapshots gid
  starting : ∀ proposal ∈ deployment.starting, proposal.command ∈ deployment.system.proposed proposal.gid
  fetching : ∀ fetch ∈ deployment.fetching, Fetching deployment fetch

theorem refines_initial : Refines ({} : Deployment n m) where
  ctrler := ⟨_, _, ShardCtrler.refines_initial⟩
  reachable := fun _ _ => ⟨[], rfl⟩
  feeds := fun _ => ⟨_, Raft.feeds_initial⟩
  started := by simp [Cluster.initial]
  archived := by simp [Cluster.initial]
  starting := by simp
  fetching := by simp

/-- A step of one group that proposes nothing. -/
structure Local (gid : Int) (system after : System) : Prop where
  proposed : after.proposed = system.proposed
  log : ∀ other, other ≠ gid → after.log other = system.log other
  replica : ∀ other, other ≠ gid → after.replica other = system.replica other
  snapshots : ∀ other, other ≠ gid → after.snapshots other = system.snapshots other

theorem Local.refl (gid : Int) (system : System) : Local gid system system :=
  ⟨rfl, fun _ _ => rfl, fun _ _ => rfl, fun _ _ => rfl⟩

theorem Local.setReplica (system : System) (gid : Int) (name : ShardCtrler.ServerName) (changed : Replica) :
    Local gid system (system.setReplica gid name changed) :=
  ⟨rfl, fun _ _ => rfl, fun _ different => Function.update_of_ne different .., fun _ _ => rfl⟩

theorem Local.agree (system : System) (gid : Int) (commandIndex : Nat) (command : Command) :
    Local gid system (system.agree gid commandIndex command) := by
  have log := fun other => system.log_agree other gid commandIndex command
  obtain ⟨records, agreed⟩ := system.agree_eq gid commandIndex command
  rw [agreed] at log ⊢
  exact ⟨rfl, fun other different => (log other).trans (if_neg fun same => different same.1.symm), fun _ _ => rfl,
    fun _ _ => rfl⟩

theorem Deployment.position_setReplica (deployment : Deployment n m) {changed : Replica} {moved : Raft.Position}
    (isMoved : changed.position = moved) :
    (fun other : Fin (n gid) => ((deployment.system.setReplica gid server changed).replica gid other).position) =
      Function.update (deployment.position gid) server moved := by
  funext other
  simp only [System.setReplica, Function.update_self]
  by_cases equal : other = server
  · subst equal
    rw [Function.update_self, Function.update_self, isMoved]
  · rw [Function.update_of_ne equal, Function.update_of_ne (Fin.val_ne_of_ne equal)]
    rfl

@[simp] theorem Deployment.idle_iff : deployment.idle gid server = true ↔ deployment.received gid server = none ∧
    (deployment.system.replica gid server).sending = none ∧
      (deployment.system.replica gid server).stopped = false := by
  simp [Deployment.idle]

theorem Deployment.mem_proposals {action : System.Action} {proposal : Proposal n}
    (member : proposal ∈ deployment.proposals action system) : proposal.command ∈ system.proposed proposal.gid := by
  unfold Deployment.proposals at member
  split at member
  · cases member
  split at member
  · obtain ⟨command, dropped, rfl⟩ := List.mem_map.mp member
    exact List.mem_of_mem_drop dropped
  · cases member

namespace Refines

variable (refines : Refines deployment)
include refines

theorem group {cluster : Cluster (n gid) Command} {received : Fin (n gid) → Option (Nat × Command)}
    (isLocal : Local gid deployment.system system)
    (reachable : ∀ controller, Follows controller deployment.ctrler.system.log → System.Reachable controller system)
    (feeds : ∃ state, Feeds state cluster (system.log gid) (fun name => (system.replica gid name).position) received)
    (started : ∀ index term command, (index, term, command) ∈ cluster.started →
      command ∈ deployment.system.proposed gid)
    (archived : ∀ taker index data, (taker, index, data) ∈ cluster.taken →
      ∃ kv, (index, kv) ∈ system.snapshots gid) :
    Refines { deployment with
      cluster := Function.update deployment.cluster gid cluster
      received := Function.update deployment.received gid received
      system } := by
  refine ⟨refines.ctrler, reachable, fun place => ?_, fun place index term command => ?_, fun place => ?_, ?_,
    fun fetch member => ?_⟩
  · unfold Deployment.position
    dsimp only
    by_cases here : place = gid
    · subst here
      rw [Function.update_self, Function.update_self]
      exact feeds
    · rw [Function.update_of_ne here, Function.update_of_ne here, isLocal.log place here, isLocal.replica place here]
      exact refines.feeds place
  · dsimp only
    rw [isLocal.proposed]
    by_cases here : place = gid
    · subst here
      rw [Function.update_self]
      exact started index term command
    · rw [Function.update_of_ne here]
      exact refines.started place index term command
  · dsimp only
    by_cases here : place = gid
    · subst here
      rw [Function.update_self]
      exact archived
    · rw [Function.update_of_ne here, isLocal.snapshots place here]
      exact refines.archived place
  · dsimp only
    rw [isLocal.proposed]
    exact refines.starting
  · obtain ⟨answered, proposed⟩ := refines.fetching fetch member
    exact ⟨answered, isLocal.proposed ▸ proposed⟩

theorem setCluster {cluster : Cluster (n gid) Command}
    (feeds : ∃ state, Feeds state cluster (deployment.system.log gid) (deployment.position gid)
      (deployment.received gid))
    (started : ∀ index term command, (index, term, command) ∈ cluster.started →
      command ∈ deployment.system.proposed gid)
    (taken : cluster.taken = (deployment.cluster gid).taken) : Refines (deployment.setCluster gid cluster) := by
  have moved := refines.group (Local.refl gid deployment.system) refines.reachable feeds started
    (taken ▸ refines.archived gid)
  rw [Function.update_eq_self] at moved
  exact moved

theorem above {system : System} {starting : List (Proposal n)}
    {fetching : List (Fetch n)} (logFree : LogFree deployment.system system)
    (reachable : ∀ controller, Follows controller deployment.ctrler.system.log → System.Reachable controller system)
    (grown : ∀ gid command, command ∈ deployment.system.proposed gid → command ∈ system.proposed gid)
    (isStarting : ∀ proposal ∈ starting,
      proposal ∈ deployment.starting ∨ proposal.command ∈ system.proposed proposal.gid)
    (isFetching : ∀ fetch ∈ fetching, fetch ∈ deployment.fetching ∨ Fetching { deployment with system } fetch) :
    Refines { deployment with system, starting, fetching } := by
  refine ⟨refines.ctrler, reachable, fun gid => ?_, fun gid index term command member => ?_, ?_,
    fun proposal member => ?_, fun fetch member => ?_⟩
  · have position : ({ deployment with system, starting, fetching } : Deployment n m).position gid =
        deployment.position gid := funext fun server => logFree.position gid server
    rw [position]
    dsimp only
    rw [logFree.log]
    exact refines.feeds gid
  · exact grown _ _ (refines.started _ _ _ _ member)
  · dsimp only
    rw [logFree.snapshots]
    exact refines.archived
  · rcases isStarting proposal member with old | new
    · exact grown _ _ (refines.starting proposal old)
    · exact new
  · rcases isFetching fetch member with old | new
    · have known := refines.fetching fetch old
      exact ⟨known.answered, fun config made => grown _ _ (known.proposed config made)⟩
    · exact ⟨new.answered, new.proposed⟩

/-! ## The controller -/

theorem ctrler_step {action : ShardCtrler.Stack.Action m} {ctrler : ShardCtrler.Stack m}
    (stepped : deployment.ctrler.step action = some ctrler) : Refines { deployment with ctrler } := by
  obtain ⟨state, position, isController⟩ := refines.ctrler
  have records := ShardCtrler.Stack.step_records stepped
  have log : deployment.ctrler.system.log <+: ctrler.system.log := records.filterMap _
  refine ⟨isController.step stepped, fun controller follows => ?_, refines.feeds, refines.started, refines.archived,
    refines.starting, fun fetch member => ?_⟩
  · exact refines.reachable controller fun number config made => follows number config (made.mono log)
  · have known := refines.fetching fetch member
    obtain ⟨client, seqNum, newConfig, atMost, answered⟩ := known.answered
    refine ⟨⟨client, seqNum, newConfig, atMost, (records.take fetch.since).subset answered⟩, fun config made => ?_⟩
    -- the configuration was made before
    have consistent := isController.reachable.consistent
    obtain ⟨before, isBefore⟩ := consistent.isConfiguration (List.mem_of_mem_take answered) atMost
    rw [(isBefore.mono log).eq made]
    exact known.proposed _ isBefore

theorem getLastConfig {client seqNum : Nat} {newConfig : ShardCtrler.Config}
    (stepped : deployment.getLastConfig gid server client seqNum newConfig = some next) : Refines next := by
  unfold Deployment.getLastConfig at stepped
  dsimp only at stepped
  split at stepped
  · cases stepped
  rename_i running
  split at stepped
  · rename_i answered
    obtain ⟨-, answered, newer, ready⟩ := answered
    cases stepped
    obtain ⟨state, position, isController⟩ := refines.ctrler
    obtain ⟨config, made⟩ := isController.reachable.consistent.isConfiguration answered newer
    rw [configOf_eq_some_iff.mpr made, Option.elim_some]
    refine refines.above ⟨fun _ => rfl, rfl, fun _ _ => rfl⟩ (fun controller follows => ?_)
      (fun _ _ => System.mem_propose) (fun _ member => .inl member) (fun fetch member => ?_)
    · -- whatever else the controller says, it has this configuration
      have decides : deployment.system.step controller (.getLastConfig gid server newConfig.num) =
          some (deployment.system.propose gid (.configOperation (controller.config
            ((deployment.system.replica gid server).server.kv.config.num + 1)))) := by
        simp only [System.step, System.getLastConfig, controller.num_eq, running, newer, ready]
        rfl
      rw [follows _ _ made] at decides
      exact (refines.reachable controller follows).step decides
    · rcases List.mem_append.mp member with old | new
      · exact .inl old
      · cases List.mem_singleton.mp new
        refine .inr ⟨⟨client, seqNum, newConfig, newer, ?_⟩, fun other isConfig => ?_⟩
        · rw [List.take_length]
          exact answered
        · rw [made.eq isConfig]
          simp [System.propose]
  · cases stepped

theorem fetchConfig {position client seqNum : Nat} {config : ShardCtrler.Config}
    (stepped : deployment.fetchConfig position client seqNum config = some next) : Refines next := by
  unfold Deployment.fetchConfig at stepped
  dsimp only at stepped
  split at stepped
  · cases stepped
  rename_i fetch located
  split at stepped
  · cases stepped
  split at stepped
  · rename_i answers
    obtain ⟨invoked, returned⟩ := answers
    cases stepped
    obtain ⟨state, places, isController⟩ := refines.ctrler
    have known := refines.fetching fetch (List.mem_of_getElem? located)
    obtain ⟨_, _, newConfig, atMost, answered⟩ := known.answered
    -- the second answer is the configuration that was proposed after the first one
    have made := isController.reachable.consistent.fetched answered invoked (List.mem_of_mem_drop returned) atMost
    refine refines.above ⟨fun _ => rfl, rfl, fun _ _ => rfl⟩ refines.reachable (fun _ _ member => member)
      (fun proposal member => ?_) (fun other member => .inl (List.mem_of_mem_eraseIdx member))
    rcases List.mem_append.mp member with old | new
    · exact .inl old
    · cases List.mem_singleton.mp new
      exact .inr (known.proposed config made)
  · cases stepped

/-! ## Clerks, handlers and proposals -/

theorem service {action : System.Action} (stepped : deployment.service action = some next) : Refines next := by
  unfold Deployment.service at stepped
  split at stepped
  · rename_i aboveRaft
    obtain ⟨system, step, rfl⟩ := Option.map_eq_some_iff.mp stepped
    refine refines.above (System.step_logFree aboveRaft step) (fun controller follows => ?_)
      (fun _ _ => System.step_proposed step) (fun proposal member => ?_) (fun _ member => .inl member)
    · exact (refines.reachable controller follows).step ((System.step_unasked aboveRaft).trans step)
    · rcases List.mem_append.mp member with old | new
      · exact .inl old
      · exact .inr (Deployment.mem_proposals new)
  · cases stepped

theorem raftLogChecker (gid : Int) (server : Fin (n gid)) :
    Refines (deployment.raftLogChecker gid server) := by
  refine refines.above ⟨fun _ => rfl, rfl, fun _ _ => rfl⟩ (fun controller follows => ?_)
    (fun _ _ => System.mem_propose) (fun proposal member => ?_) (fun _ member => .inl member)
  · have proposes : deployment.system.step controller (.raftLogChecker gid) =
        some (deployment.system.raftLogChecker gid) := rfl
    exact (refines.reachable controller follows).step proposes
  · rcases List.mem_append.mp member with old | new
    · exact .inl old
    · cases List.mem_singleton.mp new
      exact .inr (by simp [System.raftLogChecker, System.propose])

theorem start {id : Nat} (stepped : deployment.start id = some next) :
    Refines next := by
  unfold Deployment.start at stepped
  split at stepped
  · cases stepped
  rename_i call located
  split at stepped
  · rename_i hosted
    dsimp only at stepped
    split at stepped
    · cases stepped
    rename_i system started
    -- first the handler moves, then its Raft server
    obtain ⟨logFree, proposed⟩ := System.start_logFree located started
    have stepAbove : ∀ controller, deployment.system.step controller (.start id _ _) = some system := fun _ => started
    have moved : Refines { deployment with system } :=
      refines.above logFree
        (fun controller follows => (refines.reachable controller follows).step (stepAbove controller))
        (fun _ _ => System.step_proposed (stepAbove .unasked)) (fun _ member => .inl member)
        (fun _ member => .inl member)
    split at stepped
    · rename_i calls
      obtain ⟨cluster, clusterStep, rfl⟩ := Option.map_eq_some_iff.mp stepped
      obtain ⟨state, feeds⟩ := moved.feeds call.gid
      obtain ⟨after, taken, isStarted⟩ := feeds.start clusterStep
      refine moved.setCluster after (fun index term command member => ?_) taken
      rcases isStarted _ _ _ member with old | ⟨rfl, -⟩
      · exact moved.started _ _ _ _ old
      · exact proposed calls.1 (by simpa using calls.2)
    · cases stepped
      exact moved
  · cases stepped

theorem propose {position : Nat} (stepped : deployment.propose position = some next) :
    Refines next := by
  unfold Deployment.propose at stepped
  split at stepped
  · cases stepped
  rename_i proposal located
  split at stepped
  · cases stepped
  obtain ⟨cluster, clusterStep, rfl⟩ := Option.map_eq_some_iff.mp stepped
  obtain ⟨state, feeds⟩ := refines.feeds proposal.gid
  obtain ⟨after, taken, isStarted⟩ := feeds.start clusterStep
  have moved : Refines (deployment.setCluster proposal.gid cluster) := by
    refine refines.setCluster after (fun index term command member => ?_) taken
    rcases isStarted _ _ _ member with old | ⟨rfl, -⟩
    · exact refines.started _ _ _ _ old
    · exact refines.starting proposal (List.mem_of_getElem? located)
  exact moved.above ⟨fun _ => rfl, rfl, fun _ _ => rfl⟩ moved.reachable (fun _ _ member => member)
    (fun _ member => .inl (List.mem_of_mem_eraseIdx member)) (fun _ member => .inl member)

/-! ## Raft and the apply loops -/

theorem unseen {action : Cluster.Action (n gid) Command} {cluster : Cluster (n gid) Command}
    (unseen : action.unseen = true) (step : (deployment.cluster gid).step action = some cluster) :
    Refines (deployment.setCluster gid cluster) := by
  obtain ⟨state, feeds⟩ := refines.feeds gid
  obtain ⟨after, started, taken⟩ := feeds.unseen unseen step
  exact refines.setCluster after (started ▸ refines.started gid) taken

theorem raft {action : Cluster.Action (n gid) Command} (stepped : deployment.raft gid action = some next) :
    Refines next := by
  unfold Deployment.raft at stepped
  split at stepped
  all_goals first
    | cases stepped
    | obtain ⟨cluster, step, rfl⟩ := Option.map_eq_some_iff.mp stepped
      exact refines.unseen rfl step

theorem sendSnapshot {position : Nat}
    (stepped : deployment.sendSnapshot gid server position = some next) : Refines next := by
  unfold Deployment.sendSnapshot at stepped
  split at stepped
  · cases stepped
  · obtain ⟨cluster, step, rfl⟩ := Option.map_eq_some_iff.mp stepped
    have asAction : (deployment.cluster gid).step (.sendSnapshot server position) = some cluster := step
    exact refines.unseen rfl asAction

theorem receive (stepped : deployment.receive gid server = some next) :
    Refines next := by
  unfold Deployment.receive at stepped
  split at stepped
  · cases stepped
  rename_i idle
  split at stepped
  · rename_i entry entries commitIndex cluster batch clusterStep
    cases stepped
    simp only [Bool.not_eq_true', Bool.not_eq_false, Deployment.idle_iff] at idle
    obtain ⟨state, feeds⟩ := refines.feeds gid
    obtain ⟨started, taken, known, after, feeds⟩ := feeds.receive idle.1 batch clusterStep
    rw [← started] at known
    have isLog : (deployment.system.agree gid entry.index entry.command).log gid = _ := System.log_agree ..
    simp only [true_and] at isLog
    rw [← isLog] at feeds
    obtain ⟨records, agreed⟩ := deployment.system.agree_eq gid entry.index entry.command
    refine refines.group (Local.agree ..) (fun controller follows => ?_) ⟨after, ?_⟩ (started ▸ refines.started gid)
      (fun taker index data member => ?_)
    · unfold System.agree
      split
      · -- the first apply loop that reads the command commits it
        rename_i isNext
        obtain ⟨index, term, isStarted⟩ := known isNext
        obtain ⟨position, found⟩ := List.mem_iff_getElem?.mp (refines.started _ _ _ _ (started ▸ isStarted))
        have commits : deployment.system.step controller (.commit gid position) = some { deployment.system with
            records := deployment.system.records ++ [.commit (gid, entry.command)] } := by
          simp only [System.step, System.commit, found]
        exact (refines.reachable controller follows).step commits
      · exact refines.reachable controller follows
    · rw [agreed] at feeds ⊢
      exact feeds
    · rw [agreed]
      exact refines.archived gid taker index data (taken ▸ member)
  · cases stepped

/-- An apply loop has gone through a command, and has taken a snapshot with it when `takes`. -/
theorem handled {commandIndex : Nat} {command : Command} {takes : Bool} {cluster : Cluster (n gid) Command}
    (reachable : ∀ controller, Follows controller deployment.ctrler.system.log →
      System.Reachable controller (deployment.system.handle gid server commandIndex command takes))
    (feeds : ∃ state, Feeds state cluster (deployment.system.log gid)
      (Function.update (deployment.position gid) server ⟨max (deployment.position gid server).applied commandIndex,
        (deployment.position gid server).included,
        if takes then commandIndex else (deployment.position gid server).stored⟩)
      (Function.update (deployment.received gid) server none))
    (started : cluster.started = (deployment.cluster gid).started)
    (taken : ∀ taker index data, (taker, index, data) ∈ cluster.taken →
      (taker, index, data) ∈ (deployment.cluster gid).taken ∨ takes = true ∧ index = commandIndex) :
    Refines { deployment with
      cluster := Function.update deployment.cluster gid cluster
      received := Function.update deployment.received gid (Function.update (deployment.received gid) server none)
      system := deployment.system.handle gid server commandIndex command takes } := by
  obtain ⟨changed, kv, isHandled, position⟩ := deployment.system.handle_eq gid server commandIndex command takes
  rw [isHandled] at reachable ⊢
  refine refines.group ⟨rfl, fun _ _ => rfl, fun _ different => Function.update_of_ne different .., ?_⟩ reachable ?_
    (started ▸ refines.started gid) (fun taker index data member => ?_)
  · intro other different
    dsimp only
    split
    · exact Function.update_of_ne different ..
    · rfl
  · dsimp only
    rw [deployment.position_setReplica position]
    exact feeds
  · dsimp only
    rcases taken _ _ _ member with old | ⟨isTaking, rfl⟩
    · obtain ⟨known, isKnown⟩ := refines.archived _ _ _ _ old
      refine ⟨known, ?_⟩
      split
      · rw [Function.update_self]
        exact List.mem_append_left _ isKnown
      · exact isKnown
    · rw [if_pos isTaking, Function.update_self]
      exact ⟨kv, List.mem_append_right _ (List.mem_singleton_self _)⟩

theorem handle {takeSnapshot : Bool}
    (stepped : deployment.handle gid server takeSnapshot = some next) : Refines next := by
  unfold Deployment.handle at stepped
  dsimp only at stepped
  split at stepped
  · cases stepped
  rename_i commandIndex command isReading
  split at stepped
  · cases stepped
  rename_i ready
  generalize isTakes : (takeSnapshot && _ && _) = takes at stepped
  obtain ⟨state, feeds⟩ := refines.feeds gid
  have following := feeds.server server
  have unmoved : Function.update deployment.cluster gid (deployment.cluster gid) = deployment.cluster :=
    Function.update_eq_self ..
  rcases feeds.reading isReading with ⟨uncovered, isNext, located⟩ | ⟨positive, covered, located⟩
  · -- the command is the next one of the group's log
    have feeds := feeds.handle isReading uncovered
    have moved : max (deployment.position gid server).applied commandIndex =
        (deployment.position gid server).applied + 1 := by omega
    have answers : (takes &&
        ((deployment.system.replica gid server).server.applyHandler gid commandIndex command).2.isSome) = takes := by
      rw [← isTakes, Bool.and_right_comm, Bool.and_assoc takeSnapshot, Bool.and_self]
    have delivers : ∀ controller, deployment.system.step controller (.deliver gid server takes) =
        some (deployment.system.handle gid server commandIndex command takes) := by
      intro controller
      have delivered := System.deliver_eq ready located takes
      rw [← show commandIndex = (deployment.system.replica gid server).applied + 1 from isNext, answers] at delivered
      exact delivered
    have reachable := fun controller follows => (refines.reachable controller follows).step (delivers controller)
    cases takes with
    | false =>
      cases stepped
      have done := refines.handled reachable ⟨state, by rw [moved]; exact feeds⟩ rfl (fun _ _ _ => .inl)
      rw [unmoved] at done
      exact done
    | true =>
      obtain ⟨cluster, clusterStep, rfl⟩ := Option.map_eq_some_iff.mp stepped
      obtain ⟨started, ⟨data, taken⟩, after, feeds⟩ := feeds.snapshot (Function.update_self ..)
        (by rw [Function.update_self]; exact Nat.lt_succ_of_le following.retained)
        (by rw [Function.update_self]; exact isNext ▸ clusterStep)
      simp only [Function.update_self, Function.update_idem] at taken feeds
      refine refines.handled reachable ⟨after, ?_⟩ started (fun taker index other member => ?_)
      · rw [moved, isNext]
        exact feeds
      · rw [taken, List.mem_append, List.mem_singleton] at member
        rcases member with old | new
        · exact .inl old
        · cases new
          exact .inr ⟨rfl, isNext.symm⟩
  · -- the installed snapshot covers the command
    have applied := covered.trans (following.kept.trans following.retained)
    obtain rfl : false = takes := by
      rw [← isTakes, decide_eq_false, Bool.and_false]
      rw [← following.stored]
      exact Nat.not_lt.mpr (covered.trans following.kept)
    cases stepped
    have redelivers : ∀ controller, deployment.system.step controller (.redeliver gid server commandIndex) =
        some (deployment.system.handle gid server commandIndex command false) :=
      fun _ => System.redeliver_eq ready positive covered applied located
    have done := refines.handled
      (fun controller follows => (refines.reachable controller follows).step (redelivers controller)) ⟨state, ?_⟩ rfl
      (fun _ _ _ => .inl)
    · rw [unmoved] at done
      exact done
    · rw [max_eq_left applied]
      have skipped := feeds.skip isReading covered
      rw [← Function.update_eq_self server (deployment.position gid)] at skipped
      exact skipped

theorem install {position : Nat} (stepped : deployment.install gid server position = some next) : Refines next := by
  unfold Deployment.install at stepped
  dsimp only at stepped
  split at stepped
  · cases stepped
  rename_i idle
  simp only [Bool.not_eq_true', Bool.not_eq_false, Deployment.idle_iff] at idle
  obtain ⟨state, feeds⟩ := refines.feeds gid
  split at stepped
  · rename_i snapshot snapshotTerm snapshotIndex cluster installing clusterStep
    obtain ⟨started, taken, after, outcome⟩ := feeds.install idle.1 installing clusterStep
    split at stepped
    · -- what `CondInstallSnapshot` accepts is ahead of the apply loop
      rename_i accepted
      rw [if_pos accepted] at outcome
      obtain ⟨ahead, feeds⟩ := outcome
      split at stepped
      · cases stepped
      rename_i index kv archived
      split at stepped
      · rename_i isIndex
        subst isIndex
        cases stepped
        have ahead : (deployment.system.replica gid server).applied < index := ahead
        have installs : ∀ controller, deployment.system.step controller (.install gid server position) = some
            (deployment.system.setReplica gid server { deployment.system.replica gid server with
              server := (deployment.system.replica gid server).server.installSnapshot index kv
              applied := index
              persisted := some (index, kv) }) := by
          intro controller
          simp only [System.step, System.install, archived]
          exact if_neg (by simp [idle.2.1, idle.2.2, ahead])
        have done := refines.group (Local.setReplica ..)
          (fun controller follows => (refines.reachable controller follows).step (installs controller))
          ⟨after, by rw [deployment.position_setReplica (by rfl)]; exact feeds⟩ (started ▸ refines.started gid)
          (taken ▸ refines.archived gid)
        rw [Function.update_eq_self] at done
        exact done
      · cases stepped
    · rename_i refused
      rw [if_neg refused] at outcome
      cases stepped
      exact refines.setCluster ⟨after, outcome⟩ (started ▸ refines.started gid) taken
  · cases stepped

theorem restart (gid : Int) (server : Fin (n gid)) :
    Refines (deployment.restart gid server) := by
  obtain ⟨state, feeds⟩ := refines.feeds gid
  obtain ⟨started, taken, after, feeds⟩ := feeds.restart server
  have restarts : ∀ controller, deployment.system.step controller (.restart gid server) =
      some (deployment.system.restart gid server) := fun _ => rfl
  refine refines.group (Local.setReplica ..) (fun controller follows =>
    (refines.reachable controller follows).step (restarts controller)) ⟨after, ?_⟩ (started ▸ refines.started gid)
    (taken ▸ refines.archived gid)
  refine (deployment.position_setReplica ?_).symm ▸ feeds
  simp only [Deployment.position, Replica.position]
  cases (deployment.system.replica gid server).persisted <;> rfl

theorem step {action : Deployment.Action n m} (stepped : deployment.step action = some next) : Refines next := by
  cases action with
  | ctrler action =>
    obtain ⟨ctrler, ctrlerStep, rfl⟩ := Option.map_eq_some_iff.mp stepped
    exact refines.ctrler_step ctrlerStep
  | raft gid action => exact refines.raft stepped
  | service action => exact refines.service stepped
  | raftLogChecker gid server =>
    cases stepped
    exact refines.raftLogChecker gid server
  | start id => exact refines.start stepped
  | getLastConfig gid server client seqNum newConfig => exact refines.getLastConfig stepped
  | fetchConfig position client seqNum config => exact refines.fetchConfig stepped
  | propose position => exact refines.propose stepped
  | receive gid server => exact refines.receive stepped
  | sendSnapshot gid server position => exact refines.sendSnapshot stepped
  | handle gid server takeSnapshot => exact refines.handle stepped
  | install gid server position => exact refines.install stepped
  | restart gid server =>
    cases stepped
    exact refines.restart gid server

end Refines

theorem Deployment.Reachable.refines (reached : deployment.Reachable) : Refines deployment := by
  obtain ⟨actions, ran⟩ := reached
  exact Transitions.run_keeps (fun _ _ _ refines stepped => Refines.step refines stepped) refines_initial ran

/-! ## What holds of the whole deployment -/

namespace Refines

/-- The configurations of the groups are made by the controller: a configuration that is not would have
to be what each of two different controllers says. -/
theorem configured (refines : Refines deployment) {config : ShardCtrler.Config}
    (proposed : .configOperation config ∈ deployment.system.proposed gid) :
    IsConfiguration deployment.ctrler.system.log config.num config := by
  have either : ∀ groups, IsConfiguration deployment.ctrler.system.log config.num config ∨ config.groups = groups := by
    intro groups
    obtain ⟨controller, follows, unmade⟩ := exists_follows deployment.ctrler.system.log groups
    obtain ⟨protocol, consistent⟩ := (refines.reachable controller follows).consistent
    have legit : Legit controller protocol gid (.configOperation config) := consistent.proposed gid _ proposed
    obtain ⟨number, -, rfl, -⟩ := legit
    rw [controller.num_eq]
    cases found : configOf deployment.ctrler.system.log number with
    | none => exact .inr (by rw [unmade number found])
    | some made =>
      have isMade := configOf_eq_some_iff.mp found
      exact .inl (by rw [follows _ _ isMade]; exact isMade)
  rcases either [] with made | empty
  · exact made
  rcases either [(0, [])] with made | nonempty
  · exact made
  rw [empty] at nonempty
  cases nonempty

end Refines

/-- The configuration after shard 3 was moved to group 7. -/
def movedConfig : ShardCtrler.Config := { num := 1, shards := Function.update (fun _ => 0) 3 7 }

/-- Group 7 takes the configuration and executes an `Append`. -/
def served : List (Deployment.Action (fun _ => 3) 3) := [
  .fetchConfig 0 5 3 movedConfig, .raft 7 (.electionTimeout 0), .raft 7 (.handle 0), .raft 7 (.deliver 0), .propose 0,
  .raft 7 (.replicate 0 1), .raft 7 (.handle 2), .raft 7 (.deliver 2), .raft 7 (.takeBatch 0), .receive 7 0,
  .handle 7 0 false, .raft 7 (.finishBatch 0), .service (.invoke 7 (.append [103] [9])), .service (.send 7 7 0),
  .start 0, .service (.recheck 0), .service (.register 0), .raft 7 (.replicate 0 1), .raft 7 (.handle 3),
  .raft 7 (.deliver 3), .raft 7 (.takeBatch 0), .receive 7 0, .handle 7 0 true, .service (.push 7 0),
  .service (.answer 0), .service (.receive 7)]

end ShardedKV.ShardKV
