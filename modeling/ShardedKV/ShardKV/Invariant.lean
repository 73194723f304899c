import ShardedKV.ShardKV.GroupLogs

/-!
# What every run of the groups keeps

A replica's state is the one after a beginning of its group's log, and such a state belongs to an
earlier state of the migration protocol.  So what a leader reads in its own state or in the reply
of another group was true when it was read, and the protocol keeps it true until it is committed.
-/

namespace ShardedKV.ShardKV

open Services
open ShardCtrler (Shard Config ServerName)
open KvRaft (Op Request Operation)
open Migration (Extends)

variable {controller : Controller} {attentive : Prop} {protocol : Protocol} {system next : System} {gid : Int}

/-! ## The parts of the system -/

/-- The protocol has come to its state through a state for every beginning of the entries. -/
structure Mirrored (controller : Controller) (entries : List (Int × Command)) (protocol : Protocol) :
    Prop where
  now : Mirrors controller entries protocol
  past : ∀ t, ∃ earlier, Extends earlier protocol ∧ Mirrors controller (entries.take t) earlier

/-- The state was the state of the group at some time. -/
def Known (controller : Controller) (protocol : Protocol) (gid : Int) (kv : GroupState) : Prop :=
  ∃ earlier, Extends earlier protocol ∧ Migration.Invariant (scheme controller) earlier ∧
    GroupRel controller earlier gid kv

/-- What a client's handler may receive for the index. -/
def Right (gid : Int) (log : List Command) (index : Nat) (message : Command) : Prop :=
  ∀ op, message = .kvOperation op → (machine gid).output log index = some (some (.kvOperation op))

/-- A reply that says OK comes from an entry with the number of the request. -/
def Answers (gid : Int) (log : List Command) (request : Request) (reply : Reply) : Prop :=
  match reply.err with
  | .ok => ∃ index op, (machine gid).output log index = some (some (.kvOperation op)) ∧
      op.clientID = request.clientID ∧ op.seqNum = request.seqNum ∧
      ∀ args, request = .get args → reply.value = op.value
  | .errNoKey => False
  | _ => True

structure ReplicaOk (gid : Int) (log : List Command) (replica : Replica) : Prop where
  reflects : (machine gid).Reflects log replica.server.kv replica.applied
  included : replica.server.lastIncludedIndex ≤ replica.applied
  persisted : ∀ index kv, replica.persisted = some (index, kv) → (machine gid).Reflects log kv index
  waiters : replica.server.waitChan.Holds (Right gid log)
  sending : ∀ channel message, replica.sending = some (channel, message) →
    ∃ index, replica.server.waitChan.MadeFor channel index ∧ Right gid log index message

structure CallOk (records : Records) (replica : Int → ServerName → Replica) (call : Call) : Prop where
  issued : Issued records call.request.op
  incarnation : call.incarnation ≤ (replica call.gid call.server).incarnation
  waiting : ∀ index channel, call.phase = .waiting index channel →
    (replica call.gid call.server).incarnation = call.incarnation →
    (replica call.gid call.server).server.waitChan.MadeFor channel index
  reply : ∀ reply, call.reply = some reply →
    Answers call.gid (entriesOf call.gid records.committed) call.request reply

structure ClerkOk (entries : List (Int × Command)) (calls : List Call) (client : Nat)
    (clerk : Clerk Operation) : Prop where
  completed : ∀ number, 1 ≤ number → number < clerk.seqNum → Executed entries client number
  calling : ∀ id, clerk.calling = some id → ∃ operation call, clerk.pending = some operation ∧
    calls[id]? = some call ∧ call.request = operation.request client clerk.seqNum

/-- If the group still waits for the confirmation of the shard, then its new owner has received it. -/
def Harmless (protocol : Protocol) (gid : Int) (number : Nat) (shard : Shard) : Prop :=
  protocol.number gid = number → protocol.phase gid shard = .releasing → protocol.received number shard

/-- What a leader may have given to `Start`. -/
def Permitted (controller : Controller) (attentive : Prop) (protocol : Protocol) (records : Records)
    (gid : Int) : Command → Prop
  | .kvOperation op => Issued records op
  | .shardConfirmOperation message => Legit controller protocol gid (.shardConfirmOperation message) ∧
      (attentive → Harmless protocol gid message.configNum message.shardIndex)
  | command => Legit controller protocol gid command

/-- A reply to a pull that says OK has the data that were handed over. -/
structure PullOk (protocol : Protocol) (pull : Exchange ShardRequestReply) : Prop where
  number : pull.configNum ≤ protocol.number pull.gid
  reply : ∀ reply, pull.reply = some reply → reply.err = .ok →
    ∃ given, protocol.handoff pull.configNum pull.shardIndex = some (reply.shardData, given) ∧
      (∀ client, given client ≤ (reply.clientSeqNum client).getD 0) ∧
      ∀ client, (reply.clientSeqNum client).getD 0 = 0 ∨
        ∃ place, protocol.done place client ((reply.clientSeqNum client).getD 0)

/-- A confirmation is asked of the new owner, whose reply says OK when it has received the shard. -/
structure ConfirmOk (controller : Controller) (attentive : Prop) (protocol : Protocol)
    (confirm : Exchange ShardConfirmReply) : Prop where
  number : confirm.configNum ≤ protocol.number confirm.gid
  aimed : attentive → protocol.number confirm.gid = confirm.configNum →
    protocol.phase confirm.gid confirm.shardIndex = .releasing →
    confirm.targetGID = (controller.config confirm.configNum).shards confirm.shardIndex
  reply : attentive → ∀ reply, confirm.reply = some reply → reply.err = .ok →
    Harmless protocol confirm.gid confirm.configNum confirm.shardIndex

/-- An entry that drops a shard comes after the entry by which the new owner received what the group
had when the configuration took effect. -/
def Kept (controller : Controller) (before : List (Int × Command)) : Int × Command → Prop
  | (gid, .shardConfirmOperation message) =>
    (stateOf gid before).config.num = message.configNum →
    (stateOf gid before).shardsState message.shardIndex = .bePulled →
    ∃ kv, Entered before gid message.configNum kv ∧
      Pulled before ((controller.config message.configNum).shards message.shardIndex) message.configNum
        message.shardIndex (restrict message.shardIndex kv.store.currentState)
  | _ => True

/-- With `attentive`, every confirmation was asked of the group that owns the shard in the
configuration it names. -/
structure Consistent (controller : Controller) (attentive : Prop) (protocol : Protocol) (system : System) :
    Prop where
  mirrored : Mirrored controller system.records.committed protocol
  explained : Justified Explained system.records
  timely : ∀ gid, Justified (Timely gid) (system.log gid)
  kept : attentive → Justified (Kept controller) system.records.committed
  disciplined : Disciplined system.clerk system.records
  replicas : ∀ gid server, ReplicaOk gid (system.log gid) (system.replica gid server)
  snapshots : ∀ gid, ∀ snapshot ∈ system.snapshots gid,
    (machine gid).Reflects (system.log gid) snapshot.2 snapshot.1
  proposed : ∀ gid, ∀ command ∈ system.proposed gid,
    Permitted controller attentive protocol system.records gid command
  calls : ∀ call ∈ system.calls, CallOk system.records system.replica call
  clerks : ∀ client, ClerkOk system.records.committed system.calls client (system.clerk client)
  pulls : ∀ pull ∈ system.pulls, PullOk protocol pull
  confirms : ∀ confirm ∈ system.confirms, ConfirmOk controller attentive protocol confirm

/-! ## Growing logs -/

theorem Answers.append {log : List Command} {request : Request} {reply : Reply}
    (answers : Answers gid log request reply) (more : List Command) :
    Answers gid (log ++ more) request reply := by
  unfold Answers at *
  cases said : reply.err with
  | ok =>
    simp only [said] at answers
    obtain ⟨index, op, output, matching⟩ := answers
    exact ⟨index, op, Machine.output_mono more output, matching⟩
  | errNoKey => simp [said] at answers
  | errWrongGroup => trivial
  | errWrongLeader => trivial
  | errConfig => trivial

theorem Right.append {log : List Command} {index : Nat} {message : Command} (right : Right gid log index message)
    (more : List Command) : Right gid (log ++ more) index message :=
  fun op same => Machine.output_mono more (right op same)

theorem ReplicaOk.append {log : List Command} {replica : Replica} (ok : ReplicaOk gid log replica)
    (more : List Command) : ReplicaOk gid (log ++ more) replica where
  reflects := ok.reflects.mono more
  included := ok.included
  persisted := fun index kv saved => (ok.persisted index kv saved).mono more
  waiters := ok.waiters.mono fun _ _ right => right.append more
  sending := by
    intro channel message sends
    obtain ⟨index, made, right⟩ := ok.sending channel message sends
    exact ⟨index, made, right.append more⟩

theorem CallOk.append {records : Records} {replica : Int → ServerName → Replica} {call : Call}
    (ok : CallOk records replica call) (record : Record Operation (Option GoString) (Int × Command)) :
    CallOk (records ++ [record]) replica call where
  issued := ok.issued.append record
  incarnation := ok.incarnation
  waiting := ok.waiting
  reply := by
    intro reply replied
    rw [Trace.committed_append, entriesOf_append]
    exact (ok.reply reply replied).append _

theorem ClerkOk.append {entries : List (Int × Command)} {calls : List Call} {client : Nat}
    {clerk : Clerk Operation} (ok : ClerkOk entries calls client clerk) (entry : Int × Command) :
    ClerkOk (entries ++ [entry]) calls client clerk where
  completed := fun number positive less => (ok.completed number positive less).append entry
  calling := ok.calling

theorem ClerkOk.appendCalls {entries : List (Int × Command)} {calls : List Call} {client : Nat}
    {clerk : Clerk Operation} (ok : ClerkOk entries calls client clerk) (more : List Call) :
    ClerkOk entries (calls ++ more) client clerk where
  completed := ok.completed
  calling := by
    intro id waiting
    obtain ⟨operation, call, pending, there, request⟩ := ok.calling id waiting
    have inside : id < calls.length := (List.getElem?_eq_some_iff.mp there).1
    exact ⟨operation, call, pending, by rw [List.getElem?_append_left inside, there], request⟩

theorem PullOk.mono {before after : Protocol} {pull : Exchange ShardRequestReply} (ok : PullOk before pull)
    (further : Extends before after) : PullOk after pull where
  number := ok.number.trans (further.number _)
  reply := by
    intro reply replied said
    obtain ⟨given, offered, covers, sound⟩ := ok.reply reply replied said
    refine ⟨given, further.handoff _ _ _ offered, covers, ?_⟩
    intro client
    exact (sound client).imp id fun ⟨place, done⟩ => ⟨place, further.done _ _ _ done⟩

/-- A group that still waits for a confirmation in its configuration has waited before. -/
theorem releasing_of_extends {before after : Protocol} (further : Extends before after) {number : Nat}
    {shard : Shard} (bound : number ≤ before.number gid) (current : after.number gid = number)
    (releasing : after.phase gid shard = .releasing) :
    before.number gid = number ∧ before.phase gid shard = .releasing := by
  have grows := further.number gid
  refine ⟨by omega, ?_⟩
  rcases further.phase gid shard (by omega) with same | ⟨_, holds⟩ | ⟨_, absent⟩
  · rw [← same, releasing]
  · simp [releasing] at holds
  · simp [releasing] at absent

theorem Harmless.mono {before after : Protocol} {number : Nat} {shard : Shard}
    (harmless : Harmless before gid number shard) (further : Extends before after)
    (bound : number ≤ before.number gid) : Harmless after gid number shard := by
  intro current releasing
  obtain ⟨earlier, waited⟩ := releasing_of_extends further bound current releasing
  exact further.received _ _ (harmless earlier waited)

theorem ConfirmOk.mono {before after : Protocol} {confirm : Exchange ShardConfirmReply}
    (ok : ConfirmOk controller attentive before confirm) (further : Extends before after) :
    ConfirmOk controller attentive after confirm where
  number := ok.number.trans (further.number _)
  aimed := by
    intro attends current releasing
    obtain ⟨earlier, waited⟩ := releasing_of_extends further ok.number current releasing
    exact ok.aimed attends earlier waited
  reply := fun attends reply replied said =>
    (ok.reply attends reply replied said).mono further ok.number

theorem Permitted.mono {before after : Protocol} {records : Records} {command : Command}
    (permitted : Permitted controller attentive before records gid command) (further : Extends before after)
    (record : Record Operation (Option GoString) (Int × Command)) :
    Permitted controller attentive after (records ++ [record]) gid command := by
  cases command with
  | kvOperation op => exact Issued.append permitted record
  | configOperation config =>
    have legit : Legit controller before gid (.configOperation config) := permitted
    exact legit.mono further (by rintro _ ⟨⟩)
  | shardRequestOperation message =>
    have legit : Legit controller before gid (.shardRequestOperation message) := permitted
    exact legit.mono further (by rintro _ ⟨⟩)
  | shardConfirmOperation message =>
    obtain ⟨legit, harmless⟩ := permitted
    exact ⟨legit.mono further (by rintro _ ⟨⟩), fun attends => (harmless attends).mono further legit⟩
  | noOperation => trivial

theorem Mirrored.snoc {entries : List (Int × Command)} {after : Protocol} {entry : Int × Command}
    (mirrored : Mirrored controller entries protocol) (further : Extends protocol after)
    (mirrors : Mirrors controller (entries ++ [entry]) after) :
    Mirrored controller (entries ++ [entry]) after where
  now := mirrors
  past := by
    intro t
    by_cases inside : t ≤ entries.length
    · rw [List.take_append_of_le_length inside]
      obtain ⟨earlier, further', before⟩ := mirrored.past t
      exact ⟨earlier, further'.trans further, before⟩
    · rw [List.take_of_length_le (by simp; omega)]
      exact ⟨after, .refl after, mirrors⟩

theorem Mirrored.moment {entries : List (Int × Command)} (mirrored : Mirrored controller entries protocol)
    {kv : GroupState} {index : Nat} (reflects : (machine gid).Reflects (entriesOf gid entries) kv index) :
    ∃ t earlier, Extends earlier protocol ∧ Mirrors controller (entries.take t) earlier ∧
      stateOf gid (entries.take t) = kv := by
  obtain ⟨t, before⟩ := exists_take_selected _ entries reflects.inside
  obtain ⟨earlier, further, mirrors⟩ := mirrored.past t
  refine ⟨t, earlier, further, mirrors, ?_⟩
  rw [stateOf, show entriesOf gid (entries.take t) = (entriesOf gid entries).take index from before,
    ← reflects.state_eq]

theorem Mirrored.known {entries : List (Int × Command)} (mirrored : Mirrored controller entries protocol)
    {kv : GroupState} {index : Nat} (reflects : (machine gid).Reflects (entriesOf gid entries) kv index) :
    Known controller protocol gid kv := by
  obtain ⟨t, earlier, further, mirrors, rfl⟩ := mirrored.moment reflects
  exact ⟨earlier, further, mirrors.invariant, mirrors.groups gid⟩

/-! ## One part of the system at a time -/

/-- A process continues and keeps its channels, or a new one has taken its place. -/
structure Evolves (before after : Replica) : Prop where
  incarnation : before.incarnation ≤ after.incarnation
  kept : after.incarnation = before.incarnation → ∀ channel index,
    before.server.waitChan.MadeFor channel index → after.server.waitChan.MadeFor channel index

theorem Evolves.refl (replica : Replica) : Evolves replica replica :=
  ⟨le_refl _, fun _ _ _ made => made⟩

theorem Evolves.of_follows {right : Nat → Command → Prop} {before after : Replica}
    (same : after.incarnation = before.incarnation)
    (follows : WaitChannels.Follows right before.server.waitChan after.server.waitChan) :
    Evolves before after :=
  ⟨by omega, fun _ => follows.kept⟩

theorem CallOk.evolve {records : Records} {replica replica' : Int → ServerName → Replica} {call : Call}
    (ok : CallOk records replica call)
    (evolves : Evolves (replica call.gid call.server) (replica' call.gid call.server)) :
    CallOk records replica' call where
  issued := ok.issued
  incarnation := ok.incarnation.trans evolves.incarnation
  waiting := by
    intro index channel waiting same
    have continued : (replica' call.gid call.server).incarnation =
        (replica call.gid call.server).incarnation := by
      have := ok.incarnation
      have := evolves.incarnation
      omega
    exact evolves.kept continued channel index (ok.waiting index channel waiting (by omega))
  reply := ok.reply

theorem System.replica_setReplica (system : System) (gid other : Int) (server place : ServerName)
    (replica : Replica) : (system.setReplica gid server replica).replica other place =
      if other = gid ∧ place = server then replica else system.replica other place := by
  simp only [System.setReplica]
  by_cases sameGroup : other = gid
  · subst sameGroup
    by_cases sameServer : place = server
    · subst sameServer
      simp
    · simp [sameServer]
  · simp [sameGroup]

namespace Consistent

variable (consistent : Consistent controller attentive protocol system)
include consistent

theorem setReplica {server : ServerName}
    {replica : Replica} (ok : ReplicaOk gid (system.log gid) replica)
    (evolves : Evolves (system.replica gid server) replica) :
    Consistent controller attentive protocol (system.setReplica gid server replica) :=
  { consistent with
    replicas := by
      intro other place
      rw [System.replica_setReplica]
      split
      · rename_i here
        rw [here.1]
        exact ok
      · exact consistent.replicas other place
    calls := by
      intro call member
      apply (consistent.calls call member).evolve
      rw [System.replica_setReplica]
      split
      · rename_i here
        rw [here.1, here.2]
        exact evolves
      · exact .refl _ }

theorem setWaitChan {server : ServerName}
    {waitChan : WaitChannels Command} {sending : Option (Nat × Command)} {stopped : Bool}
    (follows : WaitChannels.Follows (Right gid (system.log gid))
      (system.replica gid server).server.waitChan waitChan)
    (fewer : ∀ pair, sending = some pair → (system.replica gid server).sending = some pair) :
    Consistent controller attentive protocol (system.setReplica gid server { system.replica gid server with
      server := { (system.replica gid server).server with waitChan }, sending, stopped }) := by
  have ok := consistent.replicas gid server
  refine consistent.setReplica ⟨ok.reflects, ok.included, ok.persisted, follows.holds, ?_⟩
    (.of_follows rfl follows)
  intro channel message sends
  obtain ⟨index, made, right⟩ := ok.sending channel message (fewer _ sends)
  exact ⟨index, follows.kept channel index made, right⟩

theorem setCall {id : Nat} {call new : Call} (found : system.calls[id]? = some call) (same : new.request = call.request)
    (ok : CallOk system.records system.replica new) :
    Consistent controller attentive protocol (system.setCall id new) :=
  { consistent with
    calls := by
      intro other member
      rcases List.mem_or_eq_of_mem_set member with old | rfl
      · exact consistent.calls other old
      · exact ok
    clerks := by
      intro client
      refine ⟨(consistent.clerks client).completed, ?_⟩
      intro other calling
      obtain ⟨operation, called, pending, there, request⟩ := (consistent.clerks client).calling other calling
      by_cases equal : id = other
      · subst equal
        rw [found] at there
        cases there
        refine ⟨operation, new, pending, ?_, same.trans request⟩
        simp [System.setCall, (List.getElem?_eq_some_iff.mp found).1]
      · exact ⟨operation, called, pending, by simp [System.setCall, List.getElem?_set_ne equal, there], request⟩ }

theorem record {clerk : Nat → Clerk Operation}
    {record : Record Operation (Option GoString) (Int × Command)} (uncommitted : record.entry = none)
    (explained : Explained system.records record)
    (disciplined : Disciplined clerk (system.records ++ [record]))
    (clerks : ∀ client, ClerkOk system.records.committed system.calls client (clerk client)) :
    Consistent controller attentive protocol { system with clerk, records := system.records ++ [record] } := by
  have same : Trace.committed (system.records ++ [record]) = system.records.committed := by
    rw [Trace.committed_append, uncommitted]
    simp
  have sameLog : System.log { system with clerk, records := system.records ++ [record] } = system.log := by
    funext gid
    simp only [System.log, same]
  refine ⟨?_, consistent.explained.append explained, ?_, ?_, disciplined, ?_, ?_, ?_, ?_, ?_,
    consistent.pulls, consistent.confirms⟩
  · simpa only [same] using consistent.mirrored
  · simpa only [sameLog] using consistent.timely
  · simpa only [same] using consistent.kept
  · simpa only [sameLog] using consistent.replicas
  · simpa only [sameLog] using consistent.snapshots
  · intro gid command member
    exact (consistent.proposed gid command member).mono (.refl protocol) record
  · intro call member
    exact (consistent.calls call member).append record
  · simpa only [same] using clerks

theorem clerks_update {client : Nat}
    {clerk : Clerk Operation} (ok : ClerkOk system.records.committed system.calls client clerk) (other : Nat) :
    ClerkOk system.records.committed system.calls other (Function.update system.clerk client clerk other) :=
  (Function.forall_update_iff system.clerk (ClerkOk system.records.committed system.calls)).mpr
    ⟨ok, fun other _ => consistent.clerks other⟩ other

theorem turnTo {client : Nat} {calling : Option Nat}
    (ok : ClerkOk system.records.committed system.calls client { system.clerk client with calling }) :
    Consistent controller attentive protocol (system.setClerk client { system.clerk client with calling }) :=
  { consistent with
    disciplined := consistent.disciplined.turnTo client calling
    clerks := consistent.clerks_update ok }

theorem propose {command : Command} (permitted : Permitted controller attentive protocol system.records gid command) :
    Consistent controller attentive protocol (system.propose gid command) :=
  { consistent with
    proposed := forall_mem_update_append consistent.proposed permitted }

theorem addSnapshot {index : Nat} {kv : GroupState} (reflects : (machine gid).Reflects (system.log gid) kv index) :
    Consistent controller attentive protocol { system with
      snapshots := Function.update system.snapshots gid (system.snapshots gid ++ [(index, kv)]) } :=
  { consistent with
    snapshots := forall_mem_update_append consistent.snapshots reflects }

theorem setRounds (rounds : List Round) :
    Consistent controller attentive protocol { system with rounds } :=
  { consistent with }

theorem setPull {id : Nat} {pull : Exchange ShardRequestReply} (ok : PullOk protocol pull) :
    Consistent controller attentive protocol (system.setPull id pull) :=
  { consistent with
    pulls := by
      intro other member
      rcases List.mem_or_eq_of_mem_set member with old | rfl
      · exact consistent.pulls other old
      · exact ok }

theorem setConfirm {id : Nat}
    {confirm : Exchange ShardConfirmReply} (ok : ConfirmOk controller attentive protocol confirm) :
    Consistent controller attentive protocol (system.setConfirm id confirm) :=
  { consistent with
    confirms := by
      intro other member
      rcases List.mem_or_eq_of_mem_set member with old | rfl
      · exact consistent.confirms other old
      · exact ok }

theorem known (gid : Int) (server : ServerName) :
    Known controller protocol gid (system.replica gid server).server.kv :=
  consistent.mirrored.known (consistent.replicas gid server).reflects

theorem number_le (gid : Int) (server : ServerName) :
    (system.replica gid server).server.kv.config.num ≤ protocol.number gid := by
  obtain ⟨earlier, further, _, rel⟩ := consistent.known gid server
  rw [rel.number]
  exact further.number gid

end Consistent

end ShardedKV.ShardKV
