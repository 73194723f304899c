import ShardedKV.Raft.Handlers
import ShardedKV.Replication.Moves
import Mathlib.Data.List.Perm.Subperm

/-!
# How a cluster stands for a protocol state

A cluster with its calls in flight is related to a state of the replication protocol:
every server's full log, term and vote to the protocol's, every request and reply to what
its sender knew when it sent it.
-/

namespace ShardedKV.Raft

open Replication (State Committed Extends Untouched Invariant Step lastTerm Covered overlay)

variable {n : Nat} {Command : Type}

/-! ## Facts about the protocol state that never become false -/

section Facts

variable (state : State (Fin n) (LogEntry Command))

/-- A candidate that has given up the term to its elected leader, and may vote again. -/
def Resigned (server : Fin n) (term : Nat) : Prop :=
  (∃ start, state.vote server term = some (server, start)) ∧
    ∃ winner log, state.leader term = some (winner, log) ∧ winner ≠ server

/-- What a granted vote proves: the server's first vote, or that the term already has a leader. -/
def Granted (server : Fin n) (term : Nat) (candidate : Fin n) : Prop :=
  (∃ held, state.vote server term = some (candidate, held)) ∨ Resigned state server term

/-- A snapshot stands for committed entries and was taken by some server. -/
structure Snapshotted (taken : List (Fin n × Nat × List Command)) (term : Nat)
    (snapshot : Snapshot Command) (lastIncludedTerm lastIncludedIndex : Nat) : Prop where
  committed : Committed (scheme n Command) state term snapshot.entries
  length : snapshot.entries.length = lastIncludedIndex
  lastTerm : lastTerm LogEntry.term snapshot.entries = lastIncludedTerm
  data : snapshot.data = snapshot.entries.map LogEntry.command
  taken : 0 < lastIncludedIndex → ∃ server, (server, lastIncludedIndex, snapshot.data) ∈ taken

/-- A request carries the entries of the leader's log from `prev` to its end, and commits no
further than that end. -/
structure Carries (args : AppendEntriesArgs n Command) (log : List (LogEntry Command)) (prev : Nat) :
    Prop where
  prevLogIndex : args.prevLogIndex = prev
  prevLogTerm : args.prevLogTerm = termAt log prev
  entries : args.entries = (log.take (prev + args.entries.length)).drop prev
  available : prev + args.entries.length ≤ log.length
  leaderCommit : args.leaderCommit ≤ prev + args.entries.length
  committed : Committed (scheme n Command) state args.term (log.take args.leaderCommit)

/-- What a call and its reply say, given the caller's `lastIncludedIndex`. -/
def CallRel (taken : List (Fin n × Nat × List Command)) (included : Nat) (call : Call n Command) : Prop :=
  call.caller ≠ call.callee ∧
  match call.request with
  | .requestVote args => args.candidateId = call.caller ∧
      (∃ start, state.vote call.caller args.term = some (call.caller, start) ∧
        args.lastLogIndex = start.length ∧ args.lastLogTerm = lastTerm LogEntry.term start) ∧
      ∀ reply, call.reply = some (.requestVote reply) → reply.voteGranted →
        Granted state call.callee args.term call.caller
  | .appendEntries args =>
      (∃ log, state.leader args.term = some (call.caller, log) ∧
        (args.prevLogTerm = -1 ∨ ∃ prev, Carries state args log prev)) ∧
      ∀ reply, call.reply = some (.appendEntries reply) → reply.success →
        args.prevLogIndex + args.entries.length ≤ state.acked call.callee args.term
  | .installSnapshot args => args.lastIncludedIndex ≤ included ∧
      Snapshotted state taken args.term args.data args.lastIncludedTerm args.lastIncludedIndex

/-- What a message on an `applyCh` says. -/
def SentRel (taken : List (Fin n × Nat × List Command)) : ApplyMsg Command → Prop
  | .command command commandIndex => ∃ term entries entry,
      Committed (scheme n Command) state term entries ∧ 0 < commandIndex ∧
      entries[commandIndex - 1]? = some entry ∧ entry.command = command
  | .snapshot snapshot snapshotTerm snapshotIndex => 0 < snapshotIndex ∧
      ∃ term, Snapshotted state taken term snapshot snapshotTerm snapshotIndex

/-- What the list of successful `Start` calls has to do with the leaders' logs. -/
structure Recorded (started : List (Nat × Nat × Command)) : Prop where
  index : ∀ term leader log, state.leader term = some (leader, log) →
    ∀ position entry, log[position]? = some entry → entry.index = position + 1
  contains : ∀ term leader log, state.leader term = some (leader, log) →
    ∀ position entry, log[position]? = some entry → entry.term = term →
      (position + 1, term, entry.command) ∈ started
  bounded : ∀ record ∈ started, ∃ leader log, state.leader record.2.1 = some (leader, log) ∧
    record.1 ≤ log.length
  unique : (started.map (fun record => (record.1, record.2.1))).Nodup

end Facts

/-! ## The relation of one node -/

/-- A reboot reads back the persistent fields as they are. -/
def Durable [Inhabited Command] (rf : Raft n Command) : Prop :=
  (make rf.me rf.persister).getStatePersistData = rf.getStatePersistData

structure LogRel [Inhabited Command] (state : State (Fin n) (LogEntry Command))
    (taken : List (Fin n × Nat × List Command)) (server : Fin n) (rf : Raft n Command) : Prop where
  me : rf.me = server
  compacted : Compacted rf
  durable : Durable rf
  currentTerm : state.currentTerm server = rf.currentTerm
  log : state.log server = rf.fullLog
  retained : rf.lastIncludedIndex ≤ rf.lastApplied
  applied : rf.lastApplied ≤ rf.commitIndex
  commitIndex : rf.commitIndex ≤ rf.fullLog.length
  committed : Committed (scheme n Command) state rf.currentTerm (rf.fullLog.take rf.commitIndex)
  snapshot : Snapshotted state taken rf.currentTerm rf.persister.snapshot rf.lastIncludedTerm
    rf.lastIncludedIndex

structure RoleRel (state : State (Fin n) (LogEntry Command)) (server : Fin n) (rf : Raft n Command) :
    Prop where
  voted : ∀ candidate, rf.votedFor = some candidate → Granted state server rf.currentTerm candidate
  unvoted : rf.votedFor = none →
    state.vote server rf.currentTerm = none ∨ Resigned state server rf.currentTerm
  own : rf.state ≠ .follower → rf.votedFor = some server
  campaigned : rf.state = .candidate → ∃ start, state.vote server rf.currentTerm = some (server, start)
  notElected : rf.state = .candidate → ∀ log, state.leader rf.currentTerm ≠ some (server, log)
  leads : rf.state = .leader → state.leader rf.currentTerm = some (server, rf.fullLog)
  acked : rf.state = .leader → rf.fullLog.length ≤ state.acked server rf.currentTerm
  matched : rf.state = .leader → ∀ peer, peer ≠ server →
    rf.matchIndex peer ≤ (max (state.acked peer rf.currentTerm) rf.lastIncludedIndex : Nat)

/-- The service has applied the commands up to some index, and the batch in flight continues
there, unless a snapshot beyond the batch has been installed. -/
structure ServiceRel (state : State (Fin n) (LogEntry Command))
    (taken : List (Fin n × Nat × List Command)) (node : Node n Command) : Prop where
  applied : node.service.applied =
    (node.raft.fullLog.take node.service.applied.length).map LogEntry.command
  committed : node.service.applied.length ≤ node.raft.commitIndex
  included : node.service.lastIncludedIndex ≤ node.service.applied.length
  lastApplied : node.raft.lastApplied ≤ node.service.applied.length
  idle : node.batch = none → node.raft.lastApplied = node.service.applied.length
  sending : ∀ rest commitIndex, node.batch = some (rest, commitIndex) →
    commitIndex ≤ node.raft.commitIndex ∧
    ∃ first, first + rest.length = commitIndex ∧
      rest = (node.raft.fullLog.take commitIndex).drop first ∧
      (first = node.service.applied.length ∨ (commitIndex < node.service.lastIncludedIndex ∧
        node.raft.lastApplied = node.service.applied.length))
  sends : ∀ message ∈ node.snapshotSends, ∃ snapshot snapshotTerm snapshotIndex,
    message = .snapshot snapshot snapshotTerm snapshotIndex ∧ 0 < snapshotIndex ∧
    Snapshotted state taken node.raft.currentTerm snapshot snapshotTerm snapshotIndex
  installing : ∀ snapshot snapshotTerm snapshotIndex,
    node.service.installing = some (snapshot, snapshotTerm, snapshotIndex) →
    Snapshotted state taken node.raft.currentTerm snapshot snapshotTerm snapshotIndex

structure NodeRel [Inhabited Command] (state : State (Fin n) (LogEntry Command))
    (taken : List (Fin n × Nat × List Command)) (server : Fin n) (node : Node n Command) : Prop where
  log : LogRel state taken server node.raft
  role : RoleRel state server node.raft
  service : ServiceRel state taken node

/-! ## Counting votes -/

/-- The peer whose vote a call that has not returned could still bring in. -/
def liveVote (server : Fin n) (term : Nat) (call : Call n Command) : Option (Fin n) :=
  match call.request with
  | .requestVote args =>
    if call.caller = server ∧ args.term = term ∧ call.returned = false then some call.callee else none
  | _ => none

def liveVotes (calls : List (Call n Command)) (server : Fin n) (term : Nat) : List (Fin n) :=
  calls.filterMap (liveVote server term)

/-- The votes a candidate has counted come from different servers, none of which can be
counted again. -/
def Tally (state : State (Fin n) (LogEntry Command)) (calls : List (Call n Command)) (server : Fin n)
    (rf : Raft n Command) : Prop :=
  ∃ voters : Finset (Fin n), voters.card = rf.getVotesNum ∧ server ∈ voters ∧
    (∀ voter ∈ voters, Granted state voter rf.currentTerm server) ∧
    (∀ voter ∈ liveVotes calls server rf.currentTerm, voter ∉ voters) ∧
    (liveVotes calls server rf.currentTerm).Nodup

/-! ## The relation of a cluster -/

structure Simulates [Inhabited Command] (cluster : Cluster n Command)
    (state : State (Fin n) (LogEntry Command)) : Prop where
  invariant : Invariant (scheme n Command) state
  node : ∀ server, NodeRel state cluster.taken server (cluster.node server)
  call : ∀ call ∈ cluster.calls,
    CallRel state cluster.taken (cluster.node call.caller).raft.lastIncludedIndex call
  tally : ∀ server, (cluster.node server).raft.state = .candidate →
    Tally state cluster.calls server (cluster.node server).raft
  recorded : Recorded state cluster.started
  sent : ∀ record ∈ cluster.sent, SentRel state cluster.taken record.2

/-! ## What survives the moves of other servers -/

section Monotone

variable {state after : State (Fin n) (LogEntry Command)} {taken more : List (Fin n × Nat × List Command)}

section

variable (extended : Extends state after)
include extended

theorem Resigned.mono {server : Fin n} {term : Nat}
    (resigned : Resigned state server term) : Resigned after server term := by
  obtain ⟨⟨start, voted⟩, winner, log, leads, different⟩ := resigned
  obtain ⟨longer, stillLeads, -⟩ := extended.leader _ _ _ leads
  exact ⟨⟨start, extended.vote _ _ _ voted⟩, winner, longer, stillLeads, different⟩

theorem Granted.mono {server candidate : Fin n} {term : Nat}
    (granted : Granted state server term candidate) : Granted after server term candidate := by
  rcases granted with ⟨held, voted⟩ | resigned
  · exact .inl ⟨held, extended.vote _ _ _ voted⟩
  · exact .inr (resigned.mono extended)

theorem Snapshotted.mono (grown : taken ⊆ more)
    {earlier later : Nat} (notEarlier : earlier ≤ later) {snapshot : Snapshot Command}
    {lastIncludedTerm lastIncludedIndex : Nat}
    (snapshotted : Snapshotted state taken earlier snapshot lastIncludedTerm lastIncludedIndex) :
    Snapshotted after more later snapshot lastIncludedTerm lastIncludedIndex where
  committed := snapshotted.committed.mono extended notEarlier
  length := snapshotted.length
  lastTerm := snapshotted.lastTerm
  data := snapshotted.data
  taken := fun positive => (snapshotted.taken positive).imp fun _ member => grown member

theorem Carries.mono {args : AppendEntriesArgs n Command}
    {log longer : List (LogEntry Command)} {prev : Nat} (carries : Carries state args log prev)
    (grown : log <+: longer) : Carries after args longer prev := by
  obtain ⟨rest, rfl⟩ := grown
  have available := carries.available
  have commit := carries.leaderCommit
  refine ⟨carries.prevLogIndex, ?_, ?_, ?_, commit, ?_⟩
  · rw [carries.prevLogTerm, termAt, termAt, List.take_append_of_le_length (by omega)]
  · rw [List.take_append_of_le_length available]
    exact carries.entries
  · rw [List.length_append]
    omega
  · rw [List.take_append_of_le_length (by omega)]
    exact carries.committed.mono extended le_rfl

theorem CallRel.mono (grown : taken ⊆ more) {included later : Nat}
    (notEarlier : included ≤ later) {call : Call n Command} (related : CallRel state taken included call) :
    CallRel after more later call := by
  obtain ⟨different, content⟩ := related
  refine ⟨different, ?_⟩
  cases kind : call.request with
  | requestVote args =>
    simp only [kind] at content ⊢
    obtain ⟨isCaller, ⟨start, voted, index, term⟩, granted⟩ := content
    exact ⟨isCaller, ⟨start, extended.vote _ _ _ voted, index, term⟩,
      fun reply replied positive => (granted reply replied positive).mono extended⟩
  | appendEntries args =>
    simp only [kind] at content ⊢
    obtain ⟨⟨log, leads, carried⟩, acknowledged⟩ := content
    obtain ⟨longer, stillLeads, contained⟩ := extended.leader _ _ _ leads
    refine ⟨⟨longer, stillLeads, carried.imp id ?_⟩, fun reply replied success => ?_⟩
    · exact fun ⟨prev, carries⟩ => ⟨prev, carries.mono extended contained⟩
    · have earlier := acknowledged reply replied success
      have grownAck := extended.acked call.callee args.term
      omega
  | installSnapshot args =>
    simp only [kind] at content ⊢
    exact ⟨content.1.trans notEarlier, content.2.mono extended grown le_rfl⟩

theorem SentRel.mono (grown : taken ⊆ more) {message : ApplyMsg Command}
    (related : SentRel state taken message) : SentRel after more message := by
  cases message with
  | command command commandIndex =>
    obtain ⟨term, entries, entry, committed, positive, located, isCommand⟩ := related
    exact ⟨term, entries, entry, committed.mono extended le_rfl, positive, located, isCommand⟩
  | snapshot snapshot snapshotTerm snapshotIndex =>
    obtain ⟨positive, term, snapshotted⟩ := related
    exact ⟨positive, term, snapshotted.mono extended grown le_rfl⟩

theorem Recorded.of_sameLeaders (sameLeaders : Replication.SameLeaders (scheme n Command) state after)
    {started : List (Nat × Nat × Command)} (recorded : Recorded state started) :
    Recorded after started where
  index := by
    intro term leader log leads position entry located
    rcases sameLeaders term leader log leads with old | ⟨covered, -⟩
    · exact recorded.index _ _ _ old position entry located
    · obtain ⟨creator, creatorLog, created, inCreator⟩ := covered.created located
      exact recorded.index _ _ _ created position entry inCreator
  contains := by
    intro term leader log leads position entry located own
    rcases sameLeaders term leader log leads with old | ⟨-, earlier⟩
    · exact recorded.contains _ _ _ old position entry located own
    · have before := earlier entry (List.mem_of_getElem? located)
      simp only [scheme_termOf] at before
      omega
  bounded := by
    intro record member
    obtain ⟨leader, log, leads, bound⟩ := recorded.bounded record member
    obtain ⟨longer, stillLeads, contained⟩ := extended.leader _ _ _ leads
    exact ⟨leader, longer, stillLeads, bound.trans contained.length_le⟩
  unique := recorded.unique

theorem Tally.mono {calls fewer : List (Call n Command)} {server : Fin n} {rf : Raft n Command}
    (live : List.Subperm (liveVotes fewer server rf.currentTerm) (liveVotes calls server rf.currentTerm))
    (tally : Tally state calls server rf) : Tally after fewer server rf := by
  obtain ⟨voters, count, self, granted, uncounted, distinct⟩ := tally
  refine ⟨voters, count, self, fun voter member => (granted voter member).mono extended,
    fun voter member => uncounted voter (live.subset member), ?_⟩
  obtain ⟨kept, permuted, sub⟩ := live
  exact permuted.nodup_iff.mp (distinct.sublist sub)

end

/-- What the service relies on across a transition of its server. -/
structure Keeps (rf other : Raft n Command) : Prop where
  currentTerm : rf.currentTerm ≤ other.currentTerm
  commitIndex : rf.commitIndex ≤ other.commitIndex
  committed : other.fullLog.take rf.commitIndex = rf.fullLog.take rf.commitIndex
  lastApplied : other.lastApplied = rf.lastApplied
  lastIncludedIndex : rf.lastIncludedIndex ≤ other.lastIncludedIndex

theorem Keeps.refl (rf : Raft n Command) : Keeps rf rf := ⟨le_rfl, le_rfl, rfl, rfl, le_rfl⟩

theorem Keeps.trans {first second third : Raft n Command} (firstKeeps : Keeps first second)
    (secondKeeps : Keeps second third) : Keeps first third where
  currentTerm := firstKeeps.currentTerm.trans secondKeeps.currentTerm
  commitIndex := firstKeeps.commitIndex.trans secondKeeps.commitIndex
  committed := by
    have shortened := congrArg (List.take first.commitIndex) secondKeeps.committed
    rw [List.take_take, List.take_take, Nat.min_eq_left firstKeeps.commitIndex] at shortened
    rw [shortened, firstKeeps.committed]
  lastApplied := secondKeeps.lastApplied.trans firstKeeps.lastApplied
  lastIncludedIndex := firstKeeps.lastIncludedIndex.trans secondKeeps.lastIncludedIndex

theorem ServiceRel.with_raft (extended : Extends state after) (grown : taken ⊆ more)
    {node : Node n Command} (service : ServiceRel state taken node) {rf : Raft n Command}
    (keeps : Keeps node.raft rf) : ServiceRel after more { node with raft := rf } := by
  obtain ⟨later, commit, sameLog, sameApplied, -⟩ := keeps
  have sameTake : ∀ index, index ≤ node.raft.commitIndex →
      rf.fullLog.take index = node.raft.fullLog.take index := by
    intro index bound
    have shortened := congrArg (List.take index) sameLog
    rwa [List.take_take, List.take_take, Nat.min_eq_left bound] at shortened
  refine ⟨?_, service.committed.trans commit, service.included, ?_, ?_, ?_, ?_, ?_⟩
  · simp only [sameTake _ service.committed]
    exact service.applied
  · simp only [sameApplied]
    exact service.lastApplied
  · simp only [sameApplied]
    exact service.idle
  · intro rest commitIndex isBatch
    obtain ⟨bound, first, total, entries, position⟩ := service.sending rest commitIndex isBatch
    refine ⟨bound.trans commit, first, total, ?_, ?_⟩
    · simp only [sameTake _ bound]
      exact entries
    · simp only [sameApplied]
      exact position
  · intro message member
    obtain ⟨snapshot, snapshotTerm, snapshotIndex, isSnapshot, positive, snapshotted⟩ :=
      service.sends message member
    exact ⟨snapshot, snapshotTerm, snapshotIndex, isSnapshot, positive, snapshotted.mono extended grown later⟩
  · intro snapshot snapshotTerm snapshotIndex isInstalling
    exact (service.installing snapshot snapshotTerm snapshotIndex isInstalling).mono extended grown later

variable [Inhabited Command]

theorem NodeRel.mono (extended : Extends state after) {server : Fin n}
    (untouched : Untouched server state after) (grown : taken ⊆ more) {node : Node n Command}
    (related : NodeRel state taken server node) : NodeRel after more server node where
  log := { related.log with
    currentTerm := untouched.currentTerm.trans related.log.currentTerm
    log := untouched.log.trans related.log.log
    committed := related.log.committed.mono extended le_rfl
    snapshot := related.log.snapshot.mono extended grown le_rfl }
  role := { related.role with
    voted := fun candidate isVote => (related.role.voted candidate isVote).mono extended
    unvoted := by
      intro noVote
      rw [untouched.vote]
      exact (related.role.unvoted noVote).imp id (Resigned.mono extended)
    campaigned := by
      rw [untouched.vote]
      exact related.role.campaigned
    notElected := fun isCandidate log elected =>
      related.role.notElected isCandidate log ((untouched.leader _ _).mp elected)
    leads := fun isLeader => (untouched.leader _ _).mpr (related.role.leads isLeader)
    acked := fun isLeader => (related.role.acked isLeader).trans (extended.acked _ _)
    matched := by
      intro isLeader peer different
      have bound := related.role.matched isLeader peer different
      have grownAck := extended.acked peer node.raft.currentTerm
      omega }
  service := related.service.with_raft extended grown (Keeps.refl _)

/-- One server acts: what it did itself, what it sent and what it recorded remain to be shown. -/
theorem Simulates.move {cluster next : Cluster n Command} (simulates : Simulates cluster state)
    {server : Fin n} (run : Relation.ReflTransGen (Step (scheme n Command)) state after)
    (untouched : ∀ other, other ≠ server → Untouched other state after)
    (others : ∀ other, other ≠ server → next.node other = cluster.node other)
    (grown : cluster.taken ⊆ next.taken)
    (node : NodeRel after next.taken server (next.node server))
    (included : (cluster.node server).raft.lastIncludedIndex ≤ (next.node server).raft.lastIncludedIndex)
    (calls : ∀ call ∈ next.calls, call ∈ cluster.calls ∨
      CallRel after next.taken (next.node call.caller).raft.lastIncludedIndex call)
    (live : ∀ other term, other ≠ server →
      List.Subperm (liveVotes next.calls other term) (liveVotes cluster.calls other term))
    (tally : (next.node server).raft.state = .candidate →
      Tally after next.calls server (next.node server).raft)
    (recorded : Recorded after next.started)
    (sent : ∀ record ∈ next.sent, record ∈ cluster.sent ∨ SentRel after next.taken record.2) :
    Simulates next after := by
  obtain ⟨invariant, extended⟩ := Replication.run_invariant simulates.invariant run
  refine ⟨invariant, ?_, ?_, ?_, recorded, ?_⟩
  · intro other
    by_cases same : other = server
    · exact same ▸ node
    · rw [others other same]
      exact (simulates.node other).mono extended (untouched other same) grown
  · intro call member
    rcases calls call member with old | new
    · refine (simulates.call call old).mono extended grown ?_
      by_cases same : call.caller = server
      · rw [same]
        exact included
      · rw [others _ same]
    · exact new
  · intro other isCandidate
    by_cases same : other = server
    · subst same
      exact tally isCandidate
    · rw [others other same] at isCandidate ⊢
      exact (simulates.tally other isCandidate).mono extended (live other _ same)
  · intro record member
    rcases sent record member with old | new
    · exact (simulates.sent record old).mono extended grown
    · exact new

end Monotone

end ShardedKV.Raft
