import ShardedKV.Raft.AppendOnly
import ShardedKV.Raft.Delivery
import ShardedKV.Replication.Holding

/-!
# What `matchIndex` says about a peer

The leader raises `matchIndex` when a peer has acknowledged `AppendEntries`, and when a call of
`InstallSnapshot` returns in the leader's term.  The first is a promise about the peer's log.  The
second is not: the peer answers before its service has installed the snapshot, and also when it
has refused the request.  If the peer has what the snapshot stands for whenever such a reply is
processed, then `matchIndex` is right in every state.
-/

namespace ShardedKV.Raft

open Cluster (Action)
open Replication (State Committed AckedHeld)

variable {n : Nat} {Command : Type}

/-! ## Replies of `InstallSnapshot` -/

/-- When the reply to `InstallSnapshot` makes the leader raise `matchIndex`, the peer has the snapshot's
last entry in its log, or a snapshot that reaches at least as far. -/
def Cluster.snapshotHeld (cluster : Cluster n Command) : Action n Command → Bool
  | .deliver id =>
    match cluster.calls[id]? with
    | none => true
    | some call =>
      match call.request, call.reply with
      | .installSnapshot args, some (.installSnapshot reply) =>
        let leader := (cluster.node call.caller).raft
        let peer := (cluster.node call.callee).raft
        leader.state = .leader → reply.term = leader.currentTerm →
          leader.matchIndex call.callee ≤ args.lastIncludedIndex →
          args.lastIncludedIndex ≤ peer.lastIncludedIndex ∨
            peer.retainedTerm args.lastIncludedIndex = some args.lastIncludedTerm
      | _, _ => true
  | _ => true

theorem installSnapshot_replyTerm (rf : Raft n Command) (args : InstallSnapshotArgs n Command) :
    (rf.installSnapshot args).2.1.term = (rf.installSnapshot args).1.currentTerm := by
  unfold installSnapshot
  split
  · rfl
  · dsimp only
    split <;> split <;> rfl

theorem observeCandidate_indices (rf : Raft n Command) (term : Nat) :
    (rf.observeCandidate term).matchIndex = rf.matchIndex ∧ (rf.observeCandidate term).nextIndex = rf.nextIndex := by
  rcases observeCandidate_cases rf term with ⟨_, result⟩ | ⟨_, result⟩
  · rw [result]
    exact ⟨rfl, rfl⟩
  · rw [result]
    exact ⟨rfl, rfl⟩

theorem observeLeader_indices (rf : Raft n Command) (term : Nat) :
    (rf.observeLeader term).matchIndex = rf.matchIndex ∧ (rf.observeLeader term).nextIndex = rf.nextIndex := by
  rcases observeLeader_cases rf term with ⟨_, result⟩ | ⟨_, _, result⟩
  · rw [result]
    exact ⟨rfl, rfl⟩
  · rw [result]
    exact ⟨rfl, rfl⟩

theorem requestVote_indices (rf : Raft n Command) (args : RequestVoteArgs n) :
    (rf.requestVote args).1.matchIndex = rf.matchIndex ∧ (rf.requestVote args).1.nextIndex = rf.nextIndex := by
  rcases requestVote_cases rf args with ⟨reply, -, result | result⟩ | ⟨-, -, -, result⟩
  all_goals
    rw [result]
    exact observeCandidate_indices _ _

theorem installSnapshot_indices (rf : Raft n Command) (args : InstallSnapshotArgs n Command) :
    (rf.installSnapshot args).1.matchIndex = rf.matchIndex ∧ (rf.installSnapshot args).1.nextIndex = rf.nextIndex := by
  rcases installSnapshot_cases rf args with ⟨reply, result⟩ | ⟨-, reply, message, result, -⟩
  · rw [result]
    exact ⟨rfl, rfl⟩
  · rw [result]
    exact observeCandidate_indices _ _

variable [Inhabited Command]

theorem Compacted.appendEntries_indices {rf : Raft n Command} (compacted : Compacted rf)
    (args : AppendEntriesArgs n Command) : (rf.appendEntries args).1.matchIndex = rf.matchIndex ∧
      (rf.appendEntries args).1.nextIndex = rf.nextIndex := by
  have observed := (observeLeader_sameLog rf args.term).compacted compacted
  rcases appendEntries_cases rf args observed with ⟨reply, result, -⟩ | ⟨-, prev, -, -, -, -, result⟩
  · rw [result]
    exact observeLeader_indices _ _
  · rw [result, storeEntries_eq]
    exact observeLeader_indices _ _

variable {cluster next : Cluster n Command} {state after : State (Fin n) (LogEntry Command)}
  {server : Fin n} {action : Action n Command}

/-- Every step of the run is taken in a state that meets the condition. -/
def Cluster.always (met : Cluster n Command → Action n Command → Bool) (cluster : Cluster n Command)
    (actions : List (Action n Command)) : Bool :=
  cluster.observe (fun cluster action sofar => sofar && met cluster action) actions true

theorem Cluster.observe_and (met : Cluster n Command → Action n Command → Bool) (cluster : Cluster n Command)
    (actions : List (Action n Command)) (sofar : Bool) :
    cluster.observe (fun cluster action sofar => sofar && met cluster action) actions sofar =
      (sofar && cluster.always met actions) := by
  induction actions generalizing cluster sofar with
  | nil => simp [Cluster.always, Cluster.observe]
  | cons action actions inductionHypothesis =>
    simp only [Cluster.always, Cluster.observe]
    split
    · simp
    · rw [inductionHypothesis, inductionHypothesis, Bool.true_and, Bool.and_assoc]

theorem Cluster.always_cons {met : Cluster n Command → Action n Command → Bool} {actions : List (Action n Command)}
    (step : cluster.step action = some next) :
    cluster.always met (action :: actions) = (met cluster action && next.always met actions) := by
  rw [Cluster.always, Cluster.observe, step]
  exact Cluster.observe_and met next actions _

/-- A server that has answered `InstallSnapshot` is in the term of its answer or a later one. -/
def Answered (cluster : Cluster n Command) : Prop :=
  ∀ call ∈ cluster.calls, ∀ reply, call.reply = some (.installSnapshot reply) →
    reply.term ≤ (cluster.node call.callee).raft.currentTerm

theorem answered_initial : Answered (Cluster.initial : Cluster n Command) :=
  fun _ member => absurd member List.not_mem_nil

/-- Where the replies to `InstallSnapshot` after a step come from. -/
theorem Cluster.step_replies (step : cluster.step action = some next) {call : Call n Command}
    (member : call ∈ next.calls) {reply : InstallSnapshotReply}
    (replied : call.reply = some (.installSnapshot reply)) :
    (∃ old ∈ cluster.calls, old.callee = call.callee ∧ old.reply = call.reply) ∨
      reply.term = (next.node call.callee).raft.currentTerm := by
  cases Cluster.step_calls step member with
  | kept old oldMember _ callee _ sameReply => exact .inl ⟨old, oldMember, callee.symm, sameReply.symm⟩
  | votes args request unanswered => cases unanswered.symm.trans replied
  | entries args request unanswered => cases unanswered.symm.trans replied
  | snapshot args request unanswered => cases unanswered.symm.trans replied
  | answered old oldMember _ callee request answer raft =>
    right
    rw [answer] at replied
    cases kind : call.request with
    | requestVote args => simp [kind, handleRequest] at replied
    | appendEntries args => simp [kind, handleRequest] at replied
    | installSnapshot args =>
      simp only [kind, handleRequest, Option.some.injEq, Reply.installSnapshot.injEq] at replied raft
      rw [raft, ← replied]
      exact installSnapshot_replyTerm _ args

theorem Answered.step (simulates : Simulates cluster state) (step : cluster.step action = some next)
    (answered : Answered cluster) : Answered next := by
  intro call member reply replied
  rcases Cluster.step_replies step member replied with ⟨old, oldMember, callee, sameReply⟩ | current
  · obtain ⟨after, run, nextSimulates⟩ := simulates.step step
    obtain ⟨-, extended⟩ := Replication.run_invariant simulates.invariant run
    have later := extended.currentTerm call.callee
    rw [(simulates.node _).log.currentTerm, (nextSimulates.node _).log.currentTerm] at later
    have earlier := answered old oldMember reply (sameReply.trans replied)
    rw [callee] at earlier
    exact earlier.trans later
  · exact current.le

/-! ## What moves `matchIndex` -/

/-- The reasons for the value of `matchIndex` after a step of a leader. -/
inductive MatchSource (cluster : Cluster n Command) (server peer : Fin n) : Action n Command → Int → Prop where
  | unchanged (action : Action n Command) : MatchSource cluster server peer action
      ((cluster.node server).raft.matchIndex peer)
  | own (action : Action n Command) (self : peer = server) : MatchSource cluster server peer action
      (cluster.node server).raft.fullLog.length
  | acknowledged (id : Nat) (call : Call n Command) (args : AppendEntriesArgs n Command) (reply : AppendEntriesReply)
      (located : cluster.calls[id]? = some call) (caller : call.caller = server) (callee : call.callee = peer)
      (request : call.request = .appendEntries args) (replied : call.reply = some (.appendEntries reply))
      (current : (cluster.node server).raft.currentTerm = args.term) (success : reply.success = true) :
      MatchSource cluster server peer (.deliver id) (args.prevLogIndex + args.entries.length)
  | snapshot (id : Nat) (call : Call n Command) (args : InstallSnapshotArgs n Command) (reply : InstallSnapshotReply)
      (located : cluster.calls[id]? = some call) (caller : call.caller = server) (callee : call.callee = peer)
      (request : call.request = .installSnapshot args) (replied : call.reply = some (.installSnapshot reply))
      (isLeader : (cluster.node server).raft.state = .leader)
      (current : reply.term = (cluster.node server).raft.currentTerm)
      (lower : (cluster.node server).raft.matchIndex peer ≤ args.lastIncludedIndex) :
      MatchSource cluster server peer (.deliver id) args.lastIncludedIndex

/-- The reasons for the values of `matchIndex` and `nextIndex` after a step of a leader. -/
inductive IndexSource (cluster : Cluster n Command) (server peer : Fin n) :
    Action n Command → Int → Int → Prop where
  | unchanged (action : Action n Command) : IndexSource cluster server peer action
      ((cluster.node server).raft.matchIndex peer) ((cluster.node server).raft.nextIndex peer)
  | own (action : Action n Command) (self : peer = server) : IndexSource cluster server peer action
      (cluster.node server).raft.fullLog.length ((cluster.node server).raft.fullLog.length + 1)
  | acknowledged (id : Nat) (call : Call n Command) (args : AppendEntriesArgs n Command) (reply : AppendEntriesReply)
      (located : cluster.calls[id]? = some call) (caller : call.caller = server) (callee : call.callee = peer)
      (request : call.request = .appendEntries args) (replied : call.reply = some (.appendEntries reply))
      (current : (cluster.node server).raft.currentTerm = args.term)
      (covered : reply.term ≤ (cluster.node server).raft.currentTerm) (success : reply.success = true) :
      IndexSource cluster server peer (.deliver id) (args.prevLogIndex + args.entries.length)
        (args.prevLogIndex + args.entries.length + 1)
  | refused (id : Nat) (call : Call n Command) (args : AppendEntriesArgs n Command) (reply : AppendEntriesReply)
      (located : cluster.calls[id]? = some call) (caller : call.caller = server) (callee : call.callee = peer)
      (request : call.request = .appendEntries args) (replied : call.reply = some (.appendEntries reply))
      (current : (cluster.node server).raft.currentTerm = args.term)
      (covered : reply.term ≤ (cluster.node server).raft.currentTerm) (failure : reply.success = false)
      (inconsistent : reply.logInconsistency = true) :
      IndexSource cluster server peer (.deliver id) ((cluster.node server).raft.matchIndex peer)
        ((cluster.node server).raft.retryIndex peer reply)
  | snapshot (id : Nat) (call : Call n Command) (args : InstallSnapshotArgs n Command) (reply : InstallSnapshotReply)
      (located : cluster.calls[id]? = some call) (caller : call.caller = server) (callee : call.callee = peer)
      (request : call.request = .installSnapshot args) (replied : call.reply = some (.installSnapshot reply))
      (isLeader : (cluster.node server).raft.state = .leader)
      (current : reply.term = (cluster.node server).raft.currentTerm)
      (lower : (cluster.node server).raft.matchIndex peer ≤ args.lastIncludedIndex) :
      IndexSource cluster server peer (.deliver id) args.lastIncludedIndex (args.lastIncludedIndex + 1)

theorem Simulates.section_indices (simulates : Simulates cluster state) {rf : Raft n Command}
    (acts : Section cluster server action rf) (peer : Fin n) (wasLeader : (cluster.node server).raft.state = .leader)
    (isLeader : rf.state = .leader) :
    IndexSource cluster server peer action (rf.matchIndex peer) (rf.nextIndex peer) := by
  have node := simulates.node server
  cases acts with
  | none => exact .unchanged _
  | candidateState => cases isLeader
  | leaderAppendEntries target =>
    unfold leaderAppendEntries
    dsimp only
    split
    · split <;> exact .unchanged _
    · rw [if_neg (not_not.mpr wasLeader)]
      dsimp only
      -- on the way to its call the goroutine notes the leader's own last index
      by_cases self : peer = (cluster.node server).raft.me
      · rw [self, Function.update_self, Function.update_self, node.log.compacted.getLastLogIndex_eq]
        exact .own _ node.log.me
      · rw [Function.update_of_ne self, Function.update_of_ne self]
        exact .unchanged _
  | requestVote id call args =>
    rw [(requestVote_indices _ _).1, (requestVote_indices _ _).2]
    exact .unchanged _
  | appendEntries id call args =>
    rw [(node.log.compacted.appendEntries_indices _).1, (node.log.compacted.appendEntries_indices _).2]
    exact .unchanged _
  | installSnapshot id call args =>
    rw [(installSnapshot_indices _ _).1, (installSnapshot_indices _ _).2]
    exact .unchanged _
  | requestVoteReply id call args reply =>
    rcases handleRequestVoteReply_cases (cluster.node server).raft args reply with
      ⟨_, result⟩ | result | ⟨isCandidate, _⟩
    · rw [result]
      exact .unchanged _
    · rw [result]
      exact .unchanged _
    · -- a leader does not count votes
      cases isCandidate.symm.trans wasLeader
  | appendEntriesReply id call args reply located caller request replied =>
    rcases handleAppendEntriesReply_cases (cluster.node server).raft call.callee args reply with
      ⟨-, result⟩ | ⟨nextIndex, matchIndex, commitIndex, result, others, target⟩
    · rw [result] at isLeader
      cases isLeader
    rw [result]
    by_cases isTarget : peer = call.callee
    · subst isTarget
      rcases target with ⟨sameMatch, sameNext⟩ | ⟨-, current, covered, ⟨success, raised, next⟩ |
        ⟨failure, inconsistent, sameMatch, retry⟩⟩
      · simp only [sameMatch, sameNext]
        exact .unchanged _
      · simp only [next, raised]
        exact .acknowledged id call args reply located caller rfl request replied current covered success
      · simp only [sameMatch, retry]
        exact .refused id call args reply located caller rfl request replied current covered failure inconsistent
    · simp only [others peer isTarget]
      exact .unchanged _
  | installSnapshotReply id call args reply located caller request replied =>
    rcases handleInstallSnapshotReply_cases (cluster.node server).raft call.callee args reply with
      ⟨-, result⟩ | ⟨nextIndex, matchIndex, commitIndex, result, others, target⟩
    · rw [result] at isLeader
      cases isLeader
    rw [result]
    by_cases isTarget : peer = call.callee
    · subst isTarget
      rcases target with ⟨sameMatch, sameNext⟩ | ⟨leads, current, lower, raised, next⟩
      · simp only [sameMatch, sameNext]
        exact .unchanged _
      · simp only [next, raised]
        exact .snapshot id call args reply located caller rfl request replied leads current lower
    · simp only [others peer isTarget]
      exact .unchanged _
  | start command =>
    unfold Raft.start
    split <;> exact .unchanged _
  | finishApply commitIndex =>
    unfold finishApply
    split <;> exact .unchanged _
  | condInstallSnapshot snapshot snapshotTerm snapshotIndex =>
    unfold condInstallSnapshot
    split <;> exact .unchanged _
  | snapshot index =>
    unfold Raft.snapshot
    split <;> exact .unchanged _
  | restart =>
    rw [make_state] at isLeader
    cases isLeader

theorem Simulates.section_matchIndex (simulates : Simulates cluster state) {rf : Raft n Command}
    (acts : Section cluster server action rf) (peer : Fin n) (wasLeader : (cluster.node server).raft.state = .leader)
    (isLeader : rf.state = .leader) : MatchSource cluster server peer action (rf.matchIndex peer) := by
  have source := simulates.section_indices acts peer wasLeader isLeader
  generalize rf.matchIndex peer = raised at source
  generalize rf.nextIndex peer = next at source
  cases source with
  | unchanged => exact .unchanged _
  | own _ self => exact .own _ self
  | acknowledged id call args reply located caller callee request replied current _ success =>
    exact .acknowledged id call args reply located caller callee request replied current success
  | refused => exact .unchanged _
  | snapshot id call args reply located caller callee request replied leads current lower =>
    exact .snapshot id call args reply located caller callee request replied leads current lower

/-! ## Soundness -/

/-- A peer in the leader's term holds the leader's first entries, and a peer in an earlier term
has not been counted yet. -/
structure Matched (leader peer : Raft n Command) (count : Nat) : Prop where
  inLog : count ≤ leader.fullLog.length
  reached : 0 < count → leader.currentTerm ≤ peer.currentTerm
  held : peer.currentTerm = leader.currentTerm → leader.fullLog.take count <+: peer.fullLog

def MatchSound (cluster : Cluster n Command) : Prop :=
  ∀ leader peer, (cluster.node leader).raft.state = .leader →
    Matched (cluster.node leader).raft (cluster.node peer).raft ((cluster.node leader).raft.matchIndex peer).toNat

theorem matchSound_initial : MatchSound (Cluster.initial : Cluster n Command) := by
  intro leader peer isLeader
  rw [Cluster.initial_state] at isLeader
  cases isLeader

section

variable (simulates : Simulates cluster state)
include simulates

/-- What a peer holds of the leader's log it still holds after a step in which the leader stays. -/
theorem Simulates.matched_step (run : Relation.ReflTransGen (Replication.Step (scheme n Command)) state after)
    (nextSimulates : Simulates next after) {leader peer : Fin n} {count : Nat}
    (wasLeader : (cluster.node leader).raft.state = .leader)
    (sameTerm : (next.node leader).raft.currentTerm = (cluster.node leader).raft.currentTerm)
    (grown : (cluster.node leader).raft.fullLog <+: (next.node leader).raft.fullLog)
    (matched : Matched (cluster.node leader).raft (cluster.node peer).raft count) :
    Matched (next.node leader).raft (next.node peer).raft count := by
  have leads := (simulates.node leader).role.leads wasLeader
  obtain ⟨-, extended⟩ := Replication.run_invariant simulates.invariant run
  have later := extended.currentTerm peer
  rw [(simulates.node peer).log.currentTerm, (nextSimulates.node peer).log.currentTerm] at later
  refine ⟨matched.inLog.trans grown.length_le, ?_, ?_⟩
  · intro positive
    rw [sameTerm]
    exact (matched.reached positive).trans later
  · intro peerTerm
    rcases Nat.eq_zero_or_pos count with rfl | positive
    · exact List.nil_prefix
    have wasTerm : (cluster.node peer).raft.currentTerm = (cluster.node leader).raft.currentTerm := by
      have reached := matched.reached positive
      omega
    have held := matched.held wasTerm
    rw [← wasTerm, ← (simulates.node peer).log.currentTerm] at leads
    rw [← (simulates.node peer).log.log] at held
    have stillHeld := Replication.leader_held_run simulates.invariant run leads ⟨_, List.take_append_drop _ _⟩
      held (by rw [(simulates.node peer).log.currentTerm, (nextSimulates.node peer).log.currentTerm]; omega)
    rw [(nextSimulates.node peer).log.log] at stillHeld
    obtain ⟨rest, whole⟩ := grown
    rw [← whole, List.take_append_of_le_length matched.inLog]
    exact stillHeld

theorem Simulates.acked_le {leader : Fin n} (isLeader : (cluster.node leader).raft.state = .leader) (peer : Fin n) :
    state.acked peer (cluster.node leader).raft.currentTerm ≤ (cluster.node leader).raft.fullLog.length := by
  rcases Nat.eq_zero_or_pos (state.acked peer (cluster.node leader).raft.currentTerm) with zero | positive
  · omega
  obtain ⟨winner, log, winnerLeads, inLog⟩ := simulates.invariant.acked_length peer _ positive
  rw [(simulates.node leader).role.leads isLeader] at winnerLeads
  cases winnerLeads
  exact inLog

theorem Simulates.matched_acked (ackedHeld : AckedHeld state)
    {leader peer : Fin n} {count : Nat} (isLeader : (cluster.node leader).raft.state = .leader)
    (acknowledged : count ≤ state.acked peer (cluster.node leader).raft.currentTerm) :
    Matched (cluster.node leader).raft (cluster.node peer).raft count := by
  have leads := (simulates.node leader).role.leads isLeader
  refine ⟨acknowledged.trans (simulates.acked_le isLeader peer), ?_, ?_⟩
  · intro positive
    have reached := simulates.invariant.acked_term peer _ (positive.trans_le acknowledged)
    rwa [(simulates.node peer).log.currentTerm] at reached
  · intro sameTerm
    rw [← sameTerm, ← (simulates.node peer).log.currentTerm] at leads acknowledged
    have held := ackedHeld peer leader _ leads
    rw [(simulates.node peer).log.log] at held
    exact (List.take_prefix_take_left acknowledged).trans held

/-- What a snapshot of the leader stands for is held by a peer that has the snapshot's last entry. -/
theorem Simulates.matched_snapshot {leader peer : Fin n} {term : Nat}
    {snapshot : Snapshot Command} {lastIncludedTerm lastIncludedIndex : Nat}
    (snapshotted : Snapshotted state cluster.taken term snapshot lastIncludedTerm lastIncludedIndex)
    (included : lastIncludedIndex ≤ (cluster.node leader).raft.lastIncludedIndex)
    (reached : (cluster.node leader).raft.currentTerm ≤ (cluster.node peer).raft.currentTerm)
    (held : lastIncludedIndex ≤ (cluster.node peer).raft.lastIncludedIndex ∨
      (cluster.node peer).raft.retainedTerm lastIncludedIndex = some lastIncludedTerm) :
    Matched (cluster.node leader).raft (cluster.node peer).raft lastIncludedIndex := by
  have leaderLog := (simulates.node leader).log
  have peerLog := (simulates.node peer).log
  have leaderCommit := included.trans (leaderLog.retained.trans leaderLog.applied)
  refine ⟨leaderCommit.trans leaderLog.commitIndex, fun _ => reached, fun _ => ?_⟩
  -- everything up to a commit index is agreed on
  have agreed : ∀ {known : Nat} {entries : List (LogEntry Command)}, Committed (scheme n Command) state known entries →
      lastIncludedIndex ≤ entries.length →
      (cluster.node leader).raft.fullLog.take lastIncludedIndex = entries.take lastIncludedIndex := by
    intro known entries committed inEntries
    have same := leaderLog.committed.take_eq simulates.invariant committed
      (by rw [List.length_take]; exact le_min leaderCommit (leaderCommit.trans leaderLog.commitIndex)) inEntries
    rwa [List.take_take, Nat.min_eq_left leaderCommit] at same
  suffices same : (cluster.node leader).raft.fullLog.take lastIncludedIndex =
      (cluster.node peer).raft.fullLog.take lastIncludedIndex by
    rw [same]
    exact List.take_prefix _ _
  rcases held with further | lastEntry
  · -- the peer has committed the index as well
    have peerCommit := further.trans (peerLog.retained.trans peerLog.applied)
    have long := le_min peerCommit (peerCommit.trans peerLog.commitIndex)
    rw [agreed peerLog.committed (by rwa [List.length_take]), List.take_take, Nat.min_eq_left peerCommit]
  · -- the peer has the snapshot's last entry, and with it everything before
    obtain ⟨-, inPeer, sameTerm⟩ := peerLog.compacted.retainedTerm_eq_some.mp lastEntry
    have covered := simulates.invariant.log_covered peer
    rw [peerLog.log] at covered
    rw [agreed snapshotted.committed snapshotted.length.ge]
    refine take_eq_of_termAt (snapshotted.committed.covered simulates.invariant) covered snapshotted.length.ge inPeer ?_
    rw [sameTerm, ← snapshotted.length, termAt_length, snapshotted.lastTerm]

theorem MatchSound.step (answered : Answered cluster)
    (run : Relation.ReflTransGen (Replication.Step (scheme n Command)) state after)
    (nextSimulates : Simulates next after) (ackedHeld : AckedHeld after) (step : cluster.step action = some next)
    (held : cluster.snapshotHeld action = true) (sound : MatchSound cluster) : MatchSound next := by
  intro leader peer isLeader
  rcases simulates.leader_step step isLeader with ⟨elected, -⟩ | ⟨wasLeader, sameTerm, appended⟩
  · -- a new leader has counted nothing
    rw [elected.matchIndex]
    exact ⟨Nat.zero_le _, nofun, fun _ => List.nil_prefix⟩
  have grown : (cluster.node leader).raft.fullLog <+: (next.node leader).raft.fullLog := by
    rw [appended]
    exact List.prefix_append _ _
  have keeps : ∀ {count : Nat}, Matched (cluster.node leader).raft (cluster.node peer).raft count →
      Matched (next.node leader).raft (next.node peer).raft count :=
    simulates.matched_step run nextSimulates wasLeader sameTerm grown
  have source := simulates.section_matchIndex (Cluster.step_section step leader) peer wasLeader isLeader
  generalize (next.node leader).raft.matchIndex peer = raised at source
  cases source with
  | unchanged => exact keeps (sound leader peer wasLeader)
  | own _ self =>
    subst self
    exact keeps ⟨le_rfl, fun _ => le_rfl, fun _ => List.take_prefix _ _⟩
  | acknowledged id call args reply located caller callee request replied current success =>
    obtain ⟨-, content⟩ := simulates.call call (List.mem_of_getElem? located)
    simp only [request, callee] at content
    have acked := content.2 reply replied success
    obtain ⟨-, extended⟩ := Replication.run_invariant simulates.invariant run
    have stillAcked := extended.acked peer args.term
    apply nextSimulates.matched_acked ackedHeld isLeader
    rw [sameTerm, current]
    omega
  | snapshot id call args reply located caller callee request replied leads current lower =>
    apply keeps
    obtain ⟨-, content⟩ := simulates.call call (List.mem_of_getElem? located)
    simp only [request, caller] at content
    -- the reply is of the leader's term, so the peer has reached it
    have reached := answered call (List.mem_of_getElem? located) reply replied
    rw [callee, current] at reached
    rw [Int.toNat_natCast]
    refine simulates.matched_snapshot content.2 content.1 reached ?_
    simp only [Cluster.snapshotHeld, located, request, replied, caller, callee, decide_eq_true_eq] at held
    exact held leads current lower

end

/-- In a run in which the peer has the snapshot whenever a reply to `InstallSnapshot` raises `matchIndex`,
`matchIndex` is right: a peer in the leader's term holds the leader's entries up to it, and gets
them back from its persister after a crash. -/
theorem matchIndex_sound {actions : List (Action n Command)} {cluster : Cluster n Command}
    (run : Cluster.initial.run actions = some cluster)
    (held : Cluster.initial.always Cluster.snapshotHeld actions = true) {leader peer : Fin n}
    (leads : (cluster.node leader).raft.state = .leader)
    (sameTerm : (cluster.node peer).raft.currentTerm = (cluster.node leader).raft.currentTerm) {m : Nat}
    (isMatch : (cluster.node leader).raft.matchIndex peer = m) :
    let L := (cluster.node leader).raft
    let restored := make peer (cluster.node peer).raft.persister
    m ≤ (cluster.node peer).raft.fullLog.length ∧ (cluster.node peer).raft.fullLog.take m = L.fullLog.take m ∧
    restored.fullLog = (cluster.node peer).raft.fullLog ∧
    (restored.persister.snapshot.data ++ restored.log.tail.map LogEntry.command).take m =
      (L.persister.snapshot.data ++ L.log.tail.map LogEntry.command).take m := by
  intro L restored
  have invariant : Cluster.initial.always Cluster.snapshotHeld actions = true →
      MatchSound cluster ∧ Answered cluster := by
    refine Cluster.run_induction run ?_ ?_
    · exact fun _ => ⟨matchSound_initial, answered_initial⟩
    · intro earlier middle next action ran inductionHypothesis step always
      rw [Cluster.always, Cluster.observe_append _ _ ran step, Bool.and_eq_true] at always
      obtain ⟨sound, answered⟩ := inductionHypothesis always.1
      obtain ⟨state, reached, simulates⟩ := reachable_simulates ⟨earlier, ran⟩
      obtain ⟨after, moves, nextSimulates⟩ := simulates.step step
      exact ⟨sound.step simulates answered moves nextSimulates (Replication.Reachable.ackedHeld (reached.trans moves))
        step always.2, answered.step simulates step⟩
  obtain ⟨sound, -⟩ := invariant held
  obtain ⟨state, -, simulates⟩ := reachable_simulates ⟨actions, run⟩
  have peerNode := simulates.node peer
  have matched := sound leader peer leads
  rw [isMatch, Int.toNat_natCast] at matched
  have contained := matched.held sameTerm
  have inPeer : m ≤ (cluster.node peer).raft.fullLog.length := by
    have bound := contained.length_le
    rwa [List.length_take, Nat.min_eq_left matched.inLog] at bound
  have same : (cluster.node peer).raft.fullLog.take m = L.fullLog.take m := by
    have whole := List.prefix_iff_eq_take.mp contained
    rw [List.length_take, Nat.min_eq_left matched.inLog] at whole
    exact whole.symm
  obtain ⟨restoredLog, -, -, -, -, restoredFull⟩ := peerNode.log.reboot peerNode.role
  refine ⟨inPeer, same, restoredFull, ?_⟩
  have commands := congrArg (List.map LogEntry.command) same
  rw [← restoredFull, List.map_take, List.map_take, fullLog, fullLog, List.map_append, List.map_append,
    ← restoredLog.snapshot.data, ← (simulates.node leader).log.snapshot.data] at commands
  exact commands

/-- Server 2 has installed the snapshot before its reply is processed. -/
theorem matchIndex_sound_caughtUp :
    let cluster : Cluster 3 Nat := Cluster.initial.after caughtUp
    Cluster.initial.always Cluster.snapshotHeld caughtUp = true ∧ (cluster.node 0).raft.matchIndex 2 = 2 ∧
    (cluster.node 2).raft.lastIncludedIndex = 1 ∧
    (cluster.node 2).raft.fullLog.take 2 = (cluster.node 0).raft.fullLog.take 2 := by
  intro cluster
  have run : Cluster.initial.run caughtUp = some cluster := Cluster.run_eq_some_after (by decide +kernel)
  have held : Cluster.initial.always Cluster.snapshotHeld caughtUp = true := by decide +kernel
  have leads : (cluster.node 0).raft.state = .leader := by decide +kernel
  have sameTerm : (cluster.node 2).raft.currentTerm = (cluster.node 0).raft.currentTerm := by decide +kernel
  have isMatch : (cluster.node 0).raft.matchIndex 2 = (2 : Nat) := by decide +kernel
  exact ⟨held, isMatch, by decide +kernel, (matchIndex_sound run held leads sameTerm isMatch).2.1⟩

/-! ## A reply before the snapshot is installed -/

/-- The leader processes server 2's answer to `InstallSnapshot`, and server 2 crashes before its goroutine has
handed the snapshot to the service. -/
def answeredEarly : Cluster 3 Nat := Cluster.initial.after (snapshotting ++ [.deliver 3, .restart 2])

/-- Server 2 is in the leader's term and counts as having entry 1, which it has nowhere. -/
theorem matchIndex_unsound : Cluster.Reachable answeredEarly ∧
    (answeredEarly.node 0).raft.state = .leader ∧
    (answeredEarly.node 2).raft.currentTerm = (answeredEarly.node 0).raft.currentTerm ∧
    (answeredEarly.node 0).raft.matchIndex 2 = 1 ∧
    (answeredEarly.node 0).raft.persister.snapshot.data = [7] ∧
    (answeredEarly.node 2).raft.fullLog = [] ∧ (answeredEarly.node 2).raft.persister.snapshot.data = [] ∧
    (answeredEarly.node 2).raft.log = [default] ∧ (answeredEarly.node 2).snapshotSends = [] := by
  refine ⟨Cluster.steps_after Cluster.initial _, ?_⟩
  decide +kernel

end ShardedKV.Raft
