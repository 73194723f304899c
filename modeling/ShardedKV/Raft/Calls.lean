import ShardedKV.Raft.Ballots

/-!
# Steps of the network

Every step in which a server sends, handles or gets back a call keeps the relation.
-/

namespace ShardedKV.Raft

open Replication (State Extends Untouched Invariant Moves)

variable {n : Nat} {Command : Type}

/-! ## A step of one server -/

theorem Cluster.setRaft_included {cluster : Cluster n Command} {server : Fin n} {rf : Raft n Command}
    (keeps : Keeps (cluster.node server).raft rf) (other : Fin n) :
    (cluster.node other).raft.lastIncludedIndex ≤
      ((cluster.setRaft server rf).node other).raft.lastIncludedIndex := by
  unfold Cluster.setRaft Cluster.setNode
  by_cases same : other = server
  · subst same
    simp only [Function.update_self]
    exact keeps.lastIncludedIndex
  · simp only [Function.update_of_ne same]
    exact le_rfl

theorem Cluster.setRaft_self (cluster : Cluster n Command) (server : Fin n) :
    cluster.setRaft server (cluster.node server).raft = cluster := by
  simp [Cluster.setRaft, Cluster.setNode]

variable [Inhabited Command] {cluster : Cluster n Command} {state after : State (Fin n) (LogEntry Command)}
  {server : Fin n} {rf : Raft n Command}

section

variable (simulates : Simulates cluster state)
include simulates

/-- A server changes its Raft object and the calls: what remains to be shown about both. -/
theorem Simulates.act (moves : Moves (scheme n Command) server state after)
    (log : LogRel after cluster.taken server rf) (role : RoleRel after server rf)
    (keeps : Keeps (cluster.node server).raft rf) {calls : List (Call n Command)}
    (related : ∀ call ∈ calls, call ∈ cluster.calls ∨ CallRel after cluster.taken
      ((cluster.setRaft server rf).node call.caller).raft.lastIncludedIndex call)
    (live : ∀ other term, other ≠ server →
      List.Subperm (liveVotes calls other term) (liveVotes cluster.calls other term))
    (tally : rf.state = .candidate → Tally after calls server rf) :
    Simulates { cluster.setRaft server rf with calls := calls } after := by
  obtain ⟨-, extended⟩ := Replication.run_invariant simulates.invariant moves.run
  have isNode : (cluster.setRaft server rf).node server = { cluster.node server with raft := rf } :=
    Function.update_self ..
  refine simulates.move moves.run moves.untouched ?_ (List.Subset.refl _) ?_ ?_ related live ?_ ?_ ?_
  · exact fun other different => Function.update_of_ne different ..
  · rw [isNode]
    exact ⟨log, role, (simulates.node server).service.with_raft extended (List.Subset.refl _) keeps⟩
  · exact Cluster.setRaft_included keeps server
  · simp only [isNode]
    exact tally
  · exact simulates.recorded.of_sameLeaders extended moves.sameLeaders
  · exact fun record member => .inl member

/-- The service of a server, or a goroutine that sends to it, takes a step of its own. -/
theorem Simulates.serve {node : Node n Command}
    (service : ServiceRel state cluster.taken node) (sameRaft : node.raft = (cluster.node server).raft)
    {sent : List (Fin n × ApplyMsg Command)}
    (related : ∀ record ∈ sent, record ∈ cluster.sent ∨ SentRel state cluster.taken record.2) :
    Simulates { cluster.setNode server node with sent := sent } state := by
  have moves : Moves (scheme n Command) server state state := Moves.refl server state
  have isNode : (cluster.setNode server node).node server = node := Function.update_self ..
  have old := simulates.node server
  refine simulates.move moves.run moves.untouched ?_ (List.Subset.refl _) ?_ ?_ (fun call member => .inl member)
    (fun other term _ => List.Subperm.refl _) ?_ simulates.recorded related
  · exact fun other different => Function.update_of_ne different ..
  · rw [isNode]
    exact ⟨sameRaft ▸ old.log, sameRaft ▸ old.role, service⟩
  · rw [isNode, sameRaft]
  · simp only [isNode, sameRaft]
    exact simulates.tally server

theorem Simulates.queue (server : Fin n) {messages : List (ApplyMsg Command)}
    (related : ∀ message ∈ messages, ∃ snapshot snapshotTerm snapshotIndex,
      message = .snapshot snapshot snapshotTerm snapshotIndex ∧ 0 < snapshotIndex ∧
      Snapshotted state cluster.taken (cluster.node server).raft.currentTerm snapshot snapshotTerm
        snapshotIndex) :
    Simulates (cluster.setNode server { cluster.node server with
      snapshotSends := (cluster.node server).snapshotSends ++ messages }) state := by
  have old := (simulates.node server).service
  have service : ServiceRel state cluster.taken { cluster.node server with
      snapshotSends := (cluster.node server).snapshotSends ++ messages } := { old with sends := ?_ }
  · exact simulates.serve service rfl fun record member => .inl member
  intro message member
  rcases List.mem_append.mp member with earlier | new
  · exact old.sends message earlier
  · exact related message new

theorem Simulates.answer {id : Nat} {call : Call n Command} (located : cluster.calls[id]? = some call)
    (moves : Moves (scheme n Command) call.callee state after)
    (log : LogRel after cluster.taken call.callee rf) (role : RoleRel after call.callee rf)
    (keeps : Keeps (cluster.node call.callee).raft rf)
    (ballot : SameBallot (cluster.node call.callee).raft rf) {reply : Reply}
    (answered : ∀ included, CallRel after cluster.taken included call →
      CallRel after cluster.taken included { call with reply := some reply }) :
    Simulates { cluster.setRaft call.callee rf with
      calls := cluster.calls.set id { call with reply := some reply } } after := by
  obtain ⟨-, extended⟩ := Replication.run_invariant simulates.invariant moves.run
  have live : ∀ other term, List.Subperm
      (liveVotes (cluster.calls.set id { call with reply := some reply }) other term)
      (liveVotes cluster.calls other term) := fun other term => by
    rw [liveVotes_set_reply located]
  refine simulates.act moves log role keeps ?_ (fun other term _ => live other term)
    (Tally.of_sameBallot extended (live _) ballot (simulates.tally call.callee))
  intro changed member
  rcases List.mem_or_eq_of_mem_set member with old | rfl
  · exact .inl old
  · refine .inr (answered _ ?_)
    exact (simulates.call call (List.mem_of_getElem? located)).mono extended (List.Subset.refl _)
      (Cluster.setRaft_included keeps _)

theorem Simulates.resume {id : Nat} {call : Call n Command} (located : cluster.calls[id]? = some call)
    (moves : Moves (scheme n Command) call.caller state after)
    (log : LogRel after cluster.taken call.caller rf) (role : RoleRel after call.caller rf)
    (keeps : Keeps (cluster.node call.caller).raft rf)
    (tally : rf.state = .candidate →
      Tally after (cluster.calls.set id { call with returned := true }) call.caller rf) :
    Simulates { cluster.setRaft call.caller rf with
      calls := cluster.calls.set id { call with returned := true } } after := by
  obtain ⟨-, extended⟩ := Replication.run_invariant simulates.invariant moves.run
  refine simulates.act moves log role keeps ?_
    (fun other term _ => liveVotes_returned_subperm located other term) tally
  intro changed member
  rcases List.mem_or_eq_of_mem_set member with old | rfl
  · exact .inl old
  · right
    exact (simulates.call call (List.mem_of_getElem? located)).mono extended (List.Subset.refl _)
      (Cluster.setRaft_included keeps call.caller)

end

/-- The protocol can follow to a state that the new cluster stands for. -/
def Followed (state : State (Fin n) (LogEntry Command)) (next : Cluster n Command) : Prop :=
  ∃ after, Relation.ReflTransGen (Replication.Step (scheme n Command)) state after ∧ Simulates next after

variable {next : Cluster n Command}

/-! ## Sending -/

theorem Simulates.no_future_votes (simulates : Simulates cluster state) {term : Nat}
    (later : (cluster.node server).raft.currentTerm < term) : liveVotes cluster.calls server term = [] := by
  rw [liveVotes, List.filterMap_eq_nil_iff]
  intro call member
  unfold liveVote
  obtain ⟨-, content⟩ := simulates.call call member
  cases kind : call.request with
  | requestVote args =>
    simp only [kind] at content ⊢
    obtain ⟨-, ⟨start, voted, -⟩, -⟩ := content
    rw [if_neg]
    rintro ⟨rfl, rfl, -⟩
    have bound := simulates.invariant.vote_term _ _ _ voted
    rw [(simulates.node call.caller).log.currentTerm] at bound
    omega
  | appendEntries => rfl
  | installSnapshot => rfl

theorem Simulates.electionTimeout (simulates : Simulates cluster state)
    (step : cluster.electionTimeout server = some next) : Followed state next := by
  have node := simulates.node server
  unfold Cluster.electionTimeout at step
  dsimp only at step
  split at step
  · cases step
  rw [Option.some.injEq] at step
  subst step
  obtain ⟨after, moves, log, role, voted⟩ := node.log.campaign simulates.invariant
  refine ⟨after, moves.run, simulates.act moves log role
    (SameLog.keeps ⟨rfl, rfl, rfl, rfl, rfl, rfl, rfl⟩ (Nat.le_succ _)) ?_ ?_ ?_⟩
  · intro call member
    rcases List.mem_append.mp member with old | new
    · exact .inl old
    · obtain ⟨peer, isPeer, rfl⟩ := List.mem_map.mp new
      simp only [List.mem_filter, decide_eq_true_eq] at isPeer
      refine .inr ⟨isPeer.2.symm, log.me, ⟨_, voted, ?_, ?_⟩, nofun⟩
      · exact log.compacted.getLastLogIndex_eq
      · exact log.compacted.getLastLogTerm_eq
  · intro other term different
    have none : liveVotes (((List.finRange n).filter (· ≠ server)).map fun peer => cluster.call server peer
        (.requestVote (cluster.node server).raft.candidateState.candidateRequestVote)) other term = [] := by
      rw [liveVotes, List.filterMap_eq_nil_iff]
      intro call member
      obtain ⟨peer, -, rfl⟩ := List.mem_map.mp member
      exact liveVote_eq_none_of_caller term (Ne.symm different)
    rw [liveVotes_append, none, List.append_nil]
  · -- of the new term the candidate has its own vote, and every other is being asked for
    intro _
    refine ⟨{server}, Finset.card_singleton server, Finset.mem_singleton_self server, ?_, ?_⟩
    · intro voter member
      rw [Finset.mem_singleton.mp member]
      exact .inl ⟨_, voted⟩
    · have live : liveVotes (cluster.calls ++ ((List.finRange n).filter (· ≠ server)).map fun peer =>
          cluster.call server peer
            (.requestVote (cluster.node server).raft.candidateState.candidateRequestVote)) server
          (cluster.node server).raft.candidateState.currentTerm = (List.finRange n).filter (· ≠ server) := by
        rw [liveVotes_append, simulates.no_future_votes (show (cluster.node server).raft.currentTerm <
          (cluster.node server).raft.candidateState.currentTerm from Nat.lt_succ_self _), List.nil_append]
        exact liveVotes_requests cluster server _ _
      rw [live]
      refine ⟨?_, (List.nodup_finRange n).filter _⟩
      intro voter member
      simp only [List.mem_filter, decide_eq_true_eq] at member
      simp [member.2]

theorem Simulates.replicate (simulates : Simulates cluster state) {peer : Fin n}
    (step : cluster.replicate server peer = some next) : Followed state next := by
  have node := simulates.node server
  unfold Cluster.replicate at step
  split at step
  · cases step
  rename_i different
  obtain ⟨⟨nextIndex, matchIndex, sameMatch, result⟩, content⟩ := node.log.compacted.leaderAppendEntries_cases peer
  rw [node.log.me] at sameMatch
  have log : LogRel state cluster.taken server ((cluster.node server).raft.leaderAppendEntries peer).1 := by
    rw [result]
    exact node.log.enter (Extends.refl state) ⟨rfl, rfl, rfl, rfl, rfl, rfl, rfl⟩ node.log.durable le_rfl
      node.log.currentTerm rfl
  have role : RoleRel state server ((cluster.node server).raft.leaderAppendEntries peer).1 := by
    rw [result]
    refine { node.role with matched := fun isLeader other otherPeer => ?_ }
    change matchIndex other ≤ _
    rw [sameMatch other otherPeer]
    exact node.role.matched isLeader other otherPeer
  have keeps : Keeps (cluster.node server).raft ((cluster.node server).raft.leaderAppendEntries peer).1 := by
    rw [result]
    exact SameLog.keeps ⟨rfl, rfl, rfl, rfl, rfl, rfl, rfl⟩ le_rfl
  have ballot : SameBallot (cluster.node server).raft ((cluster.node server).raft.leaderAppendEntries peer).1 := by
    rw [result]
    exact fun isCandidate => ⟨isCandidate, rfl, rfl⟩
  have moves : Moves (scheme n Command) server state state := Moves.refl server state
  -- a request for replication is no vote, so the votes in flight are the same
  have sending : ∀ call : Call n Command, (∀ other term, liveVote other term call = none) →
      CallRel state cluster.taken ((cluster.setRaft server
        ((cluster.node server).raft.leaderAppendEntries peer).1).node call.caller).raft.lastIncludedIndex call →
      Followed state { cluster.setRaft server ((cluster.node server).raft.leaderAppendEntries peer).1 with
        calls := cluster.calls ++ [call] } := by
    intro call noVote related
    have live : ∀ other term, List.Subperm (liveVotes (cluster.calls ++ [call]) other term)
        (liveVotes cluster.calls other term) := fun other term => by
      rw [liveVotes_append, liveVotes_cons, noVote]
      exact (List.append_nil _).symm ▸ List.Subperm.refl _
    refine ⟨state, .refl, simulates.act moves log role keeps ?_ (fun other term _ => live other term)
      (Tally.of_sameBallot (Extends.refl state) (live server) ballot (simulates.tally server))⟩
    intro sent member
    rcases List.mem_append.mp member with old | new
    · exact .inl old
    · rw [List.mem_singleton.mp new]
      exact .inr related
  revert step content log role keeps ballot sending
  cases (cluster.node server).raft.leaderAppendEntries peer with
  | mk rf message =>
    intro step content log role keeps ballot sending
    cases message with
    | nothing =>
      simp only [Option.some.injEq] at step
      subst step
      exact ⟨state, .refl, simulates.act moves log role keeps (fun call member => .inl member)
        (fun other term _ => List.Subperm.refl _)
        (Tally.of_sameBallot (Extends.refl state) (fun _ => List.Subperm.refl _) ballot (simulates.tally server))⟩
    | appendEntries args =>
      simp only [Option.some.injEq] at step
      subst step
      obtain ⟨isLeader, isTerm, isCommit, carried⟩ := content
      refine sending _ (fun _ _ => rfl)
        ⟨different, ⟨(cluster.node server).raft.fullLog, ?_, carried.imp And.right ?_⟩, nofun⟩
      · rw [isTerm]
        exact node.role.leads isLeader
      · rintro ⟨prev, isPrev, inLog, prevTerm, entries⟩
        have total : prev + args.entries.length = (cluster.node server).raft.fullLog.length := by
          rw [entries, List.length_drop]
          omega
        refine ⟨prev, isPrev, prevTerm, ?_, total.le, ?_, ?_⟩
        · rw [total, List.take_length]
          exact entries
        · rw [isCommit, total]
          exact node.log.commitIndex
        · rw [isCommit, isTerm]
          exact node.log.committed
    | installSnapshot args =>
      simp only [Option.some.injEq] at step
      subst step
      obtain ⟨isLeader, rfl⟩ := content
      refine sending _ (fun _ _ => rfl) ⟨different, ?_, node.log.snapshot⟩
      exact Cluster.setRaft_included keeps server

/-! ## Handling -/

theorem appendEntries_sameBallot (rf : Raft n Command) (args : AppendEntriesArgs n Command)
    (compacted : Compacted (rf.observeLeader args.term)) : SameBallot rf (rf.appendEntries args).1 := by
  have observed := observeLeader_sameBallot rf args.term
  rcases appendEntries_cases rf args compacted with ⟨reply, result, -⟩ | ⟨-, prev, -, -, -, -, result⟩
  · rw [result]
    exact observed
  · rw [result]
    intro isCandidate
    rw [storeEntries_eq] at isCandidate ⊢
    exact observed isCandidate

theorem Simulates.handle (simulates : Simulates cluster state) {id : Nat}
    (step : cluster.handle id = some next) : Followed state next := by
  unfold Cluster.handle at step
  split at step
  · cases step
  rename_i call located
  split at step
  · cases step
  rename_i unhandled
  obtain ⟨caller, incarnation, callee, request, retry, reply, returned⟩ := call
  have node := simulates.node callee
  obtain ⟨different, content⟩ := simulates.call _ (List.mem_of_getElem? located)
  cases request with
  | requestVote args =>
    simp only [Option.some.injEq] at step
    subst step
    obtain ⟨isCaller, ⟨start, voted, index, term⟩, -⟩ := content
    obtain ⟨after, moves, log, role, granted⟩ := node.log.grant node.role simulates.invariant
      (isCaller ▸ voted) index term (isCaller ▸ different)
    refine ⟨after, moves.run, simulates.answer located moves log role (requestVote_keeps _ args)
      (requestVote_sameBallot node.role args (isCaller ▸ different)) ?_⟩
    rintro included ⟨-, isCandidate, campaigned, -⟩
    refine ⟨different, isCandidate, campaigned, ?_⟩
    intro answered isReply positive
    simp only [Option.some.injEq, Reply.requestVote.injEq] at isReply
    rw [← isReply] at positive
    exact isCaller ▸ granted positive
  | appendEntries args =>
    simp only [Option.some.injEq] at step
    subst step
    obtain ⟨⟨leaderLog, leads, carried⟩, -⟩ := content
    obtain ⟨middle, -, -, observed, -⟩ := node.log.observe node.role simulates.invariant leads different
    obtain ⟨after, moves, log, role, keeps, acked⟩ :=
      node.log.accept node.role simulates.invariant leads different carried
    refine ⟨after, moves.run, simulates.answer located moves log role keeps
      (appendEntries_sameBallot _ args observed.compacted) ?_⟩
    rintro included ⟨-, sent, -⟩
    refine ⟨different, sent, ?_⟩
    intro answered isReply success
    simp only [Option.some.injEq, Reply.appendEntries.injEq] at isReply
    rw [← isReply] at success
    exact acked success
  | installSnapshot args =>
    simp only [Option.some.injEq] at step
    subst step
    obtain ⟨-, snapshotted⟩ := content
    have unanswered : ∀ (after : State (Fin n) (LogEntry Command)) (reply : Reply) (included : Nat),
        CallRel after cluster.taken included
          ⟨caller, incarnation, callee, .installSnapshot args, retry, none, returned⟩ →
        CallRel after cluster.taken included
          ⟨caller, incarnation, callee, .installSnapshot args, retry, some reply, returned⟩ :=
      fun _ _ _ related => related
    have noReply : reply = none := by simpa using unhandled
    subst noReply
    rcases installSnapshot_cases (cluster.node callee).raft args with ⟨reply, result⟩ |
      ⟨later, reply, message, result, isMessage⟩
    · have answered := simulates.answer located (Moves.refl callee state) node.log node.role (Keeps.refl _)
        (SameBallot.refl _) (unanswered state (.installSnapshot reply))
      have same : (cluster.node callee).snapshotSends ++ (none : Option (ApplyMsg Command)).toList =
          (cluster.node callee).snapshotSends := List.append_nil _
      rw [result]
      simp only [same]
      exact ⟨state, .refl, answered⟩
    · -- the handler answers first, and its goroutine sends the snapshot later
      obtain ⟨after, moves, -, log, role⟩ := node.log.catchUp node.role simulates.invariant args.term
      obtain ⟨-, extended⟩ := Replication.run_invariant simulates.invariant moves.run
      have answered := simulates.answer located moves log role (observeCandidate_keeps _ _)
        (observeCandidate_sameBallot _ _) (unanswered after (.installSnapshot reply))
      have related : ∀ sent ∈ message.toList, ∃ snapshot snapshotTerm snapshotIndex,
          sent = .snapshot snapshot snapshotTerm snapshotIndex ∧ 0 < snapshotIndex ∧
          Snapshotted after cluster.taken ((cluster.node callee).raft.observeCandidate args.term).currentTerm
            snapshot snapshotTerm snapshotIndex := by
        intro sent member
        rw [Option.mem_toList] at member
        rcases isMessage with rfl | ⟨positive, rfl⟩
        · cases member
        · simp only [Option.some.injEq] at member
          exact ⟨_, _, _, member.symm, positive, snapshotted.mono extended (List.Subset.refl _) later⟩
      have queued := answered.queue callee (by
        simpa only [Cluster.setRaft, Cluster.setNode, Function.update_self] using related)
      refine ⟨after, moves.run, ?_⟩
      rw [result]
      convert queued using 1
      simp [Cluster.setNode, Cluster.setRaft]

/-! ## Returning -/

theorem Simulates.deliver (simulates : Simulates cluster state) {id : Nat}
    (step : cluster.deliver id = some next) : Followed state next := by
  unfold Cluster.deliver at step
  split at step
  · cases step
  rename_i call located
  dsimp only at step
  split at step
  · cases step
  rename_i current
  obtain ⟨caller, incarnation, callee, request, retry, reply, returned⟩ := call
  have node := simulates.node caller
  obtain ⟨different, content⟩ := simulates.call _ (List.mem_of_getElem? located)
  have notReturned : returned = false := by
    cases returned with
    | false => rfl
    | true => exact absurd (.inl rfl) current
  subst notReturned
  have keepsTally : ∀ {after : State (Fin n) (LogEntry Command)} {other : Raft n Command},
      Extends state after → SameBallot (cluster.node caller).raft other → other.state = .candidate →
      Tally after (cluster.calls.set id ⟨caller, incarnation, callee, request, retry, reply, true⟩) caller other :=
    fun extended ballot => Tally.of_sameBallot extended
      (fun term => liveVotes_returned_subperm located caller term) ballot (simulates.tally caller)
  cases request with
  | requestVote args =>
    cases reply with
    | none => cases step
    | some reply =>
      cases reply with
      | requestVote reply =>
        simp only [Option.some.injEq] at step
        subst step
        obtain ⟨-, -, votes⟩ := content
        rcases handleRequestVoteReply_cases (cluster.node caller).raft args reply with
          ⟨later, result⟩ | result | ⟨isCandidate, sameTerm, positive, counts⟩
        · rw [result]
          obtain ⟨after, moves, -, log, role⟩ := node.log.follow simulates.invariant later
          exact ⟨after, moves.run, simulates.resume located moves log role (followerState_keeps later.le)
            (by rintro ⟨⟩)⟩
        · rw [result]
          exact ⟨state, .refl, simulates.resume located (Moves.refl caller state) node.log node.role (Keeps.refl _)
            (keepsTally (Extends.refl state) (SameBallot.refl _))⟩
        · -- the vote moves from the calls in flight to the counted ones
          have granted := sameTerm ▸ votes reply rfl positive
          have tally := (simulates.tally caller isCandidate).count located
            (by simp [liveVote, sameTerm]) granted
          rcases counts with ⟨majority, result⟩ | result
          · rw [result]
            obtain ⟨voters, count, self, all, -⟩ := tally
            obtain ⟨after, moves, log, role⟩ := node.log.elect node.role simulates.invariant isCandidate
              (count ▸ majority) all ((cluster.node caller).raft.getVotesNum + 1)
            exact ⟨after, moves.run, simulates.resume located moves log role
              (SameLog.keeps ⟨rfl, rfl, rfl, rfl, rfl, rfl, rfl⟩ le_rfl) (by rintro ⟨⟩)⟩
          · rw [result]
            exact ⟨state, .refl, simulates.resume located (Moves.refl caller state)
              (node.log.enter (Extends.refl state) ⟨rfl, rfl, rfl, rfl, rfl, rfl, rfl⟩ node.log.durable le_rfl
                node.log.currentTerm rfl) { node.role with }
              (SameLog.keeps ⟨rfl, rfl, rfl, rfl, rfl, rfl, rfl⟩ le_rfl) fun _ => tally⟩
      | appendEntries reply => cases step
      | installSnapshot reply => cases step
  | appendEntries args =>
    cases reply with
    | none => cases step
    | some reply =>
      cases reply with
      | appendEntries reply =>
        simp only [Option.some.injEq] at step
        subst step
        obtain ⟨after, moves, log, role, keeps⟩ :=
          node.log.acknowledge node.role simulates.invariant (content.2 reply rfl)
        obtain ⟨-, extended⟩ := Replication.run_invariant simulates.invariant moves.run
        exact ⟨after, moves.run, simulates.resume located moves log role keeps
          (keepsTally extended (handleAppendEntriesReply_sameBallot _ _ _ _))⟩
      | requestVote reply => cases step
      | installSnapshot reply => cases step
  | installSnapshot args =>
    cases reply with
    | none => cases step
    | some reply =>
      cases reply with
      | installSnapshot reply =>
        simp only [Option.some.injEq] at step
        subst step
        obtain ⟨after, moves, log, role, keeps⟩ :=
          node.log.snapshotReply node.role simulates.invariant reply content.1
        obtain ⟨-, extended⟩ := Replication.run_invariant simulates.invariant moves.run
        exact ⟨after, moves.run, simulates.resume located moves log role keeps
          (keepsTally extended (handleInstallSnapshotReply_sameBallot _ _ _ _))⟩
      | requestVote reply => cases step
      | appendEntries reply => cases step

theorem Simulates.fail (simulates : Simulates cluster state) {id : Nat}
    (step : cluster.fail id = some next) : Followed state next := by
  unfold Cluster.fail at step
  split at step
  · cases step
  rename_i call located
  split at step
  · cases step
  dsimp only at step
  have node := simulates.node call.caller
  have related := simulates.call call (List.mem_of_getElem? located)
  have givenUp : Simulates { cluster with calls := cluster.calls.set id { call with returned := true } } state := by
    have resumed := simulates.resume located (Moves.refl _ state) node.log node.role (Keeps.refl _)
      (Tally.of_sameBallot (Extends.refl state) (fun term => liveVotes_returned_subperm located call.caller term)
        (SameBallot.refl _) (simulates.tally call.caller))
    rwa [Cluster.setRaft_self] at resumed
  split at step
  · rename_i args isVote
    split at step
    · rw [Option.some.injEq] at step
      subst step
      -- the call that was given up and the one sent instead ask for the same vote
      have live : ∀ server term, List.Subperm
          (liveVotes (cluster.calls.set id { call with returned := true } ++
            [{ call with retry := call.retry + 1, reply := none }]) server term)
          (liveVotes cluster.calls server term) := by
        intro server term
        rw [liveVotes_append, liveVotes_cons]
        refine List.Perm.subperm ?_
        refine (List.Perm.trans ?_ (liveVotes_set_returned located server term).symm)
        exact (List.append_nil _).symm ▸ List.perm_append_comm
      have sentAgain := simulates.act (Moves.refl _ state) node.log node.role (Keeps.refl _) ?_
        (fun other term _ => live other term)
        (Tally.of_sameBallot (Extends.refl state) (live call.caller) (SameBallot.refl _)
          (simulates.tally call.caller))
      · rw [Cluster.setRaft_self] at sentAgain
        exact ⟨state, .refl, sentAgain⟩
      · rw [Cluster.setRaft_self]
        intro other member
        rcases List.mem_append.mp member with old | new
        · rcases List.mem_or_eq_of_mem_set old with unchanged | rfl
          · exact .inl unchanged
          · exact .inr related
        · rw [List.mem_singleton.mp new]
          right
          obtain ⟨different, content⟩ := related
          refine ⟨different, ?_⟩
          simp only [isVote] at content ⊢
          exact ⟨content.1, content.2.1, nofun⟩
    · rw [Option.some.injEq] at step
      subst step
      exact ⟨state, .refl, givenUp⟩
  · rw [Option.some.injEq] at step
    subst step
    exact ⟨state, .refl, givenUp⟩

end ShardedKV.Raft
