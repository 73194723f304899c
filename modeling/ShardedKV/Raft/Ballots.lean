import ShardedKV.Raft.Transfers

/-!
# Votes in flight

Which votes a candidate can still receive, and which transitions leave its count alone.
-/

namespace ShardedKV.Raft

open Replication (State Extends)

variable {n : Nat} {Command : Type}

/-! ## Votes in flight -/

@[simp] theorem liveVotes_append (first second : List (Call n Command)) (server : Fin n) (term : Nat) :
    liveVotes (first ++ second) server term = liveVotes first server term ++ liveVotes second server term :=
  List.filterMap_append ..

theorem liveVotes_cons (call : Call n Command) (calls : List (Call n Command)) (server : Fin n)
    (term : Nat) :
    liveVotes (call :: calls) server term = (liveVote server term call).toList ++ liveVotes calls server term := by
  rw [liveVotes, List.filterMap_cons]
  cases liveVote server term call <;> rfl

theorem calls_split {calls : List (Call n Command)} {id : Nat} {call : Call n Command}
    (located : calls[id]? = some call) : ∃ before after, calls = before ++ call :: after ∧
      ∀ other, calls.set id other = before ++ other :: after := by
  obtain ⟨bound, isCall⟩ := List.getElem?_eq_some_iff.mp located
  refine ⟨calls.take id, calls.drop (id + 1), ?_, fun other => ?_⟩
  · rw [← isCall, List.cons_getElem_drop_succ, List.take_append_drop]
  · rw [List.set_eq_take_append_cons_drop, if_pos bound]

theorem liveVotes_set_reply {calls : List (Call n Command)} {id : Nat} {call : Call n Command}
    (located : calls[id]? = some call) (reply : Option Reply) (server : Fin n) (term : Nat) :
    liveVotes (calls.set id { call with reply := reply }) server term = liveVotes calls server term := by
  obtain ⟨before, after, whole, replaced⟩ := calls_split located
  rw [replaced, whole, liveVotes_append, liveVotes_append, liveVotes_cons, liveVotes_cons]
  rfl

theorem liveVote_returned (call : Call n Command) (server : Fin n) (term : Nat) :
    liveVote server term { call with returned := true } = none := by
  unfold liveVote
  cases call.request <;> simp

theorem liveVotes_set_returned {calls : List (Call n Command)} {id : Nat} {call : Call n Command}
    (located : calls[id]? = some call) (server : Fin n) (term : Nat) :
    List.Perm (liveVotes calls server term) ((liveVote server term call).toList ++
      liveVotes (calls.set id { call with returned := true }) server term) := by
  obtain ⟨before, after, whole, replaced⟩ := calls_split located
  rw [replaced, whole, liveVotes_append, liveVotes_append, liveVotes_cons, liveVotes_cons, liveVote_returned,
    Option.toList_none, List.nil_append, ← List.append_assoc, ← List.append_assoc]
  exact List.perm_append_comm.append_right _

theorem liveVotes_returned_subperm {calls : List (Call n Command)} {id : Nat} {call : Call n Command}
    (located : calls[id]? = some call) (server : Fin n) (term : Nat) :
    List.Subperm (liveVotes (calls.set id { call with returned := true }) server term)
      (liveVotes calls server term) :=
  (List.sublist_append_right _ _).subperm.trans (liveVotes_set_returned located server term).symm.subperm

theorem liveVote_eq_none_of_caller {call : Call n Command} {server : Fin n} (term : Nat)
    (different : call.caller ≠ server) : liveVote server term call = none := by
  unfold liveVote
  cases call.request <;> simp [different]

theorem liveVotes_requests (cluster : Cluster n Command) (server : Fin n) (args : RequestVoteArgs n)
    (peers : List (Fin n)) :
    liveVotes (peers.map fun peer => cluster.call server peer (.requestVote args)) server args.term = peers := by
  rw [liveVotes, List.filterMap_map]
  refine (List.filterMap_congr fun peer _ => ?_).trans List.filterMap_some
  simp [liveVote, Cluster.call]

/-! ## Transitions that leave the count alone -/

/-- A candidate is still the candidate it was, with the votes it had. -/
def SameBallot (rf other : Raft n Command) : Prop :=
  other.state = .candidate → rf.state = .candidate ∧ other.currentTerm = rf.currentTerm ∧
    other.getVotesNum = rf.getVotesNum

theorem SameBallot.of_not_candidate {rf other : Raft n Command} (notCandidate : other.state ≠ .candidate) :
    SameBallot rf other := fun isCandidate => absurd isCandidate notCandidate

theorem SameBallot.refl (rf : Raft n Command) : SameBallot rf rf := fun isCandidate => ⟨isCandidate, rfl, rfl⟩

theorem observeLeader_sameBallot (rf : Raft n Command) (term : Nat) : SameBallot rf (rf.observeLeader term) := by
  rcases observeLeader_cases rf term with ⟨_, result⟩ | ⟨_, _, result⟩
  · rw [result]
    exact SameBallot.of_not_candidate (by simp [followerState, persist])
  · rw [result]
    exact SameBallot.refl rf

theorem observeCandidate_sameBallot (rf : Raft n Command) (term : Nat) :
    SameBallot rf (rf.observeCandidate term) := by
  rcases observeCandidate_cases rf term with ⟨_, result⟩ | ⟨_, result⟩
  · rw [result]
    exact SameBallot.of_not_candidate (by simp [followerState, persist])
  · rw [result]
    exact SameBallot.refl rf

theorem requestVote_sameBallot {state : State (Fin n) (LogEntry Command)} {server : Fin n}
    {rf : Raft n Command} (role : RoleRel state server rf)
    (args : RequestVoteArgs n) (different : args.candidateId ≠ server) :
    SameBallot rf (rf.requestVote args).1 := by
  have observed := observeCandidate_sameBallot rf args.term
  rcases requestVote_cases rf args with ⟨reply, -, result | result⟩ | ⟨-, free, -, result⟩
  · rw [result]
    exact observed
  · rw [result]
    exact observed
  · rw [result]
    -- a candidate has voted for itself and grants nothing
    intro isCandidate
    obtain ⟨wasCandidate, -, -⟩ := observed isCandidate
    have same : rf.observeCandidate args.term = rf := by
      rcases observeCandidate_cases rf args.term with ⟨_, follows⟩ | ⟨_, stays⟩
      · rw [follows] at isCandidate
        cases isCandidate
      · exact stays
    have own := role.own (by simp [wasCandidate])
    rw [same, own] at free
    rcases free with none | other
    · cases none
    · rw [Option.some.injEq] at other
      exact absurd other.symm different

theorem installSnapshot_cases (rf : Raft n Command) (args : InstallSnapshotArgs n Command) :
    (∃ reply, rf.installSnapshot args = (rf, reply, none)) ∨
    (args.term ≤ (rf.observeCandidate args.term).currentTerm ∧ ∃ reply message,
      rf.installSnapshot args = (rf.observeCandidate args.term, reply, message) ∧
      (message = none ∨ (0 < args.lastIncludedIndex ∧
        message = some (.snapshot args.data args.lastIncludedTerm args.lastIncludedIndex)))) := by
  unfold installSnapshot
  split
  · exact .inl ⟨_, rfl⟩
  · right
    refine ⟨?_, ?_⟩
    · rcases observeCandidate_cases rf args.term with ⟨_, result⟩ | ⟨covered, result⟩
      · rw [result]
        exact le_rfl
      · rw [result]
        exact covered
    · rw [show (if rf.currentTerm < args.term then rf.followerState args.term else rf) =
        rf.observeCandidate args.term from rfl]
      dsimp only
      split
      · exact ⟨_, _, rfl, .inl rfl⟩
      · exact ⟨_, _, rfl, .inr ⟨by omega, rfl⟩⟩

theorem handleAppendEntriesReply_sameBallot (rf : Raft n Command) (peer : Fin n)
    (args : AppendEntriesArgs n Command) (reply : AppendEntriesReply) :
    SameBallot rf (rf.handleAppendEntriesReply peer args reply) := by
  unfold handleAppendEntriesReply
  split
  · exact SameBallot.of_not_candidate (by simp [followerState, persist])
  split
  · exact SameBallot.refl rf
  · rename_i leading
    refine SameBallot.of_not_candidate ?_
    have isLeader : rf.state = .leader := by
      by_contra other
      exact leading (.inl other)
    dsimp only
    unfold handleLogInconsistency
    split_ifs <;> simp [isLeader]

theorem handleInstallSnapshotReply_sameBallot (rf : Raft n Command) (peer : Fin n)
    (args : InstallSnapshotArgs n Command) (reply : InstallSnapshotReply) :
    SameBallot rf (rf.handleInstallSnapshotReply peer args reply) := by
  unfold handleInstallSnapshotReply
  split
  · exact SameBallot.of_not_candidate (by simp [followerState, persist])
  split
  · exact SameBallot.refl rf
  · rename_i leading
    refine SameBallot.of_not_candidate ?_
    have isLeader : rf.state = .leader := by
      by_contra other
      exact leading other
    dsimp only
    split_ifs <;> simp [isLeader]

theorem Tally.of_sameBallot {state after : State (Fin n) (LogEntry Command)} (extended : Extends state after)
    {calls fewer : List (Call n Command)} {server : Fin n} {rf other : Raft n Command}
    (live : ∀ term, List.Subperm (liveVotes fewer server term) (liveVotes calls server term))
    (ballot : SameBallot rf other) (tally : rf.state = .candidate → Tally state calls server rf)
    (isCandidate : other.state = .candidate) : Tally after fewer server other := by
  obtain ⟨wasCandidate, sameTerm, sameVotes⟩ := ballot isCandidate
  obtain ⟨voters, count, counted⟩ := (tally wasCandidate).mono extended (live _)
  exact ⟨voters, count.trans sameVotes.symm, sameTerm ▸ counted⟩

/-- A candidate counts the vote of a call that returns: the voter is new and cannot come again. -/
theorem Tally.count {state : State (Fin n) (LogEntry Command)} {server : Fin n} {rf : Raft n Command} {id : Nat}
    {call : Call n Command} {calls : List (Call n Command)}
    (located : calls[id]? = some call) (tally : Tally state calls server rf)
    (isLive : liveVote server rf.currentTerm call = some call.callee)
    (granted : Granted state call.callee rf.currentTerm server) :
    Tally state (calls.set id { call with returned := true }) server
      { rf with getVotesNum := rf.getVotesNum + 1 } := by
  obtain ⟨voters, count, self, votes, uncounted, distinct⟩ := tally
  have flight := liveVotes_set_returned located server rf.currentTerm
  rw [isLive, Option.toList_some, List.singleton_append] at flight
  have distinctNow := flight.nodup_iff.mp distinct
  rw [List.nodup_cons] at distinctNow
  have isNew : call.callee ∉ voters := uncounted _ (flight.mem_iff.mpr List.mem_cons_self)
  refine ⟨insert call.callee voters, ?_, Finset.mem_insert_of_mem self, ?_, ?_, distinctNow.2⟩
  · rw [Finset.card_insert_of_notMem isNew, count]
  · intro voter member
    rcases Finset.mem_insert.mp member with rfl | old
    · exact granted
    · exact votes voter old
  · intro voter member counted
    rcases Finset.mem_insert.mp counted with rfl | old
    · exact distinctNow.1 member
    · exact uncounted voter (flight.mem_iff.mpr (List.mem_cons_of_mem _ member)) old

end ShardedKV.Raft
