import ShardedKV.Raft.Simulation

/-!
# Terms, votes and elections

Each transition of one server that concerns terms and votes is matched by moves of the
protocol.  A server whose vote was reset within a term is a candidate that met the term's
leader, so the votes it hands out afterwards never decide an election.
-/

namespace ShardedKV.Raft

open Replication (State Extends Invariant Moves UpToDate lastTerm)

variable {n : Nat} {Command : Type}
  {state : State (Fin n) (LogEntry Command)} {taken : List (Fin n × Nat × List Command)}
  {server : Fin n} {rf : Raft n Command}

theorem RoleRel.of_follower (isFollower : rf.state = .follower)
    (voted : ∀ candidate, rf.votedFor = some candidate → Granted state server rf.currentTerm candidate)
    (unvoted : rf.votedFor = none →
      state.vote server rf.currentTerm = none ∨ Resigned state server rf.currentTerm) :
    RoleRel state server rf := by
  refine ⟨voted, unvoted, ?_, ?_, ?_, ?_, ?_, ?_⟩
  all_goals simp [isFollower]

/-- The server after `RequestVote` has looked at the term of the request. -/
def observeCandidate (rf : Raft n Command) (term : Nat) : Raft n Command :=
  if rf.currentTerm < term then rf.followerState term else rf

theorem observeCandidate_cases (rf : Raft n Command) (term : Nat) :
    (rf.currentTerm < term ∧ rf.observeCandidate term = rf.followerState term) ∨
      (term ≤ rf.currentTerm ∧ rf.observeCandidate term = rf) := by
  by_cases later : rf.currentTerm < term
  · exact .inl ⟨later, if_pos later⟩
  · exact .inr ⟨by omega, if_neg later⟩

theorem requestVote_cases (rf : Raft n Command) (args : RequestVoteArgs n) :
    let observed := rf.observeCandidate args.term
    (∃ reply, reply.voteGranted = false ∧
      (rf.requestVote args = (observed.persist, reply) ∨ rf.requestVote args = (observed, reply))) ∨
    (observed.currentTerm ≤ args.term ∧
      (observed.votedFor = none ∨ observed.votedFor = some args.candidateId) ∧
      (observed.getLastLogTerm < args.lastLogTerm ∨
        (args.lastLogTerm = observed.getLastLogTerm ∧ observed.getLastLogIndex ≤ args.lastLogIndex)) ∧
      rf.requestVote args = (persist { observed with votedFor := some args.candidateId },
        { term := observed.currentTerm, voteGranted := true })) := by
  intro observed
  unfold requestVote
  rw [show (if rf.currentTerm < args.term then rf.followerState args.term else rf) = observed from rfl]
  dsimp only
  split
  · exact .inl ⟨_, rfl, .inl rfl⟩
  · split
    · rename_i current granted
      exact .inr ⟨by omega, granted.1, granted.2, rfl⟩
    · exact .inl ⟨_, rfl, .inr rfl⟩

/-- A reply with a later term makes the server follow, a vote for its campaign is counted, and everything else
leaves it as it is. -/
theorem handleRequestVoteReply_cases (rf : Raft n Command) (args : RequestVoteArgs n) (reply : RequestVoteReply) :
    let counted := { rf with getVotesNum := rf.getVotesNum + 1 }
    (rf.currentTerm < reply.term ∧ rf.handleRequestVoteReply args reply = rf.followerState reply.term) ∨
    rf.handleRequestVoteReply args reply = rf ∨
    (rf.state = .candidate ∧ rf.currentTerm = args.term ∧ reply.voteGranted = true ∧
      ((n / 2 < rf.getVotesNum + 1 ∧ rf.handleRequestVoteReply args reply = counted.leaderState) ∨
        rf.handleRequestVoteReply args reply = counted)) := by
  intro counted
  by_cases later : rf.currentTerm < reply.term
  · exact .inl ⟨later, if_pos later⟩
  by_cases elsewhere : rf.state ≠ .candidate ∨ rf.currentTerm ≠ args.term
  · exact .inr (.inl (by rw [handleRequestVoteReply, if_neg later, if_pos elsewhere]))
  by_cases granted : reply.term = rf.currentTerm ∧ reply.voteGranted
  · have campaigning : rf.state = .candidate ∧ rf.currentTerm = args.term := by simpa using elsewhere
    refine .inr (.inr ⟨campaigning.1, campaigning.2, granted.2, ?_⟩)
    rw [handleRequestVoteReply, if_neg later, if_neg elsewhere, if_pos granted]
    by_cases majority : n / 2 < rf.getVotesNum + 1
    · exact .inl ⟨majority, if_pos majority⟩
    · exact .inr (if_neg majority)
  · exact .inr (.inl (by rw [handleRequestVoteReply, if_neg later, if_neg elsewhere, if_neg granted]))

/-- Everything but the term, the vote and the role is the same. -/
structure SameLog (rf other : Raft n Command) : Prop where
  me : other.me = rf.me
  log : other.log = rf.log
  snapshot : other.persister.snapshot = rf.persister.snapshot
  lastIncludedIndex : other.lastIncludedIndex = rf.lastIncludedIndex
  lastIncludedTerm : other.lastIncludedTerm = rf.lastIncludedTerm
  lastApplied : other.lastApplied = rf.lastApplied
  commitIndex : other.commitIndex = rf.commitIndex

theorem SameLog.fullLog {other : Raft n Command} (same : SameLog rf other) : other.fullLog = rf.fullLog := by
  rw [Raft.fullLog, Raft.fullLog, same.snapshot, same.log]

theorem SameLog.getLogAt {other : Raft n Command} (same : SameLog rf other) (realIndex : Nat) :
    other.getLogAt realIndex = rf.getLogAt realIndex := by
  simp only [Raft.getLogAt, same.log, same.lastIncludedIndex, same.lastIncludedTerm]

theorem SameLog.getLastLogIndex {other : Raft n Command} (same : SameLog rf other) :
    other.getLastLogIndex = rf.getLastLogIndex := by
  simp only [Raft.getLastLogIndex, same.getLogAt, same.log]

theorem SameLog.keeps {other : Raft n Command} (same : SameLog rf other)
    (later : rf.currentTerm ≤ other.currentTerm) : Keeps rf other :=
  ⟨later, same.commitIndex.ge, by rw [same.fullLog], same.lastApplied, same.lastIncludedIndex.ge⟩

theorem observeCandidate_sameLog (rf : Raft n Command) (term : Nat) : SameLog rf (rf.observeCandidate term) := by
  rcases observeCandidate_cases rf term with ⟨_, result⟩ | ⟨_, result⟩
  · rw [result]
    exact ⟨rfl, rfl, rfl, rfl, rfl, rfl, rfl⟩
  · rw [result]
    exact ⟨rfl, rfl, rfl, rfl, rfl, rfl, rfl⟩

theorem observeLeader_sameLog (rf : Raft n Command) (term : Nat) : SameLog rf (rf.observeLeader term) := by
  rcases observeLeader_cases rf term with ⟨_, result⟩ | ⟨_, _, result⟩
  · rw [result]
    exact ⟨rfl, rfl, rfl, rfl, rfl, rfl, rfl⟩
  · rw [result]
    exact ⟨rfl, rfl, rfl, rfl, rfl, rfl, rfl⟩

theorem observeCandidate_currentTerm (rf : Raft n Command) (term : Nat) :
    (rf.observeCandidate term).currentTerm = max rf.currentTerm term := by
  rcases observeCandidate_cases rf term with ⟨later, result⟩ | ⟨covered, result⟩
  · rw [result]
    exact (Nat.max_eq_right later.le).symm
  · rw [result]
    exact (Nat.max_eq_left covered).symm

theorem observeLeader_currentTerm (rf : Raft n Command) (term : Nat) :
    (rf.observeLeader term).currentTerm = max rf.currentTerm term := by
  rcases observeLeader_cases rf term with ⟨changes, result⟩ | ⟨covered, _, result⟩
  · have ordered : rf.currentTerm ≤ term := by omega
    rw [result]
    exact (Nat.max_eq_right ordered).symm
  · rw [result]
    exact (Nat.max_eq_left covered).symm

theorem followerState_keeps {term : Nat} (later : rf.currentTerm ≤ term) : Keeps rf (rf.followerState term) :=
  SameLog.keeps ⟨rfl, rfl, rfl, rfl, rfl, rfl, rfl⟩ later

theorem observeCandidate_keeps (rf : Raft n Command) (term : Nat) : Keeps rf (rf.observeCandidate term) := by
  refine (observeCandidate_sameLog rf term).keeps ?_
  rw [observeCandidate_currentTerm]
  exact Nat.le_max_left _ _

theorem observeLeader_keeps (rf : Raft n Command) (term : Nat) : Keeps rf (rf.observeLeader term) := by
  refine (observeLeader_sameLog rf term).keeps ?_
  rw [observeLeader_currentTerm]
  exact Nat.le_max_left _ _

theorem requestVote_keeps (rf : Raft n Command) (args : RequestVoteArgs n) :
    Keeps rf (rf.requestVote args).1 := by
  refine (observeCandidate_keeps rf args.term).trans ?_
  rcases requestVote_cases rf args with ⟨reply, -, result | result⟩ | ⟨-, -, -, result⟩
  · rw [result]
    exact SameLog.keeps ⟨rfl, rfl, rfl, rfl, rfl, rfl, rfl⟩ le_rfl
  · rw [result]
    exact Keeps.refl _
  · rw [result]
    exact SameLog.keeps ⟨rfl, rfl, rfl, rfl, rfl, rfl, rfl⟩ le_rfl

variable [Inhabited Command]

theorem SameLog.compacted {other : Raft n Command} (same : SameLog rf other) (compacted : Compacted rf) :
    Compacted other :=
  compacted.congr same.log same.snapshot same.lastIncludedIndex same.lastIncludedTerm

variable (log : LogRel state taken server rf)
include log

theorem LogRel.enter {after : State (Fin n) (LogEntry Command)}
    (extended : Extends state after) {other : Raft n Command} (same : SameLog rf other)
    (durable : Durable other) (later : rf.currentTerm ≤ other.currentTerm)
    (sameTerm : after.currentTerm server = other.currentTerm)
    (sameLog : after.log server = state.log server) : LogRel after taken server other where
  me := same.me.trans log.me
  compacted := same.compacted log.compacted
  durable := durable
  currentTerm := sameTerm
  log := by rw [sameLog, log.log, same.fullLog]
  retained := by
    rw [same.lastIncludedIndex, same.lastApplied]
    exact log.retained
  applied := by
    rw [same.lastApplied, same.commitIndex]
    exact log.applied
  commitIndex := by
    rw [same.commitIndex, same.fullLog]
    exact log.commitIndex
  committed := by
    rw [same.commitIndex, same.fullLog]
    exact log.committed.mono extended later
  snapshot := by
    rw [same.snapshot, same.lastIncludedIndex, same.lastIncludedTerm]
    exact log.snapshot.mono extended (List.Subset.refl _) later

theorem LogRel.follow (invariant : Invariant (scheme n Command) state) {term : Nat} (later : rf.currentTerm < term) :
    ∃ after, Moves (scheme n Command) server state after ∧ after.leader = state.leader ∧
      LogRel after taken server (rf.followerState term) ∧ RoleRel after server (rf.followerState term) := by
  have earlier : state.currentTerm server ≤ term := by
    rw [log.currentTerm]
    omega
  obtain ⟨after, moves, sameTerm, sameLog, sameVote, sameLeader, -⟩ :=
    Replication.moves_advance (scheme n Command) earlier
  obtain ⟨-, extended⟩ := Replication.run_invariant invariant moves.run
  refine ⟨after, moves, sameLeader,
    log.enter extended ⟨rfl, rfl, rfl, rfl, rfl, rfl, rfl⟩ rfl later.le sameTerm (congrFun sameLog server),
    RoleRel.of_follower rfl ?_ ?_⟩
  · intro candidate isVote
    cases isVote
  · intro _
    left
    rw [sameVote]
    cases voted : state.vote server term with
    | none => exact voted
    | some ballot =>
      have bound := invariant.vote_term _ _ _ voted
      rw [log.currentTerm] at bound
      omega

/-- A request of the term's leader turns a candidate of the same term into a follower without a
vote; the vote it has cast for itself stays on record. -/
theorem LogRel.observe (role : RoleRel state server rf)
    (invariant : Invariant (scheme n Command) state) {term : Nat} {leader : Fin n}
    {leaderLog : List (LogEntry Command)} (leads : state.leader term = some (leader, leaderLog))
    (different : leader ≠ server) :
    ∃ after, Moves (scheme n Command) server state after ∧ after.leader = state.leader ∧
      LogRel after taken server (rf.observeLeader term) ∧ RoleRel after server (rf.observeLeader term) := by
  rcases observeLeader_cases rf term with ⟨changes, result⟩ | ⟨_, _, result⟩
  · rw [result]
    rcases changes with later | ⟨rfl, isCandidate⟩
    · exact log.follow invariant later
    · refine ⟨state, Moves.refl server state, rfl,
        log.enter (Extends.refl state) ⟨rfl, rfl, rfl, rfl, rfl, rfl, rfl⟩ rfl le_rfl log.currentTerm rfl,
        RoleRel.of_follower rfl ?_ ?_⟩
      · intro candidate isVote
        cases isVote
      · intro _
        exact .inr ⟨role.campaigned isCandidate, leader, leaderLog, leads, different⟩
  · rw [result]
    exact ⟨state, Moves.refl server state, rfl, log, role⟩

theorem LogRel.campaign (invariant : Invariant (scheme n Command) state) :
    ∃ after, Moves (scheme n Command) server state after ∧
      LogRel after taken server rf.candidateState ∧ RoleRel after server rf.candidateState ∧
      after.vote server (rf.currentTerm + 1) = some (server, rf.fullLog) := by
  have later : state.currentTerm server < rf.currentTerm + 1 := by
    rw [log.currentTerm]
    omega
  obtain ⟨after, moves, sameTerm, voted, sameLog, sameLeader, -⟩ :=
    Replication.moves_campaign (scheme n Command) later
  obtain ⟨-, extended⟩ := Replication.run_invariant invariant moves.run
  have ownVote : rf.candidateState.votedFor = some server := by rw [← log.me]; rfl
  refine ⟨after, moves, log.enter extended ⟨rfl, rfl, rfl, rfl, rfl, rfl, rfl⟩ rfl
    (Nat.le_succ _) sameTerm (congrFun sameLog server), ?_, ?_⟩
  · refine ⟨?_, ?_, fun _ => ownVote, fun _ => ⟨_, voted⟩, ?_, nofun, nofun, nofun⟩
    · intro candidate isVote
      rw [ownVote, Option.some.injEq] at isVote
      exact .inl ⟨_, by rw [← isVote]; exact voted⟩
    · intro noVote
      rw [ownVote] at noVote
      cases noVote
    · intro _ leaderLog elected
      rw [sameLeader] at elected
      have bound : rf.currentTerm + 1 ≤ state.currentTerm server := invariant.leader_term _ _ _ elected
      omega
  · rw [← log.log]
    exact voted

/-! ## Voting -/

theorem LogRel.catchUp (role : RoleRel state server rf) (invariant : Invariant (scheme n Command) state) (term : Nat) :
    ∃ after, Moves (scheme n Command) server state after ∧ after.leader = state.leader ∧
      LogRel after taken server (rf.observeCandidate term) ∧ RoleRel after server (rf.observeCandidate term) := by
  rcases observeCandidate_cases rf term with ⟨later, result⟩ | ⟨_, result⟩
  · rw [result]
    exact log.follow invariant later
  · rw [result]
    exact ⟨state, Moves.refl server state, rfl, log, role⟩

theorem LogRel.grant (role : RoleRel state server rf)
    (invariant : Invariant (scheme n Command) state) {args : RequestVoteArgs n}
    {start : List (LogEntry Command)}
    (campaigned : state.vote args.candidateId args.term = some (args.candidateId, start))
    (lastLogIndex : args.lastLogIndex = start.length)
    (lastLogTerm : args.lastLogTerm = lastTerm LogEntry.term start)
    (different : args.candidateId ≠ server) :
    ∃ after, Moves (scheme n Command) server state after ∧
      LogRel after taken server (rf.requestVote args).1 ∧ RoleRel after server (rf.requestVote args).1 ∧
      ((rf.requestVote args).2.voteGranted → Granted after server args.term args.candidateId) := by
  -- first the term of the request is taken over, then the vote is decided
  obtain ⟨middle, moves, sameLeader, middleLog, middleRole⟩ := log.catchUp role invariant args.term
  obtain ⟨middleInvariant, extended⟩ := Replication.run_invariant invariant moves.run
  rcases requestVote_cases rf args with ⟨reply, refused, result⟩ | ⟨upper, free, upToDate, result⟩
  · refine ⟨middle, moves, ?_⟩
    rcases result with result | result
    · rw [result]
      exact ⟨middleLog.enter (Extends.refl _) ⟨rfl, rfl, rfl, rfl, rfl, rfl, rfl⟩ rfl le_rfl
        middleLog.currentTerm rfl, { middleRole with }, by simp [refused]⟩
    · rw [result]
      exact ⟨middleLog, middleRole, by simp [refused]⟩
  · rw [result]
    have sameTerm : (rf.observeCandidate args.term).currentTerm = args.term := by
      rcases observeCandidate_cases rf args.term with ⟨_, result⟩ | ⟨_, result⟩
      · rw [result]
        rfl
      · rw [result] at upper ⊢
        omega
    -- who runs or leads has voted for itself, and does not vote for another
    have isFollower : (rf.observeCandidate args.term).state = .follower := by
      by_contra active
      have own := middleRole.own active
      rcases free with none | other
      · rw [none] at own
        cases own
      · rw [other, Option.some.injEq] at own
        exact different own
    -- the vote is on record already, or this is the first one, or the term has its leader
    have granted : ∃ after, Moves (scheme n Command) server middle after ∧
        after.currentTerm = middle.currentTerm ∧ after.log = middle.log ∧
        Granted after server args.term args.candidateId := by
      rcases free with none | other
      · rcases middleRole.unvoted none with fresh | resigned
        · rw [sameTerm] at fresh
          have current : middle.currentTerm server = args.term := middleLog.currentTerm.trans sameTerm
          have better : UpToDate (scheme n Command) start (middle.log server) := by
            rw [middleLog.compacted.getLastLogTerm_eq, middleLog.compacted.getLastLogIndex_eq, lastLogTerm,
              lastLogIndex] at upToDate
            rw [middleLog.log]
            exact upToDate.imp id fun ⟨same, longer⟩ => ⟨same.symm, longer⟩
          obtain ⟨after, granting, voted, keepsTerm, keepsLog, -⟩ := Replication.moves_grant
            (scheme n Command) (current ▸ fresh) (current ▸ extended.vote _ _ _ campaigned) better
          exact ⟨after, granting, keepsTerm, keepsLog, .inl ⟨_, current ▸ voted⟩⟩
        · exact ⟨middle, Moves.refl server middle, rfl, rfl, .inr (sameTerm ▸ resigned)⟩
      · exact ⟨middle, Moves.refl server middle, rfl, rfl, sameTerm ▸ middleRole.voted _ other⟩
    obtain ⟨after, granting, keepsTerm, keepsLog, isGranted⟩ := granted
    obtain ⟨-, grantExtends⟩ := Replication.run_invariant middleInvariant granting.run
    refine ⟨after, moves.tail granting sameLeader,
      middleLog.enter grantExtends ⟨rfl, rfl, rfl, rfl, rfl, rfl, rfl⟩ rfl le_rfl
        ((congrFun keepsTerm server).trans middleLog.currentTerm) (congrFun keepsLog server),
      RoleRel.of_follower isFollower ?_ ?_, fun _ => isGranted⟩
    · intro candidate isVote
      simp only [persist, Option.some.injEq] at isVote
      rw [← isVote]
      simpa [persist, sameTerm] using isGranted
    · intro noVote
      cases noVote

/-! ## Winning -/

/-- A majority of votes makes a candidate the leader of its term: either every counted vote is
the voter's first, or the term already has a leader and the two majorities meet in a server that
cannot have voted for both. -/
theorem LogRel.elect (role : RoleRel state server rf)
    (invariant : Invariant (scheme n Command) state) (isCandidate : rf.state = .candidate)
    {voters : Finset (Fin n)} (majority : n / 2 < voters.card)
    (granted : ∀ voter ∈ voters, Granted state voter rf.currentTerm server) (votes : Nat) :
    ∃ after, Moves (scheme n Command) server state after ∧
      LogRel after taken server (leaderState { rf with getVotesNum := votes }) ∧
      RoleRel after server (leaderState { rf with getVotesNum := votes }) := by
  obtain ⟨start, campaigned⟩ := role.campaigned isCandidate
  have vacant : state.leader rf.currentTerm = none := by
    cases elected : state.leader rf.currentTerm with
    | none => rfl
    | some winner =>
      obtain ⟨winner, winnerLog⟩ := winner
      obtain ⟨quorum, isQuorum, chose⟩ := invariant.elected _ _ _ elected
      obtain ⟨voter, inQuorum, inVoters⟩ := (scheme n Command).quorums_meet quorum voters isQuorum majority
      obtain ⟨held, choice⟩ := chose voter inQuorum
      exfalso
      rcases granted voter inVoters with ⟨own, ownChoice⟩ | ⟨⟨own, ownChoice⟩, leader, leaderLog, leads, other⟩
      · rw [choice] at ownChoice
        simp only [Option.some.injEq, Prod.mk.injEq] at ownChoice
        exact role.notElected isCandidate winnerLog (ownChoice.1 ▸ elected)
      · rw [choice] at ownChoice
        rw [elected] at leads
        simp only [Option.some.injEq, Prod.mk.injEq] at ownChoice leads
        exact other (leads.1.symm.trans ownChoice.1)
  have current := log.currentTerm
  have firstVotes : ∀ voter ∈ voters, ∃ held,
      state.vote voter (state.currentTerm server) = some (server, held) := by
    intro voter member
    rw [current]
    rcases granted voter member with first | ⟨-, leader, leaderLog, leads, -⟩
    · exact first
    · rw [vacant] at leads
      cases leads
  obtain ⟨after, moves, leads, acked, sameTerm, sameVote, sameLog⟩ := Replication.moves_elect invariant
    (current ▸ vacant) majority firstVotes (current ▸ campaigned)
  obtain ⟨-, extended⟩ := Replication.run_invariant invariant moves.run
  rw [current, log.log] at leads acked
  refine ⟨after, moves, log.enter extended ⟨rfl, rfl, rfl, rfl, rfl, rfl, rfl⟩ log.durable le_rfl
    ((congrFun sameTerm server).trans current) (congrFun sameLog server), ?_⟩
  refine ⟨fun candidate isVote => (role.voted candidate isVote).mono extended, ?_,
    fun _ => role.own (by simp [isCandidate]), nofun, nofun, fun _ => leads, fun _ => acked, ?_⟩
  · intro noVote
    have own := role.own (by simp [isCandidate])
    rw [show rf.votedFor = none from noVote] at own
    cases own
  · intro _ peer _
    simp only [leaderState]
    omega

end ShardedKV.Raft
