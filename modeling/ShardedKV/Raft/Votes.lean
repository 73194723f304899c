import ShardedKV.Raft.AppendOnly

/-!
# How often a server votes in a term

`votedFor` is what keeps a server from voting twice in one term.  `FollowerState` clears it, and a candidate
enters `FollowerState` in its own term when `AppendEntries` tells it who has won.  A server that is deposed in
this way has voted for itself, and the next up-to-date candidate of the term that asks for its vote gets it.  That
is the only way to vote for two.
-/

namespace ShardedKV.Raft

open Cluster (Action)
open Replication (State)

variable {n : Nat} {Command : Type}

/-- The vote that a server casts with an action, and its term: for itself when it becomes a candidate, for the
sender when it grants a request. -/
def Cluster.vote (cluster : Cluster n Command) (server : Fin n) : Action n Command → Option (Nat × Fin n)
  | .electionTimeout actor =>
    if actor = server then some ((cluster.node server).raft.candidateState.currentTerm, server) else none
  | .handle id =>
    match cluster.calls[id]? with
    | none => none
    | some call =>
      match call.request with
      | .requestVote args =>
        let reply := ((cluster.node server).raft.requestVote args).2
        if call.callee = server ∧ reply.voteGranted then some (reply.term, args.candidateId) else none
      | _ => none
  | _ => none

/-- The term in which an action makes the server follow the winner of an election it has stood in itself. -/
def Cluster.deposes (cluster : Cluster n Command) (server : Fin n) : Action n Command → Option Nat
  | .handle id =>
    match cluster.calls[id]? with
    | none => none
    | some call =>
      match call.request with
      | .appendEntries args =>
        let rf := (cluster.node server).raft
        if call.callee = server ∧ rf.state = .candidate ∧ args.term = rf.currentTerm then some args.term else none
      | _ => none
  | _ => none

/-- The request comes from another candidate of the server's term whose log is not behind the server's. -/
def Eligible (rf : Raft n Command) (server : Fin n) (args : RequestVoteArgs n) : Prop :=
  args.candidateId ≠ server ∧ args.term = rf.currentTerm ∧
    (rf.getLastLogTerm < args.lastLogTerm ∨
      args.lastLogTerm = rf.getLastLogTerm ∧ rf.getLastLogIndex ≤ args.lastLogIndex)

instance (rf : Raft n Command) (server : Fin n) (args : RequestVoteArgs n) : Decidable (rf.Eligible server args) := by
  unfold Eligible
  infer_instance

/-- The term in which an action brings the server the request of an eligible candidate. -/
def Cluster.solicits (cluster : Cluster n Command) (server : Fin n) : Action n Command → Option Nat
  | .handle id =>
    match cluster.calls[id]? with
    | none => none
    | some call =>
      match call.request with
      | .requestVote args =>
        if call.callee = server ∧ (cluster.node server).raft.Eligible server args then some args.term else none
      | _ => none
  | _ => none

/-! ## One step -/

/-- What an action makes of the vote of a server: the vote that is cast, the term in which the server is deposed,
and the term in which it is asked. -/
inductive Polls (server : Fin n) (rf other : Raft n Command) :
    Option (Nat × Fin n) → Option Nat → Option Nat → Prop where
  | keeps (sameTerm : other.currentTerm = rf.currentTerm) (sameVote : other.votedFor = rf.votedFor)
      (campaigning : other.state = .candidate → rf.state = .candidate) : Polls server rf other none none none
  | refuses (candidate : Fin n) (sameTerm : other.currentTerm = rf.currentTerm)
      (sameVote : other.votedFor = rf.votedFor) (campaigning : other.state = .candidate → rf.state = .candidate)
      (voted : rf.votedFor = some candidate) : Polls server rf other none none (some rf.currentTerm)
  | later (later : rf.currentTerm < other.currentTerm) (follows : other.state = .follower)
      (free : other.votedFor = none) : Polls server rf other none none none
  | deposed (campaigning : rf.state = .candidate) (sameTerm : other.currentTerm = rf.currentTerm)
      (follows : other.state = .follower) (free : other.votedFor = none) :
      Polls server rf other none (some rf.currentTerm) none
  | campaigns (later : rf.currentTerm < other.currentTerm) (votes : other.votedFor = some server) :
      Polls server rf other (some (other.currentTerm, server)) none none
  | grantsLater (candidate : Fin n) (later : rf.currentTerm < other.currentTerm) (follows : other.state = .follower)
      (votes : other.votedFor = some candidate) :
      Polls server rf other (some (other.currentTerm, candidate)) none none
  | grants (candidate : Fin n) (another : candidate ≠ server) (sameTerm : other.currentTerm = rf.currentTerm)
      (free : rf.votedFor = none ∨ rf.votedFor = some candidate)
      (campaigning : other.state = .candidate → rf.state = .candidate) (votes : other.votedFor = some candidate) :
      Polls server rf other (some (other.currentTerm, candidate)) none (some rf.currentTerm)

namespace Polls

variable {server : Fin n} {rf other : Raft n Command}

theorem refl (server : Fin n) (rf : Raft n Command) : Polls server rf rf none none none := .keeps rfl rfl id

theorem follower {term : Nat} (later : rf.currentTerm < term) :
    Polls server rf (rf.followerState term) none none none := .later later rfl rfl

theorem observeCandidate (term : Nat) : Polls server rf (rf.observeCandidate term) none none none := by
  rcases observeCandidate_cases rf term with ⟨later, result⟩ | ⟨-, result⟩
  · rw [result]
    exact follower later
  · rw [result]
    exact refl server rf

theorem congr {same : Raft n Command} (polls : Polls server rf other none none none)
    (sameTerm : same.currentTerm = other.currentTerm) (sameVote : same.votedFor = other.votedFor)
    (sameState : same.state = other.state) : Polls server rf same none none none := by
  cases polls with
  | keeps term vote campaigning => exact .keeps (sameTerm.trans term) (sameVote.trans vote) (sameState ▸ campaigning)
  | later later follows free => exact .later (sameTerm ▸ later) (sameState.trans follows) (sameVote.trans free)

theorem requestVote {args : RequestVoteArgs n} (another : args.candidateId ≠ server) :
    Polls server rf (rf.requestVote args).1
      (if (rf.requestVote args).2.voteGranted then some ((rf.requestVote args).2.term, args.candidateId) else none)
      none (if rf.Eligible server args then some args.term else none) := by
  unfold Raft.requestVote
  rw [show (if rf.currentTerm < args.term then rf.followerState args.term else rf) = rf.observeCandidate args.term
    from rfl]
  rcases observeCandidate_cases rf args.term with ⟨later, follows⟩ | ⟨notLater, stays⟩
  · rw [follows, if_neg fun eligible : rf.Eligible server args => later.ne' eligible.2.1]
    dsimp only
    split
    · exact (follower later).congr rfl rfl rfl
    · split
      · exact .grantsLater _ later rfl rfl
      · exact follower later
  · rw [stays]
    dsimp only
    split
    · rename_i earlier
      rw [if_neg fun eligible : rf.Eligible server args => earlier.ne eligible.2.1]
      exact (refl server rf).congr rfl rfl rfl
    · rename_i current
      have sameTerm : args.term = rf.currentTerm := by omega
      split
      · rename_i granted
        have eligible : rf.Eligible server args := ⟨another, sameTerm, granted.2⟩
        rw [if_pos eligible, sameTerm]
        exact .grants _ another rfl granted.1 id rfl
      · rename_i refused
        by_cases eligible : rf.Eligible server args
        · -- only an earlier vote can be the reason
          rw [if_pos eligible]
          rcases voted : rf.votedFor with _ | candidate
          · exact absurd ⟨.inl voted, eligible.2.2⟩ refused
          · rw [sameTerm]
            exact .refuses candidate rfl rfl id voted
        · rw [if_neg eligible]
          exact refl server rf

theorem appendEntries (args : AppendEntriesArgs n Command) : Polls server rf (rf.appendEntries args).1 none
    (if rf.state = .candidate ∧ args.term = rf.currentTerm then some args.term else none) none := by
  -- storing entries leaves the vote alone
  have fields : (rf.appendEntries args).1.currentTerm = (rf.observeLeader args.term).currentTerm ∧
      (rf.appendEntries args).1.votedFor = (rf.observeLeader args.term).votedFor ∧
      (rf.appendEntries args).1.state = (rf.observeLeader args.term).state := by
    rcases appendEntries_outcome rf args with ⟨-, reply, result, -⟩ | ⟨-, -, result⟩
    · rw [result]
      exact ⟨rfl, rfl, rfl⟩
    · rw [result, storeEntries_eq]
      exact ⟨rfl, rfl, rfl⟩
  obtain ⟨sameTerm, sameVote, sameState⟩ := fields
  by_cases own : rf.state = .candidate ∧ args.term = rf.currentTerm
  · have follows : rf.observeLeader args.term = rf.followerState args.term := if_pos (.inr ⟨own.2, own.1⟩)
    rw [follows] at sameTerm sameVote sameState
    rw [if_pos own, own.2]
    exact .deposed own.1 (sameTerm.trans own.2) sameState sameVote
  · rw [if_neg own]
    refine congr ?_ sameTerm sameVote sameState
    by_cases later : rf.currentTerm < args.term
    · rw [show rf.observeLeader args.term = rf.followerState args.term from if_pos (.inl later)]
      exact follower later
    · rw [show rf.observeLeader args.term = rf from if_neg fun enters => enters.elim later fun same => own same.symm]
      exact refl server rf

end Polls

section Steps

variable [Inhabited Command] {cluster next : Cluster n Command} {state : State (Fin n) (LogEntry Command)}
  {server : Fin n} {action : Action n Command}

/-- All sections but those of an election and of `AppendEntries`. -/
theorem Polls.of_section {rf : Raft n Command} (durable : Durable (cluster.node server).raft)
    (me : (cluster.node server).raft.me = server) (acts : Section cluster server action rf)
    (notTimeout : ∀ actor, action ≠ .electionTimeout actor) (notHandle : ∀ id, action ≠ .handle id) :
    Polls server (cluster.node server).raft rf none none none := by
  cases acts with
  | none => exact .refl _ _
  | candidateState => exact absurd rfl (notTimeout server)
  | requestVote id => exact absurd rfl (notHandle id)
  | appendEntries id => exact absurd rfl (notHandle id)
  | installSnapshot id => exact absurd rfl (notHandle id)
  | leaderAppendEntries peer =>
    unfold Raft.leaderAppendEntries
    dsimp only
    split_ifs <;> exact .keeps rfl rfl fun campaigning => campaigning
  | requestVoteReply id call args reply =>
    rcases handleRequestVoteReply_cases (cluster.node server).raft args reply with
      ⟨later, result⟩ | result | ⟨campaigning, -, -, ⟨-, result⟩ | result⟩
    all_goals rw [result]
    · exact .follower later
    · exact .refl _ _
    · exact .keeps rfl rfl fun _ => campaigning
    · exact .keeps rfl rfl fun campaigning => campaigning
  | appendEntriesReply id call args reply =>
    rcases handleAppendEntriesReply_cases (cluster.node server).raft call.callee args reply with
      ⟨later, result⟩ | ⟨_, _, _, result, -⟩
    all_goals rw [result]
    · exact .follower later
    · exact .keeps rfl rfl fun campaigning => campaigning
  | installSnapshotReply id call args reply =>
    rcases handleInstallSnapshotReply_cases (cluster.node server).raft call.callee args reply with
      ⟨later, result⟩ | ⟨_, _, _, result, -⟩
    all_goals rw [result]
    · exact .follower later
    · exact .keeps rfl rfl fun campaigning => campaigning
  | start command =>
    unfold Raft.start
    split_ifs <;> exact .keeps rfl rfl fun campaigning => campaigning
  | finishApply commitIndex =>
    unfold Raft.finishApply
    split_ifs <;> exact .keeps rfl rfl fun campaigning => campaigning
  | condInstallSnapshot snapshot snapshotTerm snapshotIndex =>
    unfold Raft.condInstallSnapshot
    dsimp only
    split_ifs <;> exact .keeps rfl rfl fun campaigning => campaigning
  | snapshot index =>
    unfold Raft.snapshot
    dsimp only
    split_ifs <;> exact .keeps rfl rfl fun campaigning => campaigning
  | restart =>
    -- what was read back is what was there
    rw [Durable, me] at durable
    refine .keeps (congrArg PersistData.currentTerm durable) (congrArg PersistData.votedFor durable)
      fun campaigning => ?_
    rw [make_state] at campaigning
    cases campaigning

theorem Simulates.polls (simulates : Simulates cluster state) (step : cluster.step action = some next)
    (server : Fin n) : Polls server (cluster.node server).raft (next.node server).raft (cluster.vote server action)
      (cluster.deposes server action) (cluster.solicits server action) := by
  have log := (simulates.node server).log
  have acts := Cluster.step_section step server
  cases action with
  | electionTimeout actor =>
    simp only [Cluster.step, Cluster.electionTimeout] at step
    split at step
    · cases step
    cases step
    by_cases same : actor = server
    · subst same
      simp only [Cluster.vote, Cluster.deposes, Cluster.solicits, if_true, Cluster.setRaft, Cluster.setNode,
        Function.update_self]
      exact .campaigns (Nat.lt_succ_self _) (congrArg some log.me)
    · simp only [Cluster.vote, Cluster.deposes, Cluster.solicits, if_neg same, Cluster.setRaft, Cluster.setNode,
        Function.update_of_ne (Ne.symm same)]
      exact .refl _ _
  | handle id =>
    obtain ⟨call, located, handled, others, -⟩ := Cluster.step_handle step
    by_cases same : call.callee = server
    · subst same
      have related := simulates.call call (List.mem_of_getElem? located)
      rw [handled]
      simp only [Cluster.vote, Cluster.deposes, Cluster.solicits, located, true_and]
      cases request : call.request with
      | requestVote args =>
        -- nobody asks itself for its vote
        rw [CallRel, request] at related
        exact .requestVote (related.2.1.trans_ne related.1)
      | appendEntries args => exact .appendEntries args
      | installSnapshot args =>
        simp only [handleRequest]
        rcases installSnapshot_cases (cluster.node call.callee).raft args with
          ⟨reply, result⟩ | ⟨-, reply, message, result, -⟩
        · rw [result]
          exact .refl _ _
        · rw [result]
          exact .observeCandidate args.term
    · -- the handler of another server
      have silent : cluster.vote server (.handle id) = none ∧ cluster.deposes server (.handle id) = none ∧
          cluster.solicits server (.handle id) = none := by
        simp only [Cluster.vote, Cluster.deposes, Cluster.solicits, located, same, false_and, if_false]
        refine ⟨?_, ?_, ?_⟩ <;> split <;> rfl
      rw [silent.1, silent.2.1, silent.2.2, others server (Ne.symm same)]
      exact .refl _ _
  | _ => exact .of_section log.durable log.me acts (by simp) (by simp)

end Steps

/-! ## Whole runs -/

/-- The votes of a term with one more vote. -/
def counted (term : Nat) (votes : List (Fin n)) : Option (Nat × Fin n) → List (Fin n)
  | some (voted, candidate) => if voted = term then votes ++ [candidate] else votes
  | none => votes

/-- The candidates that a server votes for in a term, in the order of its votes. -/
def Cluster.votesIn [Inhabited Command] (cluster : Cluster n Command) (server : Fin n) (term : Nat)
    (actions : List (Action n Command)) : List (Fin n) :=
  cluster.observe (fun cluster action votes => counted term votes (cluster.vote server action)) actions []

/-- Whether the server has been deposed in the term, and whether it has then been asked for its vote. -/
def Cluster.scrutiny [Inhabited Command] (cluster : Cluster n Command) (server : Fin n) (term : Nat)
    (actions : List (Action n Command)) : Bool × Bool :=
  cluster.observe (fun cluster action seen =>
    (seen.1 || cluster.deposes server action = some term,
      seen.2 || (seen.1 && cluster.solicits server action = some term))) actions (false, false)

/-- After an `AppendEntries` of the term has deposed it as a candidate, the server handles the `RequestVote` of another
up-to-date candidate of the term. -/
def Cluster.askedOnceDeposed [Inhabited Command] (cluster : Cluster n Command) (server : Fin n) (term : Nat)
    (actions : List (Action n Command)) : Bool := (cluster.scrutiny server term actions).2

/-- How the votes of a term stand to the server's state. -/
structure Polled (server : Fin n) (term : Nat) (rf : Raft n Command) (votes : List (Fin n)) (deposed asked : Bool) :
    Prop where
  future : rf.currentTerm < term → votes = []
  backed : rf.currentTerm = term → asked = false →
    ∀ candidate ∈ votes, rf.votedFor = some candidate ∨ (deposed = true ∧ candidate = server)
  recorded : rf.currentTerm = term → ∀ candidate, rf.votedFor = some candidate →
    candidate ∈ votes ∧ (deposed = true → candidate ≠ server)
  campaigned : rf.currentTerm = term → rf.state = .candidate → server ∈ votes
  stood : deposed = true → server ∈ votes
  unanimous : asked = false → ∀ first ∈ votes, ∀ second ∈ votes, first = second
  divided : asked = true → ∃ candidate ∈ votes, candidate ≠ server ∧ server ∈ votes

namespace Polled

variable {server : Fin n} {term : Nat} {rf other : Raft n Command} {votes : List (Fin n)} {deposed asked : Bool}

/-- In another term nothing is asked of the server's vote. -/
theorem elsewhere (polled : Polled server term rf votes deposed asked) (ordered : rf.currentTerm ≤ other.currentTerm)
    (different : other.currentTerm ≠ term) : Polled server term other votes deposed asked where
  future earlier := polled.future (Nat.lt_of_le_of_lt ordered earlier)
  backed current := absurd current different
  recorded current := absurd current different
  campaigned current := absurd current different
  stood := polled.stood
  unanimous := polled.unanimous
  divided := polled.divided

theorem untouched (polled : Polled server term rf votes deposed asked) (earlier : rf.currentTerm < term) :
    votes = [] ∧ deposed = false ∧ asked = false := by
  have none := polled.future earlier
  subst none
  refine ⟨rfl, ?_, ?_⟩
  · cases deposed
    · rfl
    · cases polled.stood rfl
  · cases asked
    · rfl
    · obtain ⟨_, member, -⟩ := polled.divided rfl
      cases member

/-- The first vote of a term. -/
theorem opened {candidate : Fin n} (sameTerm : other.currentTerm = term) (voted : other.votedFor = some candidate)
    (campaigns : other.state = .candidate → candidate = server) :
    Polled server term other [candidate] false false where
  future earlier := absurd sameTerm (Nat.ne_of_lt earlier)
  backed _ _ := by simp [voted]
  recorded _ := by simp [voted]
  campaigned _ isCandidate := by simp [campaigns isCandidate]
  stood := nofun
  unanimous _ := by simp
  divided := nofun

theorem empty (notCandidate : other.state ≠ .candidate) (free : other.votedFor = none) :
    Polled server term other [] false false where
  future _ := rfl
  backed _ _ := nofun
  recorded _ := by simp [free]
  campaigned _ isCandidate := absurd isCandidate notCandidate
  stood := nofun
  unanimous _ := nofun
  divided := nofun

variable (polled : Polled server term rf votes deposed asked)
include polled

/-- The server has the same vote as before, and is asked for it by another candidate. -/
theorem refuse (sameTerm : other.currentTerm = rf.currentTerm)
    (sameVote : other.votedFor = rf.votedFor) (campaigning : other.state = .candidate → rf.state = .candidate)
    {candidate : Fin n} (voted : rf.votedFor = some candidate) :
    Polled server term other votes deposed (asked || (deposed && some rf.currentTerm = some term)) where
  future earlier := polled.future (sameTerm ▸ earlier)
  backed current none := sameVote ▸ polled.backed (sameTerm ▸ current) (Bool.or_eq_false_iff.mp none).1
  recorded current := sameVote ▸ polled.recorded (sameTerm ▸ current)
  campaigned current isCandidate := polled.campaigned (sameTerm ▸ current) (campaigning isCandidate)
  stood := polled.stood
  unanimous none := polled.unanimous (Bool.or_eq_false_iff.mp none).1
  divided happened := by
    rcases Bool.or_eq_true_iff.mp happened with before | now
    · exact polled.divided before
    · -- what it has voted for since it was deposed is another candidate
      obtain ⟨wasDeposed, here⟩ := Bool.and_eq_true_iff.mp now
      obtain ⟨member, another⟩ := polled.recorded (Option.some.inj (of_decide_eq_true here)) candidate voted
      exact ⟨candidate, member, another wasDeposed, polled.stood wasDeposed⟩

/-- One more vote in the current term, for the candidate that the server has voted for or for any if it has not
voted. -/
theorem grant (current : rf.currentTerm = term) {candidate : Fin n} (another : candidate ≠ server)
    (free : rf.votedFor = none ∨ rf.votedFor = some candidate)
    (sameTerm : other.currentTerm = rf.currentTerm) (campaigning : other.state = .candidate → rf.state = .candidate)
    (voted : other.votedFor = some candidate) :
    Polled server term other (votes ++ [candidate]) deposed (asked || deposed) := by
  -- unless the server has been deposed, all votes so far are for the candidate
  have all : (asked || deposed) = false → ∀ member ∈ votes ++ [candidate], member = candidate := by
    intro none member inVotes
    obtain ⟨notAsked, standing⟩ := Bool.or_eq_false_iff.mp none
    rcases List.mem_append.mp inVotes with earlier | last
    · rcases polled.backed current notAsked member earlier with backed | ⟨wasDeposed, -⟩
      · rcases free with unvoted | same
        · cases unvoted.symm.trans backed
        · exact Option.some.inj (backed.symm.trans same)
      · cases standing.symm.trans wasDeposed
    · exact List.mem_singleton.mp last
  have here : candidate ∈ votes ++ [candidate] := List.mem_append_right _ (List.mem_singleton_self _)
  refine ⟨fun earlier => ?_, fun _ none member inVotes => .inl ?_, fun _ member backs => ?_, fun now isCandidate => ?_,
    fun stood => ?_, fun none first inFirst second inSecond => ?_, fun happened => ?_⟩
  · omega
  · rw [voted, all none member inVotes]
  · obtain rfl := Option.some.inj (voted.symm.trans backs)
    exact ⟨here, fun _ => another⟩
  · exact List.mem_append_left _ (polled.campaigned current (campaigning isCandidate))
  · exact List.mem_append_left _ (polled.stood stood)
  · rw [all none first inFirst, all none second inSecond]
  · rcases Bool.or_eq_true_iff.mp happened with before | now
    · obtain ⟨voter, member, different, own⟩ := polled.divided before
      exact ⟨voter, List.mem_append_left _ member, different, List.mem_append_left _ own⟩
    · exact ⟨candidate, here, another, List.mem_append_left _ (polled.stood now)⟩

/-- A vote with which the server enters a term. -/
theorem enter (later : rf.currentTerm < other.currentTerm) {candidate : Fin n} (voted : other.votedFor = some candidate)
    (campaigns : other.state = .candidate → candidate = server) :
    Polled server term other (counted term votes (some (other.currentTerm, candidate))) deposed asked := by
  rcases eq_or_ne other.currentTerm term with current | different
  · obtain ⟨rfl, rfl, rfl⟩ := polled.untouched (current ▸ later)
    simp only [counted, if_pos current, List.nil_append]
    exact opened current voted campaigns
  · simp only [counted, if_neg different]
    exact polled.elsewhere later.le different

theorem step {vote : Option (Nat × Fin n)}
    {deposes solicits : Option Nat} (polls : Polls server rf other vote deposes solicits) :
    Polled server term other (counted term votes vote) (deposed || deposes = some term)
      (asked || (deposed && solicits = some term)) := by
  cases polls with
  | keeps sameTerm sameVote campaigning =>
    simp only [counted, reduceCtorEq, decide_false, Bool.or_false, Bool.and_false]
    exact ⟨fun earlier => polled.future (sameTerm ▸ earlier),
      fun current => sameVote ▸ polled.backed (sameTerm ▸ current),
      fun current => sameVote ▸ polled.recorded (sameTerm ▸ current),
      fun current isCandidate => polled.campaigned (sameTerm ▸ current) (campaigning isCandidate), polled.stood,
      polled.unanimous, polled.divided⟩
  | refuses candidate sameTerm sameVote campaigning voted =>
    simp only [counted, reduceCtorEq, decide_false, Bool.or_false]
    exact polled.refuse sameTerm sameVote campaigning voted
  | later later follows free =>
    simp only [counted, reduceCtorEq, decide_false, Bool.or_false, Bool.and_false]
    rcases eq_or_ne other.currentTerm term with current | different
    · obtain ⟨rfl, rfl, rfl⟩ := polled.untouched (current ▸ later)
      exact empty (by rw [follows]; exact nofun) free
    · exact polled.elsewhere later.le different
  | deposed campaigning sameTerm follows free =>
    simp only [counted, reduceCtorEq, decide_false, Bool.and_false, Bool.or_false]
    rcases eq_or_ne rf.currentTerm term with current | different
    · -- the server has voted for itself, and from now on nothing reminds it of that
      have stood := polled.campaigned current campaigning
      refine ⟨fun earlier => ?_, fun _ none candidate member => .inr ⟨by simp [current], ?_⟩, by simp [free],
        fun _ isCandidate => ?_, fun _ => stood, polled.unanimous, polled.divided⟩
      · omega
      · exact polled.unanimous none candidate member server stood
      · rw [follows] at isCandidate
        cases isCandidate
    · simp only [Option.some.injEq, different, decide_false, Bool.or_false]
      exact polled.elsewhere sameTerm.ge (sameTerm ▸ different)
  | campaigns later voted =>
    simp only [reduceCtorEq, decide_false, Bool.or_false, Bool.and_false]
    exact polled.enter later voted fun _ => rfl
  | grantsLater candidate later follows voted =>
    simp only [reduceCtorEq, decide_false, Bool.or_false, Bool.and_false]
    refine polled.enter later voted fun isCandidate => ?_
    rw [follows] at isCandidate
    cases isCandidate
  | grants candidate another sameTerm free campaigning voted =>
    simp only [reduceCtorEq, decide_false, Bool.or_false, Option.some.injEq]
    rcases eq_or_ne rf.currentTerm term with current | different
    · simp only [counted, sameTerm, current, if_true, decide_true, Bool.and_true]
      exact polled.grant current another free sameTerm campaigning voted
    · simp only [counted, sameTerm, different, if_false, decide_false, Bool.and_false, Bool.or_false]
      exact polled.elsewhere sameTerm.ge (sameTerm ▸ different)

end Polled

variable [Inhabited Command]

theorem Cluster.polled {cluster : Cluster n Command} {actions : List (Action n Command)}
    (run : Cluster.initial.run actions = some cluster) (server : Fin n) (term : Nat) :
    Polled server term (cluster.node server).raft (Cluster.initial.votesIn server term actions)
      (Cluster.initial.scrutiny server term actions).1 (Cluster.initial.scrutiny server term actions).2 := by
  refine Cluster.run_induction run ?_ fun actions middle next action ran polled step => ?_
  · exact .empty (by rw [Cluster.initial_state]; exact nofun) rfl
  · obtain ⟨state, -, simulates⟩ := reachable_simulates ⟨actions, ran⟩
    have after := polled.step (simulates.polls step server)
    rw [Cluster.votesIn, Cluster.observe_append _ _ ran step, Cluster.scrutiny, Cluster.observe_append _ _ ran step]
    exact after

/-- All votes of a server in a term are for the same candidate, exactly if no other up-to-date candidate of the term
asks for its vote after an `AppendEntries` of the term has deposed it as a candidate. -/
theorem votes_unanimous_iff {cluster : Cluster n Command} {actions : List (Action n Command)}
    (run : Cluster.initial.run actions = some cluster) (server : Fin n) (term : Nat) :
    (∀ first ∈ Cluster.initial.votesIn server term actions, ∀ second ∈ Cluster.initial.votesIn server term actions,
      first = second) ↔ Cluster.initial.askedOnceDeposed server term actions = false := by
  have polled := Cluster.polled run server term
  constructor
  · intro unanimous
    by_contra asked
    obtain ⟨candidate, member, different, own⟩ := polled.divided (Bool.not_eq_false _ ▸ asked)
    exact different (unanimous candidate member server own)
  · exact polled.unanimous

/-- Two candidates of term 1: server 2 elects server 0, whose heartbeat reaches server 1. -/
def deposing : List (Action 3 Nat) :=
  [.electionTimeout 0, .electionTimeout 1, .handle 1, .deliver 1, .replicate 0 1, .handle 4]

/-- As long as no second request comes, there is one vote. -/
theorem votes_unanimous_iff_deposing : (Cluster.initial.run deposing).isSome ∧
    Cluster.initial.votesIn 1 1 deposing = [1] ∧ Cluster.initial.askedOnceDeposed 1 1 deposing = false := by
  have ran := Cluster.run_eq_some_after (show (Cluster.initial.run deposing).isSome by decide)
  have votes : Cluster.initial.votesIn 1 1 deposing = [1] := by decide
  refine ⟨by decide, votes, (votes_unanimous_iff ran 1 1).mp ?_⟩
  rw [votes]
  decide

/-- Then the request of server 0 from the beginning of the term arrives, and server 1 grants it. -/
theorem votes_twice_deposing : (Cluster.initial.run (deposing ++ [.handle 0])).isSome ∧
    Cluster.initial.votesIn 1 1 (deposing ++ [.handle 0]) = [1, 0] := by
  decide

end ShardedKV.Raft
