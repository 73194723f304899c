import ShardedKV.Raft.Elections

/-!
# Entries, commits and snapshots

The transitions of one server that change its log, its commit index or its snapshot.
-/

namespace ShardedKV.Raft

open Replication (State Committed Extends Invariant Moves Chosen EndsIn Covered lastTerm overlay)

variable {n : Nat} {Command : Type}
  {state : State (Fin n) (LogEntry Command)} {taken : List (Fin n × Nat × List Command)}
  {server : Fin n} {rf : Raft n Command}

theorem RoleRel.matched_update (role : RoleRel state server rf) (isLeader : rf.state = .leader) {peer : Fin n}
    {value : Int} (bound : value ≤ (max (state.acked peer rf.currentTerm) rf.lastIncludedIndex : Nat)) :
    ∀ other, other ≠ server → Function.update rf.matchIndex peer value other ≤
      (max (state.acked other rf.currentTerm) rf.lastIncludedIndex : Nat) :=
  (Function.forall_update_iff rf.matchIndex fun other value => other ≠ server →
      value ≤ (max (state.acked other rf.currentTerm) rf.lastIncludedIndex : Nat)).mpr
    ⟨fun _ => bound, fun other _ => role.matched isLeader other⟩

/-! ## Receiving entries -/

theorem storeEntries_eq (rf : Raft n Command) (args : AppendEntriesArgs n Command) (realIndex : Nat) :
    rf.storeEntries args realIndex = { rf with
      persister := (rf.storeEntries args realIndex).persister
      log := (mergeLog rf.log args.entries realIndex).1
      commitIndex := if rf.commitIndex < args.leaderCommit then
        min args.leaderCommit rf.getLastLogIndex else rf.commitIndex } := by
  unfold storeEntries
  dsimp only
  split_ifs <;> rfl

theorem storeEntries_snapshot (rf : Raft n Command) (args : AppendEntriesArgs n Command) (realIndex : Nat) :
    (rf.storeEntries args realIndex).persister.snapshot = rf.persister.snapshot := by
  unfold storeEntries
  dsimp only
  split_ifs <;> rfl

theorem observeLeader_term (rf : Raft n Command) (term : Nat) :
    term ≤ (rf.observeLeader term).currentTerm := by
  rw [observeLeader_currentTerm]
  exact Nat.le_max_right _ _

variable [Inhabited Command]

theorem storeEntries_durable (durable : Durable rf) (args : AppendEntriesArgs n Command) (realIndex : Nat) :
    Durable (rf.storeEntries args realIndex) := by
  unfold storeEntries
  cases changed : (mergeLog rf.log args.entries realIndex).2 with
  | true =>
    simp only [changed, if_true]
    split <;> rfl
  | false =>
    simp only [changed, Bool.false_eq_true, if_false, mergeLog_unchanged _ _ _ changed]
    split <;> exact durable

variable (log : LogRel state taken server rf)
include log

/-- A server that has matched the previous entry accepts the leader's log up to the last entry
sent.  The commit index it derives from its old last index is never beyond that. -/
theorem LogRel.store (role : RoleRel state server rf)
    (invariant : Invariant (scheme n Command) state) (isFollower : rf.state = .follower)
    {args : AppendEntriesArgs n Command} (current : rf.currentTerm = args.term) {leader : Fin n}
    {leaderLog : List (LogEntry Command)} (leads : state.leader args.term = some (leader, leaderLog))
    {prev : Nat} (carries : Carries state args leaderLog prev) (retained : rf.lastIncludedIndex ≤ prev)
    (inLog : prev ≤ rf.fullLog.length) (sameTerm : (termAt rf.fullLog prev : Int) = args.prevLogTerm) :
    ∃ after, Moves (scheme n Command) server state after ∧
      LogRel after taken server (rf.storeEntries args (prev - rf.lastIncludedIndex)) ∧
      RoleRel after server (rf.storeEntries args (prev - rf.lastIncludedIndex)) ∧
      Keeps rf (rf.storeEntries args (prev - rf.lastIncludedIndex)) ∧
      args.prevLogIndex + args.entries.length ≤ after.acked server args.term := by
  have available := carries.available
  have leaderCommit := carries.leaderCommit
  have nowLeads : state.leader (state.currentTerm server) = some (leader, leaderLog) := by
    rw [log.currentTerm, current]
    exact leads
  obtain ⟨after, moves, stored, acked, keepsTerm, keepsVote, keepsLeader⟩ := Replication.moves_accept nowLeads available
  obtain ⟨-, extended⟩ := Replication.run_invariant invariant moves.run
  rw [log.log] at stored
  rw [log.currentTerm, current] at acked
  have covered := invariant.log_covered server
  rw [log.log] at covered
  have sameTermNat : termAt rf.fullLog prev = termAt leaderLog prev := by
    have term := carries.prevLogTerm
    omega
  obtain ⟨head, merged⟩ := log.compacted.merge covered (invariant.leader_covered _ _ _ leads) retained inLog
    (Nat.le_add_right prev args.entries.length) available sameTermNat
  rw [← carries.entries] at head merged
  have fields := storeEntries_eq rf args (prev - rf.lastIncludedIndex)
  have snapshot := storeEntries_snapshot rf args (prev - rf.lastIncludedIndex)
  have durable := storeEntries_durable log.durable args (prev - rf.lastIncludedIndex)
  set result := rf.storeEntries args (prev - rf.lastIncludedIndex) with isResult
  have resultLog : result.log = (mergeLog rf.log args.entries (prev - rf.lastIncludedIndex)).1 := by
    rw [fields]
  have fullLog : result.fullLog = overlay rf.fullLog (leaderLog.take (prev + args.entries.length)) := by
    rw [← merged, Raft.fullLog, snapshot, resultLog]
  -- what was committed is part of the leader's log, so overlaying keeps it
  have committedHere : rf.fullLog.take rf.commitIndex <+: leaderLog :=
    log.committed.in_leader invariant current.le leads
  have kept : rf.fullLog.take rf.commitIndex <+: result.fullLog := by
    rw [fullLog]
    exact Replication.overlay_keeps ⟨_, List.take_append_drop _ _⟩ committedHere ⟨_, List.take_append_drop _ _⟩
  have sameCommitted : result.fullLog.take rf.commitIndex = rf.fullLog.take rf.commitIndex := by
    have bound := log.commitIndex
    rw [List.prefix_iff_eq_take.mp kept, List.length_take, Nat.min_eq_left bound]
  have delivered : leaderLog.take (prev + args.entries.length) <+: result.fullLog := by
    rw [fullLog]
    exact Replication.overlay_contains _ _
  have long : prev + args.entries.length ≤ result.fullLog.length := by
    have bound := delivered.length_le
    rwa [List.length_take, Nat.min_eq_left available] at bound
  have lastIndex := log.compacted.getLastLogIndex_eq
  have oldCommit := log.commitIndex
  have commit : result.commitIndex = if rf.commitIndex < args.leaderCommit then
      min args.leaderCommit rf.fullLog.length else rf.commitIndex := by
    rw [fields, ← lastIndex]
  have term : result.currentTerm = rf.currentTerm := by rw [fields]
  have included : result.lastIncludedIndex = rf.lastIncludedIndex := by rw [fields]
  have includedTerm : result.lastIncludedTerm = rf.lastIncludedTerm := by rw [fields]
  have lastApplied : result.lastApplied = rf.lastApplied := by rw [fields]
  have monotone : rf.commitIndex ≤ result.commitIndex := by
    rw [commit]
    split <;> omega
  refine ⟨after, moves, ⟨?_, ?_, durable, ?_, ?_, ?_, ?_, ?_, ?_, ?_⟩, RoleRel.of_follower ?_ ?_ ?_, ?_, ?_⟩
  · rw [fields]
    exact log.me
  · refine ⟨resultLog ▸ head, ?_, ?_⟩
    · rw [snapshot, included, log.compacted.lastIncludedIndex]
    · rw [snapshot, includedTerm, log.compacted.lastIncludedTerm]
  · rw [keepsTerm, term, log.currentTerm]
  · rw [stored, fullLog]
  · rw [included, lastApplied]
    exact log.retained
  · rw [lastApplied]
    exact log.applied.trans monotone
  · rw [commit]
    split
    · omega
    · have bound := kept.length_le
      rw [List.length_take, Nat.min_eq_left oldCommit] at bound
      exact bound
  · rw [commit, term]
    split
    · -- a new commit index is within what the leader has committed and the server now holds
      have upTo : result.fullLog.take args.leaderCommit = leaderLog.take args.leaderCommit := by
        obtain ⟨rest, whole⟩ := delivered
        rw [← whole, List.take_append_of_le_length (by rw [List.length_take]; omega), List.take_take,
          Nat.min_eq_left leaderCommit]
      have committed := carries.committed.mono extended current.ge
      rw [← upTo] at committed
      refine committed.of_le ?_
      rw [show min args.leaderCommit rf.fullLog.length = min (min args.leaderCommit rf.fullLog.length)
        args.leaderCommit by omega, ← List.take_take]
      exact List.take_prefix _ _
    · rw [sameCommitted]
      exact log.committed.mono extended le_rfl
  · rw [snapshot, included, includedTerm, term]
    exact log.snapshot.mono extended (List.Subset.refl _) le_rfl
  · rw [fields]
    exact isFollower
  · intro candidate isVote
    rw [term]
    exact (role.voted candidate (by rw [← isVote, fields])).mono extended
  · intro noVote
    rw [term, keepsVote]
    exact (role.unvoted (by rw [← noVote, fields])).imp id (Resigned.mono extended)
  · exact ⟨term.ge, monotone, sameCommitted, lastApplied, included.ge⟩
  · rw [carries.prevLogIndex]
    omega

theorem LogRel.accept (role : RoleRel state server rf)
    (invariant : Invariant (scheme n Command) state) {args : AppendEntriesArgs n Command} {leader : Fin n}
    {leaderLog : List (LogEntry Command)} (leads : state.leader args.term = some (leader, leaderLog))
    (different : leader ≠ server)
    (carried : args.prevLogTerm = -1 ∨ ∃ prev, Carries state args leaderLog prev) :
    ∃ after, Moves (scheme n Command) server state after ∧
      LogRel after taken server (rf.appendEntries args).1 ∧ RoleRel after server (rf.appendEntries args).1 ∧
      Keeps rf (rf.appendEntries args).1 ∧ ((rf.appendEntries args).2.success →
        args.prevLogIndex + args.entries.length ≤ after.acked server args.term) := by
  obtain ⟨middle, moves, sameLeader, middleLog, middleRole⟩ := log.observe role invariant leads different
  obtain ⟨middleInvariant, extended⟩ := Replication.run_invariant invariant moves.run
  have observed := observeLeader_keeps rf args.term
  rcases appendEntries_cases rf args middleLog.compacted with ⟨reply, result, refused⟩ |
    ⟨upper, prev, isPrev, retained, inLog, sameTerm, result⟩
  · rw [result]
    exact ⟨middle, moves, middleLog, middleRole, observed, by simp [refused]⟩
  · rw [result]
    have current : (rf.observeLeader args.term).currentTerm = args.term :=
      le_antisymm upper (observeLeader_term rf args.term)
    have middleLeads : middle.leader args.term = some (leader, leaderLog) := by
      rw [sameLeader]
      exact leads
    -- the term has one leader, and a candidate of it has just stepped down
    have isFollower : (rf.observeLeader args.term).state = .follower := by
      cases role : (rf.observeLeader args.term).state with
      | follower => rfl
      | leader =>
        have own := middleRole.leads role
        rw [current, middleLeads] at own
        simp only [Option.some.injEq, Prod.mk.injEq] at own
        exact absurd own.1 different
      | candidate =>
        rcases observeLeader_cases rf args.term with ⟨_, result⟩ | ⟨_, stays, result⟩
        · rw [result] at role
          cases role
        · rw [result] at role current
          exact absurd role (stays current.symm)
    rcases carried with noMatch | ⟨position, carries⟩
    · omega
    · obtain rfl : position = prev := by
        have index := carries.prevLogIndex
        omega
      obtain ⟨after, storing, afterLog, afterRole, keeps, acked⟩ := middleLog.store middleRole middleInvariant
        isFollower current middleLeads (carries.mono extended List.prefix_rfl) retained inLog sameTerm
      exact ⟨after, moves.tail storing sameLeader, afterLog, afterRole, observed.trans keeps, fun _ => acked⟩

/-! ## Starting a command -/

theorem LogRel.append (role : RoleRel state server rf)
    (invariant : Invariant (scheme n Command) state) (isLeader : rf.state = .leader) (command : Command) :
    let entry : LogEntry Command := ⟨rf.currentTerm, command, rf.fullLog.length + 1⟩
    let longer := persist { rf with log := rf.log ++ [entry] }
    ∃ after, Relation.ReflTransGen (Replication.Step (scheme n Command)) state after ∧
      (∀ other, other ≠ server → Replication.Untouched other state after) ∧
      LogRel after taken server longer ∧ RoleRel after server longer ∧ Keeps rf longer ∧
      after.leader rf.currentTerm = some (server, rf.fullLog ++ [entry]) ∧
      ∀ other, other ≠ rf.currentTerm → after.leader other = state.leader other := by
  intro entry longer
  have leads : state.leader (state.currentTerm server) = some (server, state.log server) := by
    rw [log.currentTerm, log.log]
    exact role.leads isLeader
  have own : (scheme n Command).termOf entry = state.currentTerm server := log.currentTerm.symm
  obtain ⟨after, run, untouched, newLog, newLeads, others, acked, keepsTerm, keepsVote⟩ :=
    Replication.run_append (scheme n Command) leads own
  obtain ⟨-, extended⟩ := Replication.run_invariant invariant run
  rw [log.currentTerm] at newLeads others acked
  rw [log.log] at newLeads acked newLog
  have fullLog : longer.fullLog = rf.fullLog ++ [entry] := by
    have tail : (rf.log ++ [entry]).tail = rf.log.tail ++ [entry] := by
      rw [log.compacted.log_eq]
      rfl
    change rf.persister.snapshot.entries ++ (rf.log ++ [entry]).tail = rf.fullLog ++ [entry]
    rw [tail, ← List.append_assoc]
    rfl
  have sameCommitted : longer.fullLog.take rf.commitIndex = rf.fullLog.take rf.commitIndex := by
    rw [fullLog, List.take_append_of_le_length log.commitIndex]
  have bound := log.commitIndex
  refine ⟨after, run, untouched, ?_, ?_, ⟨le_rfl, le_rfl, sameCommitted, rfl, le_rfl⟩, newLeads, others⟩
  · refine ⟨log.me, ⟨?_, log.compacted.lastIncludedIndex, log.compacted.lastIncludedTerm⟩, rfl, ?_, ?_,
      log.retained, log.applied, ?_, ?_, log.snapshot.mono extended (List.Subset.refl _) le_rfl⟩
    · change (rf.log ++ [entry]).head? = some default
      rw [log.compacted.log_eq]
      rfl
    · rw [keepsTerm]
      exact log.currentTerm
    · rw [newLog, fullLog]
    · rw [fullLog, List.length_append]
      exact bound.trans (Nat.le_add_right _ _)
    · exact (sameCommitted ▸ log.committed).mono extended le_rfl
  · refine ⟨fun candidate isVote => (role.voted candidate isVote).mono extended, ?_, role.own, ?_, ?_, ?_, ?_, ?_⟩
    · intro noVote
      rw [keepsVote]
      exact (role.unvoted noVote).imp id (Resigned.mono extended)
    · intro isCandidate
      rw [show rf.state = .candidate from isCandidate] at isLeader
      cases isLeader
    · intro isCandidate
      rw [show rf.state = .candidate from isCandidate] at isLeader
      cases isLeader
    · intro _
      rw [fullLog]
      exact newLeads
    · intro _
      rw [fullLog, List.length_append]
      exact acked
    · intro _ peer different
      have matched := role.matched isLeader peer different
      have grown := extended.acked peer rf.currentTerm
      change rf.matchIndex peer ≤ (max (after.acked peer rf.currentTerm) rf.lastIncludedIndex : Nat)
      omega

/-! ## Committing -/

theorem LogRel.termAt_sorted
    (invariant : Invariant (scheme n Command) state) (earlier later : Nat) (ordered : earlier ≤ later)
    (inLog : later ≤ rf.fullLog.length) : termAt rf.fullLog earlier ≤ termAt rf.fullLog later := by
  have covered := invariant.log_covered server
  rw [log.log] at covered
  cases earlier with
  | zero => simp [termAt, lastTerm]
  | succ earlier =>
    obtain ⟨later, rfl⟩ : ∃ position, later = position + 1 := ⟨later - 1, by omega⟩
    have earlierAt := List.getElem?_eq_getElem (show earlier < rf.fullLog.length by omega)
    have laterAt := List.getElem?_eq_getElem (show later < rf.fullLog.length by omega)
    rw [termAt_eq_of_getElem? earlierAt, termAt_eq_of_getElem? laterAt]
    exact covered.term_le invariant (by omega) earlierAt laterAt

theorem LogRel.termAt_le (invariant : Invariant (scheme n Command) state) (index : Nat) :
    termAt rf.fullLog index ≤ rf.currentTerm := by
  have terms := invariant.log_terms server
  rw [log.log, log.currentTerm] at terms
  unfold termAt lastTerm
  cases last : (rf.fullLog.take index).getLast? with
  | none => simp
  | some entry => exact terms entry (List.mem_of_mem_take (List.mem_of_getLast? last))

theorem LogRel.currentLast (invariant : Invariant (scheme n Command) state) : CurrentLast rf := by
  intro earlier later ordered inLog ofTerm
  have lower := log.termAt_sorted invariant earlier later ordered inLog
  have upper := log.termAt_le invariant later
  omega

variable (role : RoleRel state server rf)
include role

/-- What the leader counts on a majority is chosen, because acknowledgements are durable and
every other `matchIndex` is within its snapshot. -/
theorem LogRel.count (invariant : Invariant (scheme n Command) state) (isLeader : rf.state = .leader) :
    LogRel state taken server { rf with commitIndex := rf.countReplica } ∧
      Keeps rf { rf with commitIndex := rf.countReplica } := by
  have retained := log.retained.trans log.applied
  rcases log.compacted.countReplica_cases (log.currentLast invariant) retained with
    same | ⟨later, inLog, current, majority⟩
  · rw [same]
    exact ⟨log, Keeps.refl rf⟩
  · have grown : rf.commitIndex ≤ rf.countReplica := by omega
    refine ⟨⟨log.me, log.compacted.congr rfl rfl rfl rfl, log.durable, log.currentTerm, log.log, log.retained,
      log.applied.trans grown, inLog, ?_, log.snapshot⟩, ⟨le_rfl, grown, rfl, rfl, le_rfl⟩⟩
    have chosen : Chosen (scheme n Command) state rf.currentTerm rf.countReplica rf.fullLog := by
      refine ⟨⟨server, role.leads isLeader⟩, ⟨by omega, ?_⟩, ?_⟩
      · have located := List.getElem?_eq_getElem (show rf.countReplica - 1 < rf.fullLog.length by omega)
        refine ⟨_, located, ?_⟩
        rw [scheme_termOf, ← termAt_eq_of_getElem? located, Nat.sub_add_cancel (by omega), current]
      · obtain ⟨servers, count, holds⟩ := replicas_eq_card rf rf.countReplica
        refine ⟨servers, by rw [scheme_isQuorum, count]; exact majority, fun peer member => ?_⟩
        rw [log.me] at holds
        -- the leader holds its own log, and a `matchIndex` past the snapshot was acknowledged
        rcases holds peer member with rfl | ⟨other, holdsIndex⟩
        · exact inLog.trans (role.acked isLeader)
        · have bound := role.matched isLeader peer other
          omega
    exact .inr ⟨rf.currentTerm, rf.countReplica, rf.fullLog, le_rfl, chosen, List.prefix_rfl⟩

theorem LogRel.progress (invariant : Invariant (scheme n Command) state) (isLeader : rf.state = .leader)
    (nextIndex matchIndex : Fin n → Int) (matched : ∀ peer, peer ≠ server →
      matchIndex peer ≤ (max (state.acked peer rf.currentTerm) rf.lastIncludedIndex : Nat)) :
    let updated := { rf with nextIndex := nextIndex, matchIndex := matchIndex }
    LogRel state taken server { updated with commitIndex := updated.countReplica } ∧
      RoleRel state server { updated with commitIndex := updated.countReplica } ∧
      Keeps rf { updated with commitIndex := updated.countReplica } := by
  intro updated
  have updatedLog : LogRel state taken server updated := log.enter (Extends.refl state)
    ⟨rfl, rfl, rfl, rfl, rfl, rfl, rfl⟩ log.durable le_rfl log.currentTerm rfl
  have updatedRole : RoleRel state server updated := { role with matched := fun _ => matched }
  obtain ⟨counted, keeps⟩ := updatedLog.count updatedRole invariant isLeader
  have same : Keeps rf updated := SameLog.keeps ⟨rfl, rfl, rfl, rfl, rfl, rfl, rfl⟩ le_rfl
  exact ⟨counted, { updatedRole with }, same.trans keeps⟩

theorem LogRel.acknowledge
    (invariant : Invariant (scheme n Command) state) {peer : Fin n} {args : AppendEntriesArgs n Command}
    {reply : AppendEntriesReply} (acknowledged : reply.success →
      args.prevLogIndex + args.entries.length ≤ state.acked peer args.term) :
    ∃ after, Moves (scheme n Command) server state after ∧
      LogRel after taken server (rf.handleAppendEntriesReply peer args reply) ∧
      RoleRel after server (rf.handleAppendEntriesReply peer args reply) ∧
      Keeps rf (rf.handleAppendEntriesReply peer args reply) := by
  unfold handleAppendEntriesReply
  split
  · rename_i later
    obtain ⟨after, moves, -, afterLog, afterRole⟩ := log.follow invariant later
    exact ⟨after, moves, afterLog, afterRole, followerState_keeps later.le⟩
  split
  · exact ⟨state, Moves.refl server state, log, role, Keeps.refl rf⟩
  rename_i leading
  have isLeader : rf.state = .leader := by
    by_contra other
    exact leading (.inl other)
  have sameTerm : rf.currentTerm = args.term := by
    by_contra other
    exact leading (.inr other)
  refine ⟨state, Moves.refl server state, ?_⟩
  dsimp only
  by_cases success : reply.success
  · rw [if_pos success]
    refine log.progress role invariant isLeader _ _ (role.matched_update isLeader ?_)
    have bound := acknowledged success
    rw [sameTerm]
    omega
  · rw [if_neg success]
    split
    · unfold handleLogInconsistency
      dsimp only
      split <;> exact log.progress role invariant isLeader _ _ (role.matched isLeader)
    · exact log.progress role invariant isLeader _ _ (role.matched isLeader)

theorem LogRel.snapshotReply
    (invariant : Invariant (scheme n Command) state) {peer : Fin n} {args : InstallSnapshotArgs n Command}
    (reply : InstallSnapshotReply) (included : args.lastIncludedIndex ≤ rf.lastIncludedIndex) :
    ∃ after, Moves (scheme n Command) server state after ∧
      LogRel after taken server (rf.handleInstallSnapshotReply peer args reply) ∧
      RoleRel after server (rf.handleInstallSnapshotReply peer args reply) ∧
      Keeps rf (rf.handleInstallSnapshotReply peer args reply) := by
  unfold handleInstallSnapshotReply
  split
  · rename_i later
    obtain ⟨after, moves, -, afterLog, afterRole⟩ := log.follow invariant later
    exact ⟨after, moves, afterLog, afterRole, followerState_keeps later.le⟩
  split
  · exact ⟨state, Moves.refl server state, log, role, Keeps.refl rf⟩
  rename_i leading
  have isLeader : rf.state = .leader := by
    by_contra other
    exact leading other
  refine ⟨state, Moves.refl server state, ?_⟩
  dsimp only
  split
  · -- the index that was sent is within the snapshot of the server, whoever it led then
    refine log.progress role invariant isLeader _ _ (role.matched_update isLeader ?_)
    omega
  · exact log.progress role invariant isLeader _ _ (role.matched isLeader)

/-! ## Snapshots and restarts -/

/-- Installing a snapshot that goes beyond the commit index: the log keeps what follows the
snapshot exactly when it contains it. -/
theorem LogRel.install (invariant : Invariant (scheme n Command) state) {snapshot : Snapshot Command}
    {snapshotTerm snapshotIndex : Nat}
    (snapshotted : Snapshotted state taken rf.currentTerm snapshot snapshotTerm snapshotIndex)
    (newer : rf.commitIndex < snapshotIndex) :
    ∃ after, Moves (scheme n Command) server state after ∧ ∃ installed,
      rf.condInstallSnapshot snapshotTerm snapshotIndex snapshot = (true, installed) ∧
      LogRel after taken server installed ∧ RoleRel after server installed ∧
      installed.fullLog.take snapshotIndex = snapshot.entries ∧
      installed.fullLog.take rf.commitIndex = rf.fullLog.take rf.commitIndex ∧
      installed.commitIndex = snapshotIndex ∧ installed.lastApplied = snapshotIndex ∧
      installed.lastIncludedIndex = snapshotIndex ∧ installed.currentTerm = rf.currentTerm ∧
      installed.state = rf.state ∧ installed.getVotesNum = rf.getVotesNum := by
  have current := log.currentTerm
  obtain ⟨after, moves, overlaid, keepsTerm, keepsVote, keepsLeader, keepsAcked⟩ :=
    Replication.moves_install (scheme n Command) server
      (current ▸ snapshotted.committed)
  obtain ⟨-, extended⟩ := Replication.run_invariant invariant moves.run
  have covered := invariant.log_covered server
  rw [log.log] at covered overlaid
  obtain ⟨newLog, result, head, newFull⟩ := log.compacted.condInstallSnapshot_eq covered
    (snapshotted.committed.covered invariant) snapshotted.length snapshotted.lastTerm
    (log.retained.trans log.applied) newer
  have applied := log.applied
  have commit : max rf.commitIndex snapshotIndex = snapshotIndex := by omega
  have lastApplied : max rf.lastApplied snapshotIndex = snapshotIndex := by omega
  rw [commit, lastApplied] at result
  have contained : snapshot.entries <+: overlay rf.fullLog snapshot.entries :=
    Replication.overlay_contains _ _
  have bound := contained.length_le
  have takes : (overlay rf.fullLog snapshot.entries).take snapshotIndex = snapshot.entries := by
    rw [← snapshotted.length]
    exact (List.prefix_iff_eq_take.mp contained).symm
  -- the old committed entries and the snapshot's are comparable, so the snapshot extends them
  have extendsCommitted : rf.fullLog.take rf.commitIndex <+: snapshot.entries := by
    have oldLength : (rf.fullLog.take rf.commitIndex).length = rf.commitIndex := by
      rw [List.length_take, Nat.min_eq_left log.commitIndex]
    rcases log.committed.comparable invariant snapshotted.committed with shorter | longer
    · exact shorter
    · have impossible := longer.length_le
      rw [oldLength, snapshotted.length] at impossible
      omega
  have keptCommitted : (overlay rf.fullLog snapshot.entries).take rf.commitIndex =
      rf.fullLog.take rf.commitIndex := by
    have held := extendsCommitted.trans contained
    rw [List.prefix_iff_eq_take.mp held, List.length_take, Nat.min_eq_left log.commitIndex]
  refine ⟨after, moves, _, result, ?_, ?_, ?_, ?_, rfl, rfl, rfl, rfl, rfl, rfl⟩
  · refine ⟨log.me, ⟨head, snapshotted.length, snapshotted.lastTerm⟩, rfl, ?_, ?_, le_rfl, le_rfl, ?_, ?_, ?_⟩
    · rw [keepsTerm]
      exact current
    · rw [overlaid, ← newFull]
      rfl
    · change snapshotIndex ≤ (snapshot.entries ++ newLog.tail).length
      rw [newFull, ← snapshotted.length]
      exact bound
    · change Committed _ _ _ ((snapshot.entries ++ newLog.tail).take snapshotIndex)
      rw [newFull, takes]
      exact snapshotted.committed.mono extended le_rfl
    · exact snapshotted.mono extended (List.Subset.refl _) le_rfl
  · refine ⟨fun candidate isVote => (role.voted candidate isVote).mono extended, ?_, role.own, ?_, ?_, ?_, ?_, ?_⟩
    · intro noVote
      rw [keepsVote]
      exact (role.unvoted noVote).imp id (Resigned.mono extended)
    · rw [keepsVote]
      exact role.campaigned
    · rw [keepsLeader]
      exact role.notElected
    -- what is left is about a leader: its log contains the snapshot already
    all_goals
      intro isLeader
      have leads := role.leads isLeader
      have inLog := snapshotted.committed.in_leader invariant le_rfl leads
      have unchanged : overlay rf.fullLog snapshot.entries = rf.fullLog := Replication.overlay_eq_self inLog
    · change after.leader rf.currentTerm = some (server, snapshot.entries ++ newLog.tail)
      rw [keepsLeader, newFull, unchanged]
      exact leads
    · change (snapshot.entries ++ newLog.tail).length ≤ after.acked server rf.currentTerm
      rw [keepsAcked, newFull, unchanged]
      exact role.acked isLeader
    · intro peer different
      have matched := role.matched isLeader peer different
      have retained := log.retained
      change rf.matchIndex peer ≤ (max (after.acked peer rf.currentTerm) snapshotIndex : Nat)
      rw [keepsAcked]
      omega
  · change (snapshot.entries ++ newLog.tail).take snapshotIndex = snapshot.entries
    rw [newFull, takes]
  · change (snapshot.entries ++ newLog.tail).take rf.commitIndex = rf.fullLog.take rf.commitIndex
    rw [newFull, keptCommitted]

theorem LogRel.compact {index : Nat} (newer : rf.lastIncludedIndex < index) (committed : index ≤ rf.commitIndex)
    {more : List (Fin n × Nat × List Command)} {data : List Command}
    (isData : data = (rf.fullLog.take index).map LogEntry.command) (isTaken : (server, index, data) ∈ more) :
    LogRel state more server (rf.snapshot index data) ∧ RoleRel state server (rf.snapshot index data) ∧
      (rf.snapshot index data).fullLog = rf.fullLog ∧
      (rf.snapshot index data).lastApplied = max rf.lastApplied index ∧
      (rf.snapshot index data).commitIndex = rf.commitIndex ∧
      (rf.snapshot index data).lastIncludedIndex = index ∧
      (rf.snapshot index data).currentTerm = rf.currentTerm ∧
      (rf.snapshot index data).state = rf.state ∧
      (rf.snapshot index data).getVotesNum = rf.getVotesNum := by
  have inLog := committed.trans log.commitIndex
  have fullLog : rf.fullLog.take index ++ rf.fullLog.drop index = rf.fullLog := List.take_append_drop _ _
  have length : (rf.fullLog.take index).length = index := by
    rw [List.length_take, Nat.min_eq_left inLog]
  have commit : max rf.commitIndex index = rf.commitIndex := by omega
  have applied := log.applied
  rw [log.compacted.snapshot_eq data newer inLog, commit]
  refine ⟨⟨log.me, ⟨rfl, length, rfl⟩, rfl, log.currentTerm, ?_, ?_, ?_, ?_, ?_, ?_⟩, ?_, fullLog, rfl, rfl, rfl,
    rfl, rfl, rfl⟩
  · exact log.log.trans fullLog.symm
  · exact Nat.le_max_right _ _
  · exact Nat.max_le.mpr ⟨applied, committed⟩
  · change rf.commitIndex ≤ (rf.fullLog.take index ++ rf.fullLog.drop index).length
    rw [fullLog]
    exact log.commitIndex
  · change Committed _ _ _ ((rf.fullLog.take index ++ rf.fullLog.drop index).take rf.commitIndex)
    rw [fullLog]
    exact log.committed
  · refine ⟨?_, length, rfl, isData, fun _ => ⟨server, isTaken⟩⟩
    refine log.committed.of_le ?_
    rw [← Nat.min_eq_left committed, ← List.take_take]
    exact List.take_prefix _ _
  · refine ⟨role.voted, role.unvoted, role.own, role.campaigned, role.notElected, ?_, ?_, ?_⟩
    · intro isLeader
      change state.leader rf.currentTerm = some (server, rf.fullLog.take index ++ rf.fullLog.drop index)
      rw [fullLog]
      exact role.leads isLeader
    · intro isLeader
      change (rf.fullLog.take index ++ rf.fullLog.drop index).length ≤ _
      rw [fullLog]
      exact role.acked isLeader
    · intro isLeader peer different
      have matched := role.matched isLeader peer different
      change rf.matchIndex peer ≤ (max (state.acked peer rf.currentTerm) index : Nat)
      omega

/-- A reboot keeps the persistent fields and the snapshot, and starts from the snapshot. -/
theorem LogRel.reboot :
    LogRel state taken server (make server rf.persister) ∧ RoleRel state server (make server rf.persister) ∧
      (make server rf.persister).lastIncludedIndex = rf.lastIncludedIndex ∧
      (make server rf.persister).lastApplied = rf.lastIncludedIndex ∧
      (make server rf.persister).commitIndex = rf.lastIncludedIndex ∧
      (make server rf.persister).fullLog = rf.fullLog := by
  have durable := log.durable
  rw [Durable, log.me] at durable
  have fresh : (make server rf.persister).me = server ∧ (make server rf.persister).persister = rf.persister ∧
      (make server rf.persister).state = .follower ∧
      (make server rf.persister).lastApplied = (make server rf.persister).lastIncludedIndex ∧
      (make server rf.persister).commitIndex = (make server rf.persister).lastIncludedIndex := by
    unfold make
    cases rf.persister.raftState <;> exact ⟨rfl, rfl, rfl, rfl, rfl⟩
  obtain ⟨me, persister, isFollower, lastApplied, commitIndex⟩ := fresh
  set rebooted := make server rf.persister with isRebooted
  simp only [getStatePersistData, PersistData.mk.injEq] at durable
  obtain ⟨term, votedFor, sameLog, included, includedTerm⟩ := durable
  have snapshot : rebooted.persister.snapshot = rf.persister.snapshot := by rw [persister]
  have fullLog : rebooted.fullLog = rf.fullLog := by rw [Raft.fullLog, Raft.fullLog, snapshot, sameLog]
  rw [included] at lastApplied commitIndex
  have retained := log.retained.trans log.applied
  -- of the role only the vote is left
  refine ⟨⟨me, log.compacted.congr sameLog snapshot included includedTerm, ?_, ?_, ?_, ?_, ?_, ?_, ?_, ?_⟩,
    RoleRel.of_follower isFollower ?_ ?_, included, lastApplied, commitIndex, fullLog⟩
  · rw [Durable, me, persister]
  · rw [term]
    exact log.currentTerm
  · rw [fullLog]
    exact log.log
  · rw [included, lastApplied]
  · rw [lastApplied, commitIndex]
  · rw [commitIndex, fullLog]
    exact retained.trans log.commitIndex
  · rw [commitIndex, fullLog, term]
    refine log.committed.of_le ?_
    rw [← Nat.min_eq_left retained, ← List.take_take]
    exact List.take_prefix _ _
  · rw [snapshot, included, includedTerm, term]
    exact log.snapshot
  · intro candidate isVote
    rw [term]
    exact role.voted candidate (votedFor ▸ isVote)
  · intro noVote
    rw [term]
    exact role.unvoted (votedFor ▸ noVote)

end ShardedKV.Raft
