import ShardedKV.Raft.MatchIndex

/-!
# The indices of a leader

`nextIndex` is never more than one past the end of the log, whatever replies arrive in whatever order.
That `matchIndex` does not decrease and stays below `nextIndex` is another matter: a reply that
reports success sets both from its own request, and a refusal that names a term sets `nextIndex`,
without a look at `matchIndex`.
-/

namespace ShardedKV.Raft

open Cluster (Action)
open Replication (State Committed)

variable {n : Nat} {Command : Type}

/-! ## What a refusal asks for -/

theorem sameTermFirstFrom_le (rf : Raft n Command) (sameTerm i : Nat) : rf.sameTermFirstFrom sameTerm i ≤ i := by
  induction i with
  | zero => exact le_rfl
  | succ i inductionHypothesis =>
    unfold sameTermFirstFrom
    split
    · split
      · exact inductionHypothesis.trans (Nat.le_succ i)
      · exact le_rfl
    · exact le_rfl

theorem getSameTermFirst_le (rf : Raft n Command) (realIndex : Nat) : rf.getSameTermFirst realIndex ≤ realIndex := by
  unfold getSameTermFirst
  split
  · exact Nat.zero_le _
  · split
    · exact rf.sameTermFirstFrom_le _ _
    · exact le_rfl

theorem leaderAppendEntries_sent {rf : Raft n Command} {peer : Fin n} {args : AppendEntriesArgs n Command}
    (sent : (rf.leaderAppendEntries peer).2 = .appendEntries args) :
    rf.state = .leader ∧ args.prevLogIndex = rf.nextIndex peer - 1 ∧ args.term = rf.currentTerm := by
  unfold leaderAppendEntries at sent
  dsimp only at sent
  split at sent
  · split at sent <;> cases sent
  · split at sent
    · cases sent
    · rename_i leading
      cases sent
      exact ⟨not_not.mp leading, rfl, rfl⟩

variable [Inhabited Command]

/-- A server that does not have the previous entry names the term it has instead, or the end of its log. -/
theorem Compacted.inconsistencyReply_eq {rf : Raft n Command} (compacted : Compacted rf) {prev : Nat}
    (retained : rf.lastIncludedIndex ≤ prev) :
    rf.inconsistencyReply prev =
      if prev ≤ rf.fullLog.length then
        { term := rf.currentTerm, logInconsistency := true, xTerm := termAt rf.fullLog prev,
          xIndex := rf.getSameTermFirst (prev - rf.lastIncludedIndex) + rf.lastIncludedIndex }
      else
        { term := rf.currentTerm, logInconsistency := true, xTerm := -1, xIndex := rf.fullLog.length + 1 } := by
  have real : ((prev : Int) - rf.lastIncludedIndex).toNat = prev - rf.lastIncludedIndex := by omega
  unfold inconsistencyReply
  dsimp only
  rw [real, compacted.getLastLogIndex_eq, compacted.getLogAt_eq, Nat.add_sub_cancel' retained]
  by_cases inLog : prev ≤ rf.fullLog.length
  · rw [if_neg (by omega), if_pos inLog, if_pos inLog]
  · rw [if_pos (by omega), if_neg inLog]

theorem Compacted.inconsistencyReply_xIndex_le {rf : Raft n Command} (compacted : Compacted rf) {prevLogIndex : Int}
    (retained : rf.lastIncludedIndex ≤ prevLogIndex) : (rf.inconsistencyReply prevLogIndex).xIndex ≤ prevLogIndex := by
  obtain ⟨prev, rfl⟩ : ∃ prev : Nat, prevLogIndex = prev := ⟨prevLogIndex.toNat, by omega⟩
  have first := rf.getSameTermFirst_le (prev - rf.lastIncludedIndex)
  rw [compacted.inconsistencyReply_eq (by omega)]
  split_ifs
  · dsimp only
    omega
  · dsimp only
    omega

/-- A refusal asks for the entry after the snapshot, or for one that is not beyond the previous entry of
the request. -/
theorem Compacted.appendEntries_xIndex {rf : Raft n Command} (compacted : Compacted rf)
    {args : AppendEntriesArgs n Command} (inconsistent : (rf.appendEntries args).2.logInconsistency = true) :
    rf.currentTerm ≤ args.term ∧ ((rf.appendEntries args).2.xIndex = rf.lastIncludedIndex + 1 ∨
      (rf.appendEntries args).2.xIndex ≤ args.prevLogIndex) := by
  have same := observeLeader_sameLog rf args.term
  have observed := same.compacted compacted
  rw [appendEntries_observed] at inconsistent ⊢
  split at inconsistent
  · cases inconsistent
  rename_i current
  rw [if_neg current]
  refine ⟨(observeLeader_keeps rf args.term).currentTerm.trans (Nat.not_lt.mp current), ?_⟩
  split at inconsistent
  · rename_i early
    rw [if_pos early, same.lastIncludedIndex]
    exact .inl rfl
  rename_i retained
  rw [if_neg retained]
  split at inconsistent
  · cases inconsistent
  rename_i missing
  rw [if_neg missing]
  exact .inr (observed.inconsistencyReply_xIndex_le (not_lt.mp retained))

theorem Compacted.conflictTarget_le {rf : Raft n Command} (compacted : Compacted rf) {xTerm target bound : Int}
    (notBeyond : target ≤ bound)
    (found : ∀ index : Nat, index ≤ rf.fullLog.length → 0 < index → (termAt rf.fullLog index : Int) = xTerm →
      index + 1 ≤ bound) (i : Nat) :
    rf.conflictTarget xTerm target i ≤ bound := by
  induction i with
  | zero => exact notBeyond
  | succ i inductionHypothesis =>
    unfold conflictTarget
    rw [compacted.getLogAt_eq]
    split
    · rename_i entryIndex entryTerm located
      split
      · rename_i sameTerm
        rw [Option.ite_none_right_eq_some] at located
        obtain ⟨inLog, entry⟩ := located
        cases entry
        exact found _ inLog (by omega) sameTerm
      · exact inductionHypothesis
    · exact inductionHypothesis

/-! ## The end of the log -/

structure Cluster.Leads (cluster : Cluster n Command) (server : Fin n) (term : Nat) : Prop where
  state : (cluster.node server).raft.state = .leader
  currentTerm : (cluster.node server).raft.currentTerm = term

instance (cluster : Cluster n Command) (server : Fin n) (term : Nat) : Decidable (cluster.Leads server term) :=
  decidable_of_iff (_ ∧ _) ⟨fun leads => ⟨leads.1, leads.2⟩, fun leads => ⟨leads.state, leads.currentTerm⟩⟩

/-- No index of a leader, and none that it is still asked to try, is more than one past its log. -/
structure Bookkept (cluster : Cluster n Command) : Prop where
  indices : ∀ server, (cluster.node server).raft.state = .leader → ∀ peer,
    (cluster.node server).raft.matchIndex peer ≤ (cluster.node server).raft.fullLog.length ∧
      (cluster.node server).raft.nextIndex peer ≤ (cluster.node server).raft.fullLog.length + 1
  calls : ∀ call ∈ cluster.calls, ∀ args, call.request = .appendEntries args → cluster.Leads call.caller args.term →
    (args.prevLogIndex ≤ (cluster.node call.caller).raft.fullLog.length ∧ args.prevLogTerm ≠ -1) ∧
      ∀ reply, call.reply = some (.appendEntries reply) → reply.logInconsistency = true →
        reply.xIndex ≤ (cluster.node call.caller).raft.fullLog.length + 1

variable {cluster next : Cluster n Command} {state : State (Fin n) (LogEntry Command)} {server : Fin n}
  {action : Action n Command}

section

variable (simulates : Simulates cluster state)
include simulates

theorem Bookkept.indices_step (step : cluster.step action = some next)
    (kept : Bookkept cluster) (isLeader : (next.node server).raft.state = .leader)
    (nextCompacted : Compacted (next.node server).raft) (peer : Fin n) :
    (next.node server).raft.matchIndex peer ≤ (next.node server).raft.fullLog.length ∧
      (next.node server).raft.nextIndex peer ≤ (next.node server).raft.fullLog.length + 1 := by
  rcases simulates.leader_step step isLeader with ⟨elected, startsAtEnd⟩ | ⟨wasLeader, sameTerm, appended⟩
  · rw [elected.matchIndex, startsAtEnd, nextCompacted.getLastLogIndex_eq]
    dsimp only
    omega
  have grown : (cluster.node server).raft.fullLog.length ≤ (next.node server).raft.fullLog.length := by
    rw [appended, List.length_append]
    omega
  have node := simulates.node server
  suffices bounds : (next.node server).raft.matchIndex peer ≤ (cluster.node server).raft.fullLog.length ∧
      (next.node server).raft.nextIndex peer ≤ (cluster.node server).raft.fullLog.length + 1 by omega
  have before := kept.indices server wasLeader peer
  have source := simulates.section_indices (Cluster.step_section step server) peer wasLeader isLeader
  generalize (next.node server).raft.matchIndex peer = raised at source ⊢
  generalize (next.node server).raft.nextIndex peer = tried at source ⊢
  cases source with
  | unchanged => exact before
  | own => exact ⟨le_rfl, le_rfl⟩
  | acknowledged id call args reply located caller callee request replied current _ success =>
    obtain ⟨-, content⟩ := simulates.call call (List.mem_of_getElem? located)
    simp only [request, callee] at content
    -- what a peer has acknowledged in the term is in the leader's log
    have acked := content.2 reply replied success
    have inLog := simulates.acked_le wasLeader peer
    rw [current] at inLog
    omega
  | refused id call args reply located caller callee request replied current _ _ inconsistent =>
    refine ⟨before.1, ?_⟩
    subst caller
    have asked := (kept.calls call (List.mem_of_getElem? located) args request ⟨wasLeader, current⟩).2 reply replied
      inconsistent
    unfold retryIndex
    split
    · split
      · omega
      · exact asked
    · exact node.log.compacted.conflictTarget_le asked (fun index inLog _ _ => by omega) _
  | snapshot id call args reply located caller callee request replied leads current lower =>
    obtain ⟨-, content⟩ := simulates.call call (List.mem_of_getElem? located)
    simp only [request, caller] at content
    have included := content.1.trans (node.log.retained.trans (node.log.applied.trans node.log.commitIndex))
    omega

theorem Simulates.leads_before (step : cluster.step action = some next)
    {log : List (LogEntry Command)} {term : Nat} (led : state.leader term = some (server, log))
    (leads : next.Leads server term) : cluster.Leads server term ∧
      (cluster.node server).raft.fullLog <+: (next.node server).raft.fullLog := by
  rcases simulates.leader_step step leads.state with ⟨elected, -⟩ | ⟨wasLeader, sameTerm, appended⟩
  · have ofTerm : (cluster.node server).raft.currentTerm = term := elected.currentTerm.symm.trans leads.currentTerm
    rw [← ofTerm] at led
    exact absurd led ((simulates.node server).role.notElected elected.candidate log)
  · refine ⟨⟨wasLeader, sameTerm.symm.trans leads.currentTerm⟩, ?_⟩
    rw [appended]
    exact List.prefix_append _ _

/-- A server that refuses a request of the leader's term has no snapshot beyond the leader's log. -/
theorem Simulates.xIndex_le {leader peer : Fin n}
    {args : AppendEntriesArgs n Command} (leads : cluster.Leads leader args.term)
    (inLog : args.prevLogIndex ≤ (cluster.node leader).raft.fullLog.length)
    (inconsistent : ((cluster.node peer).raft.appendEntries args).2.logInconsistency = true) :
    ((cluster.node peer).raft.appendEntries args).2.xIndex ≤ (cluster.node leader).raft.fullLog.length + 1 := by
  have node := simulates.node peer
  obtain ⟨notLater, afterSnapshot | notBeyond⟩ := node.log.compacted.appendEntries_xIndex inconsistent
  · have led := (simulates.node leader).role.leads leads.state
    rw [leads.currentTerm] at led
    -- the snapshot is committed, so the leader has what it stands for
    have contained := node.log.snapshot.committed.in_leader simulates.invariant notLater led
    have included := contained.length_le
    rw [node.log.snapshot.length] at included
    omega
  · omega

theorem Bookkept.calls_step (step : cluster.step action = some next)
    (kept : Bookkept cluster) {call : Call n Command} (member : call ∈ next.calls)
    {args : AppendEntriesArgs n Command} (request : call.request = .appendEntries args)
    (leads : next.Leads call.caller args.term) :
    (args.prevLogIndex ≤ (next.node call.caller).raft.fullLog.length ∧ args.prevLogTerm ≠ -1) ∧
      ∀ reply, call.reply = some (.appendEntries reply) → reply.logInconsistency = true →
        reply.xIndex ≤ (next.node call.caller).raft.fullLog.length + 1 := by
  -- the caller of an earlier call has led the term since
  have earlier : ∀ old ∈ cluster.calls, old.caller = call.caller → old.request = call.request →
      cluster.Leads old.caller args.term ∧
        (cluster.node old.caller).raft.fullLog.length ≤ (next.node call.caller).raft.fullLog.length := by
    intro old oldMember caller sameRequest
    obtain ⟨-, content⟩ := simulates.call old oldMember
    rw [sameRequest, request] at content
    obtain ⟨⟨log, led, -⟩, -⟩ := content
    obtain ⟨leadsBefore, grown⟩ := simulates.leads_before step led (caller ▸ leads)
    exact ⟨leadsBefore, caller ▸ grown.length_le⟩
  cases Cluster.step_calls step member with
  | kept old oldMember caller callee sameRequest sameReply =>
    obtain ⟨leadsBefore, grown⟩ := earlier old oldMember caller.symm sameRequest.symm
    obtain ⟨⟨inLog, named⟩, asked⟩ := kept.calls old oldMember args (sameRequest.symm.trans request) leadsBefore
    refine ⟨⟨by omega, named⟩, fun reply replied inconsistent => ?_⟩
    have bound := asked reply (sameReply.symm.trans replied) inconsistent
    omega
  | votes args request' => cases request'.symm.trans request
  | entries sentArgs request' unanswered sent =>
    cases request'.symm.trans request
    obtain ⟨wasLeader, isPrev, isTerm⟩ := leaderAppendEntries_sent sent
    have led := (simulates.node call.caller).role.leads wasLeader
    obtain ⟨-, grown⟩ := simulates.leads_before step (isTerm ▸ led) leads
    have bound := (kept.indices call.caller wasLeader call.callee).2
    have longer := grown.length_le
    obtain ⟨-, content⟩ := (simulates.node call.caller).log.compacted.leaderAppendEntries_cases call.callee
    rw [sent] at content
    have named : args.prevLogTerm ≠ -1 := by
      rcases content.2.2.2 with ⟨beyond, -⟩ | ⟨prev, -, -, isPrevTerm, -⟩ <;> omega
    exact ⟨⟨by omega, named⟩, fun reply replied => by cases unanswered.symm.trans replied⟩
  | snapshot args request' => cases request'.symm.trans request
  | answered old oldMember caller callee sameRequest answer raft =>
    obtain ⟨leadsBefore, grown⟩ := earlier old oldMember caller.symm sameRequest.symm
    obtain ⟨⟨inLog, named⟩, -⟩ := kept.calls old oldMember args (sameRequest.symm.trans request) leadsBefore
    refine ⟨⟨by omega, named⟩, fun reply replied inconsistent => ?_⟩
    rw [answer] at replied
    simp only [request, handleRequest, Option.some.injEq, Reply.appendEntries.injEq] at replied
    subst replied
    have bound := simulates.xIndex_le leadsBefore inLog inconsistent
    omega

theorem Bookkept.step (step : cluster.step action = some next) (kept : Bookkept cluster) : Bookkept next := by
  obtain ⟨after, -, nextSimulates⟩ := simulates.step step
  refine ⟨fun server isLeader peer => ?_, fun call member args request leads => ?_⟩
  · exact kept.indices_step simulates step isLeader (nextSimulates.node server).log.compacted peer
  · exact kept.calls_step simulates step member request leads

end

theorem bookkept_initial : Bookkept (Cluster.initial : Cluster n Command) where
  indices server isLeader := by
    rw [Cluster.initial_state] at isLeader
    cases isLeader
  calls _ member := absurd member List.not_mem_nil

theorem Cluster.Reachable.bookkept (reachable : Cluster.Reachable cluster) : Bookkept cluster := by
  refine Cluster.Steps.invariant reachable bookkept_initial ?_
  intro middle next action reached kept step
  obtain ⟨state, -, simulates⟩ := reachable_simulates reached
  exact kept.step simulates step

/-! ## Replies that set a peer back -/

/-- The leader processes a reply that comes too late: a success of a request that was sent before the last entry
which the peer has acknowledged, so that it had neither this entry nor a later one, or a refusal with a term of
which the leader's log has entries only before that entry or, if it has none, with an index that is not beyond it. -/
def SetsBack (rf : Raft n Command) (peer : Fin n) (args : AppendEntriesArgs n Command) (reply : AppendEntriesReply) :
    Prop :=
  rf.state = .leader ∧ rf.currentTerm = args.term ∧ reply.term ≤ rf.currentTerm ∧
    (reply.success = true ∧ args.prevLogIndex < rf.matchIndex peer ∧
        (∀ entry ∈ args.entries, (entry.index : Int) < rf.matchIndex peer) ∨
      reply.success = false ∧ reply.logInconsistency = true ∧ reply.xTerm ≠ -1 ∧
        (∀ entry ∈ rf.log.tail, (entry.term : Int) = reply.xTerm → (entry.index : Int) < rf.matchIndex peer) ∧
        ((∀ entry ∈ rf.log.tail, (entry.term : Int) ≠ reply.xTerm) → reply.xIndex ≤ rf.matchIndex peer))

instance (rf : Raft n Command) (peer : Fin n) (args : AppendEntriesArgs n Command) (reply : AppendEntriesReply) :
    Decidable (rf.SetsBack peer args reply) := by
  unfold SetsBack
  infer_instance

def Cluster.setsBack (cluster : Cluster n Command) (server : Fin n) : Action n Command → Bool
  | .deliver id =>
    match cluster.calls[id]? with
    | none => false
    | some call =>
      match call.request, call.reply with
      | .appendEntries args, some (.appendEntries reply) =>
        call.caller = server ∧ (cluster.node server).raft.SetsBack call.callee args reply
      | _, _ => false
  | _ => false

/-- A request reaches as far as its last entry. -/
theorem Simulates.reach_lt_iff (simulates : Simulates cluster state) (kept : Bookkept cluster) {call : Call n Command}
    (member : call ∈ cluster.calls) {args : AppendEntriesArgs n Command} (request : call.request = .appendEntries args)
    (leads : cluster.Leads call.caller args.term) {bound : Int} :
    args.prevLogIndex + args.entries.length < bound ↔
      args.prevLogIndex < bound ∧ ∀ entry ∈ args.entries, (entry.index : Int) < bound := by
  obtain ⟨-, content⟩ := simulates.call call member
  simp only [request] at content
  obtain ⟨⟨log, led, carried⟩, -⟩ := content
  obtain ⟨prev, carries⟩ := carried.resolve_left (kept.calls call member args request leads).1.2
  have indexed : ∀ (position : Nat) entry, args.entries[position]? = some entry →
      entry.index = prev + position + 1 := by
    intro position entry located
    rw [carries.entries, List.getElem?_drop, List.getElem?_take, Option.ite_none_right_eq_some] at located
    exact simulates.recorded.index _ _ _ led _ _ located.2
  rw [carries.prevLogIndex]
  constructor
  · intro below
    refine ⟨by omega, fun entry inside => ?_⟩
    obtain ⟨position, located⟩ := List.mem_iff_getElem?.mp inside
    have within := (List.getElem?_eq_some_iff.mp located).1
    rw [indexed position entry located]
    omega
  · rintro ⟨before, below⟩
    rcases List.eq_nil_or_concat args.entries with none | ⟨front, last, isEntries⟩
    · simpa [none] using before
    · have located : args.entries[front.length]? = some last := by simp [isEntries]
      have isIndex := indexed _ _ located
      have behind := below last (List.mem_of_getElem? located)
      rw [isEntries, List.length_concat]
      omega

omit [Inhabited Command] in
theorem conflictTarget_le_iff {rf : Raft n Command} {xTerm target bound : Int}
    (indexed : ∀ (position : Nat) entry, rf.log.tail[position]? = some entry →
      entry.index = rf.lastIncludedIndex + (position + 1)) (i : Nat) :
    rf.conflictTarget xTerm target i ≤ bound ↔
      (∀ entry ∈ rf.log.tail.take i, (entry.term : Int) = xTerm → (entry.index : Int) < bound) ∧
      ((∀ entry ∈ rf.log.tail.take i, (entry.term : Int) ≠ xTerm) → target ≤ bound) := by
  induction i with
  | zero => simp [conflictTarget]
  | succ i inductionHypothesis =>
    have next : rf.log[i + 1]? = rf.log.tail[i]? := List.getElem?_tail.symm
    rw [conflictTarget, getLogAt, next, List.take_add_one]
    cases located : rf.log.tail[i]? with
    | none => simpa using inductionHypothesis
    | some entry =>
      have isIndex := indexed i entry located
      simp only [Nat.add_one_ne_zero, if_false, Option.toList_some, List.forall_mem_append, List.forall_mem_singleton]
      split
      · rename_i sameTerm
        -- the scan goes down, so this is the last entry of the term
        have below : ∀ earlier ∈ rf.log.tail.take i, earlier.index < entry.index := by
          intro earlier member
          obtain ⟨position, found⟩ := List.mem_iff_getElem?.mp member
          rw [List.getElem?_take, Option.ite_none_right_eq_some] at found
          rw [indexed position earlier found.2, isIndex]
          omega
        constructor
        · intro bounded
          refine ⟨⟨fun earlier member _ => ?_, fun _ => by omega⟩, fun none => absurd sameTerm none.2⟩
          have before := below earlier member
          omega
        · intro bounded
          have last := bounded.1.2 sameTerm
          omega
      · rename_i otherTerm
        rw [inductionHypothesis]
        simp only [otherTerm, false_imp_iff, and_true, not_false_eq_true, ne_eq]

theorem Simulates.conflictTarget_le_iff (simulates : Simulates cluster state) (server : Fin n)
    {xTerm target bound : Int} :
    (cluster.node server).raft.conflictTarget xTerm target ((cluster.node server).raft.log.length - 1) ≤ bound ↔
      (∀ entry ∈ (cluster.node server).raft.log.tail, (entry.term : Int) = xTerm → (entry.index : Int) < bound) ∧
      ((∀ entry ∈ (cluster.node server).raft.log.tail, (entry.term : Int) ≠ xTerm) → target ≤ bound) := by
  rw [Raft.conflictTarget_le_iff, ← List.length_tail, List.take_length]
  intro position entry located
  rw [List.getElem?_tail, (simulates.node server).log.compacted.log_getElem?] at located
  rw [simulates.entry_index located, Nat.add_assoc]

omit [Inhabited Command] in
theorem Cluster.setsBack_deliver {id : Nat} {call : Call n Command} {args : AppendEntriesArgs n Command}
    {reply : AppendEntriesReply} (located : cluster.calls[id]? = some call) (caller : call.caller = server)
    (request : call.request = .appendEntries args) (replied : call.reply = some (.appendEntries reply)) :
    cluster.setsBack server (.deliver id) = true ↔ (cluster.node server).raft.SetsBack call.callee args reply := by
  simp [Cluster.setsBack, located, request, replied, caller]

theorem Simulates.indices_advance (simulates : Simulates cluster state) (kept : Bookkept cluster)
    (step : cluster.step action = some next) {term : Nat} (leads : cluster.Leads server term)
    (leadsNext : next.Leads server term) (peer : Fin n)
    (ahead : (cluster.node server).raft.matchIndex peer < (cluster.node server).raft.nextIndex peer)
    (forward : cluster.setsBack server action = false) :
    (cluster.node server).raft.matchIndex peer ≤ (next.node server).raft.matchIndex peer ∧
      (next.node server).raft.matchIndex peer < (next.node server).raft.nextIndex peer := by
  have source := simulates.section_indices (Cluster.step_section step server) peer leads.state leadsNext.state
  generalize (next.node server).raft.matchIndex peer = raised at source ⊢
  generalize (next.node server).raft.nextIndex peer = tried at source ⊢
  cases source with
  | unchanged => exact ⟨le_rfl, ahead⟩
  | own => exact ⟨(kept.indices server leads.state peer).1, by omega⟩
  | acknowledged id call args reply located caller callee request replied current covered success =>
    refine ⟨?_, by omega⟩
    by_contra lower
    have back := (Cluster.setsBack_deliver located caller request replied).mpr
      ⟨leads.state, current, covered, .inl ⟨success, by
        rw [callee, ← simulates.reach_lt_iff kept (List.mem_of_getElem? located) request
          (caller ▸ ⟨leads.state, current⟩)]
        omega⟩⟩
    cases forward.symm.trans back
  | refused id call args reply located caller callee request replied current covered failure inconsistent =>
    refine ⟨le_rfl, ?_⟩
    by_contra lower
    unfold retryIndex at lower
    split at lower
    · -- without a term the next index is bounded from below
      split at lower <;> omega
    rename_i named
    have back := (Cluster.setsBack_deliver located caller request replied).mpr
      ⟨leads.state, current, covered, .inr ⟨failure, inconsistent, named, by
        rw [callee, ← simulates.conflictTarget_le_iff]; omega⟩⟩
    cases forward.symm.trans back
  | snapshot id call args reply located caller callee request replied leads current lower =>
    exact ⟨lower, by omega⟩

theorem Simulates.handled_setsBack (simulates : Simulates cluster state) (kept : Bookkept cluster)
    {call : Call n Command} (member : call ∈ cluster.calls) {args : AppendEntriesArgs n Command}
    (request : call.request = .appendEntries args) {reply : AppendEntriesReply}
    (back : (cluster.node call.caller).raft.SetsBack call.callee args reply) :
    let rf := (cluster.node call.caller).raft
    let after := rf.handleAppendEntriesReply call.callee args reply
    after.state = .leader ∧ after.currentTerm = rf.currentTerm ∧
      (after.matchIndex call.callee < rf.matchIndex call.callee ∨
        after.nextIndex call.callee ≤ after.matchIndex call.callee) := by
  intro rf after
  obtain ⟨isLeader, current, covered, moved⟩ := back
  rw [← simulates.reach_lt_iff kept member request ⟨isLeader, current⟩, ← simulates.conflictTarget_le_iff] at moved
  unfold after rf handleAppendEntriesReply
  rw [if_neg (Nat.not_lt.mpr covered), if_neg (by simp [isLeader, current])]
  rcases moved with ⟨success, lower⟩ | ⟨failure, inconsistent, named, behind⟩
  · simp only [success, if_true]
    exact ⟨isLeader, trivial, .inl (by simpa using lower)⟩
  · simp only [failure, inconsistent, Bool.false_eq_true, if_false, if_true, handleLogInconsistency_eq]
    exact ⟨isLeader, trivial, .inr (by simpa [retryIndex, named] using behind)⟩

theorem Simulates.step_setsBack (simulates : Simulates cluster state) (kept : Bookkept cluster)
    (step : cluster.step action = some next) (back : cluster.setsBack server action = true) :
    next.Leads server (cluster.node server).raft.currentTerm ∧
      ∃ peer, (next.node server).raft.matchIndex peer < (cluster.node server).raft.matchIndex peer ∨
        (next.node server).raft.nextIndex peer ≤ (next.node server).raft.matchIndex peer := by
  unfold Cluster.setsBack at back
  split at back
  case h_2 => cases back
  split at back
  · cases back
  rename_i call located
  split at back
  case h_2 => cases back
  rename_i args reply request replied
  obtain ⟨rfl, moved⟩ := of_decide_eq_true back
  simp only [Cluster.step, Cluster.deliver, located, request, replied] at step
  split at step
  · cases step
  cases step
  obtain ⟨isLeader, sameTerm, worse⟩ := simulates.handled_setsBack kept (List.mem_of_getElem? located) request moved
  simp only [Cluster.setRaft, Cluster.setNode, Function.update_self]
  exact ⟨⟨by simpa using isLeader, by simpa using sameTerm⟩, call.callee, worse⟩

/-! ## Runs -/

/-- The run comes by the state, with the rest of its actions before it. -/
def Cluster.Passes (cluster : Cluster n Command) (actions : List (Action n Command)) (moment : Cluster n Command)
    (rest : List (Action n Command)) : Prop :=
  ∃ taken, actions = taken ++ rest ∧ cluster.run taken = some moment

theorem Cluster.Passes.snoc {actions rest : List (Action n Command)} {moment : Cluster n Command}
    (passes : cluster.Passes actions moment (action :: rest)) (step : moment.step action = some next) :
    cluster.Passes actions next rest := by
  obtain ⟨taken, rfl, ran⟩ := passes
  refine ⟨taken ++ [action], by simp, ?_⟩
  rw [Cluster.run_append, ran]
  simp [Cluster.run, step]

theorem Cluster.Passes.exists_step {actions rest : List (Action n Command)} {moment final : Cluster n Command}
    (passes : cluster.Passes actions moment (action :: rest)) (run : cluster.run actions = some final) :
    ∃ next, moment.step action = some next := by
  obtain ⟨taken, rfl, ran⟩ := passes
  rw [Cluster.run_append, ran, Option.bind_some, Cluster.run, Option.bind_eq_some_iff] at run
  exact ⟨_, run.choose_spec.1⟩

/-- A condition that an observer has seen met at every step of a run is met at each of them. -/
theorem Cluster.Passes.met {met : Cluster n Command → Action n Command → Bool} {actions rest : List (Action n Command)}
    (always : cluster.always met actions = true) {moment : Cluster n Command}
    (passes : cluster.Passes actions moment (action :: rest)) (step : moment.step action = some next) :
    met moment action = true := by
  obtain ⟨taken, rfl, ran⟩ := passes
  induction taken generalizing cluster with
  | nil =>
    cases ran
    rw [List.nil_append, Cluster.always_cons step, Bool.and_eq_true] at always
    exact always.1
  | cons first taken inductionHypothesis =>
    rw [Cluster.run, Option.bind_eq_some_iff] at ran
    obtain ⟨second, stepped, later⟩ := ran
    rw [List.cons_append, Cluster.always_cons stepped, Bool.and_eq_true] at always
    exact inductionHypothesis later always.2

theorem Simulates.run_led (simulates : Simulates cluster state) {term : Nat} (leads : cluster.Leads server term)
    (steps : Cluster.Steps cluster next) :
    ∃ after log, Simulates next after ∧ after.leader term = some (server, log) := by
  obtain ⟨after, moves, nextSimulates⟩ := simulates.run steps
  obtain ⟨-, extended⟩ := Replication.run_invariant simulates.invariant moves
  have led := (simulates.node server).role.leads leads.state
  rw [leads.currentTerm] at led
  obtain ⟨log, stillLed, -⟩ := extended.leader _ _ _ led
  exact ⟨after, log, nextSimulates, stillLed⟩

/-- Both indices are as they should be in every state of the run in which the server leads the term. -/
theorem Cluster.matchIndex_lt_nextIndex {actions : List (Action n Command)} {term : Nat}
    (forward : ∀ moment action rest, Cluster.initial.Passes actions moment (action :: rest) →
      moment.Leads server term → moment.setsBack server action = false)
    {moment : Cluster n Command} {rest : List (Action n Command)} (passes : Cluster.initial.Passes actions moment rest)
    (leads : moment.Leads server term) (peer : Fin n) :
    (moment.node server).raft.matchIndex peer < (moment.node server).raft.nextIndex peer := by
  obtain ⟨taken, whole, ran⟩ := passes
  suffices ahead : ∀ rest, actions = taken ++ rest → moment.Leads server term →
      (moment.node server).raft.matchIndex peer < (moment.node server).raft.nextIndex peer from ahead rest whole leads
  refine Cluster.run_induction ran ?_ ?_
  · intro rest _ leads
    cases leads.state
  · intro taken middle next action reached inductionHypothesis step rest whole leads
    obtain ⟨state, -, simulates⟩ := reachable_simulates ⟨taken, reached⟩
    rcases simulates.leader_step step leads.state with ⟨elected, startsAtEnd⟩ | ⟨wasLeader, sameTerm, -⟩
    · rw [elected.matchIndex, startsAtEnd]
      dsimp only
      omega
    · have leadsBefore : middle.Leads server term := ⟨wasLeader, sameTerm.symm.trans leads.currentTerm⟩
      rw [List.append_assoc, List.singleton_append] at whole
      exact (simulates.indices_advance (Cluster.Reachable.bookkept ⟨taken, reached⟩) step leadsBefore leads peer
        (inductionHypothesis _ whole leadsBefore)
        (forward middle action rest ⟨taken, whole, reached⟩ leadsBefore)).2

theorem Cluster.matchIndex_mono {actions : List (Action n Command)} {term : Nat}
    (forward : ∀ moment action rest, Cluster.initial.Passes actions moment (action :: rest) →
      moment.Leads server term → moment.setsBack server action = false)
    {earlier later : Cluster n Command} {rest ending : List (Action n Command)}
    (passes : Cluster.initial.Passes actions earlier rest) (leads : earlier.Leads server term)
    (continues : earlier.Passes rest later ending) (stillLeads : later.Leads server term) (peer : Fin n) :
    (earlier.node server).raft.matchIndex peer ≤ (later.node server).raft.matchIndex peer := by
  obtain ⟨first, rfl, reached⟩ := passes
  obtain ⟨state, -, simulates⟩ := reachable_simulates ⟨first, reached⟩
  obtain ⟨taken, whole, ran⟩ := continues
  suffices lower : ∀ ending, rest = taken ++ ending → later.Leads server term →
      (earlier.node server).raft.matchIndex peer ≤ (later.node server).raft.matchIndex peer from
    lower ending whole stillLeads
  refine Cluster.run_induction ran ?_ ?_
  · exact fun _ _ _ => le_rfl
  · intro taken middle next action between inductionHypothesis step ending whole nextLeads
    obtain ⟨after, log, middleSimulates, led⟩ := simulates.run_led leads ⟨taken, between⟩
    obtain ⟨middleLeads, -⟩ := middleSimulates.leads_before step led nextLeads
    rw [List.append_assoc, List.singleton_append] at whole
    have ran : Cluster.initial.run (first ++ taken) = some middle := by
      rw [Cluster.run_append, reached, Option.bind_some, between]
    have passesMiddle : Cluster.initial.Passes (first ++ rest) middle (action :: ending) :=
      ⟨first ++ taken, by rw [whole, List.append_assoc], ran⟩
    have reachable : Cluster.Reachable middle := ⟨_, ran⟩
    exact (inductionHypothesis _ whole middleLeads).trans
      (middleSimulates.indices_advance reachable.bookkept step middleLeads nextLeads peer
        (Cluster.matchIndex_lt_nextIndex forward passesMiddle middleLeads peer)
        (forward middle action ending passesMiddle middleLeads)).1

/-- While a server leads a term its indices are in order and `matchIndex` does not decrease, exactly if no
reply that it processes in the term sets a peer back.  That `nextIndex` is at most one past the log is true in
any case. -/
theorem leader_indices_iff {actions : List (Action n Command)} {cluster : Cluster n Command}
    (run : Cluster.initial.run actions = some cluster) (server : Fin n) (term : Nat) :
    (∀ moment rest, Cluster.initial.Passes actions moment rest → moment.Leads server term →
      ∀ peer, (moment.node server).raft.nextIndex peer ≤ (moment.node server).raft.getLastLogIndex + 1) ∧
    ((∀ earlier rest, Cluster.initial.Passes actions earlier rest → earlier.Leads server term → ∀ peer,
        (earlier.node server).raft.matchIndex peer < (earlier.node server).raft.nextIndex peer ∧
        ∀ later ending, earlier.Passes rest later ending → later.Leads server term →
          (earlier.node server).raft.matchIndex peer ≤ (later.node server).raft.matchIndex peer) ↔
      ∀ moment action rest, Cluster.initial.Passes actions moment (action :: rest) → moment.Leads server term →
        moment.setsBack server action = false) := by
  refine ⟨?_, ?_, ?_⟩
  · rintro moment rest ⟨taken, -, ran⟩ leads peer
    have reachable : Cluster.Reachable moment := ⟨taken, ran⟩
    obtain ⟨state, -, simulates⟩ := reachable_simulates reachable
    rw [(simulates.node server).log.compacted.getLastLogIndex_eq]
    exact (reachable.bookkept.indices server leads.state peer).2
  · intro ordered moment action rest passes leads
    rw [← Bool.not_eq_true]
    intro back
    obtain ⟨next, step⟩ := passes.exists_step run
    have reachable : Cluster.Reachable moment := ⟨_, passes.choose_spec.2⟩
    obtain ⟨state, -, simulates⟩ := reachable_simulates reachable
    obtain ⟨nextLeads, peer, lower | behind⟩ := simulates.step_setsBack reachable.bookkept step back
    · rw [leads.currentTerm] at nextLeads
      have kept := (ordered moment _ passes leads peer).2 next rest
        (Cluster.Passes.snoc ⟨[], rfl, rfl⟩ step) nextLeads
      omega
    · rw [leads.currentTerm] at nextLeads
      have ahead := (ordered next rest (passes.snoc step) nextLeads peer).1
      omega
  · intro forward earlier rest passes leads peer
    exact ⟨Cluster.matchIndex_lt_nextIndex forward passes leads peer,
      fun later ending continues stillLeads =>
        Cluster.matchIndex_mono forward passes leads continues stillLeads peer⟩

/-- Server 0 sends server 1 a heartbeat and then an entry. -/
def outstanding : List (Action 2 Nat) :=
  [.electionTimeout 0, .handle 0, .deliver 0, .replicate 0 1, .start 0 7, .replicate 0 1, .handle 1, .handle 2]

/-- The replies arrive in the order of the requests. -/
theorem leader_indices_iff_outstanding :
    let cluster : Cluster 2 Nat := Cluster.initial.after (outstanding ++ [.deliver 1, .deliver 2])
    cluster.Leads 0 1 ∧ (cluster.node 0).raft.matchIndex 1 = 1 ∧
      (cluster.node 0).raft.matchIndex 1 < (cluster.node 0).raft.nextIndex 1 ∧
      (cluster.node 0).raft.nextIndex 1 ≤ (cluster.node 0).raft.getLastLogIndex + 1 := by
  intro cluster
  have run : Cluster.initial.run (outstanding ++ [.deliver 1, .deliver 2]) = some cluster :=
    Cluster.run_eq_some_after (by decide +kernel)
  have forward : Cluster.initial.always (fun cluster action => !cluster.setsBack 0 action)
      (outstanding ++ [.deliver 1, .deliver 2]) = true := by decide +kernel
  have leads : cluster.Leads 0 1 := by decide +kernel
  have ends : Cluster.initial.Passes (outstanding ++ [.deliver 1, .deliver 2]) cluster [] := ⟨_, by simp, run⟩
  obtain ⟨bounded, ordered⟩ := leader_indices_iff run 0 1
  refine ⟨leads, by decide +kernel, (ordered.mpr ?_ cluster [] ends leads 1).1, bounded cluster [] ends leads 1⟩
  intro moment action rest passes _
  obtain ⟨next, step⟩ := passes.exists_step run
  simpa using passes.met forward step

/-- Server 2 has an entry of term 1.  Server 0, which leads term 3 with an entry of term 2, has both of its
requests to server 2 refused, goes back to the beginning of its log for the first of them, commits and
takes a snapshot. -/
def twiceRefused : List (Action 3 Nat) := [
  .electionTimeout 2, .handle 0, .deliver 0, .start 2 5,
  .electionTimeout 0, .handle 2, .deliver 2, .start 0 6, .restart 0,
  .electionTimeout 0, .handle 4, .deliver 4, .replicate 0 2, .replicate 0 2, .handle 6, .handle 7, .deliver 6,
  .start 0 7, .replicate 0 2, .handle 8, .deliver 8, .takeBatch 0, .sendCommand 0, .snapshot 0 1]

/-- The reply to the heartbeat arrives after the reply to the entry.  The second refusal arrives after the entries were
acknowledged, and then snapshots are all that server 2 is sent, and none of them moves its indices. -/
theorem leader_indices_set_back :
    (let earlier : Cluster 2 Nat := Cluster.initial.after (outstanding ++ [.deliver 2])
     let later := earlier.after [.deliver 1]
     (Cluster.initial.run (outstanding ++ [.deliver 2, .deliver 1])).isSome = true ∧
     earlier.Leads 0 1 ∧ later.Leads 0 1 ∧
     (earlier.node 0).raft.matchIndex 1 = 1 ∧ (later.node 0).raft.matchIndex 1 = 0) ∧
    let earlier : Cluster 3 Nat := Cluster.initial.after twiceRefused
    let later := earlier.after [.deliver 7]
    let stalled := later.after [.replicate 0 2, .handle 9, .deliver 9]
    (Cluster.initial.run (twiceRefused ++ [.deliver 7, .replicate 0 2, .handle 9, .deliver 9])).isSome = true ∧
    earlier.Leads 0 3 ∧ (earlier.node 0).raft.matchIndex 2 = 2 ∧ (earlier.node 0).raft.nextIndex 2 = 3 ∧
    later.Leads 0 3 ∧ (later.node 0).raft.matchIndex 2 = 2 ∧ (later.node 0).raft.nextIndex 2 = 1 ∧
    stalled.Leads 0 3 ∧ (stalled.node 0).raft.matchIndex 2 = 2 ∧ (stalled.node 0).raft.nextIndex 2 = 1 := by
  constructor
  · decide +kernel
  · decide +kernel

end ShardedKV.Raft
