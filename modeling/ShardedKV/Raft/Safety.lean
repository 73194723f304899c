import ShardedKV.Raft.Applying

/-!
# Safety of the Raft servers

What holds of every run of a cluster, of any size, whatever is lost, delayed or restarted.
-/

namespace ShardedKV.Raft

open Replication (State Committed)

variable {n : Nat} {Command : Type}

/-! ## Which run a cluster comes from -/

section Runs

variable [Inhabited Command]

theorem Cluster.run_append (cluster : Cluster n Command) (actions more : List (Action n Command)) :
    cluster.run (actions ++ more) = (cluster.run actions).bind fun middle => middle.run more := by
  induction actions generalizing cluster with
  | nil => rfl
  | cons action actions inductionHypothesis =>
    simp only [List.cons_append, Cluster.run]
    cases cluster.step action with
    | none => rfl
    | some middle => exact inductionHypothesis middle

theorem Cluster.Steps.trans {first second third : Cluster n Command} (firstSteps : Steps first second)
    (secondSteps : Steps second third) : Steps first third := by
  obtain ⟨firstActions, firstRun⟩ := firstSteps
  obtain ⟨secondActions, secondRun⟩ := secondSteps
  refine ⟨firstActions ++ secondActions, ?_⟩
  rw [run_append, firstRun, Option.bind_some, secondRun]

/-- Where a run ends; actions that cannot all be taken are not taken. -/
def Cluster.after (cluster : Cluster n Command) (actions : List (Action n Command)) : Cluster n Command :=
  (cluster.run actions).getD cluster

theorem Cluster.steps_after (cluster : Cluster n Command) (actions : List (Action n Command)) :
    Steps cluster (cluster.after actions) := by
  unfold after
  cases ending : cluster.run actions with
  | none => exact ⟨[], rfl⟩
  | some final => exact ⟨actions, ending⟩

/-- Only the service's own `Snapshot` calls are recorded as taken. -/
theorem Cluster.step_taken {cluster next : Cluster n Command} {action : Action n Command}
    (step : cluster.step action = some next) : next.taken = cluster.taken ∨
      ∃ server index, action = .snapshot server index ∧ index ≤ (cluster.node server).service.applied.length ∧
        next.taken = cluster.taken ++
          [(server, index, (cluster.node server).service.applied.take index)] := by
  cases action with
  | snapshot server index =>
    simp only [Cluster.step, Cluster.snapshot] at step
    split at step
    · rename_i applied
      rw [Option.some.injEq] at step
      subst step
      exact .inr ⟨server, index, rfl, applied, rfl⟩
    · cases step
  | _ =>
    left
    simp only [Cluster.step, Cluster.electionTimeout, Cluster.replicate, Cluster.handle, Cluster.deliver,
      Cluster.fail, Cluster.start, Cluster.takeBatch, Cluster.sendCommand, Cluster.finishBatch,
      Cluster.sendSnapshot, Cluster.install, Cluster.restart] at step
    repeat' split at step
    all_goals cases step <;> rfl

/-- A snapshot recorded in a run is what its taker had applied when it called `Snapshot`. -/
theorem Cluster.run_taken {before after : Cluster n Command} (steps : Steps before after) {taker : Fin n}
    {index : Nat} {data : List Command} (taken : (taker, index, data) ∈ after.taken) :
    (taker, index, data) ∈ before.taken ∨ ∃ between next, Steps before between ∧
      between.step (.snapshot taker index) = some next ∧ Steps next after ∧
      index ≤ (between.node taker).service.applied.length ∧
      data = (between.node taker).service.applied.take index := by
  obtain ⟨actions, run⟩ := steps
  induction actions generalizing before with
  | nil =>
    rw [Cluster.run, Option.some.injEq] at run
    subst run
    exact .inl taken
  | cons action actions inductionHypothesis =>
    obtain ⟨middle, step, rest⟩ := Option.bind_eq_some_iff.mp run
    have firstStep : Steps before middle := ⟨[action], by rw [Cluster.run, step]; rfl⟩
    rcases inductionHypothesis rest with early | ⟨between, next, reaches, takes, continues, applied, isData⟩
    · rcases Cluster.step_taken step with same | ⟨server, position, rfl, applied, grown⟩
      · exact .inl (same ▸ early)
      · rw [grown, List.mem_append, List.mem_singleton, Prod.mk.injEq, Prod.mk.injEq] at early
        rcases early with old | ⟨rfl, rfl, rfl⟩
        · exact .inl old
        · exact .inr ⟨before, middle, ⟨[], rfl⟩, step, ⟨actions, rest⟩, applied, rfl⟩
    · exact .inr ⟨between, next, firstStep.trans reaches, takes, continues, applied, isData⟩

end Runs

variable [Inhabited Command]

/-! ## Elections -/

theorem election_safety {earlier later : Cluster n Command} (reachable : Cluster.Reachable earlier)
    (steps : Cluster.Steps earlier later) {first second : Fin n}
    (firstLeads : (earlier.node first).raft.state = .leader)
    (secondLeads : (later.node second).raft.state = .leader)
    (sameTerm : (earlier.node first).raft.currentTerm = (later.node second).raft.currentTerm) :
    first = second := by
  obtain ⟨before, -, simulates⟩ := reachable_simulates reachable
  obtain ⟨after, run, laterSimulates⟩ := simulates.run steps
  obtain ⟨-, extended⟩ := Replication.run_invariant simulates.invariant run
  obtain ⟨longer, stillLeads, -⟩ := extended.leader _ _ _ ((simulates.node first).role.leads firstLeads)
  have leads := (laterSimulates.node second).role.leads secondLeads
  rw [sameTerm, leads] at stillLeads
  simp only [Option.some.injEq, Prod.mk.injEq] at stillLeads
  exact stillLeads.1.symm

/-- Server 0 becomes the leader of term 1. -/
def elected : Cluster 2 Nat := Cluster.initial.after [.electionTimeout 0, .handle 0, .deliver 0]

theorem reachable_elected : Cluster.Reachable elected := Cluster.steps_after Cluster.initial _

theorem election_safety_elected : (elected.node 0).raft.state = .leader ∧
    ∀ later server, Cluster.Steps elected later → (later.node server).raft.state = .leader →
      (later.node server).raft.currentTerm = 1 → 0 = server := by
  have leads : (elected.node 0).raft.state = .leader := by decide
  have term : (elected.node 0).raft.currentTerm = 1 := by decide
  exact ⟨leads, fun later server steps laterLeads laterTerm => election_safety
    reachable_elected steps leads laterLeads (term.trans laterTerm.symm)⟩

/-! ## Committed entries -/

/-- What any server knows to be committed in a term, the leaders of all later terms hold. -/
theorem leader_completeness {earlier later : Cluster n Command} (reachable : Cluster.Reachable earlier)
    (steps : Cluster.Steps earlier later) {server successor : Fin n} {index : Nat}
    (committed : index ≤ (earlier.node server).raft.commitIndex)
    (succeeds : (later.node successor).raft.state = .leader)
    (laterTerm : (earlier.node server).raft.currentTerm < (later.node successor).raft.currentTerm) :
    index ≤ (later.node successor).raft.fullLog.length ∧
      (later.node successor).raft.fullLog.take index = (earlier.node server).raft.fullLog.take index := by
  obtain ⟨before, -, simulates⟩ := reachable_simulates reachable
  obtain ⟨after, run, laterSimulates⟩ := simulates.run steps
  obtain ⟨invariant, extended⟩ := Replication.run_invariant simulates.invariant run
  have node := simulates.node server
  have held : (earlier.node server).raft.fullLog.take (earlier.node server).raft.commitIndex <+:
      (later.node successor).raft.fullLog :=
    (node.log.committed.mono extended laterTerm.le).in_leader invariant le_rfl
      ((laterSimulates.node successor).role.leads succeeds)
  have length := held.length_le
  rw [List.length_take, Nat.min_eq_left node.log.commitIndex] at length
  refine ⟨committed.trans length, ?_⟩
  obtain ⟨rest, whole⟩ := held
  rw [← whole, List.take_append_of_le_length, List.take_take, Nat.min_eq_left committed]
  rw [List.length_take, Nat.min_eq_left node.log.commitIndex]
  exact committed

/-- The leader of term 1 has counted a majority for its first entry. -/
def replicated : Cluster 2 Nat := elected.after [.start 0 7, .replicate 0 1, .handle 1, .deliver 1]

theorem reachable_replicated : Cluster.Reachable replicated :=
  reachable_elected.trans (Cluster.steps_after elected _)

/-- Server 1 then becomes the leader of term 2. -/
def succeeded : Cluster 2 Nat := replicated.after [.electionTimeout 1, .handle 2, .deliver 2]

theorem leader_completeness_succeeded : (replicated.node 0).raft.state = .leader ∧
    (replicated.node 0).raft.commitIndex = 1 ∧ (succeeded.node 1).raft.state = .leader ∧
    (succeeded.node 1).raft.fullLog.take 1 = (replicated.node 0).raft.fullLog.take 1 := by
  have committed : (replicated.node 0).raft.commitIndex = 1 := by decide
  have succeeds : (succeeded.node 1).raft.state = .leader := by decide
  refine ⟨by decide, committed, succeeds, ?_⟩
  have steps : Cluster.Steps replicated succeeded := Cluster.steps_after replicated _
  exact (leader_completeness reachable_replicated steps committed.ge succeeds (by decide)).2

/-! ## Logs -/

section Matching

variable {cluster : Cluster n Command} {state : State (Fin n) (LogEntry Command)}

/-- An entry of a server's full log is the one its term's leader started, and the only one. -/
theorem Simulates.started_unique (simulates : Simulates cluster state) {server : Fin n} {position : Nat}
    {entry : LogEntry Command} (located : (cluster.node server).raft.fullLog[position]? = some entry) :
    ∃ call : Nat, cluster.started[call]? = some (position + 1, entry.term, entry.command) ∧
      ∀ (other : Nat) (command : Command),
        cluster.started[other]? = some (position + 1, entry.term, command) → other = call := by
  have covered := simulates.invariant.log_covered server
  rw [(simulates.node server).log.log] at covered
  obtain ⟨creator, creatorLog, created, inCreator⟩ := covered.created located
  have member := simulates.recorded.contains _ _ _ created position entry inCreator rfl
  obtain ⟨call, isCall⟩ := List.getElem?_of_mem member
  refine ⟨call, isCall, ?_⟩
  intro other command isOther
  have distinct := List.nodup_iff_getElem?_ne_getElem?.mp simulates.recorded.unique
  have sameKey : (cluster.started.map (fun record => (record.1, record.2.1)))[call]? =
      (cluster.started.map (fun record => (record.1, record.2.1)))[other]? := by
    rw [List.getElem?_map, List.getElem?_map, isCall, isOther]
    rfl
  have callBound := (List.getElem?_eq_some_iff.mp isCall).1
  have otherBound := (List.getElem?_eq_some_iff.mp isOther).1
  rcases Nat.lt_trichotomy call other with before | same | behind
  · exact absurd sameKey (distinct call other before (by simpa using otherBound))
  · exact same.symm
  · exact absurd sameKey.symm (distinct other call behind (by simpa using callBound))

/-- Two servers whose logs show the same term at an index have the same log up to it. -/
theorem Simulates.same_log (simulates : Simulates cluster state) {first second : Fin n} {index term : Nat}
    (inFirst : (cluster.node first).raft.retainedTerm index = some term)
    (inSecond : (cluster.node second).raft.retainedTerm index = some term) :
    index ≤ (cluster.node first).raft.fullLog.length ∧ index ≤ (cluster.node second).raft.fullLog.length ∧
      (cluster.node first).raft.fullLog.take index = (cluster.node second).raft.fullLog.take index := by
  have firstLog := (simulates.node first).log
  have secondLog := (simulates.node second).log
  obtain ⟨-, firstBound, firstTerm⟩ := firstLog.compacted.retainedTerm_eq_some.mp inFirst
  obtain ⟨-, secondBound, secondTerm⟩ := secondLog.compacted.retainedTerm_eq_some.mp inSecond
  exact ⟨firstBound, secondBound, take_eq_of_termAt (firstLog.log ▸ simulates.invariant.log_covered first)
    (secondLog.log ▸ simulates.invariant.log_covered second) firstBound secondBound
    (firstTerm.trans secondTerm.symm)⟩

end Matching

/-- Log matching, the identity of `Start`, and the order of terms, for the logs as the servers
retain them and for the entries behind their snapshots. -/
theorem log_matching {cluster : Cluster n Command} (reachable : Cluster.Reachable cluster) :
    (∀ first second index term, 0 < index →
      (cluster.node first).raft.retainedTerm index = some term →
      (cluster.node second).raft.retainedTerm index = some term →
      (∃ entry : LogEntry Command, entry.term = term ∧
        (cluster.node first).raft.fullLog[index - 1]? = some entry ∧
        (cluster.node second).raft.fullLog[index - 1]? = some entry ∧
        (∀ retained, (cluster.node first).raft.retainedEntry index = some retained → retained = entry) ∧
        (∀ retained, (cluster.node second).raft.retainedEntry index = some retained → retained = entry) ∧
        ∃ call : Nat, cluster.started[call]? = some (index, term, entry.command) ∧
          ∀ (other : Nat) (command : Command),
            cluster.started[other]? = some (index, term, command) → other = call) ∧
      ∀ lower, lower ≤ index →
        (∀ firstTerm secondTerm, (cluster.node first).raft.retainedTerm lower = some firstTerm →
          (cluster.node second).raft.retainedTerm lower = some secondTerm → firstTerm = secondTerm) ∧
        (∀ firstEntry secondEntry, (cluster.node first).raft.retainedEntry lower = some firstEntry →
          (cluster.node second).raft.retainedEntry lower = some secondEntry → firstEntry = secondEntry)) ∧
    (∀ server lower upper lowerTerm upperTerm, lower ≤ upper →
      (cluster.node server).raft.retainedTerm lower = some lowerTerm →
      (cluster.node server).raft.retainedTerm upper = some upperTerm → lowerTerm ≤ upperTerm) := by
  obtain ⟨state, -, simulates⟩ := reachable_simulates reachable
  refine ⟨?_, ?_⟩
  · intro first second index term positive inFirst inSecond
    have firstCompacted := (simulates.node first).log.compacted
    have secondCompacted := (simulates.node second).log.compacted
    obtain ⟨firstBound, secondBound, same⟩ := simulates.same_log inFirst inSecond
    have sameAt : ∀ position, position < index → (cluster.node first).raft.fullLog[position]? =
        (cluster.node second).raft.fullLog[position]? := by
      intro position below
      have at_position := congrArg (fun log => log[position]?) same
      simpa only [List.getElem?_take_of_lt below] using at_position
    obtain ⟨index, rfl⟩ : ∃ position, index = position + 1 := ⟨index - 1, by omega⟩
    rw [Nat.add_sub_cancel]
    have located := List.getElem?_eq_getElem (show index < (cluster.node first).raft.fullLog.length by omega)
    obtain ⟨-, -, isTerm⟩ := firstCompacted.retainedTerm_eq_some.mp inFirst
    rw [termAt_eq_of_getElem? located] at isTerm
    subst isTerm
    refine ⟨⟨_, rfl, located, (sameAt index (by omega)) ▸ located, ?_, ?_,
      simulates.started_unique located⟩, ?_⟩
    · intro retained isRetained
      obtain ⟨-, retainedAt⟩ := firstCompacted.retainedEntry_eq_some.mp isRetained
      exact Option.some.inj (retainedAt.symm.trans located)
    · intro retained isRetained
      obtain ⟨-, retainedAt⟩ := secondCompacted.retainedEntry_eq_some.mp isRetained
      exact Option.some.inj (retainedAt.symm.trans ((sameAt index (by omega)) ▸ located))
    · intro lower below
      refine ⟨?_, ?_⟩
      · intro firstTerm secondTerm firstShows secondShows
        obtain ⟨-, -, rfl⟩ := firstCompacted.retainedTerm_eq_some.mp firstShows
        obtain ⟨-, -, rfl⟩ := secondCompacted.retainedTerm_eq_some.mp secondShows
        have shorter := congrArg (List.take lower) same
        rw [List.take_take, List.take_take, Nat.min_eq_left below] at shorter
        rw [termAt, termAt, shorter]
      · intro firstEntry secondEntry firstShows secondShows
        obtain ⟨firstAfter, firstAt⟩ := firstCompacted.retainedEntry_eq_some.mp firstShows
        obtain ⟨-, secondAt⟩ := secondCompacted.retainedEntry_eq_some.mp secondShows
        exact Option.some.inj (firstAt.symm.trans ((sameAt (lower - 1) (by omega)).trans secondAt))
  · intro server lower upper lowerTerm upperTerm ordered lowerShows upperShows
    have log := (simulates.node server).log
    obtain ⟨-, -, rfl⟩ := log.compacted.retainedTerm_eq_some.mp lowerShows
    obtain ⟨-, upperBound, rfl⟩ := log.compacted.retainedTerm_eq_some.mp upperShows
    exact log.termAt_sorted simulates.invariant lower upper ordered upperBound

/-- Both servers show the same term at index 1, and the one `Start` call is the first. -/
theorem log_matching_replicated : (replicated.node 0).raft.retainedTerm 1 = some 1 ∧
    (replicated.node 1).raft.retainedTerm 1 = some 1 ∧
    ∃ entry : LogEntry Nat, entry.term = 1 ∧ (replicated.node 0).raft.fullLog[0]? = some entry ∧
      (replicated.node 1).raft.fullLog[0]? = some entry := by
  have first : (replicated.node 0).raft.retainedTerm 1 = some 1 := by decide
  have second : (replicated.node 1).raft.retainedTerm 1 = some 1 := by decide
  obtain ⟨⟨entry, term, inFirst, inSecond, -⟩, -⟩ :=
    (log_matching reachable_replicated).1 0 1 1 1 (by decide) first second
  exact ⟨first, second, entry, term, inFirst, inSecond⟩

/-! ## Applied commands -/

section Applied

variable {cluster : Cluster n Command} {state : State (Fin n) (LogEntry Command)}

/-- Whatever is sent at an index is the command of one entry that every committed sequence long
enough has there. -/
theorem Simulates.sent_command (simulates : Simulates cluster state) {server : Fin n} {command : Command}
    {index term : Nat} {entries : List (LogEntry Command)}
    (sent : (server, .command command index) ∈ cluster.sent)
    (committed : Committed (scheme n Command) state term entries) (long : index ≤ entries.length) :
    0 < index ∧ (entries.map LogEntry.command)[index - 1]? = some command := by
  obtain ⟨otherTerm, others, entry, otherCommitted, positive, located, isCommand⟩ :=
    simulates.sent _ sent
  refine ⟨positive, ?_⟩
  have inOthers := (List.getElem?_eq_some_iff.mp located).1
  have same : entries[index - 1]? = some entry := by
    rcases committed.comparable simulates.invariant otherCommitted with ⟨rest, rfl⟩ | ⟨rest, rfl⟩
    · rwa [List.getElem?_append_left (by omega)] at located
    · rw [List.getElem?_append_left inOthers]
      exact located
  rw [List.getElem?_map, same, ← isCommand]
  rfl

end Applied

/-- State machine safety: all command messages with one index carry one command.  A snapshot
sent for an index was taken, earlier in the run, by the `Snapshot` call of a service that had applied
exactly the commands in it up to that index, and these are the commands that any server sends up to
there. -/
theorem state_machine_safety {cluster : Cluster n Command} (reachable : Cluster.Reachable cluster) :
    (∀ first second firstCommand secondCommand index,
      (first, .command firstCommand index) ∈ cluster.sent →
      (second, .command secondCommand index) ∈ cluster.sent → firstCommand = secondCommand) ∧
    (∀ server snapshot snapshotTerm index,
      (server, .snapshot snapshot snapshotTerm index) ∈ cluster.sent →
      snapshot.data.length = index ∧
      (∃ taker earlier next, (taker, index, snapshot.data) ∈ cluster.taken ∧ Cluster.Reachable earlier ∧
        earlier.step (.snapshot taker index) = some next ∧ Cluster.Steps next cluster ∧
        index ≤ (earlier.node taker).service.applied.length ∧
        (earlier.node taker).service.applied.take index = snapshot.data) ∧
      ∀ sender command commandIndex, (sender, .command command commandIndex) ∈ cluster.sent →
        commandIndex ≤ index → 0 < commandIndex ∧ snapshot.data[commandIndex - 1]? = some command) := by
  obtain ⟨state, -, simulates⟩ := reachable_simulates reachable
  refine ⟨?_, ?_⟩
  · intro first second firstCommand secondCommand index firstSent secondSent
    obtain ⟨term, entries, entry, committed, positive, located, rfl⟩ := simulates.sent _ firstSent
    have bound := (List.getElem?_eq_some_iff.mp located).1
    obtain ⟨-, same⟩ := simulates.sent_command secondSent committed (by omega)
    rw [List.getElem?_map, located] at same
    exact Option.some.inj same
  · intro server snapshot snapshotTerm index sent
    obtain ⟨positive, term, snapshotted⟩ := simulates.sent _ sent
    obtain ⟨taker, taken⟩ := snapshotted.taken positive
    refine ⟨?_, ?_, ?_⟩
    · rw [snapshotted.data, List.length_map, snapshotted.length]
    · rcases Cluster.run_taken reachable taken with
        initially | ⟨earlier, next, reaches, takes, continues, applied, isData⟩
      · cases initially
      · exact ⟨taker, earlier, next, taken, reaches, takes, continues, applied, isData.symm⟩
    · intro sender command commandIndex commandSent below
      rw [snapshotted.data]
      exact simulates.sent_command commandSent snapshotted.committed (by rw [snapshotted.length]; exact below)

/-- Server 0 has applied the first command and taken a snapshot; server 2, which has not been sent the
command, receives the snapshot in its place. -/
def applied : Cluster 3 Nat := Cluster.initial.after [
  .electionTimeout 0, .handle 0, .deliver 0, .start 0 7, .replicate 0 1, .handle 2, .deliver 2, .takeBatch 0,
  .sendCommand 0, .replicate 0 1, .handle 3, .takeBatch 1, .sendCommand 1, .snapshot 0 1, .replicate 0 2, .handle 4,
  .sendSnapshot 2 0]

theorem reachable_applied : Cluster.Reachable applied := Cluster.steps_after Cluster.initial _

theorem state_machine_safety_applied : (0, .command 7 1) ∈ applied.sent ∧ (1, .command 7 1) ∈ applied.sent ∧
    (∀ server command, (server, .command command 1) ∈ applied.sent → command = 7) ∧
    (2, .snapshot ⟨[7], [⟨1, 7, 1⟩]⟩ 1 1) ∈ applied.sent ∧
    ∃ taker earlier next, (taker, 1, [7]) ∈ applied.taken ∧ Cluster.Reachable earlier ∧
      earlier.step (.snapshot taker 1) = some next ∧ Cluster.Steps next applied ∧
      (earlier.node taker).service.applied.take 1 = [7] := by
  have first : (0, .command 7 1) ∈ applied.sent := by decide +kernel
  have installed : (2, .snapshot ⟨[7], [⟨1, 7, 1⟩]⟩ 1 1) ∈ applied.sent := by decide +kernel
  obtain ⟨commands, snapshots⟩ := state_machine_safety reachable_applied
  obtain ⟨-, ⟨taker, earlier, next, taken, reached, takes, continues, -, isData⟩, -⟩ := snapshots 2 _ 1 1 installed
  exact ⟨first, by decide +kernel, fun server command sent => commands server 0 command 7 1 sent first, installed,
    taker, earlier, next, taken, reached, takes, continues, isData⟩

end ShardedKV.Raft
