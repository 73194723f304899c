import Mathlib.Order.Bounds.Defs
import ShardedKV.Raft.Transitions

/-!
# How the commit index moves

A leader takes the largest index of its own term that a majority holds.  A follower takes the
smaller of the leader's commit index and the last index it had before it stored the request's
entries, so that entries are committed with a later request than the one that brings them.
-/

namespace ShardedKV.Raft

variable {n : Nat} {Command : Type}

/-! ## Reading a log of any state -/

section Positions

variable (rf : Raft n Command)

/-- The term at a slice position; position 0 stands for the snapshot. -/
def termOf (position : Nat) : Option Nat := (rf.getLogAt position).map Prod.snd

theorem retainedTerm_add (position : Nat) : rf.retainedTerm (rf.lastIncludedIndex + position) = rf.termOf position := by
  rw [retainedTerm, if_pos (Nat.le_add_right _ _), Nat.add_sub_cancel_left]
  rfl

theorem getLogAt_of_lt {position : Nat} (inside : position < rf.log.length) :
    ∃ term, rf.getLogAt position = some (rf.lastIncludedIndex + position, term) := by
  unfold getLogAt
  rw [List.getElem?_eq_getElem inside]
  dsimp only
  split
  · rename_i zero
    exact ⟨_, by rw [zero]; rfl⟩
  · exact ⟨_, rfl⟩

theorem termOf_of_lt {position : Nat} (inside : position < rf.log.length) : ∃ term, rf.termOf position = some term := by
  obtain ⟨term, found⟩ := rf.getLogAt_of_lt inside
  exact ⟨term, by rw [termOf, found]; rfl⟩

theorem getLastLogIndex_of_pos (nonempty : 0 < rf.log.length) :
    rf.getLastLogIndex = rf.lastIncludedIndex + (rf.log.length - 1) := by
  obtain ⟨term, found⟩ := rf.getLogAt_of_lt (show rf.log.length - 1 < rf.log.length by omega)
  rw [getLastLogIndex, found]

theorem termOf_last (nonempty : 0 < rf.log.length) : rf.termOf (rf.log.length - 1) = some rf.getLastLogTerm := by
  obtain ⟨term, found⟩ := rf.getLogAt_of_lt (show rf.log.length - 1 < rf.log.length by omega)
  rw [termOf, getLastLogTerm, found]
  rfl

end Positions

/-! ## The leader -/

section Leader

variable {rf : Raft n Command}

/-- The leader and the peers known to hold the index. -/
def holders (rf : Raft n Command) (index : Nat) : Finset (Fin n) :=
  insert rf.me (Finset.univ.filter fun peer => (index : Int) ≤ rf.matchIndex peer)

theorem replicas_eq_card_holders (rf : Raft n Command) (index : Nat) :
    rf.replicas index = (rf.holders index).card := by
  have distinct : ((List.finRange n).filter (fun j => j ≠ rf.me ∧ (index : Int) ≤ rf.matchIndex j)).Nodup :=
    (List.nodup_finRange n).filter _
  have others : ((List.finRange n).filter (fun j => j ≠ rf.me ∧ (index : Int) ≤ rf.matchIndex j)).toFinset =
      (rf.holders index).erase rf.me := by
    ext peer
    simp [holders]
  rw [replicas, ← List.toFinset_card_of_nodup distinct, others, Nat.add_comm]
  exact Finset.card_erase_add_one (Finset.mem_insert_self _ _)

/-- The loop over the slice positions below `limit` finds the largest index that counts. -/
theorem countReplicaFrom_isGreatest (rf : Raft n Command) (start limit : Nat) :
    IsGreatest {N | N = rf.commitIndex ∨ (rf.commitIndex < N ∧ start + rf.lastIncludedIndex ≤ N ∧
      N < limit + rf.lastIncludedIndex ∧ n / 2 < rf.replicas N)} (rf.countReplicaFrom start limit) := by
  induction limit with
  | zero =>
    refine ⟨.inl rfl, ?_⟩
    rintro N (rfl | ⟨-, atLeast, below, -⟩)
    · exact le_rfl
    · omega
  | succ i inductionHypothesis =>
    obtain ⟨member, greatest⟩ := inductionHypothesis
    simp only [countReplicaFrom]
    split
    · rename_i inRange
      split
      · rename_i majority
        refine ⟨.inr ⟨inRange.1, by omega, by omega, majority⟩, ?_⟩
        rintro N (rfl | ⟨-, -, below, -⟩)
        · exact inRange.1.le
        · omega
      · -- the index of this turn does not count, and the others are those of the remaining turns
        rename_i minority
        refine ⟨member.imp id ?_, ?_⟩
        · rintro ⟨later, atLeast, below, majority⟩
          exact ⟨later, atLeast, by omega, majority⟩
        rintro N (rfl | ⟨later, atLeast, below, majority⟩)
        · exact greatest (.inl rfl)
        · refine greatest (.inr ⟨later, atLeast, ?_, majority⟩)
          rcases Nat.lt_or_ge N (i + rf.lastIncludedIndex) with less | notLess
          · exact less
          · rw [show N = i + rf.lastIncludedIndex by omega] at majority
            exact absurd majority minority
    · rename_i outside
      refine ⟨.inl rfl, ?_⟩
      rintro N (rfl | ⟨later, atLeast, below, -⟩)
      · exact le_rfl
      · exact absurd ⟨by omega, by omega⟩ outside

theorem realIndexStart_eq (rf : Raft n Command) : rf.realIndexStart =
    ((List.range rf.log.length).find? fun i => rf.termOf i = some rf.currentTerm).getD (rf.log.length - 1) := by
  unfold realIndexStart termOf
  split
  · rename_i found
    rw [found, Option.getD_some]
  · rename_i found
    rw [found, Option.getD_none]

/-- From `realIndexStart` on the entries are of the current term, if these are the last ones. -/
theorem realIndexStart_le_iff_termOf (rf : Raft n Command)
    (last : ∀ earlier later, earlier ≤ later → later < rf.log.length →
      rf.termOf earlier = some rf.currentTerm → rf.termOf later = some rf.currentTerm)
    (current : rf.getLastLogTerm = rf.currentTerm) {position : Nat} (inside : position < rf.log.length) :
    rf.realIndexStart ≤ position ↔ rf.termOf position = some rf.currentTerm := by
  rw [realIndexStart_eq]
  cases search : (List.range rf.log.length).find? (fun i => rf.termOf i = some rf.currentTerm) with
  | none =>
    -- the last entry would have been found
    simp only [List.find?_eq_none, List.mem_range, decide_eq_true_eq] at search
    refine absurd ?_ (search (rf.log.length - 1) (by omega))
    rw [rf.termOf_last (by omega), current]
  | some start =>
    obtain ⟨found, -, earlier⟩ := List.find?_range_eq_some.mp search
    rw [decide_eq_true_eq] at found
    rw [Option.getD_some]
    constructor
    · intro afterStart
      exact last start position afterStart inside found
    · intro ofTerm
      by_contra before
      have notFound := earlier position (by omega)
      rw [Bool.not_eq_true', decide_eq_false_iff_not] at notFound
      exact notFound ofTerm

theorem termOf_current_of_sorted
    (sorted : ∀ lower upper lowerTerm upperTerm, lower ≤ upper → rf.retainedTerm lower = some lowerTerm →
      rf.retainedTerm upper = some upperTerm → lowerTerm ≤ upperTerm)
    (bounded : ∀ index term, rf.retainedTerm index = some term → term ≤ rf.currentTerm)
    (earlier later : Nat) (ordered : earlier ≤ later) (inside : later < rf.log.length)
    (current : rf.termOf earlier = some rf.currentTerm) : rf.termOf later = some rf.currentTerm := by
  obtain ⟨term, found⟩ := rf.termOf_of_lt inside
  rw [← retainedTerm_add] at current found
  have atLeast := sorted _ _ _ _ (Nat.add_le_add_left ordered _) current found
  have atMost := bounded _ _ found
  rw [← retainedTerm_add, found, le_antisymm atMost atLeast]

/-- `countReplica` is the largest index that is the commit index, or beyond it and in the log, of
the current term, and held by the leader and enough peers for a strict majority. -/
theorem countReplica_isGreatest (rf : Raft n Command) (retained : rf.lastIncludedIndex ≤ rf.commitIndex)
    (sorted : ∀ lower upper lowerTerm upperTerm, lower ≤ upper → rf.retainedTerm lower = some lowerTerm →
      rf.retainedTerm upper = some upperTerm → lowerTerm ≤ upperTerm)
    (bounded : ∀ index term, rf.retainedTerm index = some term → term ≤ rf.currentTerm) :
    IsGreatest {N | N = rf.commitIndex ∨ (rf.commitIndex < N ∧ N ≤ rf.getLastLogIndex ∧
      rf.retainedTerm N = some rf.currentTerm ∧ n < 2 * (rf.holders N).card)} rf.countReplica := by
  have last := termOf_current_of_sorted sorted bounded
  -- what lies beyond the commit index and in the log has a slice position
  have located : ∀ N, rf.commitIndex < N → N ≤ rf.getLastLogIndex →
      0 < rf.log.length ∧ ∃ position, position < rf.log.length ∧ N = rf.lastIncludedIndex + position := by
    intro N later notBeyond
    have nonempty : 0 < rf.log.length := by
      by_contra empty
      have none : rf.log = [] := List.length_eq_zero_iff.mp (by omega)
      simp only [getLastLogIndex, getLogAt, none, List.getElem?_nil] at notBeyond
      omega
    rw [rf.getLastLogIndex_of_pos nonempty] at notBeyond
    exact ⟨nonempty, N - rf.lastIncludedIndex, by omega, by omega⟩
  unfold countReplica
  split
  · rename_i notCurrent
    have unchanged : (if rf.commitIndex ≤ rf.lastIncludedIndex then rf.lastIncludedIndex else rf.commitIndex) =
        rf.commitIndex := by split <;> omega
    rw [unchanged]
    refine ⟨.inl rfl, ?_⟩
    rintro N (rfl | ⟨later, notBeyond, ofTerm, -⟩)
    · exact le_rfl
    · -- then the last entry would be of the current term
      obtain ⟨nonempty, position, inside, rfl⟩ := located N later notBeyond
      rw [retainedTerm_add] at ofTerm
      have ofLast := last position (rf.log.length - 1) (by omega) (by omega) ofTerm
      rw [rf.termOf_last nonempty] at ofLast
      exact absurd (Option.some.inj ofLast) notCurrent
  · rename_i isCurrent
    rw [ne_eq, Decidable.not_not] at isCurrent
    obtain ⟨member, greatest⟩ := rf.countReplicaFrom_isGreatest rf.realIndexStart rf.log.length
    have kept : rf.commitIndex ≤ rf.countReplicaFrom rf.realIndexStart rf.log.length := greatest (.inl rfl)
    dsimp only
    rw [if_neg (by omega)]
    refine ⟨member.imp id ?_, ?_⟩
    · rintro ⟨later, atLeast, below, majority⟩
      obtain ⟨position, isIndex⟩ := Nat.exists_eq_add_of_le (show rf.lastIncludedIndex ≤
        rf.countReplicaFrom rf.realIndexStart rf.log.length by omega)
      rw [replicas_eq_card_holders] at majority
      refine ⟨later, ?_, ?_, by omega⟩
      · rw [rf.getLastLogIndex_of_pos (by omega)]
        omega
      · rw [isIndex, retainedTerm_add]
        exact (rf.realIndexStart_le_iff_termOf last isCurrent (by omega)).mp (by omega)
    · rintro N (rfl | ⟨later, notBeyond, ofTerm, majority⟩)
      · exact kept
      · obtain ⟨-, position, inside, rfl⟩ := located N later notBeyond
        rw [retainedTerm_add] at ofTerm
        have afterStart := (rf.realIndexStart_le_iff_termOf last isCurrent inside).mpr ofTerm
        refine greatest (.inr ⟨later, by omega, by omega, ?_⟩)
        rw [replicas_eq_card_holders]
        omega

theorem le_of_retainedTerm {index term : Nat} (shown : rf.retainedTerm index = some term) :
    index < rf.lastIncludedIndex + rf.log.length := by
  by_contra beyond
  unfold retainedTerm at shown
  split at shown
  · rw [getLogAt, List.getElem?_eq_none (by omega)] at shown
    cases shown
  · cases shown

/-- A leader of term 3 with three entries, of which its peers have acknowledged one and two. -/
def counting : Raft 3 Nat where
  persister := {}
  me := 0
  state := .leader
  log := [default, ⟨2, 7, 1⟩, ⟨3, 8, 2⟩, ⟨3, 9, 3⟩]
  currentTerm := 3
  votedFor := some 0
  commitIndex := 0
  lastApplied := 0
  getVotesNum := 2
  nextIndex := fun _ => 4
  matchIndex := fun peer => peer.val
  lastIncludedIndex := 0
  lastIncludedTerm := 0

/-- The entry at 2 has a majority.  Index 1 has one as well, but its term is over. -/
theorem countReplica_isGreatest_counting : counting.countReplica = 2 ∧
    ∀ N, counting.commitIndex < N → N ≤ counting.getLastLogIndex →
      counting.retainedTerm N = some counting.currentTerm → 3 < 2 * (counting.holders N).card → N ≤ 2 := by
  have inside : ∀ {index term : Nat}, counting.retainedTerm index = some term → index < 4 := le_of_retainedTerm
  have terms : ∀ lower < 4, ∀ upper < 4, lower ≤ upper →
      (counting.retainedTerm lower).getD 0 ≤ (counting.retainedTerm upper).getD 0 ∧
        (counting.retainedTerm upper).getD 0 ≤ 3 := by decide
  have count : counting.countReplica = 2 := by decide
  refine ⟨count, fun N later inLog ofTerm majority => ?_⟩
  rw [← count]
  refine (countReplica_isGreatest counting (by decide) ?_ ?_).2 (.inr ⟨later, inLog, ofTerm, majority⟩)
  · intro lower upper lowerTerm upperTerm ordered lowerShows upperShows
    have sorted := (terms lower (inside lowerShows) upper (inside upperShows) ordered).1
    rw [lowerShows, upperShows] at sorted
    exact sorted
  · intro index term shows_
    have bounded := (terms index (inside shows_) index (inside shows_) le_rfl).2
    rw [shows_] at bounded
    exact bounded

end Leader

/-! ## A follower -/

theorem SameLog.prevMatches {rf other : Raft n Command} (same : SameLog rf other)
    (args : AppendEntriesArgs n Command) : other.PrevMatches args ↔ rf.PrevMatches args := by
  simp only [PrevMatches, same.lastIncludedIndex, same.getLastLogIndex, same.getLogAt]

theorem appendEntries_accepted {rf : Raft n Command} {args : AppendEntriesArgs n Command}
    (success : (rf.appendEntries args).2.success = true) :
    rf.currentTerm ≤ args.term ∧ rf.PrevMatches args ∧ (rf.appendEntries args).1 =
      (rf.observeLeader args.term).storeEntries args (args.prevLogIndex - rf.lastIncludedIndex).toNat := by
  have same := observeLeader_sameLog rf args.term
  rcases appendEntries_outcome rf args with ⟨-, reply, result, refused⟩ | ⟨current, found, result⟩
  · rw [result, refused] at success
    cases success
  · refine ⟨(observeLeader_keeps rf args.term).currentTerm.trans current, (same.prevMatches args).mp found, ?_⟩
    rw [result, same.lastIncludedIndex]

/-- What a request that succeeds makes of the commit index: the bound is the last index that the
log had before the request. -/
theorem appendEntries_commitIndex {rf : Raft n Command} {args : AppendEntriesArgs n Command}
    (success : (rf.appendEntries args).2.success = true) : (rf.appendEntries args).1.commitIndex =
      if rf.commitIndex < args.leaderCommit then min args.leaderCommit rf.getLastLogIndex else rf.commitIndex := by
  have same := observeLeader_sameLog rf args.term
  rw [(appendEntries_accepted success).2.2, storeEntries_eq]
  simp only [same.commitIndex, same.getLastLogIndex]

/-- The commit index becomes the smaller of the leader's and the index of the last new entry, or
stays, exactly if the leader's is not larger, or the log from before the request decides alike. -/
theorem follower_commitIndex_iff (rf : Raft n Command) (args : AppendEntriesArgs n Command)
    (success : (rf.appendEntries args).2.success = true) :
    let lastNew := args.prevLogIndex + args.entries.length
    ((rf.appendEntries args).1.commitIndex : Int) = max (rf.commitIndex : Int) (min (args.leaderCommit : Int) lastNew) ↔
      args.leaderCommit ≤ rf.commitIndex ∨ rf.commitIndex ≤ rf.getLastLogIndex ∧
        (args.leaderCommit ≤ rf.getLastLogIndex ∧ (args.leaderCommit : Int) ≤ lastNew ∨
          (rf.getLastLogIndex : Int) = max (rf.commitIndex : Int) lastNew) := by
  intro lastNew
  rw [appendEntries_commitIndex success]
  split <;> omega

variable [Inhabited Command]

/-- A request that finds its previous entry anywhere carries a part of its leader's log. -/
theorem Simulates.carried {cluster : Cluster n Command} {state : Replication.State (Fin n) (LogEntry Command)}
    (simulates : Simulates cluster state) {call : Call n Command} (member : call ∈ cluster.calls)
    {args : AppendEntriesArgs n Command} (request : call.request = .appendEntries args) {rf : Raft n Command}
    (found : rf.PrevMatches args) : ∃ log prev,
      state.leader args.term = some (call.caller, log) ∧ Carries state args log prev := by
  obtain ⟨-, content⟩ := simulates.call call member
  simp only [request] at content
  obtain ⟨⟨log, leads, nowhere | ⟨prev, carries⟩⟩, -⟩ := content
  · -- a request with no previous entry matches nowhere
    have shown := found.2.2
    rw [nowhere, Option.map_eq_some_iff] at shown
    obtain ⟨entry, -, negative⟩ := shown
    omega
  · exact ⟨log, prev, leads, carries⟩

/-- In a run the commit index of a follower may come late, but it never goes beyond the last new entry:
no leader sends a commit index that its entries do not reach. -/
theorem follower_commitIndex_le {cluster : Cluster n Command} (reachable : Cluster.Reachable cluster)
    {call : Call n Command} (member : call ∈ cluster.calls) {args : AppendEntriesArgs n Command}
    (request : call.request = .appendEntries args)
    (success : ((cluster.node call.callee).raft.appendEntries args).2.success = true) :
    (((cluster.node call.callee).raft.appendEntries args).1.commitIndex : Int) ≤
      max ((cluster.node call.callee).raft.commitIndex : Int)
        (min (args.leaderCommit : Int) (args.prevLogIndex + args.entries.length)) := by
  obtain ⟨state, -, simulates⟩ := reachable_simulates reachable
  obtain ⟨log, prev, -, carries⟩ := simulates.carried member request (appendEntries_accepted success).2.1
  have reaches := carries.leaderCommit
  have isPrev := carries.prevLogIndex
  rw [appendEntries_commitIndex success]
  split <;> omega

/-- Server 0 leads three servers, has committed its first entry with server 1, and sends it to server 2
together with its commit index. -/
def entrusting : Cluster 3 Nat := Cluster.initial.after
  [.electionTimeout 0, .handle 0, .deliver 0, .start 0 7, .replicate 0 1, .handle 2, .deliver 2, .replicate 0 2]

def entrusted : AppendEntriesArgs 3 Nat where
  term := 1
  leaderId := 0
  prevLogIndex := 0
  prevLogTerm := 0
  entries := [⟨1, 7, 1⟩]
  leaderCommit := 1

/-- The same request again finds the entry in the log, and commits it. -/
theorem follower_commitIndex_iff_again :
    let follower := ((entrusting.node 2).raft.appendEntries entrusted).1
    (follower.appendEntries entrusted).2.success = true ∧
    ((follower.appendEntries entrusted).1.commitIndex : Int) = max (follower.commitIndex : Int) (min 1 (0 + 1)) := by
  intro follower
  have success : (follower.appendEntries entrusted).2.success = true := by decide
  exact ⟨success, (follower_commitIndex_iff follower entrusted success).mpr (by decide)⟩

/-- The request stores the entry at 1, which the leader has committed, and leaves the commit index at 0. -/
theorem follower_commitIndex_late : Cluster.Reachable entrusting ∧
    entrusting.calls[3]?.map (fun call => (call.callee, call.request)) = some (2, .appendEntries entrusted) ∧
    ((entrusting.node 2).raft.appendEntries entrusted).2.success = true ∧
    ((entrusting.node 2).raft.appendEntries entrusted).1.log = [default, ⟨1, 7, 1⟩] ∧
    (entrusting.node 2).raft.commitIndex = 0 ∧
    ((entrusting.node 2).raft.appendEntries entrusted).1.commitIndex = 0 ∧
    max (0 : Int) (min entrusted.leaderCommit (entrusted.prevLogIndex + entrusted.entries.length)) = 1 := by
  refine ⟨Cluster.steps_after Cluster.initial _, ?_⟩
  decide

end ShardedKV.Raft
