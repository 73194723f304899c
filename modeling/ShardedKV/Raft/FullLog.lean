import ShardedKV.Raft.Cluster
import ShardedKV.Replication.Preservation
import Mathlib.Data.Fintype.Card

/-!
# The log behind a compacted log

`rf.log` starts with a dummy entry and holds only what follows `lastIncludedIndex`.  The
lemmas here read every log access of the source as an access to `fullLog`, the entries of
the stored snapshot followed by the retained ones, so that the rest of the development
never translates between logical and slice indices again.
-/

namespace ShardedKV.Raft

open Replication (Scheme lastTerm Covered overlay)

variable {n : Nat} {Command : Type}

/-- Entries are compared by term, and a majority is more than half of the peers. -/
def scheme (n : Nat) (Command : Type) : Scheme (Fin n) (LogEntry Command) where
  termOf := LogEntry.term
  IsQuorum := fun servers => n / 2 < servers.card
  quorums_meet := by
    intro first second firstLarge secondLarge
    by_contra apart
    have disjoint : Disjoint first second :=
      Finset.disjoint_left.mpr fun server inFirst inSecond => apart ⟨server, inFirst, inSecond⟩
    have total := Finset.card_le_univ (first ∪ second)
    rw [Finset.card_union_of_disjoint disjoint, Fintype.card_fin] at total
    omega

@[simp] theorem scheme_termOf (entry : LogEntry Command) : (scheme n Command).termOf entry = entry.term :=
  rfl

@[simp] theorem scheme_isQuorum (servers : Finset (Fin n)) :
    (scheme n Command).IsQuorum servers ↔ n / 2 < servers.card := Iff.rfl

/-- The entries of the stored snapshot followed by the retained ones. -/
def fullLog (rf : Raft n Command) : List (LogEntry Command) :=
  rf.persister.snapshot.entries ++ rf.log.tail

/-- The term at a 1-based index; index 0 is the empty log. -/
def termAt (log : List (LogEntry Command)) (index : Nat) : Nat :=
  lastTerm LogEntry.term (log.take index)

/-- The term that a server's log, from the snapshot boundary on, shows at a logical index. -/
def retainedTerm (rf : Raft n Command) (index : Nat) : Option Nat :=
  if rf.lastIncludedIndex ≤ index then (rf.getLogAt (index - rf.lastIncludedIndex)).map Prod.snd else none

/-- The entry that a server still retains at a logical index. -/
def retainedEntry (rf : Raft n Command) (index : Nat) : Option (LogEntry Command) :=
  if rf.lastIncludedIndex < index then rf.log[index - rf.lastIncludedIndex]? else none

/-- How `Log`, `lastIncludedIndex` and `lastIncludedTerm` stand for the full log. -/
structure Compacted [Inhabited Command] (rf : Raft n Command) : Prop where
  head : rf.log.head? = some default
  lastIncludedIndex : rf.persister.snapshot.entries.length = rf.lastIncludedIndex
  lastIncludedTerm : lastTerm LogEntry.term rf.persister.snapshot.entries = rf.lastIncludedTerm

theorem termAt_eq_of_getElem? {log : List (LogEntry Command)} {index : Nat} {entry : LogEntry Command}
    (located : log[index]? = some entry) : termAt log (index + 1) = entry.term := by
  have bound := (List.getElem?_eq_some_iff.mp located).1
  have taken : (log.take (index + 1)).getLast? = some entry := by
    rw [List.getLast?_eq_getElem?, List.length_take, Nat.min_eq_left (by omega),
      List.getElem?_take_of_lt (by omega)]
    exact located
  rw [termAt, lastTerm, taken]
  rfl

namespace Compacted

variable [Inhabited Command] {rf : Raft n Command}

variable (compacted : Compacted rf)
include compacted

theorem log_eq : rf.log = default :: rf.log.tail := by
  have head := compacted.head
  cases rest : rf.log with
  | nil => simp [rest] at head
  | cons first tail =>
    rw [rest] at head
    simp only [List.head?_cons, Option.some.injEq] at head
    rw [head]
    rfl

theorem fullLog_length :
    rf.fullLog.length + 1 = rf.lastIncludedIndex + rf.log.length := by
  have head := congrArg List.length compacted.log_eq
  rw [fullLog, List.length_append, compacted.lastIncludedIndex]
  simp only [List.length_cons] at head
  omega

theorem log_length_pos : 0 < rf.log.length := by
  rw [compacted.log_eq]
  simp

theorem log_getElem? (position : Nat) :
    rf.log[position + 1]? = rf.fullLog[rf.lastIncludedIndex + position]? := by
  rw [fullLog, List.getElem?_append_right (by rw [compacted.lastIncludedIndex]; omega),
    compacted.lastIncludedIndex, Nat.add_sub_cancel_left, compacted.log_eq, List.getElem?_cons_succ,
    List.tail_cons]

theorem log_drop (position : Nat) :
    rf.log.drop (position + 1) = rf.fullLog.drop (rf.lastIncludedIndex + position) := by
  have past : rf.persister.snapshot.entries.drop (rf.persister.snapshot.entries.length + position) = [] :=
    List.drop_of_length_le (by omega)
  rw [fullLog, ← compacted.lastIncludedIndex, List.drop_append, past, Nat.add_sub_cancel_left,
    List.nil_append, compacted.log_eq]
  rfl

theorem termAt_lastIncludedIndex :
    termAt rf.fullLog rf.lastIncludedIndex = rf.lastIncludedTerm := by
  rw [termAt, fullLog, ← compacted.lastIncludedIndex, List.take_left, compacted.lastIncludedTerm]

/-- `getLogAt` reads the full log at the translated index. -/
theorem getLogAt_eq (realIndex : Nat) :
    rf.getLogAt realIndex =
      if rf.lastIncludedIndex + realIndex ≤ rf.fullLog.length then
        some (rf.lastIncludedIndex + realIndex, termAt rf.fullLog (rf.lastIncludedIndex + realIndex))
      else none := by
  have length := compacted.fullLog_length
  have positive := compacted.log_length_pos
  unfold getLogAt
  cases realIndex with
  | zero =>
    rw [List.getElem?_eq_getElem positive, if_pos (by omega), Nat.add_zero,
      compacted.termAt_lastIncludedIndex]
    simp
  | succ position =>
    cases located : rf.log[position + 1]? with
    | none =>
      have past := List.getElem?_eq_none_iff.mp located
      rw [if_neg (by omega)]
    | some entry =>
      have bound := (List.getElem?_eq_some_iff.mp located).1
      rw [compacted.log_getElem?] at located
      rw [if_pos (by omega), ← Nat.add_assoc, termAt_eq_of_getElem? located]
      simp [Nat.add_assoc]

theorem getLastLogIndex_eq : rf.getLastLogIndex = rf.fullLog.length := by
  have length := compacted.fullLog_length
  have positive := compacted.log_length_pos
  rw [getLastLogIndex, compacted.getLogAt_eq, if_pos (by omega)]
  simp only
  omega

theorem getLastLogTerm_eq :
    rf.getLastLogTerm = lastTerm LogEntry.term rf.fullLog := by
  have length := compacted.fullLog_length
  have positive := compacted.log_length_pos
  rw [getLastLogTerm, compacted.getLogAt_eq, if_pos (by omega)]
  simp only
  rw [show rf.lastIncludedIndex + (rf.log.length - 1) = rf.fullLog.length by omega, termAt,
    List.take_length]

theorem retainedTerm_eq_some {index term : Nat} :
    rf.retainedTerm index = some term ↔
      rf.lastIncludedIndex ≤ index ∧ index ≤ rf.fullLog.length ∧ termAt rf.fullLog index = term := by
  unfold retainedTerm
  by_cases retained : rf.lastIncludedIndex ≤ index
  · rw [if_pos retained, compacted.getLogAt_eq, Nat.add_sub_cancel' retained]
    by_cases inLog : index ≤ rf.fullLog.length <;> simp [retained, inLog]
  · simp [retained]

theorem retainedEntry_eq_some {index : Nat} {entry : LogEntry Command} :
    rf.retainedEntry index = some entry ↔ rf.lastIncludedIndex < index ∧ rf.fullLog[index - 1]? = some entry := by
  unfold retainedEntry
  by_cases retained : rf.lastIncludedIndex < index
  · rw [if_pos retained, show index - rf.lastIncludedIndex = (index - rf.lastIncludedIndex - 1) + 1 by omega,
      compacted.log_getElem?,
      show rf.lastIncludedIndex + (index - rf.lastIncludedIndex - 1) = index - 1 by omega]
    simp [retained]
  · simp [retained]

end Compacted

end ShardedKV.Raft
