import Mathlib.Data.Finset.Basic
import Mathlib.Data.List.Infix
import Mathlib.Logic.Function.Basic
import Mathlib.Tactic.Common

/-!
# Term-indexed replicated logs

The protocol behind leader-based log replication, without messages.  Every node has
a term and a log; every term has at most one leader, whose log only grows.  What a
message-passing implementation spreads over requests and replies is here one of
seven steps, and the history that a safety argument needs is part of the state:
the first vote of a node in a term together with the log it held when voting, the
log of each term's leader, and how much of that log each node has acknowledged.

Nothing here mentions snapshots, network messages or a particular quorum size.
-/

namespace ShardedKV.Replication

/-- What the protocol needs to know about entries and majorities. -/
structure Scheme (Node Entry : Type) where
  termOf : Entry → Nat
  IsQuorum : Finset Node → Prop
  quorums_meet : ∀ first second, IsQuorum first → IsQuorum second → ∃ node ∈ first, node ∈ second

structure State (Node Entry : Type) where
  currentTerm : Node → Nat
  log : Node → List Entry
  /-- The first vote of a node in a term: the candidate, and the voter's log at that moment. -/
  vote : Node → Nat → Option (Node × List Entry)
  /-- The winner of a term and its log while it leads. -/
  leader : Nat → Option (Node × List Entry)
  /-- How many entries of a term's leader log a node has acknowledged. -/
  acked : Node → Nat → Nat

/-- Keep the log if it already contains the incoming one, otherwise take the incoming one. -/
noncomputable def overlay {Entry : Type} (log incoming : List Entry) : List Entry :=
  open Classical in if incoming <+: log then log else incoming

/-- The term of the last entry, 0 for an empty log. -/
def lastTerm {Entry : Type} (termOf : Entry → Nat) (log : List Entry) : Nat :=
  (log.getLast?.map termOf).getD 0

def initial {Node Entry : Type} : State Node Entry where
  currentTerm := fun _ => 0
  log := fun _ => []
  vote := fun _ _ => none
  leader := fun _ => none
  acked := fun _ _ => 0

section Definitions

variable {Node Entry : Type} (scheme : Scheme Node Entry)

/-- The comparison a voter makes between a candidate's log and its own. -/
def UpToDate (candidate voter : List Entry) : Prop :=
  lastTerm scheme.termOf voter < lastTerm scheme.termOf candidate ∨
    (lastTerm scheme.termOf voter = lastTerm scheme.termOf candidate ∧ voter.length ≤ candidate.length)

/-- The `count`-th entry of a log exists and was created in `term`. -/
def EndsIn (log : List Entry) (count term : Nat) : Prop :=
  0 < count ∧ ∃ entry, log[count - 1]? = some entry ∧ scheme.termOf entry = term

/-- A quorum has acknowledged `count` entries of the term, or still could. -/
def Choosable (state : State Node Entry) (term count : Nat) : Prop :=
  ∃ quorum, scheme.IsQuorum quorum ∧
    ∀ node ∈ quorum, count ≤ state.acked node term ∨ state.currentTerm node ≤ term

/-- A quorum has acknowledged `count` entries of the term's leader, the last of them its own. -/
def Chosen (state : State Node Entry) (term count : Nat) (log : List Entry) : Prop :=
  (∃ leader, state.leader term = some (leader, log)) ∧ EndsIn scheme log count term ∧
    ∃ quorum, scheme.IsQuorum quorum ∧ ∀ node ∈ quorum, count ≤ state.acked node term

/-- A sequence of entries that can never be taken back, known at `term`. -/
def Committed (state : State Node Entry) (term : Nat) (entries : List Entry) : Prop :=
  entries = [] ∨ ∃ chosenTerm count log, chosenTerm ≤ term ∧
    Chosen scheme state chosenTerm count log ∧ entries <+: log.take count

open Classical in
inductive Step : State Node Entry → State Node Entry → Prop where
  | advance (state : State Node Entry) (node : Node) (term : Nat)
      (later : state.currentTerm node ≤ term) :
      Step state { state with currentTerm := Function.update state.currentTerm node term }
  | campaign (state : State Node Entry) (node : Node) (term : Nat)
      (later : state.currentTerm node < term) :
      Step state { state with
        currentTerm := Function.update state.currentTerm node term
        vote := Function.update state.vote node
          (Function.update (state.vote node) term (some (node, state.log node))) }
  | grant (state : State Node Entry) (node candidate : Node) (candidateLog : List Entry)
      (fresh : state.vote node (state.currentTerm node) = none)
      (campaigned : state.vote candidate (state.currentTerm node) = some (candidate, candidateLog))
      (upToDate : UpToDate scheme candidateLog (state.log node)) :
      Step state { state with
        vote := Function.update state.vote node
          (Function.update (state.vote node) (state.currentTerm node)
            (some (candidate, state.log node))) }
  | elect (state : State Node Entry) (node : Node) (quorum : Finset Node)
      (vacant : state.leader (state.currentTerm node) = none)
      (isQuorum : scheme.IsQuorum quorum)
      (voted : ∀ voter ∈ quorum, ∃ log, state.vote voter (state.currentTerm node) = some (node, log))
      (campaigned : ∃ log, state.vote node (state.currentTerm node) = some (node, log)) :
      Step state { state with
        leader := Function.update state.leader (state.currentTerm node)
          (some (node, state.log node))
        acked := Function.update state.acked node
          (Function.update (state.acked node) (state.currentTerm node) (state.log node).length) }
  | append (state : State Node Entry) (node : Node) (entry : Entry)
      (leads : state.leader (state.currentTerm node) = some (node, state.log node))
      (own : scheme.termOf entry = state.currentTerm node) :
      Step state { state with
        log := Function.update state.log node (state.log node ++ [entry])
        leader := Function.update state.leader (state.currentTerm node)
          (some (node, state.log node ++ [entry]))
        acked := Function.update state.acked node
          (Function.update (state.acked node) (state.currentTerm node)
            ((state.log node).length + 1)) }
  | accept (state : State Node Entry) (node leader : Node) (log : List Entry) (count : Nat)
      (leads : state.leader (state.currentTerm node) = some (leader, log))
      (available : count ≤ log.length) :
      Step state { state with
        log := Function.update state.log node (overlay (state.log node) (log.take count))
        acked := Function.update state.acked node
          (Function.update (state.acked node) (state.currentTerm node)
            (max (state.acked node (state.currentTerm node)) count)) }
  | install (state : State Node Entry) (node : Node) (entries : List Entry)
      (committed : Committed scheme state (state.currentTerm node) entries) :
      Step state { state with
        log := Function.update state.log node (overlay (state.log node) entries) }

/-- What every state reachable by the protocol's steps from the empty one is. -/
def Reachable : State Node Entry → Prop := Relation.ReflTransGen (Step scheme) initial

end Definitions

end ShardedKV.Replication
