import Mathlib.Logic.Function.Basic
import Mathlib.Tactic.Common

/-!
# Partitions that move between groups

A sequence of assignments gives every shard an owner.  Groups go through the assignments one
by one, each at its own pace, and hand a shard over when its owner changes: the old owner stops
using it and keeps a copy, the new owner waits for the copy, and the old owner drops it later.

Operations are executed on a shard by a group that holds it, at most once for each client and
number; the table that recognises repetitions belongs to the group and is merged with every
shard that arrives.  The state remembers what a shard ought to contain, which operations were
executed on it, and what was handed over in each assignment.
-/

namespace ShardedKV.Migration

inductive Phase where
  | absent
  | holding
  | awaiting
  | releasing
deriving DecidableEq, Repr

/-- Who owns a shard in the assignment of each number from one on, and what an unused shard
contains. -/
structure Scheme (Group Shard Data : Type) where
  owner : Nat → Shard → Group
  empty : Data

structure State (Group Shard Client Data : Type) where
  /-- The number of the assignment the group is in; zero before the first one. -/
  number : Group → Nat
  phase : Group → Shard → Phase
  data : Group → Shard → Data
  /-- The largest number of each client that the group knows to be executed. -/
  session : Group → Client → Nat
  /-- What the old owner of a shard had when it gave it up in an assignment. -/
  handoff : Nat → Shard → Option (Data × (Client → Nat))
  /-- The new owner has received the shard in an assignment. -/
  received : Nat → Shard → Prop
  /-- What the executed operations make of a shard. -/
  truth : Shard → Data
  done : Shard → Client → Nat → Prop

variable {Group Shard Client Data : Type}

def initial (scheme : Scheme Group Shard Data) : State Group Shard Client Data where
  number := fun _ => 0
  phase := fun _ _ => .absent
  data := fun _ _ => scheme.empty
  session := fun _ _ => 0
  handoff := fun _ _ => none
  received := fun _ _ => False
  truth := fun _ => scheme.empty
  done := fun _ _ _ => False

section

variable [DecidableEq Group] [DecidableEq Shard] [DecidableEq Client]

namespace State

def execute (state : State Group Shard Client Data) (group : Group) (shard : Shard) (client : Client)
    (number : Nat) (effect : Data → Data) : State Group Shard Client Data :=
  { state with
    data := fun other place =>
      if other = group ∧ place = shard then effect (state.data group shard) else state.data other place
    session := fun other who => if other = group ∧ who = client then number else state.session other who
    truth := fun place => if place = shard then effect (state.truth shard) else state.truth place
    done := fun place who count =>
      state.done place who count ∨ place = shard ∧ who = client ∧ count = number }

/-- The first assignment: nobody has used the shards before. -/
def enter (scheme : Scheme Group Shard Data) (state : State Group Shard Client Data) (group : Group) :
    State Group Shard Client Data :=
  { state with
    number := fun other => if other = group then 1 else state.number other
    phase := fun other shard =>
      if other = group ∧ scheme.owner 1 shard = group then .holding else state.phase other shard }

def nextPhase (scheme : Scheme Group Shard Data) (number : Nat) (group : Group) (shard : Shard) : Phase :=
  if scheme.owner number shard = group then
    if scheme.owner (number + 1) shard = group then .holding else .releasing
  else
    if scheme.owner (number + 1) shard = group then .awaiting else .absent

/-- The group leaves the shard to another owner in the assignment after `number`. -/
def Leaves (scheme : Scheme Group Shard Data) (number : Nat) (group : Group) (shard : Shard) : Prop :=
  scheme.owner number shard = group ∧ scheme.owner (number + 1) shard ≠ group

instance (scheme : Scheme Group Shard Data) (number : Nat) (group : Group) (shard : Shard) :
    Decidable (Leaves scheme number group shard) := by
  unfold Leaves
  infer_instance

def advance (scheme : Scheme Group Shard Data) (state : State Group Shard Client Data) (group : Group) :
    State Group Shard Client Data :=
  { state with
    number := fun other => if other = group then state.number group + 1 else state.number other
    phase := fun other shard =>
      if other = group then nextPhase scheme (state.number group) group shard else state.phase other shard
    handoff := fun number shard =>
      if number = state.number group + 1 ∧ Leaves scheme (state.number group) group shard then
        some (state.data group shard, state.session group)
      else state.handoff number shard }

def receive (state : State Group Shard Client Data) (group : Group) (shard : Shard) (data : Data)
    (sessions : Client → Nat) : State Group Shard Client Data :=
  { state with
    phase := fun other place => if other = group ∧ place = shard then .holding else state.phase other place
    data := fun other place => if other = group ∧ place = shard then data else state.data other place
    session := fun other who =>
      if other = group then max (state.session group who) (sessions who) else state.session other who
    received := fun number place => state.received number place ∨ number = state.number group ∧ place = shard }

def release (scheme : Scheme Group Shard Data) (state : State Group Shard Client Data) (group : Group)
    (shard : Shard) : State Group Shard Client Data :=
  { state with
    phase := fun other place => if other = group ∧ place = shard then .absent else state.phase other place
    data := fun other place => if other = group ∧ place = shard then scheme.empty else state.data other place }

end State

/-- The copy that arrives may come with more sessions than the ones that were handed over, as
long as they are sessions of executed operations. -/
inductive Step (scheme : Scheme Group Shard Data) (state : State Group Shard Client Data) :
    State Group Shard Client Data → Prop where
  | execute (group : Group) (shard : Shard) (client : Client) (number : Nat) (effect : Data → Data)
      (holding : state.phase group shard = .holding) (fresh : state.session group client < number)
      (earlier : ∀ count, 1 ≤ count → count < number → ∃ place, state.done place client count)
      (same : ∀ place, state.done place client number → place = shard) :
      Step scheme state (state.execute group shard client number effect)
  | enter (group : Group) (outside : state.number group = 0) : Step scheme state (state.enter scheme group)
  | advance (group : Group) (inside : 1 ≤ state.number group)
      (ready : ∀ shard, state.phase group shard = .holding ∨ state.phase group shard = .absent) :
      Step scheme state (state.advance scheme group)
  | receive (group : Group) (shard : Shard) (data : Data) (given sessions : Client → Nat)
      (awaiting : state.phase group shard = .awaiting)
      (offered : state.handoff (state.number group) shard = some (data, given))
      (covers : ∀ client, given client ≤ sessions client)
      (sound : ∀ client, sessions client = 0 ∨ ∃ place, state.done place client (sessions client)) :
      Step scheme state (state.receive group shard data sessions)
  | release (group : Group) (shard : Shard) (releasing : state.phase group shard = .releasing) :
      Step scheme state (state.release scheme group shard)

end

/-! ## What a run keeps -/

/-- Every owner of the shard before an assignment has left the assignment it owned it in. -/
def Passed (scheme : Scheme Group Shard Data) (state : State Group Shard Client Data) (shard : Shard)
    (number : Nat) : Prop :=
  ∀ earlier, 1 ≤ earlier → earlier < number → earlier < state.number (scheme.owner earlier shard)

/-- The new owner of an assignment has not received the shard yet. -/
def Pending (scheme : Scheme Group Shard Data) (state : State Group Shard Client Data) (number : Nat)
    (shard : Shard) : Prop :=
  state.number (scheme.owner number shard) < number ∨
    state.number (scheme.owner number shard) = number ∧
      state.phase (scheme.owner number shard) shard = .awaiting

/-- The copy of the shard is up to date. -/
structure UpToDate (state : State Group Shard Client Data) (shard : Shard) (data : Data)
    (sessions : Client → Nat) : Prop where
  data_eq : data = state.truth shard
  covers : ∀ client number, state.done shard client number → number ≤ sessions client

/-- The phase of a shard agrees with the assignment the group is in. -/
def Placed (scheme : Scheme Group Shard Data) (state : State Group Shard Client Data) (group : Group)
    (shard : Shard) : Prop :=
  match state.phase group shard with
  | .absent => 1 ≤ state.number group → scheme.owner (state.number group) shard ≠ group
  | .holding => 1 ≤ state.number group ∧ scheme.owner (state.number group) shard = group
  | .awaiting => 2 ≤ state.number group ∧ scheme.owner (state.number group) shard = group ∧
      scheme.owner (state.number group - 1) shard ≠ group
  | .releasing => 2 ≤ state.number group ∧ scheme.owner (state.number group) shard ≠ group ∧
      scheme.owner (state.number group - 1) shard = group

structure Invariant (scheme : Scheme Group Shard Data) (state : State Group Shard Client Data) : Prop where
  placed : ∀ group shard, Placed scheme state group shard
  vacant : ∀ group shard, state.phase group shard = .absent ∨ state.phase group shard = .awaiting →
    state.data group shard = scheme.empty
  passed : ∀ group shard, state.phase group shard = .holding → Passed scheme state shard (state.number group)
  current : ∀ group shard, state.phase group shard = .holding →
    UpToDate state shard (state.data group shard) (state.session group)
  offered : ∀ number shard copy, state.handoff number shard = some copy →
    2 ≤ number ∧ scheme.owner (number - 1) shard ≠ scheme.owner number shard ∧
      Passed scheme state shard number
  kept : ∀ number shard data sessions, state.handoff number shard = some (data, sessions) →
    Pending scheme state number shard → UpToDate state shard data sessions
  retained : ∀ group shard, state.phase group shard = .releasing → ∃ sessions,
    state.handoff (state.number group) shard = some (state.data group shard, sessions) ∧
      ∀ client, sessions client ≤ state.session group client
  unborn : ∀ shard, state.number (scheme.owner 1 shard) = 0 →
    state.truth shard = scheme.empty ∧ ∀ client number, ¬ state.done shard client number
  sound : ∀ group client, state.session group client = 0 ∨
    ∃ shard, state.done shard client (state.session group client)
  closed : ∀ shard client number, state.done shard client number → 1 ≤ number ∧
    ∀ count, 1 ≤ count → count < number → ∃ place, state.done place client count
  single : ∀ first second client number, state.done first client number →
    state.done second client number → first = second
  delivered : ∀ group number shard, 2 ≤ number → scheme.owner number shard = group →
    scheme.owner (number - 1) shard ≠ group →
    number < state.number group ∨ number = state.number group ∧ state.phase group shard = .holding →
    state.received number shard

/-- What later states keep of earlier ones. -/
structure Extends (before after : State Group Shard Client Data) : Prop where
  number : ∀ group, before.number group ≤ after.number group
  handoff : ∀ number shard copy, before.handoff number shard = some copy →
    after.handoff number shard = some copy
  done : ∀ shard client number, before.done shard client number → after.done shard client number
  received : ∀ number shard, before.received number shard → after.received number shard
  phase : ∀ group shard, after.number group = before.number group →
    after.phase group shard = before.phase group shard ∨
    before.phase group shard = .awaiting ∧ after.phase group shard = .holding ∨
    before.phase group shard = .releasing ∧ after.phase group shard = .absent

end ShardedKV.Migration
