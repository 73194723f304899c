import ShardedKV.Linked.Doubly
import ShardedKV.Porcupine.Bitset

/-!
# The linearizability checker

`porcupine/checker.go` for one partition of a history: the entries in a doubly linked list, and the
loop of `checkSingle` that takes a call out of the list together with its return, puts both back when
it meets a return entry, and remembers the states it has been in.
-/

namespace ShardedKV.Porcupine

open Linked (Links)

variable {State Input Output : Type}

/-- `Model`, without what is for partitioning and for drawing. -/
structure Model (State Input Output : Type) where
  init : State
  step : State → Input → Output → Bool × State
  equal : State → State → Bool

/-- An operation with the times of its invocation and response. -/
structure Operation (Input Output : Type) where
  clientId : Int := 0
  input : Input
  call : Int
  output : Output
  ret : Int
deriving DecidableEq, Inhabited, Repr

/-! ## Entries -/

inductive EntryKind where
  | callEntry
  | returnEntry
deriving DecidableEq, Repr

/-- What the `interface{}` of an entry holds. -/
inductive Value (Input Output : Type) where
  | input (value : Input)
  | output (value : Output)
deriving DecidableEq, Repr

structure Entry (Input Output : Type) where
  kind : EntryKind
  value : Value Input Output
  id : Nat
  time : Int
  clientId : Int
deriving DecidableEq, Repr

/-- `byTime.Less`: at the same time calls come before returns. -/
def Entry.less (a b : Entry Input Output) : Bool :=
  if a.time ≠ b.time then a.time < b.time
  else a.kind = .callEntry ∧ b.kind = .returnEntry

/-- The loop of `makeEntries`, from a number on. -/
def entriesFrom (id : Nat) : List (Operation Input Output) → List (Entry Input Output)
  | [] => []
  | elem :: history =>
    { kind := .callEntry, value := .input elem.input, id, time := elem.call, clientId := elem.clientId } ::
    { kind := .returnEntry, value := .output elem.output, id, time := elem.ret, clientId := elem.clientId } ::
    entriesFrom (id + 1) history

/-- What `makeEntries` may return: `sort.Sort` puts the entries in some order that `Less` does not
contradict. -/
structure MakesEntries (history : List (Operation Input Output)) (entries : List (Entry Input Output)) : Prop where
  perm : entries.Perm (entriesFrom 0 history)
  sorted : entries.Pairwise fun a b => b.less a = false

/-! ## The linked list -/

structure Node (Input Output : Type) where
  value : Value Input Output
  /-- `match`: the return entry of a call, nil for a return entry. -/
  matching : Option Nat
  id : Nat
deriving DecidableEq, Repr

def insertBefore (links : Links Nat) (n : Nat) (mark : Option Nat) : Links Nat :=
  match mark with
  | none => links
  | some mark =>
    let beforeMark := links.prev mark
    let links := (links.setPrev mark (some n)).setNext n (some mark)
    match beforeMark with
    | none => links
    | some beforeMark => (links.setPrev n (some beforeMark)).setNext beforeMark (some n)

/-- The variables of `makeLinkedEntries`, with the nodes it has made. -/
structure LinkedEntries (Input Output : Type) where
  root : Option Nat := none
  links : Links Nat := ⟨fun _ => none, fun _ => none⟩
  node : Nat → Option (Node Input Output) := fun _ => none
  matching : Nat → Option Nat := fun _ => none

/-- The loop goes backwards.  The node of an entry has the position of the entry as its address. -/
def linkedFrom (address : Nat) : List (Entry Input Output) → LinkedEntries Input Output
  | [] => {}
  | elem :: rest =>
    let made := linkedFrom (address + 1) rest
    let links := insertBefore made.links address made.root
    if elem.kind = .returnEntry then {
      root := some address
      links
      node := Function.update made.node address (some { value := elem.value, matching := none, id := elem.id })
      matching := Function.update made.matching elem.id (some address) }
    else {
      root := some address
      links
      node := Function.update made.node address
        (some { value := elem.value, matching := made.matching elem.id, id := elem.id })
      matching := made.matching }

/-- Address 0 is left for the head entry. -/
def makeLinkedEntries (entries : List (Entry Input Output)) : LinkedEntries Input Output := linkedFrom 1 entries

def headEntry : Nat := 0

/-- `length`, which stops at nil; `none` when it does not get there. -/
def length (links : Links Nat) : Nat → Option Nat → Option Nat
  | _, none => some 0
  | 0, some _ => none
  | fuel + 1, some n => (length links fuel (links.next n)).map (· + 1)

/-- `none` is a nil dereference. -/
def lift (links : Links Nat) (entry matching : Nat) : Option (Links Nat) :=
  match links.prev entry with
  | none => none
  | some before =>
    let links := links.setNext before (links.next entry)
    match links.next entry with
    | none => none
    | some after =>
      let links := links.setPrev after (links.prev entry)
      match links.prev matching with
      | none => none
      | some before =>
        let links := links.setNext before (links.next matching)
        match links.next matching with
        | none => some links
        | some after => some (links.setPrev after (links.prev matching))

def unlift (links : Links Nat) (entry matching : Nat) : Option (Links Nat) :=
  match links.prev matching with
  | none => none
  | some before =>
    let links := links.setNext before (some matching)
    let links :=
      match links.next matching with
      | none => links
      | some after => links.setPrev after (some matching)
    match links.prev entry with
    | none => none
    | some before =>
      let links := links.setNext before (some entry)
      match links.next entry with
      | none => none
      | some after => some (links.setPrev after (some entry))

/-! ## The loop of `checkSingle` -/

/-- The variables of `checkSingle`. -/
structure Check (State : Type) where
  links : Links Nat
  entry : Option Nat
  state : State
  linearized : Bitset
  /-- Map from hash to cache entries. -/
  cache : BitVec 64 → List (Bitset × State) := fun _ => []
  /-- The stack of calls that were taken out, the last one first, with the states before them. -/
  calls : List (Nat × State) := []
  /-- The longest linearizable prefix that includes the given entry. -/
  longest : List (Option (List Nat))

def cacheContains (model : Model State Input Output) (cache : BitVec 64 → List (Bitset × State))
    (linearized : Bitset) (state : State) : Bool :=
  (cache linearized.hash).any fun elem => linearized.equals elem.1 && model.equal state elem.2

/-- What one iteration does. -/
inductive Iteration (State : Type) where
  | continues (check : Check State)
  | returns (ok : Bool) (longest : List (Option (List Nat)))
  | panics

/-- The ids on the stack, the first call first. -/
def seq (node : Nat → Option (Node Input Output)) (calls : List (Nat × State)) : List Nat :=
  calls.reverse.filterMap fun call => (node call.1).map Node.id

/-- The loop over `calls` that updates `longest`; `none` is an index out of range. -/
def recordLongest (seq : List Nat) : List Nat → List (Option (List Nat)) → Option (List (Option (List Nat)))
  | [], longest => some longest
  | id :: rest, longest =>
    match longest[id]? with
    | none => none
    | some none => recordLongest seq rest (longest.set id (some seq))
    | some (some known) =>
      recordLongest seq rest (if known.length < seq.length then longest.set id (some seq) else longest)

section Loop

variable (model : Model State Input Output) (node : Nat → Option (Node Input Output)) (check : Check State)

/-- The entry is a call. -/
def tryCall (address : Nat) (entry : Node Input Output) (matching : Nat) : Iteration State :=
  match entry.value, (node matching).map Node.value with
  | .input input, some (.output output) =>
    let (ok, newState) := model.step check.state input output
    if ok then
      match check.linearized.set entry.id with
      | none => .panics
      | some newLinearized =>
        if cacheContains model check.cache newLinearized newState then
          .continues { check with entry := check.links.next address }
        else
          match lift check.links address matching with
          | none => .panics
          | some links => .continues { check with
              links
              entry := links.next headEntry
              state := newState
              linearized := newLinearized
              cache := Function.update check.cache newLinearized.hash
                (check.cache newLinearized.hash ++ [(newLinearized, newState)])
              calls := (address, check.state) :: check.calls }
    else .continues { check with entry := check.links.next address }
  -- the model asserts the types of its arguments
  | _, _ => .panics

/-- The entry is a return: the last call goes back into the list. -/
def backtrack (computePartial : Bool) : Iteration State :=
  match check.calls with
  | [] => .returns false check.longest
  | (address, state) :: calls =>
    let ids := seq node check.calls
    match if computePartial then recordLongest ids ids check.longest else some check.longest with
    | none => .panics
    | some longest =>
      match node address with
      | none => .panics
      | some entry =>
        match entry.matching with
        | none => .panics
        | some matching =>
          match check.linearized.clear entry.id, unlift check.links address matching with
          | some linearized, some links =>
            .continues { check with links, entry := links.next address, state, linearized, calls, longest }
          | _, _ => .panics

def iterate (computePartial kill : Bool) : Iteration State :=
  match check.links.next headEntry with
  | none => .returns true (List.replicate check.longest.length (some (seq node check.calls)))
  | some _ =>
    if kill then .returns false check.longest
    else
      match check.entry with
      | none => .panics
      | some address =>
        match node address with
        | none => .panics
        | some entry =>
          match entry.matching with
          | some matching => tryCall model node check address entry matching
          | none => backtrack node check computePartial

/-- The loop, for so many iterations. -/
def loop (computePartial kill : Bool) : Nat → Check State → Option (Bool × List (Option (List Nat)))
  | 0, _ => none
  | fuel + 1, check =>
    match iterate model node check computePartial kill with
    | .continues check => loop computePartial kill fuel check
    | .returns ok longest => some (ok, longest)
    | .panics => none

end Loop

/-- `checkSingle` up to the loop. -/
def startCheck (model : Model State Input Output) (history : List (Entry Input Output)) : Option (Check State) :=
  let made := makeLinkedEntries history
  (length made.links history.length made.root).map fun total => {
    links := insertBefore made.links headEntry made.root
    entry := made.root
    state := model.init
    linearized := newBitset (total / 2)
    longest := List.replicate (total / 2) none }

/-- `none` when the loop does not return within its fuel, or panics. -/
def checkSingle (model : Model State Input Output) (history : List (Entry Input Output)) (computePartial kill : Bool)
    (fuel : Nat) : Option (Bool × List (Option (List Nat))) :=
  (startCheck model history).bind (loop model (makeLinkedEntries history).node computePartial kill fuel)

end ShardedKV.Porcupine
