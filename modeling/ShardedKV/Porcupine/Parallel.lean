import ShardedKV.Porcupine.Decision
import ShardedKV.Transitions.Runs

/-!
# The check of all partitions

`checkParallel` runs one goroutine for each partition.  They share the flag `kill` and a buffered
channel of results; the main goroutine waits for results or for the timeout.  A step is one iteration of
a goroutine, one send, or one receive, in any order.
-/

namespace ShardedKV.Porcupine

variable {State Input Output : Type}

inductive CheckResult where
  | unknown
  | ok
  | illegal
deriving DecidableEq, Repr

/-- How far the goroutine of a partition has come. -/
inductive Worker (State : Type) where
  | spawned
  | running (check : Check State)
  /-- `checkSingle` has returned and `longest[i]` is set. -/
  | returned (ok : Bool)
  | sent

/-- Where the main goroutine is: in the loop with the `select`, behind it, or back in the caller. -/
inductive Main where
  | selecting
  | left
  | returned (result : CheckResult)
deriving DecidableEq, Repr

structure Parallel (State : Type) where
  worker : Nat → Worker State := fun _ => .spawned
  longest : Nat → List (Option (List Nat)) := fun _ => []
  /-- The results in the channel. -/
  results : List Bool := []
  kill : Bool := false
  main : Main := .selecting
  count : Nat := 0
  ok : Bool := true
  timedOut : Bool := false
  /-- A panic in any goroutine ends the process. -/
  crashed : Bool := false

namespace Parallel

/-- A new goroutine, an iteration of its loop, or its send. -/
def work (model : Model State Input Output) (partitions : List (List (Entry Input Output))) (computeInfo : Bool)
    (state : Parallel State) (i : Nat) : Option (Parallel State) :=
  match partitions[i]? with
  | none => none
  | some subhistory =>
    match state.worker i with
    | .spawned =>
      match startCheck model subhistory with
      | none => some { state with crashed := true }
      | some check => some { state with worker := Function.update state.worker i (.running check) }
    | .running check =>
      match iterate model (makeLinkedEntries subhistory).node check computeInfo state.kill with
      | .panics => some { state with crashed := true }
      | .continues check => some { state with worker := Function.update state.worker i (.running check) }
      | .returns ok l => some { state with
          worker := Function.update state.worker i (.returned ok)
          longest := Function.update state.longest i l }
    | .returned ok => some { state with
        worker := Function.update state.worker i .sent
        results := state.results ++ [ok] }
    | .sent => none

/-- `case result := <-results`. -/
def receive (partitions : Nat) (computeInfo : Bool) (state : Parallel State) : Option (Parallel State) :=
  match state.main, state.results with
  | .selecting, result :: results =>
    let count := state.count + 1
    let ok := state.ok && result
    if !ok && !computeInfo then some { state with results, count, ok, kill := true, main := .left }
    else if count ≥ partitions then some { state with results, count, ok, main := .left }
    else some { state with results, count, ok }
  | _, _ => none

/-- `case <-timeoutChan`; without a timeout the channel is nil. -/
def expire (timeout : Int) (state : Parallel State) : Option (Parallel State) :=
  if state.main = .selecting ∧ 0 < timeout then some { state with timedOut := true, kill := true, main := .left }
  else none

def result (state : Parallel State) : CheckResult :=
  if !state.ok then .illegal
  else if state.timedOut then .unknown
  else .ok

/-- What follows the loop: with `computeInfo` the other results are waited for. -/
def finish (partitions : Nat) (computeInfo : Bool) (state : Parallel State) : Option (Parallel State) :=
  if state.main = .left then
    if computeInfo ∧ state.count < partitions then
      match state.results with
      | [] => none
      | _ :: results => some { state with results, count := state.count + 1 }
    else some { state with main := .returned state.result }
  else none

inductive Action where
  | work (i : Nat)
  | receive
  | expire
  | finish
deriving DecidableEq, Repr

variable (model : Model State Input Output) (partitions : List (List (Entry Input Output))) (computeInfo : Bool)
  (timeout : Int)

def step (state : Parallel State) (action : Action) : Option (Parallel State) :=
  if state.crashed then none
  else
    match action with
    | .work i => state.work model partitions computeInfo i
    | .receive => state.receive partitions.length computeInfo
    | .expire => state.expire timeout
    | .finish => state.finish partitions.length computeInfo

/-- A state that `checkParallel` comes to. -/
def Reachable (state : Parallel State) : Prop :=
  ∃ actions, Transitions.run (step model partitions computeInfo timeout) {} actions = some state

/-- `info.partialLinearizations[i]`, as a set. -/
def partialLinearizations (state : Parallel State) (i : Nat) : List (List Nat) :=
  ((state.longest i).filterMap id).dedup

end Parallel

/-! ## One goroutine -/

/-- What a goroutine has found out about its partition; nothing is certain once it may have been killed. -/
structure Reported (model : Model State Input Output) (history : List (Operation Input Output))
    (computeInfo kill : Bool) (ok : Bool) (longest : List (Option (List Nat))) : Prop where
  accepts : ok = true → model.Linearizable history
  rejects : ok = false → kill = true ∨ ¬ model.Linearizable history
  legal : ∀ id known, longest[id]? = some (some known) → id ∈ known ∧ model.PartiallyExplains history known
  longest : computeInfo = true → kill = true ∨ ∀ order, model.PartiallyExplains history order → ∀ id ∈ order,
    ∃ known, longest[id]? = some (some known) ∧ order.length ≤ known.length

theorem Reported.killed {model : Model State Input Output} {history : List (Operation Input Output)}
    {computeInfo kill ok : Bool} {longest : List (Option (List Nat))}
    (reported : Reported model history computeInfo kill ok longest) :
    Reported model history computeInfo true ok longest :=
  { reported with rejects := fun _ => .inl rfl, longest := fun _ => .inl rfl }

section Worker

variable [Inhabited Input] [Inhabited Output] {model : Model State Input Output}
  {history : List (Operation Input Output)} {entries : List (Entry Input Output)} {computeInfo kill : Bool}

/-- A goroutine on the way to its result, with an upper bound for the steps it has still to take. -/
inductive Going (model : Model State Input Output) (history : List (Operation Input Output))
    (entries : List (Entry Input Output)) (computeInfo kill : Bool) (longest : List (Option (List Nat))) :
    Worker State → Nat → Prop where
  | spawned : Going model history entries computeInfo kill longest .spawned
      (Backtracking.cost (2 * history.length) + 3)
  | running {check : Check State} {bound : Nat}
      (searching : Searching (historyOf history entries) model (makeLinkedEntries entries).node entries.length
        (firstCheck model entries history.length).links computeInfo bound check) :
      Going model history entries computeInfo kill longest (.running check) (bound + 2)
  | returned {ok : Bool} (reported : Reported model history computeInfo kill ok longest) :
      Going model history entries computeInfo kill longest (.returned ok) 1
  | sent {ok : Bool} (reported : Reported model history computeInfo kill ok longest) :
      Going model history entries computeInfo kill longest .sent 0

theorem Going.killed {longest : List (Option (List Nat))} {worker : Worker State} {weight : Nat}
    (going : Going model history entries computeInfo kill longest worker weight) :
    Going model history entries computeInfo true longest worker weight := by
  cases going with
  | spawned => exact .spawned
  | running searching => exact .running searching
  | returned reported => exact .returned reported.killed
  | sent reported => exact .sent reported.killed

theorem MakesEntries.reported (made : MakesEntries history entries)
    (timed : ∀ operation ∈ history, operation.call ≤ operation.ret) {ok : Bool} {longest : List (Option (List Nat))}
    (decided : Decided (historyOf history entries) model computeInfo ok longest) (kill : Bool) :
    Reported model history computeInfo kill ok longest where
  accepts := fun accepted => (made.linearization_iff timed).mp (decided.ok.mp accepted)
  rejects := by
    rintro rfl
    refine .inr fun linearizable => ?_
    cases decided.ok.mpr ((made.linearization_iff timed).mpr linearizable)
  legal := by
    intro id known isKnown
    obtain ⟨member, isPartial⟩ := decided.recorded.legal id known isKnown
    exact ⟨member, (made.partial_iff timed).mp isPartial⟩
  longest := fun computes => .inr fun order explains =>
    decided.longest computes order ((made.partial_iff timed).mpr explains)

theorem Going.iterate (sound : model.EqualSound) (made : MakesEntries history entries)
    (timed : ∀ operation ∈ history, operation.call ≤ operation.ret) {check : Check State} {bound : Nat}
    (searching : Searching (historyOf history entries) model (makeLinkedEntries entries).node entries.length
      (firstCheck model entries history.length).links computeInfo bound check) (kill : Bool) :
    (∃ after, ∃ less < bound + 2,
      Porcupine.iterate model (makeLinkedEntries entries).node check computeInfo kill = .continues after ∧
      ∀ longest, Going model history entries computeInfo kill longest (.running after) less) ∨
    ∃ ok longest, Porcupine.iterate model (makeLinkedEntries entries).node check computeInfo kill =
        .returns ok longest ∧ Reported model history computeInfo kill ok longest := by
  have fits := (made.placed timed).fits
  cases kill with
  | false =>
    rcases searching.iterate fits sound with
      ⟨after, less, smaller, continues, further⟩ | ⟨ok, longest, returns, decided⟩
    · exact .inl ⟨after, less + 2, by omega, continues, fun _ => .running further⟩
    · exact .inr ⟨ok, longest, returns, made.reported timed decided false⟩
  | true =>
    obtain ⟨ok, longest, returns, recorded, decided⟩ := searching.iterate_killed fits
    refine .inr ⟨ok, longest, returns, ?_, fun _ => .inl rfl, fun id known isKnown => ?_, fun _ => .inl rfl⟩
    · exact fun accepted => (made.linearization_iff timed).mp ((decided accepted).ok.mp accepted)
    · obtain ⟨member, isPartial⟩ := recorded.legal id known isKnown
      exact ⟨member, (made.partial_iff timed).mp isPartial⟩

end Worker

end ShardedKV.Porcupine
