import Mathlib.Algebra.BigOperators.Group.Finset.Basic
import Mathlib.Algebra.Order.BigOperators.Group.Finset
import ShardedKV.Porcupine.Parallel

/-!
# What `checkParallel` returns

The main goroutine knows of every result which partition it is for, although the channel does not say:
there are as many results as goroutines that have sent one.  While it is in its loop nothing has been
killed, so that every result is one that `checkSingle` has decided.
-/

namespace ShardedKV.Porcupine

variable {State Input Output : Type}

/-! ## All goroutines -/

section All

variable [Inhabited Input] [Inhabited Output] (model : Model State Input Output)
  (histories : List (List (Operation Input Output))) (partitions : List (List (Entry Input Output)))
  (computeInfo : Bool) (timeout : Int)

/-- What the main goroutine knows, with what has been sent to it: the results it has seen and those that
are still in the channel, each with its partition. -/
structure Coordinated (weight : Nat → Nat) (seen pending : List (Nat × Bool)) (state : Parallel State) : Prop where
  alive : state.crashed = false
  going : ∀ i history entries, histories[i]? = some history → partitions[i]? = some entries →
    Going model history entries computeInfo state.kill (state.longest i) (state.worker i) (weight i)
  results : state.results = pending.map Prod.snd
  count : state.count = seen.length
  nodup : ((seen ++ pending).map Prod.fst).Nodup
  sent : ∀ i, i ∈ (seen ++ pending).map Prod.fst ↔ i < partitions.length ∧ state.worker i = .sent
  told : ∀ i result, (i, result) ∈ seen ++ pending → ∀ history, histories[i]? = some history →
    (result = true → model.Linearizable history) ∧ (result = false → state.kill = true ∨ ¬ model.Linearizable history)
  selecting : state.main = .selecting → state.kill = false ∧ state.timedOut = false ∧
    state.ok = seen.all Prod.snd ∧ (seen.length < partitions.length ∨ partitions = [])
  verdict : state.main ≠ .selecting → (state.ok = false → ∃ history ∈ histories, ¬ model.Linearizable history) ∧
    (state.ok = true → state.timedOut = false → ∀ history ∈ histories, model.Linearizable history)
  expired : state.timedOut = true → 0 < timeout
  killed : computeInfo = true → state.kill = true → state.timedOut = true
  returned : ∀ result, state.main = .returned result → result = state.result ∧
    (computeInfo = true → partitions.length ≤ state.count)

/-- The steps that are left for the main goroutine. -/
def Main.weight (partitions count : Nat) : Main → Nat
  | .selecting => partitions - count + 2
  | .left => partitions - count + 1
  | .returned _ => 0

def Parallel.weight (weight : Nat → Nat) (state : Parallel State) : Nat :=
  ∑ i ∈ Finset.range partitions.length, weight i + state.main.weight partitions.length state.count

/-- What is known is known of the state too, and fewer than `bound` steps are left. -/
def Advances (bound : Nat) (state : Parallel State) : Prop :=
  ∃ weight seen pending, Coordinated model histories partitions computeInfo timeout weight seen pending state ∧
    state.weight partitions weight < bound

variable {model histories partitions computeInfo timeout} {weight : Nat → Nat} {seen pending : List (Nat × Bool)}
  {state next : Parallel State}

theorem coordinated_initial : Coordinated model histories partitions computeInfo timeout
    (fun i => Backtracking.cost (2 * (histories[i]?.getD []).length) + 3) [] [] {} where
  alive := rfl
  going := by
    intro i history entries isHistory _
    rw [isHistory]
    exact .spawned
  results := rfl
  count := rfl
  nodup := List.nodup_nil
  sent := by simp
  told := by simp
  selecting := fun _ => ⟨rfl, rfl, rfl,
    (Nat.eq_zero_or_pos partitions.length).symm.imp_right List.eq_nil_of_length_eq_zero⟩
  verdict := by simp
  expired := by simp
  killed := by simp
  returned := by simp

theorem sum_update_lt {count i less : Nat} (inside : i < count) (smaller : less < weight i) :
    ∑ j ∈ Finset.range count, Function.update weight i less j < ∑ j ∈ Finset.range count, weight j := by
  refine Finset.sum_lt_sum (fun j _ => ?_) ⟨i, Finset.mem_range.mpr inside, by simpa using smaller⟩
  by_cases same : j = i
  · subst same
    simpa using smaller.le
  · rw [Function.update_of_ne same]

/-- What `checkParallel` is given: entries of each of the histories, whose operations return after they
are called. -/
def Given (histories : List (List (Operation Input Output))) (partitions : List (List (Entry Input Output))) : Prop :=
  List.Forall₂ (fun history entries => MakesEntries history entries ∧
    ∀ operation ∈ history, operation.call ≤ operation.ret) histories partitions

omit [Inhabited Input] [Inhabited Output] in
theorem Given.at (given : Given histories partitions) {i : Nat} {entries : List (Entry Input Output)}
    (isEntries : partitions[i]? = some entries) :
    ∃ history, histories[i]? = some history ∧ MakesEntries history entries ∧
      ∀ operation ∈ history, operation.call ≤ operation.ret := by
  obtain ⟨inside, rfl⟩ := List.getElem?_eq_some_iff.mp isEntries
  have inside' : i < histories.length := given.length_eq ▸ inside
  exact ⟨_, List.getElem?_eq_getElem inside', given.get inside' inside⟩

omit [Inhabited Input] [Inhabited Output] in
theorem work_ne_none {i : Nat} (inside : i < partitions.length) (notSent : state.worker i ≠ .sent) :
    state.work model partitions computeInfo i ≠ none := by
  unfold Parallel.work
  rw [List.getElem?_eq_getElem inside]
  cases isWorker : state.worker i with
  | spawned => dsimp only; split <;> simp
  | running check => dsimp only; split <;> simp
  | returned ok => simp
  | sent => exact absurd isWorker notSent

section Steps

variable (coordinated : Coordinated model histories partitions computeInfo timeout weight seen pending state)
include coordinated

theorem Coordinated.moved {i less : Nat} {worker : Worker State} (longest : List (Option (List Nat)))
    (inside : i < partitions.length) (notYet : state.worker i ≠ .sent) (notNow : worker ≠ .sent)
    (smaller : less < weight i)
    (going : ∀ history entries, histories[i]? = some history → partitions[i]? = some entries →
      Going model history entries computeInfo state.kill longest worker less) :
    Advances model histories partitions computeInfo timeout (state.weight partitions weight) { state with
      worker := Function.update state.worker i worker
      longest := Function.update state.longest i longest } := by
  refine ⟨Function.update weight i less, seen, pending, { coordinated with going := ?_, sent := ?_ },
    Nat.add_lt_add_right (sum_update_lt inside smaller) _⟩
  · intro j history entries isHistory isEntries
    by_cases same : j = i
    · subst same
      simpa using going history entries isHistory isEntries
    · simpa [Function.update_of_ne same] using coordinated.going j history entries isHistory isEntries
  · intro j
    rw [coordinated.sent j]
    by_cases same : j = i
    · subst same
      simp [notYet, notNow]
    · simp [Function.update_of_ne same]

theorem Coordinated.sends {i : Nat} {ok : Bool} (inside : i < partitions.length)
    (isWorker : state.worker i = .returned ok) (waits : 0 < weight i)
    (reported : ∀ history, histories[i]? = some history →
      Reported model history computeInfo state.kill ok (state.longest i)) :
    Advances model histories partitions computeInfo timeout (state.weight partitions weight) { state with
      worker := Function.update state.worker i .sent
      results := state.results ++ [ok] } := by
  have fresh : i ∉ (seen ++ pending).map Prod.fst := by
    rw [coordinated.sent i, isWorker]
    simp
  refine ⟨Function.update weight i 0, seen, pending ++ [(i, ok)],
    { coordinated with going := ?_, results := ?_, nodup := ?_, sent := ?_, told := ?_ },
    Nat.add_lt_add_right (sum_update_lt inside waits) _⟩
  · intro j history entries isHistory isEntries
    by_cases same : j = i
    · subst same
      simpa using Going.sent (reported history isHistory)
    · simpa [Function.update_of_ne same] using coordinated.going j history entries isHistory isEntries
  · simp [coordinated.results]
  · rw [← List.append_assoc, List.map_append, List.map_singleton]
    exact List.nodup_append.mpr ⟨coordinated.nodup, List.nodup_singleton _, by
      intro j member k isLast
      rw [List.mem_singleton.mp isLast]
      rintro rfl
      exact fresh member⟩
  · intro j
    rw [← List.append_assoc, List.map_append, List.mem_append, coordinated.sent j]
    by_cases same : j = i
    · subst same
      simp [inside]
    · simp [same]
  · intro j result member history isHistory
    rw [← List.append_assoc, List.mem_append, List.mem_singleton] at member
    rcases member with old | new
    · exact coordinated.told j result old history isHistory
    · cases new
      exact ⟨(reported history isHistory).accepts, (reported history isHistory).rejects⟩

theorem Coordinated.work (sound : model.EqualSound) (given : Given histories partitions) {i : Nat}
    (worked : state.work model partitions computeInfo i = some next) :
    Advances model histories partitions computeInfo timeout (state.weight partitions weight) next := by
  unfold Parallel.work at worked
  split at worked
  · cases worked
  rename_i entries isEntries
  have inside : i < partitions.length := (List.getElem?_eq_some_iff.mp isEntries).1
  obtain ⟨history, isHistory, made, timed⟩ := given.at isEntries
  have going := coordinated.going i history entries isHistory isEntries
  -- the goroutine's partition is the only one to be asked about
  have only : ∀ {longest worker less}, Going model history entries computeInfo state.kill longest worker less →
      ∀ other otherEntries, histories[i]? = some other → partitions[i]? = some otherEntries →
        Going model other otherEntries computeInfo state.kill longest worker less := by
    intro longest worker less here other otherEntries isOther isOtherEntries
    rw [isHistory, Option.some.injEq] at isOther
    rw [isEntries, Option.some.injEq] at isOtherEntries
    rwa [← isOther, ← isOtherEntries]
  split at worked
  · -- the goroutine begins its check
    rename_i isWorker
    rw [(made.placed timed).startCheck_eq] at worked
    cases worked
    rw [isWorker] at going
    generalize isWeight : weight i = here at going
    cases going
    have moved := coordinated.moved (state.longest i) inside (by simp [isWorker]) (by simp) (by omega)
      (only (.running ((made.placed timed).searching_start sound computeInfo)))
    rw [Function.update_eq_self] at moved
    exact moved
  · -- it goes through one iteration, after which its check may return
    rename_i check isWorker
    rw [isWorker] at going
    generalize isWeight : weight i = here at going
    cases going with
    | running searching =>
      rcases Going.iterate sound made timed searching state.kill with
        ⟨after, less, smaller, continues, further⟩ | ⟨ok, longest, returns, reported⟩
      · rw [continues] at worked
        cases worked
        have moved := coordinated.moved (state.longest i) inside (by simp [isWorker]) (by simp)
          (by omega) (only (further _))
        rw [Function.update_eq_self] at moved
        exact moved
      · rw [returns] at worked
        cases worked
        exact coordinated.moved longest inside (by simp [isWorker]) (by simp) (by omega) (only (.returned reported))
  · rename_i ok isWorker
    cases worked
    rw [isWorker] at going
    generalize isWeight : weight i = here at going
    cases going with
    | returned reported =>
      refine coordinated.sends inside isWorker (by omega) fun other isOther => ?_
      rw [isHistory, Option.some.injEq] at isOther
      exact isOther ▸ reported
  · cases worked

/-! ## The main goroutine -/

/-- A result that was false came from a partition that has no linearization, if nothing was killed. -/
theorem Coordinated.rejected (given : Given histories partitions) (notKilled : state.kill = false)
    {received : List (Nat × Bool)} (among : received <+: seen ++ pending) (notAll : received.all Prod.snd = false) :
    ∃ history ∈ histories, ¬ model.Linearizable history := by
  obtain ⟨⟨i, result⟩, member, isFalse⟩ := List.all_eq_false.mp notAll
  have isSent := (coordinated.sent i).mp (List.mem_map.mpr ⟨_, among.subset member, rfl⟩)
  obtain ⟨history, isHistory, -⟩ := given.at (List.getElem?_eq_getElem isSent.1)
  have told := (coordinated.told i result (among.subset member) history isHistory).2 (by simpa using isFalse)
  rcases told with killed | not
  · rw [notKilled] at killed
    cases killed
  · exact ⟨history, List.mem_of_getElem? isHistory, not⟩

theorem Coordinated.all_received {received : List (Nat × Bool)} (among : received <+: seen ++ pending)
    (enough : partitions.length ≤ received.length) {i : Nat} (inside : i < partitions.length) :
    i ∈ received.map Prod.fst := by
  have nodup : (received.map Prod.fst).Nodup := coordinated.nodup.sublist ((among.map _).sublist)
  have bounded : received.map Prod.fst ⊆ List.range partitions.length := fun j member =>
    List.mem_range.mpr ((coordinated.sent j).mp ((among.map _).subset member)).1
  rw [((nodup.subperm bounded).perm_of_length_le (by simpa using enough)).mem_iff]
  exact List.mem_range.mpr inside

/-- When as many results as there are partitions were true, all partitions have linearizations. -/
theorem Coordinated.accepted (given : Given histories partitions) {received : List (Nat × Bool)}
    (among : received <+: seen ++ pending) (allTrue : received.all Prod.snd = true)
    (enough : partitions.length ≤ received.length) : ∀ history ∈ histories, model.Linearizable history := by
  intro history isHistory
  obtain ⟨i, inside, rfl⟩ := List.getElem_of_mem isHistory
  have member := coordinated.all_received among enough (given.length_eq ▸ inside)
  obtain ⟨⟨j, result⟩, isReceived, rfl⟩ := List.mem_map.mp member
  have accepted : result = true := List.all_eq_true.mp allTrue _ isReceived
  exact (coordinated.told j result (among.subset isReceived) _ (List.getElem?_eq_getElem inside)).1 accepted

theorem Coordinated.receive (given : Given histories partitions)
    (received : state.receive partitions.length computeInfo = some next) :
    Advances model histories partitions computeInfo timeout (state.weight partitions weight) next := by
  unfold Parallel.receive at received
  split at received
  · rename_i result results isMain isResults
    obtain ⟨notKilled, notTimedOut, isOk, few⟩ := coordinated.selecting isMain
    have isPending := coordinated.results
    rw [isResults] at isPending
    cases pending with
    | nil => cases isPending
    | cons first rest =>
      obtain ⟨i, told⟩ := first
      rw [List.map_cons, List.cons.injEq] at isPending
      obtain ⟨rfl, rfl⟩ := isPending
      have regroup : (seen ++ [(i, result)]) ++ rest = seen ++ (i, result) :: rest := by simp
      have among : seen ++ [(i, result)] <+: seen ++ (i, result) :: rest := regroup ▸ (List.prefix_append _ _)
      have okAll : (state.ok && result) = (seen ++ [(i, result)]).all Prod.snd := by simp [isOk]
      have counted : state.count + 1 = (seen ++ [(i, result)]).length := by simp [coordinated.count]
      have nodup := coordinated.nodup
      have sent := coordinated.sent
      have told := coordinated.told
      rw [← regroup] at nodup sent told
      dsimp only at received
      split at received
      · -- the first result that is false ends the loop and kills the others
        rename_i gaveUp
        simp only [Bool.and_eq_true, Bool.not_eq_true'] at gaveUp
        cases received
        refine ⟨weight, _, rest, ⟨coordinated.alive, ?_, rfl, counted, nodup, sent, ?_, by simp, ?_,
          coordinated.expired, ?_, by simp⟩, ?_⟩
        · exact fun j history entries isHistory isEntries =>
            (coordinated.going j history entries isHistory isEntries).killed
        · exact fun j told' member history isHistory => ⟨(told j told' member history isHistory).1, fun _ => .inl rfl⟩
        · refine fun _ => ⟨fun _ => coordinated.rejected given notKilled among (okAll ▸ gaveUp.1), fun isTrue => ?_⟩
          dsimp only at isTrue
          rw [gaveUp.1] at isTrue
          cases isTrue
        · intro computes
          rw [gaveUp.2] at computes
          cases computes
        · simp only [Parallel.weight, Main.weight, isMain]
          omega
      · split at received
        · -- the last result
          rename_i all
          cases received
          refine ⟨weight, _, rest, ⟨coordinated.alive, coordinated.going, rfl, counted, nodup, sent, told, by simp, ?_,
            coordinated.expired, coordinated.killed, by simp⟩, ?_⟩
          · exact fun _ => ⟨fun isFalse => coordinated.rejected given notKilled among (okAll ▸ isFalse),
              fun isTrue _ => coordinated.accepted given among (okAll ▸ isTrue) (counted ▸ all)⟩
          · simp only [Parallel.weight, Main.weight, isMain]
            omega
        · rename_i some
          cases received
          refine ⟨weight, _, rest, ⟨coordinated.alive, coordinated.going, rfl, counted, nodup, sent, told, ?_, ?_,
            coordinated.expired, coordinated.killed, ?_⟩, ?_⟩
          · refine fun _ => ⟨notKilled, notTimedOut, okAll, .inl ?_⟩
            rw [← counted]
            omega
          · simp [isMain]
          · simp [isMain]
          · simp only [Parallel.weight, Main.weight, isMain]
            omega
  · cases received

theorem Coordinated.expire (given : Given histories partitions) (expired : state.expire timeout = some next) :
    Advances model histories partitions computeInfo timeout (state.weight partitions weight) next := by
  unfold Parallel.expire at expired
  split at expired
  · rename_i possible
    obtain ⟨isMain, positive⟩ := possible
    cases expired
    obtain ⟨notKilled, -, isOk, -⟩ := coordinated.selecting isMain
    refine ⟨weight, seen, pending, { coordinated with
      going := ?_, told := ?_, selecting := by simp, verdict := ?_, expired := fun _ => positive
      killed := fun _ _ => rfl, returned := by simp }, ?_⟩
    · exact fun i history entries isHistory isEntries =>
        (coordinated.going i history entries isHistory isEntries).killed
    · exact fun i told member history isHistory =>
        ⟨(coordinated.told i told member history isHistory).1, fun _ => .inl rfl⟩
    · exact fun _ =>
        ⟨fun isFalse => coordinated.rejected given notKilled (List.prefix_append _ _) (isOk ▸ isFalse), by simp⟩
    · simp only [Parallel.weight, Main.weight, isMain]
      omega
  · cases expired

theorem Coordinated.finish (finished : state.finish partitions.length computeInfo = some next) :
    Advances model histories partitions computeInfo timeout (state.weight partitions weight) next := by
  unfold Parallel.finish at finished
  split at finished
  · rename_i isMain
    split at finished
    · rename_i waits
      split at finished
      · cases finished
      · rename_i result results isResults
        cases finished
        have isPending := coordinated.results
        rw [isResults] at isPending
        cases pending with
        | nil => cases isPending
        | cons first rest =>
          rw [List.map_cons, List.cons.injEq] at isPending
          have regroup : (seen ++ [first]) ++ rest = seen ++ first :: rest := by simp
          have nodup := coordinated.nodup
          have sent := coordinated.sent
          have told := coordinated.told
          rw [← regroup] at nodup sent told
          refine ⟨weight, seen ++ [first], rest, { coordinated with
            results := isPending.2, count := by simp [coordinated.count], nodup, sent, told
            selecting := by simp [isMain], returned := by simp [isMain] }, ?_⟩
          simp only [Parallel.weight, Main.weight, isMain]
          omega
    · rename_i done
      cases finished
      refine ⟨weight, seen, pending, { coordinated with selecting := by simp, verdict := ?_, returned := ?_ }, ?_⟩
      · exact fun _ => coordinated.verdict (by simp [isMain])
      · rintro result ⟨⟩
        refine ⟨rfl, fun computes => ?_⟩
        by_contra few
        exact done ⟨computes, Nat.lt_of_not_le few⟩
      · simp only [Parallel.weight, Main.weight, isMain]
        omega
  · cases finished

theorem Coordinated.step (sound : model.EqualSound) (given : Given histories partitions) {action : Parallel.Action}
    (stepped : state.step model partitions computeInfo timeout action = some next) :
    Advances model histories partitions computeInfo timeout (state.weight partitions weight) next := by
  simp only [Parallel.step, coordinated.alive, Bool.false_eq_true, if_false] at stepped
  cases action with
  | work i => exact coordinated.work sound given stepped
  | receive => exact coordinated.receive given stepped
  | expire => exact coordinated.expire given stepped
  | finish => exact coordinated.finish stepped

theorem Coordinated.run (sound : model.EqualSound) (given : Given histories partitions)
    {actions : List Parallel.Action}
    (ran : Transitions.run (Parallel.step model partitions computeInfo timeout) state actions = some next) :
    ∃ weight' seen' pending', Coordinated model histories partitions computeInfo timeout weight' seen' pending' next ∧
      next.weight partitions weight' + actions.length ≤ state.weight partitions weight := by
  induction actions generalizing state weight seen pending with
  | nil =>
    cases ran
    exact ⟨weight, seen, pending, coordinated, le_rfl⟩
  | cons action actions inductionHypothesis =>
    obtain ⟨middle, stepped, rest⟩ := Option.bind_eq_some_iff.mp ran
    obtain ⟨weight', seen', pending', kept, fewer⟩ := coordinated.step sound given stepped
    obtain ⟨weight'', seen'', pending'', final, enough⟩ := inductionHypothesis kept rest
    refine ⟨weight'', seen'', pending'', final, ?_⟩
    rw [List.length_cons]
    omega

theorem Coordinated.all_sent (all : ∀ i < partitions.length, state.worker i = .sent) :
    seen.length + pending.length = partitions.length := by
  have perm : ((seen ++ pending).map Prod.fst).Perm (List.range partitions.length) := by
    rw [List.perm_ext_iff_of_nodup coordinated.nodup List.nodup_range]
    intro i
    rw [coordinated.sent i, List.mem_range]
    exact ⟨And.left, fun inside => ⟨inside, all i inside⟩⟩
  simpa using perm.length_eq

theorem Coordinated.progress (stuck : ∀ action, state.step model partitions computeInfo timeout action = none) :
    (∃ result, state.main = .returned result) ∨ partitions = [] ∧ timeout ≤ 0 := by
  simp only [Parallel.step, coordinated.alive, Bool.false_eq_true, if_false] at stuck
  have all : ∀ i < partitions.length, state.worker i = .sent := by
    intro i inside
    by_contra notSent
    exact work_ne_none inside notSent (stuck (.work i))
  have total := coordinated.all_sent all
  cases isMain : state.main with
  | returned result => exact .inl ⟨result, rfl⟩
  | selecting =>
    right
    obtain ⟨-, -, -, few⟩ := coordinated.selecting isMain
    have waits := stuck .expire
    simp only [Parallel.expire, isMain, true_and, ite_eq_right_iff, reduceCtorEq, imp_false] at waits
    have nothing := stuck .receive
    cases pending with
    | nil => exact ⟨few.resolve_left (by simpa using total.ge), by omega⟩
    | cons first rest =>
      simp only [Parallel.receive, isMain, coordinated.results, List.map_cons] at nothing
      repeat' split at nothing
      all_goals cases nothing
  | left =>
    have nothing := stuck .finish
    simp only [Parallel.finish, isMain, if_true] at nothing
    split at nothing
    · rename_i waits
      cases pending with
      | nil =>
        have := coordinated.count
        rw [List.length_nil] at total
        omega
      | cons first rest =>
        rw [coordinated.results] at nothing
        cases nothing
    · cases nothing

theorem Coordinated.result_spec {result : CheckResult} (isMain : state.main = .returned result) :
    (result = .ok → ∀ history ∈ histories, model.Linearizable history) ∧
      (result = .illegal → ∃ history ∈ histories, ¬ model.Linearizable history) ∧
      (result = .unknown → 0 < timeout) := by
  obtain ⟨rfl, -⟩ := coordinated.returned result isMain
  obtain ⟨rejects, accepts⟩ := coordinated.verdict (by simp [isMain])
  unfold Parallel.result
  cases isOk : state.ok with
  | false => exact ⟨by simp, fun _ => rejects isOk, by simp⟩
  | true =>
    cases isTimedOut : state.timedOut with
    | false => exact ⟨fun _ => accepts isOk isTimedOut, by simp, by simp⟩
    | true => exact ⟨by simp, by simp, fun _ => coordinated.expired isTimedOut⟩

end Steps

/-! ## Results -/

/-- No more steps than this are taken by all goroutines together. -/
def Parallel.bound (histories : List (List (Operation Input Output))) : Nat :=
  ∑ i ∈ Finset.range histories.length, (Backtracking.cost (2 * (histories[i]?.getD []).length) + 3) +
    (histories.length + 2)

theorem Parallel.Reachable.coordinated (reached : state.Reachable model partitions computeInfo timeout)
    (sound : model.EqualSound) (given : Given histories partitions) :
    ∃ weight seen pending, Coordinated model histories partitions computeInfo timeout weight seen pending state := by
  obtain ⟨actions, ran⟩ := reached
  obtain ⟨weight, seen, pending, coordinated, -⟩ := coordinated_initial.run sound given ran
  exact ⟨weight, seen, pending, coordinated⟩

/-- However the goroutines are scheduled: none of them panics; Ok is returned only if every partition has
a linearization and Illegal only if some partition has none; Unknown is returned only after a timeout. -/
theorem checkParallel_result (sound : model.EqualSound) (given : Given histories partitions)
    (reached : state.Reachable model partitions computeInfo timeout) :
    state.crashed = false ∧ ∀ result, state.main = .returned result →
      (result = .ok → ∀ history ∈ histories, model.Linearizable history) ∧
      (result = .illegal → ∃ history ∈ histories, ¬ model.Linearizable history) ∧
      (result = .unknown → 0 < timeout) := by
  obtain ⟨weight, seen, pending, coordinated⟩ := reached.coordinated sound given
  exact ⟨coordinated.alive, fun _ isMain => coordinated.result_spec isMain⟩

/-- However they are scheduled, the goroutines take no more than so many steps, and when none of them can
take a step the main one has returned; only without partitions and without a timeout it waits for ever. -/
theorem checkParallel_returns (sound : model.EqualSound) (given : Given histories partitions)
    {actions : List Parallel.Action}
    (ran : Transitions.run (Parallel.step model partitions computeInfo timeout) {} actions = some state) :
    actions.length ≤ Parallel.bound histories ∧
      ((∀ action, state.step model partitions computeInfo timeout action = none) →
        (∃ result, state.main = .returned result) ∨ partitions = [] ∧ timeout ≤ 0) ∧
      (partitions = [] → timeout ≤ 0 → state.main = .selecting) := by
  obtain ⟨weight, seen, pending, coordinated, fewer⟩ := coordinated_initial.run sound given ran
  refine ⟨?_, coordinated.progress, ?_⟩
  · simp only [Parallel.weight, Main.weight, Nat.sub_zero] at fewer
    rw [Parallel.bound, given.length_eq]
    omega
  · rintro rfl noTimeout
    cases actions with
    | nil =>
      cases ran
      rfl
    | cons action actions =>
      obtain ⟨middle, stepped, -⟩ := Option.bind_eq_some_iff.mp ran
      cases action with
      | work i => simp [Parallel.step, Parallel.work] at stepped
      | receive => simp [Parallel.step, Parallel.receive] at stepped
      | expire =>
        simp only [Parallel.step, Parallel.expire, Bool.false_eq_true, if_false, true_and] at stepped
        rw [if_neg (by omega)] at stepped
        cases stepped
      | finish => simp [Parallel.step, Parallel.finish] at stepped

/-- With `computeInfo` every sequence in the info is a partial linearization of its partition, and unless
the time was up there is for each operation one that no other with this operation is longer than. -/
theorem checkParallel_info (sound : model.EqualSound) (given : Given histories partitions)
    (reached : state.Reachable model partitions true timeout) {result : CheckResult}
    (returned : state.main = .returned result) {i : Nat} {history : List (Operation Input Output)}
    (isHistory : histories[i]? = some history) :
    (∀ order ∈ state.partialLinearizations i, model.PartiallyExplains history order) ∧
    (state.timedOut = false → ∀ order, model.PartiallyExplains history order → ∀ id ∈ order,
      ∃ known ∈ state.partialLinearizations i, id ∈ known ∧ order.length ≤ known.length) := by
  obtain ⟨weight, seen, pending, coordinated⟩ := reached.coordinated sound given
  have inside : i < partitions.length := given.length_eq ▸ (List.getElem?_eq_some_iff.mp isHistory).1
  -- the main goroutine has waited for all results
  have isSent : state.worker i = .sent := by
    have all := (coordinated.returned result returned).2 rfl
    rw [coordinated.count] at all
    have member := coordinated.all_received (List.prefix_append seen pending) all inside
    exact ((coordinated.sent i).mp (List.map_append ▸ List.mem_append_left _ member)).2
  have going := coordinated.going i history _ isHistory (List.getElem?_eq_getElem inside)
  rw [isSent] at going
  generalize weight i = here at going
  cases going with
  | sent reported =>
    have member : ∀ order, order ∈ state.partialLinearizations i ↔
        ∃ id : Nat, (state.longest i)[id]? = some (some order) := by
      intro order
      rw [← List.mem_iff_getElem?]
      simp [Parallel.partialLinearizations]
    refine ⟨fun order isMember => ?_, fun inTime order explains id isId => ?_⟩
    · obtain ⟨id, isKnown⟩ := (member order).mp isMember
      exact (reported.legal id order isKnown).2
    · rcases reported.longest rfl with killed | longest
      · rw [coordinated.killed rfl killed] at inTime
        cases inTime
      · obtain ⟨known, isKnown, atLeast⟩ := longest order explains id isId
        exact ⟨known, (member known).mpr ⟨id, isKnown⟩, (reported.legal id known isKnown).1, atLeast⟩

end All

/-! The check of the overlapping put and get, and of an append to another key. -/

def appended : KvHistory := [
  { clientId := 2, input := { op := 2, key := [109], value := [2] }, call := 3, output := {}, ret := 8 }]

def appendedEntries : List (Entry KvInput KvOutput) := [
  { kind := .callEntry, value := .input { op := 2, key := [109], value := [2] }, id := 0, time := 3, clientId := 2 },
  { kind := .returnEntry, value := .output {}, id := 0, time := 8, clientId := 2 }]

theorem appended_makesEntries : MakesEntries appended appendedEntries := ⟨by decide, by decide⟩

theorem overlapping_given : Given [overlapping, appended] [overlappingEntries, appendedEntries] :=
  .cons ⟨overlapping_makesEntries, by decide⟩ (.cons ⟨appended_makesEntries, by decide⟩ .nil)

def overlappingActions : List Parallel.Action :=
  [.work 0, .work 1, .work 0, .work 1, .work 0, .work 0, .work 1, .work 1, .receive, .work 0, .receive, .finish]

def overlappingChecked : Parallel GoString :=
  (Transitions.run (Parallel.step kvModel [overlappingEntries, appendedEntries] true 0) {} overlappingActions).get
    (by decide +kernel)

theorem overlappingChecked_eq : Transitions.run (Parallel.step kvModel [overlappingEntries, appendedEntries] true 0) {}
    overlappingActions = some overlappingChecked := (Option.some_get _).symm

theorem checkParallel_result_overlapping : overlappingChecked.main = .returned .ok ∧
    kvModel.Linearizable overlapping ∧ kvModel.Linearizable appended := by
  have isOk : overlappingChecked.main = .returned .ok := by decide +kernel
  have result := (checkParallel_result kvModel_equalSound overlapping_given ⟨_, overlappingChecked_eq⟩).2 _ isOk
  exact ⟨isOk, result.1 rfl _ (by simp), result.1 rfl _ (by simp)⟩

theorem checkParallel_returns_overlapping : overlappingActions.length ≤ Parallel.bound [overlapping, appended] ∧
    overlappingChecked.main = .returned .ok :=
  ⟨(checkParallel_returns kvModel_equalSound overlapping_given overlappingChecked_eq).1, by decide +kernel⟩

theorem checkParallel_info_overlapping :
    overlappingChecked.partialLinearizations 0 = [[0, 1]] ∧ overlappingChecked.partialLinearizations 1 = [[0]] ∧
      kvModel.PartiallyExplains overlapping [0, 1] ∧ kvModel.PartiallyExplains appended [0] := by
  have first : overlappingChecked.partialLinearizations 0 = [[0, 1]] := by decide +kernel
  have second : overlappingChecked.partialLinearizations 1 = [[0]] := by decide +kernel
  have isOk : overlappingChecked.main = .returned .ok := by decide +kernel
  have reached : overlappingChecked.Reachable kvModel _ true 0 := ⟨_, overlappingChecked_eq⟩
  refine ⟨first, second, ?_, ?_⟩
  · exact (checkParallel_info kvModel_equalSound overlapping_given reached isOk (i := 0) rfl).1 _ (by simp [first])
  · exact (checkParallel_info kvModel_equalSound overlapping_given reached isOk (i := 1) rfl).1 _ (by simp [second])

end ShardedKV.Porcupine
