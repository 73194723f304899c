import ShardedKV.Raft.Safety
import ShardedKV.KvRaft.Steps
import ShardedKV.Services.Handlers
import ShardedKV.Transitions.Runs

/-!
# How the handlers use their channels

The channels of a replica and its handlers that still have to close one, as they appear in
`Services.Handlers`.  A send never meets a closed channel.  A second close does happen: `Start` gives one index
to two handlers when the first entry is overwritten, and both close the channel of that index.
-/

namespace ShardedKV.KvRaft

open Services
open Transitions (Throughout)

variable {n : Nat} {system next : System n} {action : System.Action n}

/-! ## The handlers of one process -/

/-- The index and the channel that the handler has taken and not yet closed. -/
def Call.use (call : Call n) : Option (Nat × Nat) :=
  match call.phase with
  | .waiting index channel | .cleaning index channel => some (index, channel)
  | _ => none

/-- What a call uses of the channels of one process. -/
def Call.useOf (server : Fin n) (incarnation : Nat) (call : Call n) : Option (Nat × Nat) :=
  if call.server = server ∧ call.incarnation = incarnation then call.use else none

theorem KVServer.applyHandler_waitChan {kv after : KVServer} {commandIndex : Nat} {op appliedOp : Op}
    (applied : kv.applyHandler commandIndex op = some (after, appliedOp)) : after.waitChan = kv.waitChan := by
  unfold KVServer.applyHandler at applied
  split at applied
  · cases applied
  · cases applied
    rfl

namespace System

def users (calls : List (Call n)) (server : Fin n) (incarnation id : Nat) : Option (Nat × Nat) :=
  calls[id]?.bind (Call.useOf server incarnation)

def handlers (system : System n) (server : Fin n) : Handlers Op where
  wait := (system.replica server).server.waitChan
  user := users system.calls server (system.replica server).incarnation
  panicked := (system.replica server).panicked

theorem users_append {calls : List (Call n)} {call : Call n} (unused : call.use = none) (server : Fin n)
    (incarnation : Nat) : users (calls ++ [call]) server incarnation = users calls server incarnation := by
  funext id
  unfold users
  rcases Nat.lt_trichotomy id calls.length with inside | last | outside
  · rw [List.getElem?_append_left inside]
  · subst last
    simp [Call.useOf, unused]
  · rw [List.getElem?_eq_none (by simp; omega), List.getElem?_eq_none (by omega)]

theorem users_set {calls : List (Call n)} {id : Nat} {call : Call n} (located : calls[id]? = some call)
    (new : Call n) (server : Fin n) (incarnation : Nat) : users (calls.set id new) server incarnation =
      Function.update (users calls server incarnation) id (new.useOf server incarnation) := by
  funext other
  by_cases equal : other = id
  · subst equal
    simp [users, (List.getElem?_eq_some_iff.mp located).1]
  · rw [Function.update_of_ne equal, users, List.getElem?_set_ne (Ne.symm equal), users]

theorem users_set_same {calls : List (Call n)} {id : Nat} {call new : Call n} (located : calls[id]? = some call)
    {server : Fin n} {incarnation : Nat} (same : new.useOf server incarnation = call.useOf server incarnation) :
    users (calls.set id new) server incarnation = users calls server incarnation := by
  rw [users_set located, same, Function.update_eq_self_iff, users, located, Option.bind_some]

theorem handlers_user {id : Nat} {call : Call n} (located : system.calls[id]? = some call) (server : Fin n) :
    (system.handlers server).user id = call.useOf server (system.replica server).incarnation := by
  change system.calls[id]?.bind _ = _
  rw [located, Option.bind_some]

/-- The handler that registers makes the channel of its index: no other handler waits for the index. -/
def makesChannel (system : System n) : Action n → Bool
  | .register id =>
    match system.calls[id]? with
    | none => true
    | some call =>
      match call.phase with
      | .started index => ((system.replica call.server).server.waitChan.waitChan index).isNone
      | _ => true
  | _ => true

/-! ## One step -/

theorem alive_iff {call : Call n} : system.alive call = true ↔
    (system.replica call.server).incarnation = call.incarnation ∧ (system.replica call.server).panicked = false := by
  simp [alive]

theorem handlers_setReplica {actor server : Fin n} (different : server ≠ actor) (replica : Replica) :
    (system.setReplica actor replica).handlers server = system.handlers server := by
  simp only [handlers, setReplica, Function.update_of_ne different]

theorem handlers_setReplica_same {actor : Fin n} (server : Fin n) {replica : Replica}
    (sameChannels : replica.server.waitChan = (system.replica actor).server.waitChan)
    (sameProcess : replica.incarnation = (system.replica actor).incarnation)
    (samePanic : replica.panicked = (system.replica actor).panicked) :
    (system.setReplica actor replica).handlers server = system.handlers server := by
  by_cases equal : server = actor
  · subst equal
    simp only [handlers, setReplica, Function.update_self, sameChannels, sameProcess, samePanic]
  · exact handlers_setReplica equal replica

theorem handlers_setCall_same {id : Nat} {call new : Call n} (located : system.calls[id]? = some call) {server : Fin n}
    (same : new.useOf server (system.replica server).incarnation =
      call.useOf server (system.replica server).incarnation) :
    (system.setCall id new).handlers server = system.handlers server := by
  simp only [handlers, setCall, users_set_same located same]

theorem useOf_other {call : Call n} {server : Fin n} (different : server ≠ call.server) (incarnation : Nat) :
    call.useOf server incarnation = none := if_neg fun same => different same.1.symm

theorem useOf_unused {call : Call n} (unused : call.use = none) (server : Fin n) (incarnation : Nat) :
    call.useOf server incarnation = none := by
  rw [Call.useOf, unused, ite_self]

theorem handlers_acts_elsewhere {id : Nat} {call new : Call n} (located : system.calls[id]? = some call)
    (sameServer : new.server = call.server) {server : Fin n} (different : server ≠ call.server) (replica : Replica) :
    ((system.setReplica call.server replica).setCall id new).handlers server = system.handlers server := by
  have unused : ∀ incarnation, new.useOf server incarnation = call.useOf server incarnation := fun incarnation => by
    rw [useOf_other different, useOf_other (sameServer ▸ different)]
  rw [handlers_setCall_same (by exact located) (unused _), handlers_setReplica different]

theorem start_handlers {id index : Nat} {isLeader : Bool} (stepped : system.start id isLeader index = some next)
    (server : Fin n) : next.handlers server = system.handlers server := by
  unfold start at stepped
  split at stepped
  · cases stepped
  rename_i call located
  dsimp only at stepped
  split at stepped
  · cases stepped
  rename_i allowed
  have unused : call.use = none := by
    have sent : call.phase = .sent := not_not.mp fun other => allowed (.inl other)
    rw [Call.use, sent]
  split at stepped <;> cases stepped
  · exact handlers_setCall_same located ((useOf_unused rfl ..).trans (useOf_unused unused ..).symm)
  · exact handlers_setCall_same located ((useOf_unused rfl ..).trans (useOf_unused unused ..).symm)

theorem timeout_handlers {id : Nat} (stepped : system.timeout id = some next) (server : Fin n) :
    next.handlers server = system.handlers server := by
  unfold timeout at stepped
  split at stepped
  · cases stepped
  rename_i call located
  split at stepped
  · rename_i index channel waiting
    split at stepped
    · cases stepped
    cases stepped
    refine handlers_setCall_same located ?_
    simp only [Call.useOf, Call.use, waiting]
  · cases stepped

theorem register_eq_some {id : Nat} (stepped : system.register id = some next) :
    ∃ call index, system.calls[id]? = some call ∧ call.phase = .started index ∧ system.alive call = true ∧
      next = (system.setReplica call.server { system.replica call.server with
          server := ((system.replica call.server).server.getWaitCh index).1 }).setCall id
        { call with phase := .waiting index ((system.replica call.server).server.getWaitCh index).2 } := by
  unfold register at stepped
  split at stepped
  · cases stepped
  rename_i call located
  split at stepped
  · rename_i index started
    split at stepped
    · cases stepped
    rename_i alive
    exact ⟨call, index, located, started, by simpa using alive, (Option.some.inj stepped).symm⟩
  · cases stepped

theorem answer_eq_some {id : Nat} (stepped : system.answer id = some next) :
    ∃ call index channel waitChan received, system.calls[id]? = some call ∧ call.phase = .waiting index channel ∧
      system.alive call = true ∧
      (system.replica call.server).server.waitChan.receive channel = some (waitChan, received) ∧
      next = (system.setReplica call.server { system.replica call.server with
          server := { (system.replica call.server).server with waitChan } }).setCall id
        { call with phase := .cleaning index channel, reply := some (call.request.reply received) } := by
  unfold answer at stepped
  split at stepped
  · cases stepped
  rename_i call located
  split at stepped
  · rename_i index channel waiting
    split at stepped
    · cases stepped
    rename_i alive
    dsimp only at stepped
    split at stepped
    · cases stepped
    rename_i server received taken
    obtain ⟨⟨waitChan, _⟩, taken, same⟩ := Option.map_eq_some_iff.mp taken
    cases same
    exact ⟨call, index, channel, waitChan, received, located, waiting, by simpa using alive, taken,
      (Option.some.inj stepped).symm⟩
  · cases stepped

theorem cleanup_eq_some {id : Nat} (stepped : system.cleanup id = some next) :
    ∃ call index channel, system.calls[id]? = some call ∧ call.phase = .cleaning index channel ∧
      system.alive call = true ∧
      (((system.replica call.server).server.waitChan.close index channel = none ∧
        next = (system.setReplica call.server { system.replica call.server with panicked := true }).setCall id
          { call with phase := .finished }) ∨
      ∃ waitChan, (system.replica call.server).server.waitChan.close index channel = some waitChan ∧
        next = (system.setReplica call.server { system.replica call.server with
          server := { (system.replica call.server).server with waitChan } }).setCall id
            { call with phase := .finished }) := by
  unfold cleanup at stepped
  split at stepped
  · cases stepped
  rename_i call located
  split at stepped
  · rename_i index channel cleaning
    split at stepped
    · cases stepped
    rename_i alive
    refine ⟨call, index, channel, located, cleaning, by simpa using alive, ?_⟩
    dsimp only at stepped
    split at stepped
    · rename_i panics
      exact .inl ⟨Option.map_eq_none_iff.mp panics, (Option.some.inj stepped).symm⟩
    · rename_i server cleaned
      obtain ⟨waitChan, closed, rfl⟩ := Option.map_eq_some_iff.mp cleaned
      exact .inr ⟨waitChan, closed, (Option.some.inj stepped).symm⟩
  · cases stepped

theorem register_handlers {id : Nat} (stepped : system.register id = some next) (server : Fin n) :
    Handlers.Step (system.makesChannel (.register id)) (system.handlers server) (next.handlers server) := by
  obtain ⟨call, index, located, started, alive, rfl⟩ := register_eq_some stepped
  obtain ⟨current, running⟩ := alive_iff.mp alive
  by_cases same : server = call.server
  · subst same
    have idle : (system.handlers call.server).user id = none := by
      rw [handlers_user located, useOf_unused (by rw [Call.use, started])]
    have makes : system.makesChannel (.register id) = true →
        (system.handlers call.server).wait.waitChan index = none := by
      simp only [makesChannel, located, started, Option.isNone_iff_eq_none, handlers]
      exact fun none => none
    convert Handlers.Step.takes id index running idle makes using 1
    simp only [handlers, setCall, setReplica, Function.update_self]
    rw [users_set located, Call.useOf, if_pos ⟨rfl, current.symm⟩]
    rfl
  · exact .of_eq (handlers_acts_elsewhere located (by rfl) same _)

theorem answer_handlers {id : Nat} (stepped : system.answer id = some next) (server : Fin n) (alone : Bool) :
    Handlers.Step alone (system.handlers server) (next.handlers server) := by
  obtain ⟨call, index, channel, waitChan, received, located, waiting, alive, taken, rfl⟩ := answer_eq_some stepped
  obtain ⟨-, running⟩ := alive_iff.mp alive
  by_cases same : server = call.server
  · subst same
    have step : Handlers.Step alone (system.handlers call.server) _ := .receives running taken
    convert step using 1
    simp only [handlers, setCall, setReplica, Function.update_self]
    rw [users_set_same located]
    simp only [Call.useOf, Call.use, waiting]
  · exact .of_eq (handlers_acts_elsewhere located (by rfl) same _)

theorem cleanup_handlers {id : Nat} (stepped : system.cleanup id = some next) (server : Fin n) (alone : Bool) :
    Handlers.Step alone (system.handlers server) (next.handlers server) := by
  obtain ⟨call, index, channel, located, cleaning, alive, outcome⟩ := cleanup_eq_some stepped
  obtain ⟨current, running⟩ := alive_iff.mp alive
  by_cases same : server = call.server
  · subst same
    have uses : (system.handlers call.server).user id = some (index, channel) := by
      rw [handlers_user located, Call.useOf, if_pos ⟨rfl, current.symm⟩, Call.use, cleaning]
    have finished : ∀ incarnation,
        users (system.calls.set id { call with phase := .finished }) call.server incarnation =
          Function.update (users system.calls call.server incarnation) id none := fun incarnation => by
      rw [users_set located, useOf_unused rfl]
    rcases outcome with ⟨panics, rfl⟩ | ⟨waitChan, closed, rfl⟩
    · convert Handlers.Step.closePanics running uses panics using 1
      simp only [handlers, setCall, setReplica, Function.update_self, finished]
    · convert Handlers.Step.closes running uses closed using 1
      simp only [handlers, setCall, setReplica, Function.update_self, finished]
  · rcases outcome with ⟨-, rfl⟩ | ⟨waitChan, -, rfl⟩
    · exact .of_eq (handlers_acts_elsewhere located (by rfl) same _)
    · exact .of_eq (handlers_acts_elsewhere located (by rfl) same _)

/-- The apply loop leaves the channels of its replica alone, or sends on the channel of the index. -/
theorem handle_eq (system : System n) (server : Fin n) (commandIndex : Nat) (op : Op) (takeSnapshot : Bool)
    (replica : Replica) : ∃ snapshots after, system.handle server commandIndex op takeSnapshot replica =
        setReplica { system with snapshots } server after ∧ after.incarnation = replica.incarnation ∧
      ((after.server.waitChan = replica.server.waitChan ∧ after.panicked = replica.panicked) ∨
      ∃ channel message, replica.server.waitChan.waitChan commandIndex = some channel ∧
        ((replica.server.waitChan.send channel message = some after.server.waitChan ∧
          after.panicked = replica.panicked) ∨
        (replica.server.waitChan.send channel message = none ∧
          after.server.waitChan = replica.server.waitChan ∧ after.panicked = true))) := by
  unfold handle
  split
  · exact ⟨_, replica, rfl, rfl, .inl ⟨rfl, rfl⟩⟩
  rename_i kv appliedOp applied
  have sameChannels := KVServer.applyHandler_waitChan applied
  have outcome : (∃ after, kv.sendApplied commandIndex appliedOp = some after ∧
        after.waitChan = replica.server.waitChan) ∨
      ∃ channel, replica.server.waitChan.waitChan commandIndex = some channel ∧
        ((∃ after, kv.sendApplied commandIndex appliedOp = some after ∧
          replica.server.waitChan.send channel appliedOp = some after.waitChan) ∨
        (kv.sendApplied commandIndex appliedOp = none ∧ replica.server.waitChan.send channel appliedOp = none)) := by
    unfold KVServer.sendApplied
    rw [sameChannels]
    split
    · exact .inl ⟨kv, rfl, sameChannels⟩
    · rename_i channel leads
      refine .inr ⟨channel, leads, ?_⟩
      cases replica.server.waitChan.send channel appliedOp with
      | none => exact .inr ⟨rfl, rfl⟩
      | some waitChan => exact .inl ⟨_, rfl, rfl⟩
  have saved : ∃ snapshots persisted,
      (if takeSnapshot then { system with snapshots := system.snapshots ++ [(commandIndex, kv.store)] } else system) =
        { system with snapshots } ∧
      (if takeSnapshot then { replica with persisted := some (commandIndex, kv.store) } else replica) =
        { replica with persisted } := by
    cases takeSnapshot
    · exact ⟨_, _, rfl, rfl⟩
    · exact ⟨_, _, rfl, rfl⟩
  obtain ⟨snapshots, persisted, recorded, stored⟩ := saved
  rw [recorded, stored]
  rcases outcome with ⟨after, sent, same⟩ | ⟨channel, leads, ⟨after, sent, delivered⟩ | ⟨panics, fails⟩⟩
  · rw [sent]
    exact ⟨snapshots, _, rfl, rfl, .inl ⟨same, rfl⟩⟩
  · rw [sent]
    exact ⟨snapshots, _, rfl, rfl, .inr ⟨channel, appliedOp, leads, .inl ⟨delivered, rfl⟩⟩⟩
  · rw [panics]
    exact ⟨snapshots, _, rfl, rfl, .inr ⟨channel, appliedOp, leads, .inr ⟨fails, rfl, rfl⟩⟩⟩

theorem deliver_handlers {actor : Fin n} {takeSnapshot : Bool} (stepped : system.deliver actor takeSnapshot = some next)
    (server : Fin n) (alone : Bool) : Handlers.Step alone (system.handlers server) (next.handlers server) := by
  unfold deliver at stepped
  dsimp only at stepped
  split at stepped
  · cases stepped
  rename_i op arrived
  split at stepped
  · cases stepped
  rename_i notPanicked
  have running : (system.replica actor).panicked = false := by simpa using notPanicked
  cases stepped
  obtain ⟨snapshots, after, result, sameProcess, effect⟩ := system.handle_eq actor
    ((system.replica actor).applied + 1) op takeSnapshot
    { system.replica actor with applied := (system.replica actor).applied + 1 }
  rw [result]
  by_cases same : server = actor
  · subst same
    have view : (setReplica { system with snapshots } server after).handlers server =
        { system.handlers server with wait := after.server.waitChan, panicked := after.panicked } := by
      simp only [handlers, setReplica, Function.update_self, sameProcess]
    rw [view]
    rcases effect with ⟨sameChannels, samePanic⟩ |
      ⟨channel, message, leads, ⟨sent, samePanic⟩ | ⟨panics, sameChannels, fails⟩⟩
    · rw [sameChannels, samePanic]
      exact .stays
    · rw [samePanic]
      exact .sends running leads sent
    · rw [sameChannels, fails]
      exact .sendPanics running leads panics
  · exact .of_eq (handlers_setReplica same after)

theorem restart_handlers (consistent : Consistent system) (actor server : Fin n) (alone : Bool) :
    Handlers.Step alone (system.handlers server) ((system.restart actor).handlers server) := by
  by_cases same : server = actor
  · subst same
    -- the handlers of the old process are gone with it
    have nobody : users system.calls server ((system.replica server).incarnation + 1) = fun _ => none := by
      funext id
      unfold users
      rcases located : system.calls[id]? with _ | call
      · rfl
      · refine if_neg fun current => ?_
        have earlier := (consistent.calls call (List.mem_of_getElem? located)).incarnation
        rw [current.1] at earlier
        omega
    have view : (system.restart server).handlers server = {} := by
      simp only [handlers, restart, setReplica, Function.update_self, nobody]
      cases (system.replica server).persisted <;> rfl
    rw [view]
    exact .restarts
  · exact .of_eq (handlers_setReplica same _)

theorem step_handlers (consistent : Consistent system) (stepped : system.step action = some next) (server : Fin n) :
    Handlers.Step (system.makesChannel action) (system.handlers server) (next.handlers server) := by
  cases action with
  | invoke client operation =>
    simp only [step, invoke] at stepped
    split at stepped <;> cases stepped
    exact .stays
  | send client actor =>
    simp only [step, send] at stepped
    split at stepped <;> cases stepped
    refine .of_eq ?_
    simp only [handlers, setClerk]
    rw [users_append (by rfl)]
  | giveUp client =>
    cases stepped
    exact .stays
  | receive client =>
    simp only [step, receive] at stepped
    repeat' split at stepped
    all_goals cases stepped <;> exact .stays
  | start id isLeader index => exact .of_eq (start_handlers stepped server)
  | register id => exact register_handlers stepped server
  | timeout id => exact .of_eq (timeout_handlers stepped server)
  | answer id => exact answer_handlers stepped server _
  | cleanup id => exact cleanup_handlers stepped server _
  | commit op =>
    simp only [step, commit] at stepped
    split at stepped <;> cases stepped
    exact .stays
  | deliver actor takeSnapshot => exact deliver_handlers stepped server _
  | redeliver actor commandIndex takeSnapshot =>
    rw [redeliver_eq stepped]
    exact .stays
  | install actor position =>
    simp only [step, install] at stepped
    repeat' split at stepped
    all_goals cases stepped
    exact .of_eq (handlers_setReplica_same server rfl rfl rfl)
  | restart actor =>
    cases stepped
    exact restart_handlers consistent actor server _

end System

/-! ## Whole runs -/

/-- The service is consistent, and the channels of one server are orderly. -/
structure Tidy (server : Fin n) (system : System n) : Prop where
  consistent : Consistent system
  orderly : (system.replica server).panicked = false → (system.handlers server).Orderly

namespace Tidy

variable {server : Fin n}

theorem initial : Tidy server ({} : System n) := ⟨.initial, fun _ => .initial⟩

theorem step (tidy : Tidy server system) (stepped : system.step action = some next) : Tidy server next :=
  ⟨tidy.consistent.step stepped,
    fun runs => (System.step_handlers tidy.consistent stepped server).orderly tidy.orderly runs⟩

theorem run (tidy : Tidy server system) {actions : List (System.Action n)} (ran : system.run actions = some next) :
    Tidy server next := by
  rw [System.run_eq] at ran
  exact Transitions.run_keeps (fun _ _ _ kept stepped => kept.step stepped) tidy ran

theorem sendApplied_ne_none (tidy : Tidy server system) (running : (system.replica server).panicked = false)
    {commandIndex : Nat} {op appliedOp : Op} {kv : KVServer}
    (applied : (system.replica server).server.applyHandler commandIndex op = some (kv, appliedOp)) :
    kv.sendApplied commandIndex appliedOp ≠ none := by
  have sameChannels : kv.waitChan = (system.replica server).server.waitChan := KVServer.applyHandler_waitChan applied
  unfold KVServer.sendApplied
  split
  · exact nofun
  · rename_i channel leads
    rw [sameChannels] at leads ⊢
    rw [Ne, Option.map_eq_none_iff]
    exact WaitChannels.send_ne_none ((tidy.orderly running).opened commandIndex channel leads)

theorem not_panicked (tidy : Tidy server system) (separate : (system.handlers server).Separate)
    {actions : List (System.Action n)}
    (throughout : Throughout System.step (fun system action => system.makesChannel action = true) system actions)
    (ran : system.run actions = some next) : (next.replica server).panicked = false := by
  have keeps : ∀ (state : System n) action after, Tidy server state ∧ (state.handlers server).Separate →
      state.makesChannel action = true → state.step action = some after →
      Tidy server after ∧ (after.handlers server).Separate := by
    rintro state action after ⟨tidy, separate⟩ makes stepped
    have step := System.step_handlers tidy.consistent stepped server
    rw [makes] at step
    exact ⟨tidy.step stepped, step.separate (tidy.orderly separate.running) separate⟩
  rw [System.run_eq] at ran
  exact (Transitions.run_invariant keeps ⟨tidy, separate⟩ throughout ran).2.running

end Tidy

/-! ## Two handlers with one channel -/

namespace System

theorem run_cons (stepped : system.step action = some next) {actions : List (Action n)} :
    system.run (action :: actions) = next.run actions := by
  rw [run, stepped, Option.bind_some]

theorem run_eq_some_after {actions : List (Action n)} (possible : (run {} actions).isSome) :
    run {} actions = some (after actions) := by
  unfold after
  cases ending : run {} actions with
  | none => simp [ending] at possible
  | some final => rfl

theorem run_append (system : System n) (actions more : List (Action n)) :
    system.run (actions ++ more) = (system.run actions).bind fun middle => middle.run more := by
  simp only [run_eq, Transitions.run_append]

theorem run_to_cleanup {id index channel : Nat} {call : Call n} (located : system.calls[id]? = some call)
    (uses : call.use = some (index, channel)) (alive : system.alive call = true) :
    ∃ actions next new, system.run actions = some next ∧ next.replica = system.replica ∧
      (∀ other, other ≠ id → next.calls[other]? = system.calls[other]?) ∧ next.calls[id]? = some new ∧
      new.phase = .cleaning index channel ∧ new.server = call.server ∧ new.incarnation = call.incarnation := by
  unfold Call.use at uses
  split at uses
  · rename_i waiting
    cases uses
    have stepped : system.step (.timeout id) = some (system.setCall id
        { call with phase := .cleaning index channel, reply := some { err := .errWrongLeader } }) := by
      simp only [step, timeout, located, waiting, alive, Bool.not_true, Bool.false_eq_true, if_false]
    exact ⟨[.timeout id], _, _, run_cons stepped, rfl, fun other different => List.getElem?_set_ne (Ne.symm different),
      List.getElem?_set_self (List.getElem?_eq_some_iff.mp located).1, rfl, rfl, rfl⟩
  · rename_i cleaning
    cases uses
    exact ⟨[], system, call, rfl, rfl, fun _ _ => rfl, located, cleaning, rfl, rfl⟩
  · cases uses

theorem cleanups_panic {first second index channel : Nat} {one two : Call n} (different : first ≠ second)
    (firstAt : system.calls[first]? = some one) (secondAt : system.calls[second]? = some two)
    (firstCleaning : one.phase = .cleaning index channel) (secondCleaning : two.phase = .cleaning index channel)
    (sameServer : two.server = one.server) (firstAlive : system.alive one = true)
    (secondAlive : system.alive two = true) (isOpen : (system.replica one.server).server.waitChan.Open channel) :
    ∃ next, system.run [.cleanup first, .cleanup second] = some next ∧ (next.replica one.server).panicked = true := by
  have closes : (system.replica one.server).server.waitChan.close index channel ≠ none :=
    WaitChannels.close_ne_none isOpen
  obtain ⟨waitChan, closed⟩ := Option.ne_none_iff_exists'.mp closes
  have firstStep : system.step (.cleanup first) = some ((system.setReplica one.server
      { system.replica one.server with server := { (system.replica one.server).server with waitChan } }).setCall first
        { one with phase := .finished }) := by
    simp only [step, cleanup, firstAt, firstCleaning, firstAlive, Bool.not_true, Bool.false_eq_true, if_false,
      KVServer.cleanup, closed, Option.map_some]
  rw [run_cons firstStep]
  generalize stepped : (system.setReplica one.server _).setCall first _ = middle
  have middleReplica : middle.replica one.server = { system.replica one.server with
      server := { (system.replica one.server).server with waitChan } } := by
    rw [← stepped]
    exact Function.update_self ..
  have middleAt : middle.calls[second]? = some two := by
    rw [← stepped]
    exact (List.getElem?_set_ne different).trans secondAt
  have stillAlive : middle.alive two = true := by
    rw [alive_iff, sameServer] at secondAlive ⊢
    rw [middleReplica]
    exact secondAlive
  have secondStep : middle.step (.cleanup second) = some ((middle.setReplica one.server
      { middle.replica one.server with panicked := true }).setCall second { two with phase := .finished }) := by
    simp only [step, cleanup, middleAt, secondCleaning, stillAlive, Bool.not_true, Bool.false_eq_true, if_false,
      KVServer.cleanup, sameServer, middleReplica, WaitChannels.close_again closed, Option.map_none]
  refine ⟨_, run_cons secondStep, ?_⟩
  simp only [setCall, setReplica, Function.update_self]

/-- A handler that finds the channel of another can make the server panic together with it. -/
theorem register_panics {id index channel : Nat} {call : Call n} (tidy : Tidy call.server system)
    (located : system.calls[id]? = some call) (started : call.phase = .started index) (alive : system.alive call = true)
    (leads : (system.replica call.server).server.waitChan.waitChan index = some channel) :
    ∃ actions next, system.run (.register id :: actions) = some next ∧ (next.replica call.server).panicked = true := by
  obtain ⟨current, running⟩ := alive_iff.mp alive
  have orderly := tidy.orderly running
  have isOpen : (system.replica call.server).server.waitChan.Open channel := orderly.opened index channel leads
  -- the handler that has made the channel
  obtain ⟨maker, uses⟩ := orderly.used index channel leads
  obtain ⟨other, otherAt, uses⟩ := Option.bind_eq_some_iff.mp uses
  obtain ⟨⟨sameServer, sameProcess⟩, uses⟩ : (other.server = call.server ∧
      other.incarnation = (system.replica call.server).incarnation) ∧ other.use = some (index, channel) := by
    unfold Call.useOf at uses
    split at uses
    · exact ⟨‹_›, uses⟩
    · cases uses
  have different : maker ≠ id := by
    rintro rfl
    rw [located] at otherAt
    cases otherAt
    simp only [Call.use, started] at uses
    cases uses
  -- registering changes the call only
  have registered : system.step (.register id) =
      some (system.setCall id { call with phase := .waiting index channel }) := by
    have found : (system.replica call.server).server.getWaitCh index =
        ((system.replica call.server).server, channel) := by
      simp only [KVServer.getWaitCh, WaitChannels.getWaitCh, leads]
    simp only [step, register, located, started, alive, Bool.not_true, Bool.false_eq_true, if_false, found, setReplica,
      Function.update_eq_self]
  -- both go on to their cleanup, and the second finds the channel closed
  obtain ⟨waits, ready, one, ran, sameReplicas, sameCalls, oneAt, oneCleaning, oneServer, oneProcess⟩ :=
    run_to_cleanup (List.getElem?_set_self (List.getElem?_eq_some_iff.mp located).1)
      (show Call.use { call with phase := .waiting index channel } = some (index, channel) from rfl)
      (show (system.setCall id _).alive _ = true from alive)
  have otherAlive : ready.alive other = true := by
    rw [alive_iff, sameReplicas]
    exact ⟨by rw [sameServer, sameProcess]; rfl, by rw [sameServer]; exact running⟩
  have otherStill : ready.calls[maker]? = some other := by
    rw [sameCalls maker different]
    exact (List.getElem?_set_ne (Ne.symm different)).trans otherAt
  obtain ⟨makerWaits, both, two, makerRan, sameReplicas', sameCalls', twoAt, twoCleaning, twoServer, twoProcess⟩ :=
    run_to_cleanup otherStill uses otherAlive
  have replicas : both.replica = system.replica := sameReplicas'.trans sameReplicas
  have twoOn : two.server = call.server := twoServer.trans sameServer
  obtain ⟨next, panics, panicked⟩ := cleanups_panic different twoAt ((sameCalls' id (Ne.symm different)).trans oneAt)
    twoCleaning oneCleaning (oneServer.trans twoOn.symm)
    (by rw [alive_iff, twoOn, twoProcess, replicas, sameProcess]; exact ⟨rfl, running⟩)
    (by rw [alive_iff, oneServer, oneProcess, replicas]; exact ⟨current, running⟩)
    (by rw [twoOn, replicas]; exact isOpen)
  refine ⟨waits ++ (makerWaits ++ [.cleanup maker, .cleanup id]), next, ?_, twoOn ▸ panicked⟩
  rw [run_cons registered, run_append, ran, Option.bind_some, run_append, makerRan, Option.bind_some, panics]

end System

/-! ## The channels of the service -/

/-- In every run no send meets a closed channel.  No server panics in a run in which every handler makes the
channel it waits on, and when one finds the channel of another, both can go on until the server panics. -/
theorem channels_misused_iff_shared (actions : List (System.Action n)) (system : System n)
    (ran : System.run {} actions = some system) (server : Fin n) :
    (∀ commandIndex op kv appliedOp, (system.replica server).panicked = false →
      (system.replica server).server.applyHandler commandIndex op = some (kv, appliedOp) →
      kv.sendApplied commandIndex appliedOp ≠ none) ∧
    (Throughout System.step (fun system action => system.makesChannel action = true) {} actions →
      (system.replica server).panicked = false) ∧
    ∀ id next, system.makesChannel (.register id) = false → system.step (.register id) = some next →
      ∃ more last call, next.run more = some last ∧ system.calls[id]? = some call ∧
        (last.replica call.server).panicked = true := by
  have tidy : ∀ server, Tidy server system := fun server => Tidy.initial.run ran
  refine ⟨fun commandIndex op kv appliedOp running applied => (tidy server).sendApplied_ne_none running applied,
    fun throughout => Tidy.initial.not_panicked .initial throughout ran, fun id next shares stepped => ?_⟩
  obtain ⟨call, index, located, started, alive, -⟩ := System.register_eq_some stepped
  simp only [System.makesChannel, located, started, Option.isNone_eq_false_iff, Option.isSome_iff_exists] at shares
  obtain ⟨channel, leads⟩ := shares
  obtain ⟨more, last, runs, panicked⟩ := System.register_panics (tidy call.server) located started alive leads
  rw [System.run_cons stepped] at runs
  exact ⟨more, last, call, runs, located, panicked⟩

/-- A handler that waits for index 1 and is answered. -/
def answeredAlone : List (System.Action 2) :=
  [.invoke 0 (.get []), .send 0 0, .start 0 true 1, .register 0, .commit (Request.op (.get ⟨[], 0, 1⟩)),
    .deliver 0 false, .answer 0, .cleanup 0]

theorem channels_misused_iff_shared_answeredAlone : (System.run {} answeredAlone).isSome ∧
    Throughout System.step (fun system action => system.makesChannel action = true) {} answeredAlone ∧
    ((System.after answeredAlone).replica 0).panicked = false := by
  have ran := System.run_eq_some_after (show (System.run {} answeredAlone).isSome by decide)
  have alone : Throughout System.step (fun system action => system.makesChannel action = true) {} answeredAlone := by
    decide
  exact ⟨by decide, alone, (channels_misused_iff_shared answeredAlone _ ran 0).2.1 alone⟩

/-- Server 0 leads term 1 and starts two commands, server 1 leads term 2 and overwrites them with one, and
server 0 leads term 3 and starts another. -/
def overwriting : List (Raft.Cluster.Action 3 Nat) :=
  [.electionTimeout 0, .handle 0, .deliver 0, .start 0 7, .start 0 8, .electionTimeout 1, .handle 3, .deliver 3,
    .start 1 9, .replicate 1 0, .handle 4, .electionTimeout 0, .handle 6, .deliver 6, .start 0 10]

/-- Two handlers of one server that have both been given index 2. -/
def closedTwice : List (System.Action 2) :=
  [.invoke 0 (.get []), .send 0 0, .invoke 1 (.get []), .send 1 0, .start 0 true 2, .register 0, .start 1 true 2,
    .register 1, .timeout 0, .timeout 1, .cleanup 0, .cleanup 1]

/-- `Start` of server 0 returns index 2 in term 1 and in term 3, and the handlers that wait for it close their
channel twice. -/
theorem channel_closed_twice :
    (Raft.Cluster.initial.run overwriting).map (fun cluster => cluster.started) =
      some [(1, 1, 7), (2, 1, 8), (1, 2, 9), (2, 3, 10)] ∧
    (System.run {} closedTwice).map (fun system => (system.replica 0).panicked) = some true := by
  decide

end ShardedKV.KvRaft
