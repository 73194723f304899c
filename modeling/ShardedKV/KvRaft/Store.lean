import ShardedKV.KvRaft.System

/-!
# What a command does to a store

A session remembers the largest number it has seen, and a command changes the map only when its
number is new.
-/

namespace ShardedKV.KvRaft

theorem Store.lastSeq_openSession (store : Store) (client other : Nat) :
    (store.openSession client).lastSeq other = store.lastSeq other := by
  unfold Store.openSession
  cases session : store.clientSeq client with
  | some number => rfl
  | none =>
    by_cases equal : other = client
    · subst equal
      simp [Store.lastSeq, session]
    · simp [Store.lastSeq, Function.update_of_ne equal]

theorem Store.value_openSession (store : Store) (client : Nat) :
    (store.openSession client).value = store.value := by
  unfold Store.openSession
  split <;> rfl

theorem Store.lastSeq_applyToStateMachine (store : Store) (op : Op) (client : Nat) :
    (store.applyToStateMachine op).lastSeq client =
      if client = op.clientID then op.seqNum else store.lastSeq client := by
  have sessions : (store.applyToStateMachine op).clientSeq =
      Function.update store.clientSeq op.clientID (some op.seqNum) := by
    unfold Store.applyToStateMachine
    cases op.optype <;> rfl
  unfold Store.lastSeq
  rw [sessions]
  by_cases equal : client = op.clientID
  · simp [equal]
  · simp [equal]

theorem Store.lastSeq_applyCommand (store : Store) (op : Op) (client : Nat) :
    (store.applyCommand op).1.lastSeq client =
      if client = op.clientID then max (store.lastSeq client) op.seqNum else store.lastSeq client := by
  unfold Store.applyCommand
  simp only [Store.lastSeq_openSession]
  by_cases seen : op.seqNum ≤ store.lastSeq op.clientID
  · rw [if_pos seen, Store.lastSeq_openSession]
    split
    · rename_i equal
      rw [equal]
      omega
    · rfl
  · rw [if_neg seen, Store.lastSeq_applyToStateMachine, Store.lastSeq_openSession]
    have sameClient : (if op.optype = .get then { op with value := (store.openSession op.clientID).value op.key }
        else op).clientID = op.clientID := by
      split <;> rfl
    have sameNumber : (if op.optype = .get then { op with value := (store.openSession op.clientID).value op.key }
        else op).seqNum = op.seqNum := by
      split <;> rfl
    rw [sameClient, sameNumber]
    split
    · rename_i equal
      rw [equal]
      omega
    · rfl

/-- What the operation of a command does to a map. -/
def Op.effect (op : Op) (contents : GoString → Option GoString) : GoString → Option GoString :=
  match op.optype with
  | .get => contents
  | .put => Function.update contents op.key (some op.value)
  | .append => Function.update contents op.key (some ((contents op.key).getD [] ++ op.value))

theorem Op.getD_effect (op : Op) (contents : GoString → Option GoString) :
    (fun key => (op.effect contents key).getD []) =
      (sequential.step (fun key => (contents key).getD []) op.operation).1 := by
  funext key
  obtain ⟨client, number, place, value, optype⟩ := op
  cases optype with
  | get => rfl
  | put =>
    by_cases equal : key = place <;> simp [Op.effect, sequential, Op.operation, equal]
  | append =>
    by_cases equal : key = place <;> simp [Op.effect, sequential, Op.operation, equal]

theorem Store.currentState_openSession (store : Store) (client : Nat) :
    (store.openSession client).currentState = store.currentState := by
  unfold Store.openSession
  split <;> rfl

/-- A command changes nothing if its number was seen, and else what its operation changes. -/
theorem Store.currentState_applyCommand (store : Store) (op : Op) :
    (store.applyCommand op).1.currentState =
      if op.seqNum ≤ store.lastSeq op.clientID then store.currentState else op.effect store.currentState := by
  unfold Store.applyCommand
  simp only [Store.lastSeq_openSession]
  have opened := store.currentState_openSession op.clientID
  by_cases seen : op.seqNum ≤ store.lastSeq op.clientID
  · simp only [seen, if_true, opened]
  · simp only [seen, if_false]
    obtain ⟨client, number, key, value, optype⟩ := op
    cases optype <;> simp [Store.applyToStateMachine, Store.value, Op.effect, opened]

theorem Op.effect_of_ne (op : Op) (contents : GoString → Option GoString) {key : GoString} (other : key ≠ op.key) :
    op.effect contents key = contents key := by
  unfold Op.effect
  cases op.optype <;> simp [other]

theorem Store.currentState_applyCommand_of_ne (store : Store) (op : Op) {key : GoString} (other : key ≠ op.key) :
    (store.applyCommand op).1.currentState key = store.currentState key := by
  rw [Store.currentState_applyCommand]
  split
  · rfl
  · exact op.effect_of_ne _ other

theorem Store.value_applyCommand (store : Store) (op : Op) :
    (store.applyCommand op).1.value =
      if op.seqNum ≤ store.lastSeq op.clientID then store.value
      else (sequential.step store.value op.operation).1 := by
  have changed := store.currentState_applyCommand op
  by_cases seen : op.seqNum ≤ store.lastSeq op.clientID
  · rw [if_pos seen] at changed ⊢
    funext key
    simp [Store.value, changed]
  · rw [if_neg seen] at changed ⊢
    have effect := op.getD_effect store.currentState
    rw [← changed] at effect
    exact effect

/-- What an entry produces is the entry, with the value read if it is a `Get`. -/
theorem Store.applyCommand_snd (store : Store) (op : Op) :
    (store.applyCommand op).2 =
      if op.optype = .get then { op with value := store.value op.key } else op := by
  have same := store.value_openSession op.clientID
  simp only [Store.applyCommand]
  split <;> simp [same]

end ShardedKV.KvRaft
