import ShardedKV.ShardKV.Invariant

/-!
# Raft and the apply loops of the replicas

A commit is the only step that moves the migration protocol.
-/

namespace ShardedKV.ShardKV

open Services
open ShardCtrler (Shard Config ServerName)
open KvRaft (Op Request Operation)
open Migration (Extends)

variable {controller : Controller} {attentive : Prop} {protocol : Protocol} {system next : System} {gid : Int}

/-- A confirmation that still drops the shard follows the entry by which the new owner received it. -/
theorem Permitted.kept {records : Records} {command : Command}
    (permitted : Permitted controller attentive protocol records gid command)
    (mirrors : Mirrors controller records.committed protocol) (attends : attentive) :
    Kept controller records.committed (gid, command) := by
  cases command with
  | shardConfirmOperation message =>
    intro current bePulled
    have rel := mirrors.groups gid
    have releasing := (rel.bePulled_iff _).mp bePulled
    rw [rel.number] at current
    have received := permitted.2 attends current releasing
    obtain ⟨data, sessions, offered, pulled⟩ := mirrors.arrived _ _ received
    obtain ⟨kv, entered, rfl⟩ := mirrors.handed _ _ _ _ offered
    obtain ⟨_, _, owned⟩ := mirrors.invariant.releasing_owner releasing
    rw [current] at owned
    rw [owned] at entered
    exact ⟨kv, entered, pulled⟩
  | kvOperation op => trivial
  | configOperation config => trivial
  | shardRequestOperation message => trivial
  | noOperation => trivial

namespace Consistent

variable (consistent : Consistent controller attentive protocol system)
include consistent

theorem commit {position : Nat} (stepped : system.commit gid position = some next) :
    ∃ after, Extends protocol after ∧ Consistent controller attentive after next := by
  unfold System.commit at stepped
  cases found : (system.proposed gid)[position]? with
  | none => simp [found] at stepped
  | some command =>
    simp only [found, Option.some.injEq] at stepped
    subst stepped
    have permitted := consistent.proposed gid command (List.mem_of_getElem? found)
    have mirrors := consistent.mirrored.now
    have legit : Legit controller protocol gid command := by
      cases command with
      | kvOperation op => exact Issued.legit consistent.explained mirrors permitted
      | configOperation config => exact permitted
      | shardRequestOperation message => exact permitted
      | shardConfirmOperation message => exact permitted.1
      | noOperation => exact permitted
    have timely : Timely gid (system.log gid) command := by
      have number : ((machine gid).run (system.log gid)).config.num = protocol.number gid :=
        (mirrors.groups gid).number
      cases command with
      | kvOperation op => trivial
      | configOperation config => trivial
      | shardRequestOperation message =>
        simp only [Timely, number]
        exact legit.1
      | shardConfirmOperation message =>
        simp only [Timely, number]
        exact legit
      | noOperation => trivial
    have explained : Explained system.records (.commit (gid, command)) := by
      rintro op rfl
      exact ⟨permitted, Issued.upToDate consistent.explained mirrors permitted⟩
    obtain ⟨after, further, mirrored⟩ := mirrors.commit legit
    refine ⟨after, further, ?_, consistent.explained.append explained, ?_, ?_, consistent.disciplined.commit _,
      ?_, ?_, ?_, ?_, ?_, ?_, ?_⟩
    · rw [Trace.committed_commit]
      exact consistent.mirrored.snoc further mirrored
    · intro other
      rw [System.log_commit]
      by_cases here : gid = other
      · subst here
        simpa using (consistent.timely gid).append timely
      · simpa [here] using consistent.timely other
    · intro attends
      rw [Trace.committed_commit]
      exact (consistent.kept attends).append (Permitted.kept permitted mirrors attends)
    · intro other server
      rw [System.log_commit]
      exact (consistent.replicas other server).append _
    · intro other snapshot member
      rw [System.log_commit]
      exact (consistent.snapshots other snapshot member).mono _
    · intro other found member
      exact (consistent.proposed other found member).mono further _
    · intro call member
      exact (consistent.calls call member).append _
    · intro client
      rw [Trace.committed_commit]
      exact (consistent.clerks client).append _
    · intro pull member
      exact (consistent.pulls pull member).mono further
    · intro confirm member
      exact (consistent.confirms confirm member).mono further

theorem applied {server : ServerName} {command : Command}
    {sending : Option (Nat × Command)} {persisted : Option (Nat × GroupState)}
    (arrived : (system.log gid)[(system.replica gid server).applied]? = some command)
    (sends : ∀ channel message, sending = some (channel, message) →
      ((system.replica gid server).server.kv.apply gid command).2 = some message ∧
        (system.replica gid server).server.waitChan.waitChan ((system.replica gid server).applied + 1) =
          some channel)
    (saved : persisted = (system.replica gid server).persisted ∨ persisted =
      some ((system.replica gid server).applied + 1, ((system.replica gid server).server.kv.apply gid command).1)) :
    Consistent controller attentive protocol (system.setReplica gid server { system.replica gid server with
      server := { (system.replica gid server).server with
        kv := ((system.replica gid server).server.kv.apply gid command).1 },
      sending, persisted, applied := (system.replica gid server).applied + 1 }) := by
  have ok := consistent.replicas gid server
  have reflects := ok.reflects.advance arrived
  have output := ok.reflects.output arrived
  refine consistent.setReplica ⟨reflects, Nat.le_succ_of_le ok.included, ?_, ok.waiters, ?_⟩
    (.of_follows rfl (.refl ok.waiters))
  · intro index kv same
    dsimp only at same
    rcases saved with rfl | rfl
    · exact ok.persisted index kv same
    · cases same
      exact reflects
  · intro channel message same
    obtain ⟨produced, leads⟩ := sends channel message same
    refine ⟨_, ok.waiters.mapped _ channel leads, ?_⟩
    rintro op rfl
    rw [output]
    exact congrArg some produced

theorem deliver {server : ServerName}
    {takeSnapshot : Bool} (stepped : system.deliver gid server takeSnapshot = some next) :
    Consistent controller attentive protocol next := by
  unfold System.deliver at stepped
  cases arrived : (system.log gid)[(system.replica gid server).applied]? with
  | none => simp [arrived] at stepped
  | some command =>
    simp only [arrived] at stepped
    split at stepped
    · cases stepped
    rename_i running
    have ok := consistent.replicas gid server
    have quiet : (system.replica gid server).sending = none := by
      cases sends : (system.replica gid server).sending with
      | none => rfl
      | some pair => exact absurd (.inr (by simp [sends])) running
    -- The next index is beyond the installed snapshot, so the command is not skipped.
    have handled : (system.replica gid server).server.applyHandler gid
        ((system.replica gid server).applied + 1) command =
        ({ (system.replica gid server).server with
            kv := ((system.replica gid server).server.kv.apply gid command).1 },
          ((system.replica gid server).server.kv.apply gid command).2) := by
      have := ok.included
      unfold Server.applyHandler
      rw [if_neg (by omega)]
    rw [handled] at stepped
    cases produced : ((system.replica gid server).server.kv.apply gid command).2 with
    | none =>
      simp only [produced, Option.some.injEq] at stepped
      subst stepped
      exact consistent.applied arrived (by simp [quiet]) (.inl rfl)
    | some message =>
      simp only [produced] at stepped
      have sends : ∀ channel told,
          ((system.replica gid server).server.waitChan.waitChan ((system.replica gid server).applied + 1)).map
            (fun channel => (channel, message)) = some (channel, told) →
          ((system.replica gid server).server.kv.apply gid command).2 = some told ∧
            (system.replica gid server).server.waitChan.waitChan ((system.replica gid server).applied + 1) =
              some channel := by
        intro channel told same
        simp only [Option.map_eq_some_iff, Prod.mk.injEq] at same
        obtain ⟨_, leads, rfl, rfl⟩ := same
        exact ⟨produced, leads⟩
      split at stepped
      · cases stepped
        have moved := consistent.applied arrived sends (.inr rfl)
        exact moved.addSnapshot (ok.reflects.advance arrived)
      · cases stepped
        exact consistent.applied arrived sends (.inl rfl)

/-- A command that the installed snapshot covers changes nothing, and no client's handler is told. -/
theorem applyHandler_covered {server : ServerName}
    {commandIndex : Nat} {command : Command} (arrived : (system.log gid)[commandIndex - 1]? = some command)
    (positive : commandIndex ≠ 0) (covered : commandIndex ≤ (system.replica gid server).server.lastIncludedIndex) :
    ((system.replica gid server).server.applyHandler gid commandIndex command).1 =
        (system.replica gid server).server ∧
      ∀ op, ((system.replica gid server).server.applyHandler gid commandIndex command).2 ≠
        some (.kvOperation op) := by
  have ok := consistent.replicas gid server
  have included := ok.included
  unfold Server.applyHandler
  split
  · exact ⟨rfl, by simp⟩
  · rename_i unskipped
    have unchecked : Server.checksIndex command = false := by
      cases checked : Server.checksIndex command with
      | false => rfl
      | true => exact absurd ⟨checked, covered⟩ unskipped
    have settled := settled_of_included (consistent.timely gid) arrived
      (show commandIndex - 1 < (system.replica gid server).applied by omega)
    rw [← ok.reflects.state_eq] at settled
    refine ⟨?_, fun op produced => ?_⟩
    · simp only [settled.apply_eq unchecked]
    · obtain ⟨entry, rfl, _⟩ := apply_kvOperation_output produced
      simp [Server.checksIndex] at unchecked

theorem redeliver_eq {server : ServerName}
    {commandIndex : Nat} (stepped : system.redeliver gid server commandIndex = some next) :
    ∃ sending, next = system.setReplica gid server { system.replica gid server with sending } ∧
      ∀ channel message, sending = some (channel, message) →
        (system.replica gid server).server.waitChan.waitChan commandIndex = some channel ∧
          ∀ op, message ≠ .kvOperation op := by
  unfold System.redeliver at stepped
  cases arrived : (system.log gid)[commandIndex - 1]? with
  | none => simp [arrived] at stepped
  | some command =>
    simp only [arrived] at stepped
    split at stepped
    · cases stepped
    rename_i allowed
    simp only [not_or, not_lt] at allowed
    obtain ⟨_, _, positive, covered⟩ := allowed
    obtain ⟨same, untold⟩ := consistent.applyHandler_covered arrived positive covered
    cases stepped
    rw [same]
    refine ⟨_, rfl, ?_⟩
    intro channel message sends
    simp only [Option.bind_eq_some_iff, Option.map_eq_some_iff, Prod.mk.injEq] at sends
    obtain ⟨_, leads, told, produced, rfl, rfl⟩ := sends
    refine ⟨leads, ?_⟩
    rintro op rfl
    exact untold op produced

theorem redeliver {server : ServerName}
    {commandIndex : Nat} (stepped : system.redeliver gid server commandIndex = some next) :
    Consistent controller attentive protocol next := by
  obtain ⟨sending, rfl, sends⟩ := consistent.redeliver_eq stepped
  have ok := consistent.replicas gid server
  refine consistent.setReplica ⟨ok.reflects, ok.included, ok.persisted, ok.waiters, ?_⟩
    (.of_follows rfl (.refl ok.waiters))
  intro channel message same
  obtain ⟨leads, untold⟩ := sends channel message same
  exact ⟨commandIndex, ok.waiters.mapped _ _ leads, fun op told => absurd told (untold op)⟩

theorem push {server : ServerName}
    (stepped : system.push gid server = some next) : Consistent controller attentive protocol next := by
  unfold System.push at stepped
  cases sends : (system.replica gid server).sending with
  | none => simp [sends] at stepped
  | some pair =>
    obtain ⟨channel, message⟩ := pair
    simp only [sends] at stepped
    split at stepped
    · cases stepped
    have ok := consistent.replicas gid server
    cases sent : (system.replica gid server).server.waitChan.send channel message with
    | none =>
      simp only [sent, Option.some.injEq] at stepped
      subst stepped
      exact consistent.setWaitChan (.refl ok.waiters) fun _ same => sends.trans same
    | some after =>
      simp only [sent, Option.some.injEq] at stepped
      subst stepped
      obtain ⟨index, made, right⟩ := ok.sending channel message sends
      refine consistent.setWaitChan (ok.waiters.send ?_ sent) (by rintro _ ⟨⟩)
      -- The channel was made for one index.
      rintro other ⟨found, here, rfl⟩
      obtain ⟨found', here', rfl⟩ := made
      rw [here] at here'
      cases here'
      exact right

theorem install {server : ServerName} {position : Nat}
    (stepped : system.install gid server position = some next) : Consistent controller attentive protocol next := by
  unfold System.install at stepped
  cases found : (system.snapshots gid)[position]? with
  | none => simp [found] at stepped
  | some snapshot =>
    obtain ⟨snapshotIndex, kv⟩ := snapshot
    simp only [found] at stepped
    split at stepped
    · cases stepped
    cases stepped
    have ok := consistent.replicas gid server
    have reflects := consistent.snapshots gid _ (List.mem_of_getElem? found)
    refine consistent.setReplica ⟨reflects, le_refl _, ?_, ok.waiters, ok.sending⟩
      (.of_follows rfl (.refl ok.waiters))
    rintro _ _ ⟨⟩
    exact reflects

theorem restart (gid : Int) (server : ServerName) :
    Consistent controller attentive protocol (system.restart gid server) := by
  have ok := consistent.replicas gid server
  refine consistent.setReplica ⟨?_, ?_, ok.persisted, ?_, by rintro _ _ ⟨⟩⟩ ⟨Nat.le_succ _, ?_⟩
  · cases saved : (system.replica gid server).persisted with
    | none => exact Machine.Reflects.initial _
    | some snapshot => exact ok.persisted _ _ saved
  · cases (system.replica gid server).persisted <;> exact Nat.zero_le _
  · cases (system.replica gid server).persisted <;> exact .empty
  · intro same
    simp at same

end Consistent

end ShardedKV.ShardKV
