import Mathlib.Data.List.Basic
import Mathlib.Logic.Function.Basic
import Mathlib.Tactic.Common

/-!
# Channels that wait for a log index

A server keeps a map from log indices to buffered channels of capacity one.  A handler makes
the channel of its index or finds it there, and the apply loop sends on the channel of the
index it has applied.  Closing a closed channel and sending on one panics.
-/

namespace ShardedKV.Services

structure Channel (Message : Type) where
  /-- The index under which the channel was made; no operation reads it. -/
  index : Nat
  buffer : Option Message := none
  closed : Bool := false

/-- The map and the channels ever made; a channel is referred to by its position. -/
structure WaitChannels (Message : Type) where
  waitChan : Nat → Option Nat := fun _ => none
  channels : List (Channel Message) := []

namespace WaitChannels

variable {Message : Type}

/-- The channel of the index, made if there is none. -/
def getWaitCh (wait : WaitChannels Message) (index : Nat) : WaitChannels Message × Nat :=
  match wait.waitChan index with
  | some channel => (wait, channel)
  | none =>
    ({ waitChan := Function.update wait.waitChan index (some wait.channels.length),
       channels := wait.channels ++ [{ index }] }, wait.channels.length)

/-- A send with a time limit: a full channel keeps its message.  `none` is a panic. -/
def send (wait : WaitChannels Message) (channel : Nat) (message : Message) :
    Option (WaitChannels Message) :=
  match wait.channels[channel]? with
  | none => some wait
  | some found =>
    if found.closed then none
    else if found.buffer.isSome then some wait
    else some { wait with channels := wait.channels.set channel { found with buffer := some message } }

inductive Received (Message : Type) where
  | message (message : Message)
  | closed

/-- A receive; `none` while the channel is open and empty. -/
def receive (wait : WaitChannels Message) (channel : Nat) :
    Option (WaitChannels Message × Received Message) :=
  match wait.channels[channel]? with
  | none => none
  | some found =>
    match found.buffer with
    | some message =>
      some ({ wait with channels := wait.channels.set channel { found with buffer := none } },
        .message message)
    | none => if found.closed then some (wait, .closed) else none

/-- `close` of the channel and `delete` of the index.  `none` is a panic. -/
def close (wait : WaitChannels Message) (index channel : Nat) : Option (WaitChannels Message) :=
  match wait.channels[channel]? with
  | none => none
  | some found =>
    if found.closed then none
    else some {
      waitChan := Function.update wait.waitChan index none,
      channels := wait.channels.set channel { found with closed := true } }

/-! ## What the channels hold -/

/-- A channel exists and was made for the index. -/
def MadeFor (wait : WaitChannels Message) (channel index : Nat) : Prop :=
  ∃ found, wait.channels[channel]? = some found ∧ found.index = index

/-- Every index leads to its own channel, and what a channel holds is right for its index. -/
structure Holds (right : Nat → Message → Prop) (wait : WaitChannels Message) : Prop where
  mapped : ∀ index channel, wait.waitChan index = some channel → wait.MadeFor channel index
  held : ∀ (channel : Nat) (found : Channel Message) (message : Message),
    wait.channels[channel]? = some found → found.buffer = some message → right found.index message

/-- The channels after a step: still holding what is right, and none of them gone. -/
structure Follows (right : Nat → Message → Prop) (before after : WaitChannels Message) : Prop where
  holds : Holds right after
  kept : ∀ channel index, before.MadeFor channel index → after.MadeFor channel index

variable {right : Nat → Message → Prop} {wait after : WaitChannels Message}

theorem Holds.empty : Holds right ({} : WaitChannels Message) where
  mapped := by simp
  held := by simp

variable (holds : Holds right wait)
include holds

theorem Holds.mono {right' : Nat → Message → Prop}
    (weaker : ∀ index message, right index message → right' index message) : Holds right' wait where
  mapped := holds.mapped
  held := fun channel found message here held => weaker _ _ (holds.held channel found message here held)

theorem Follows.refl : Follows right wait wait :=
  ⟨holds, fun _ _ made => made⟩

theorem Holds.set {channel : Nat} {old new : Channel Message}
    (there : wait.channels[channel]? = some old) (same : new.index = old.index)
    (rightful : ∀ message, new.buffer = some message → right old.index message)
    {waitChan : Nat → Option Nat}
    (fewer : ∀ index other, waitChan index = some other → wait.waitChan index = some other) :
    Follows right wait { waitChan, channels := wait.channels.set channel new } := by
  have inside : channel < wait.channels.length := (List.getElem?_eq_some_iff.mp there).1
  have kept : ∀ other index, wait.MadeFor other index →
      MadeFor { waitChan, channels := wait.channels.set channel new } other index := by
    rintro other _ ⟨found, here, rfl⟩
    by_cases equal : channel = other
    · subst equal
      rw [here] at there
      cases there
      exact ⟨new, by simp [inside], same⟩
    · exact ⟨found, by simp [List.getElem?_set_ne equal, here], rfl⟩
  refine ⟨⟨?_, ?_⟩, kept⟩
  · intro index other leads
    exact kept other index (holds.mapped index other (fewer index other leads))
  · intro other found message here held
    by_cases equal : channel = other
    · subst equal
      simp only [List.getElem?_set_self inside, Option.some.injEq] at here
      subst here
      rw [same]
      exact rightful message held
    · simp only [List.getElem?_set_ne equal] at here
      exact holds.held other found message here held

theorem Holds.getWaitCh (index : Nat) :
    Follows right wait (wait.getWaitCh index).1 ∧
      (wait.getWaitCh index).1.MadeFor (wait.getWaitCh index).2 index := by
  unfold WaitChannels.getWaitCh
  cases leads : wait.waitChan index with
  | some channel => exact ⟨.refl holds, holds.mapped index channel leads⟩
  | none =>
    have kept : ∀ channel other, wait.MadeFor channel other →
        MadeFor { waitChan := Function.update wait.waitChan index (some wait.channels.length),
                  channels := wait.channels ++ [{ index }] } channel other := by
      rintro channel other ⟨found, here, same⟩
      have inside : channel < wait.channels.length := (List.getElem?_eq_some_iff.mp here).1
      exact ⟨found, by rw [List.getElem?_append_left inside, here], same⟩
    refine ⟨⟨⟨?_, ?_⟩, kept⟩, ⟨{ index }, by simp, rfl⟩⟩
    · intro other channel leads'
      by_cases equal : other = index
      · subst equal
        simp only [Function.update_self, Option.some.injEq] at leads'
        subst leads'
        exact ⟨{ index := other }, by simp, rfl⟩
      · simp only [Function.update_of_ne equal] at leads'
        exact kept channel other (holds.mapped other channel leads')
    · intro channel found message here held
      -- The new channel is empty, so a channel that holds something is an old one.
      by_cases inside : channel < wait.channels.length
      · rw [List.getElem?_append_left inside] at here
        exact holds.held channel found message here held
      · rw [List.getElem?_append_right (by omega), List.getElem?_singleton] at here
        split at here
        · cases here
          cases held
        · cases here

theorem Holds.send {channel : Nat} {message : Message}
    (rightful : ∀ index, wait.MadeFor channel index → right index message)
    (sent : wait.send channel message = some after) : Follows right wait after := by
  unfold WaitChannels.send at sent
  cases there : wait.channels[channel]? with
  | none =>
    simp only [there, Option.some.injEq] at sent
    subst sent
    exact .refl holds
  | some found =>
    simp only [there] at sent
    split at sent
    · cases sent
    split at sent
    · cases sent
      exact .refl holds
    · cases sent
      apply holds.set there (by rfl)
      · rintro _ ⟨⟩
        exact rightful _ ⟨found, there, rfl⟩
      · exact fun _ _ leads => leads

theorem Holds.receive {channel : Nat} {received : Received Message}
    (taken : wait.receive channel = some (after, received)) :
    Follows right wait after ∧ ∀ message index, received = .message message →
      wait.MadeFor channel index → right index message := by
  unfold WaitChannels.receive at taken
  cases there : wait.channels[channel]? with
  | none => simp [there] at taken
  | some found =>
    cases buffered : found.buffer with
    | some message =>
      simp only [there, buffered, Option.some.injEq, Prod.mk.injEq] at taken
      obtain ⟨rfl, rfl⟩ := taken
      refine ⟨holds.set there (by rfl) (by simp) (fun _ _ leads => leads), ?_⟩
      rintro _ _ ⟨⟩ ⟨same, here, rfl⟩
      rw [there] at here
      cases here
      exact holds.held channel found message there buffered
    | none =>
      simp only [there, buffered] at taken
      split at taken
      · cases taken
        exact ⟨.refl holds, by rintro _ _ ⟨⟩⟩
      · cases taken

theorem Holds.close {index channel : Nat}
    (closed : wait.close index channel = some after) : Follows right wait after := by
  unfold WaitChannels.close at closed
  cases there : wait.channels[channel]? with
  | none => simp [there] at closed
  | some found =>
    simp only [there] at closed
    split at closed
    · cases closed
    · cases closed
      apply holds.set there (by rfl)
      · intro message held
        exact holds.held channel found message there held
      · intro other leads mapped
        by_cases equal : other = index
        · simp [equal] at mapped
        · simpa [Function.update_of_ne equal] using mapped

end WaitChannels

end ShardedKV.Services
