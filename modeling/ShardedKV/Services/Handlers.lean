import ShardedKV.Services.WaitChannels

/-!
# Handlers that share wait channels

A handler takes the channel of its index, waits, and closes the channel in the end.  Nobody sends on a
closed channel, since closing takes the channel out of the map.  But two handlers for one index have one
channel, and the second of them closes it again.
-/

namespace ShardedKV.Services

variable {Message : Type}

namespace WaitChannels

def Open (wait : WaitChannels Message) (channel : Nat) : Prop :=
  ∃ found, wait.channels[channel]? = some found ∧ found.closed = false

variable {wait after : WaitChannels Message} {index channel other : Nat} {message : Message}

theorem getWaitCh_open (isOpen : wait.Open channel) : (wait.getWaitCh index).1.Open channel := by
  unfold getWaitCh
  split
  · exact isOpen
  · obtain ⟨found, there, stillOpen⟩ := isOpen
    exact ⟨found, by rw [List.getElem?_append_left (List.getElem?_eq_some_iff.mp there).1, there], stillOpen⟩

theorem Open.set (isOpen : wait.Open other) {found new : Channel Message}
    (there : wait.channels[channel]? = some found) (same : new.closed = found.closed) :
    Open { wait with channels := wait.channels.set channel new } other := by
  obtain ⟨here, located, stillOpen⟩ := isOpen
  by_cases equal : channel = other
  · subst equal
    rw [there] at located
    cases located
    exact ⟨new, by simp [(List.getElem?_eq_some_iff.mp there).1], same.trans stillOpen⟩
  · exact ⟨here, by rw [List.getElem?_set_ne equal, located], stillOpen⟩

theorem send_open (sent : wait.send channel message = some after) :
    after.waitChan = wait.waitChan ∧ ∀ other, wait.Open other → after.Open other := by
  unfold send at sent
  split at sent
  · cases sent
    exact ⟨rfl, fun _ isOpen => isOpen⟩
  split at sent
  · cases sent
  split at sent
  · cases sent
    exact ⟨rfl, fun _ isOpen => isOpen⟩
  · rename_i there _ _
    cases sent
    exact ⟨rfl, fun _ isOpen => isOpen.set there rfl⟩

theorem send_ne_none (isOpen : wait.Open channel) : wait.send channel message ≠ none := by
  obtain ⟨found, there, stillOpen⟩ := isOpen
  simp only [send, there, stillOpen, Bool.false_eq_true, if_false]
  split <;> exact nofun

theorem receive_open {received : Received Message} (taken : wait.receive channel = some (after, received)) :
    after.waitChan = wait.waitChan ∧ ∀ other, wait.Open other → after.Open other := by
  unfold receive at taken
  split at taken
  · cases taken
  split at taken
  · rename_i there _ _ _
    cases taken
    exact ⟨rfl, fun _ isOpen => isOpen.set there rfl⟩
  · split at taken
    · cases taken
      exact ⟨rfl, fun _ isOpen => isOpen⟩
    · cases taken

theorem close_eq_some (closed : wait.close index channel = some after) :
    ∃ found, wait.channels[channel]? = some found ∧ after = {
      waitChan := Function.update wait.waitChan index none,
      channels := wait.channels.set channel { found with closed := true } } := by
  unfold close at closed
  split at closed
  · cases closed
  split at closed
  · cases closed
  · rename_i there _
    exact ⟨_, there, (Option.some.inj closed).symm⟩

theorem close_open (closed : wait.close index channel = some after) (isOpen : wait.Open other)
    (different : other ≠ channel) : after.Open other := by
  obtain ⟨_, _, rfl⟩ := close_eq_some closed
  obtain ⟨here, located, stillOpen⟩ := isOpen
  exact ⟨here, by rw [List.getElem?_set_ne (Ne.symm different), located], stillOpen⟩

theorem close_ne_none (isOpen : wait.Open channel) : wait.close index channel ≠ none := by
  obtain ⟨found, there, stillOpen⟩ := isOpen
  simp only [close, there, stillOpen, Bool.false_eq_true, if_false]
  exact nofun

theorem close_again (closed : wait.close index channel = some after) (again : Nat) :
    after.close again channel = none := by
  obtain ⟨found, there, rfl⟩ := close_eq_some closed
  simp [close, (List.getElem?_eq_some_iff.mp there).1]

theorem MadeFor.unique {first second : Nat} (one : wait.MadeFor channel first) (two : wait.MadeFor channel second) :
    first = second := by
  obtain ⟨found, there, rfl⟩ := one
  obtain ⟨same, here, rfl⟩ := two
  rw [there] at here
  cases here
  rfl

end WaitChannels

/-- The channels of a process with the handlers that use them. -/
structure Handlers (Message : Type) where
  wait : WaitChannels Message := {}
  /-- The index and the channel of each handler that still has to close its channel. -/
  user : Nat → Option (Nat × Nat) := fun _ => none
  panicked : Bool := false

namespace Handlers

/-- One critical section of a process.  With `alone`, a handler takes only a channel that it makes. -/
inductive Step (alone : Bool) (before : Handlers Message) : Handlers Message → Prop where
  | stays : Step alone before before
  | takes (handler index : Nat) (running : before.panicked = false) (idle : before.user handler = none)
      (makes : alone = true → before.wait.waitChan index = none) :
      Step alone before { before with
        wait := (before.wait.getWaitCh index).1
        user := Function.update before.user handler (some (index, (before.wait.getWaitCh index).2)) }
  | sends {index channel : Nat} {message : Message} {wait : WaitChannels Message} (running : before.panicked = false)
      (leads : before.wait.waitChan index = some channel) (sent : before.wait.send channel message = some wait) :
      Step alone before { before with wait }
  | sendPanics {index channel : Nat} {message : Message} (running : before.panicked = false)
      (leads : before.wait.waitChan index = some channel) (panics : before.wait.send channel message = none) :
      Step alone before { before with panicked := true }
  | receives {channel : Nat} {received : WaitChannels.Received Message} {wait : WaitChannels Message}
      (running : before.panicked = false) (taken : before.wait.receive channel = some (wait, received)) :
      Step alone before { before with wait }
  | closes {handler index channel : Nat} {wait : WaitChannels Message} (running : before.panicked = false)
      (uses : before.user handler = some (index, channel)) (closed : before.wait.close index channel = some wait) :
      Step alone before { before with wait, user := Function.update before.user handler none }
  | closePanics {handler index channel : Nat} (running : before.panicked = false)
      (uses : before.user handler = some (index, channel)) (panics : before.wait.close index channel = none) :
      Step alone before { before with user := Function.update before.user handler none, panicked := true }
  | restarts : Step alone before {}

/-- What holds of the channels of every process that has not panicked. -/
structure Orderly (handlers : Handlers Message) : Prop where
  holds : handlers.wait.Holds fun _ _ => True
  opened : ∀ index channel, handlers.wait.waitChan index = some channel → handlers.wait.Open channel
  used : ∀ index channel, handlers.wait.waitChan index = some channel →
    ∃ handler, handlers.user handler = some (index, channel)
  made : ∀ handler index channel, handlers.user handler = some (index, channel) → handlers.wait.MadeFor channel index

/-- No two handlers have one channel, and so none has a closed one. -/
structure Separate (handlers : Handlers Message) : Prop where
  running : handlers.panicked = false
  opened : ∀ handler index channel, handlers.user handler = some (index, channel) → handlers.wait.Open channel
  apart : ∀ first second index other channel, handlers.user first = some (index, channel) →
    handlers.user second = some (other, channel) → first = second

theorem Orderly.initial : Orderly ({} : Handlers Message) := ⟨.empty, nofun, nofun, nofun⟩

theorem Separate.initial : Separate ({} : Handlers Message) := ⟨rfl, nofun, nofun⟩

variable {alone : Bool} {before after : Handlers Message}

theorem Step.of_eq (same : after = before) : Step alone before after := same ▸ .stays

theorem Orderly.getWaitCh (orderly : Orderly before) (index : Nat) :
    (before.wait.getWaitCh index).1.waitChan index = some (before.wait.getWaitCh index).2 ∧
      (before.wait.getWaitCh index).1.Open (before.wait.getWaitCh index).2 ∧
      ∀ other, other ≠ index → (before.wait.getWaitCh index).1.waitChan other = before.wait.waitChan other := by
  unfold WaitChannels.getWaitCh
  cases leads : before.wait.waitChan index with
  | some channel => exact ⟨leads, orderly.opened index channel leads, fun _ _ => rfl⟩
  | none =>
    exact ⟨Function.update_self .., ⟨{ index }, by simp, rfl⟩,
      fun other different => Function.update_of_ne different ..⟩

theorem Orderly.follow (orderly : Orderly before) {wait : WaitChannels Message}
    (follows : WaitChannels.Follows (fun _ _ => True) before.wait wait)
    (same : wait.waitChan = before.wait.waitChan ∧ ∀ channel, before.wait.Open channel → wait.Open channel) :
    Orderly { before with wait } where
  holds := follows.holds
  opened index channel leads := same.2 channel (orderly.opened index channel (same.1 ▸ leads))
  used index channel leads := orderly.used index channel (same.1 ▸ leads)
  made handler index channel uses := follows.kept channel index (orderly.made handler index channel uses)

theorem Orderly.take (orderly : Orderly before) {handler : Nat} (idle : before.user handler = none) (index : Nat) :
    Orderly { before with
      wait := (before.wait.getWaitCh index).1
      user := Function.update before.user handler (some (index, (before.wait.getWaitCh index).2)) } := by
  obtain ⟨follows, madeFor⟩ := orderly.holds.getWaitCh index
  obtain ⟨leadsThere, isOpen, others⟩ := orderly.getWaitCh index
  refine ⟨follows.holds, fun other channel leads => ?_, fun other channel leads => ?_,
    fun other index' channel uses => ?_⟩
  · by_cases equal : other = index
    · subst equal
      rw [leadsThere] at leads
      cases leads
      exact isOpen
    · rw [others other equal] at leads
      exact WaitChannels.getWaitCh_open (orderly.opened other channel leads)
  · by_cases equal : other = index
    · subst equal
      rw [leadsThere] at leads
      cases leads
      exact ⟨handler, Function.update_self ..⟩
    · rw [others other equal] at leads
      obtain ⟨user, uses⟩ := orderly.used other channel leads
      have another : user ≠ handler := by
        rintro rfl
        rw [idle] at uses
        cases uses
      exact ⟨user, (Function.update_of_ne another ..).trans uses⟩
  · by_cases equal : other = handler
    · subst equal
      simp only [Function.update_self, Option.some.injEq, Prod.mk.injEq] at uses
      obtain ⟨rfl, rfl⟩ := uses
      exact madeFor
    · simp only [Function.update_of_ne equal] at uses
      exact follows.kept channel index' (orderly.made other index' channel uses)

theorem Orderly.close (orderly : Orderly before) {handler index channel : Nat} {wait : WaitChannels Message}
    (uses : before.user handler = some (index, channel)) (closed : before.wait.close index channel = some wait) :
    Orderly { before with wait, user := Function.update before.user handler none } := by
  have follows := orderly.holds.close closed
  have closedFor := orderly.made handler index channel uses
  have map : wait.waitChan = Function.update before.wait.waitChan index none := by
    obtain ⟨_, _, rfl⟩ := WaitChannels.close_eq_some closed
    rfl
  -- what another index leads to was made for that index
  have others : ∀ other channel', wait.waitChan other = some channel' →
      other ≠ index ∧ before.wait.waitChan other = some channel' ∧ channel' ≠ channel := by
    intro other channel' leads
    rw [map] at leads
    have different : other ≠ index := by
      rintro rfl
      simp at leads
    rw [Function.update_of_ne different] at leads
    refine ⟨different, leads, ?_⟩
    rintro rfl
    exact different ((orderly.holds.mapped other channel' leads).unique closedFor)
  refine ⟨follows.holds, fun other channel' leads => ?_, fun other channel' leads => ?_,
    fun other index' channel' uses' => ?_⟩
  · obtain ⟨-, led, different⟩ := others other channel' leads
    exact WaitChannels.close_open closed (orderly.opened other channel' led) different
  · obtain ⟨-, led, different⟩ := others other channel' leads
    obtain ⟨user, uses'⟩ := orderly.used other channel' led
    have another : user ≠ handler := by
      rintro rfl
      rw [uses] at uses'
      cases uses'
      exact different rfl
    exact ⟨user, (Function.update_of_ne another ..).trans uses'⟩
  · by_cases equal : other = handler
    · subst equal
      simp at uses'
    · simp only [Function.update_of_ne equal] at uses'
      exact follows.kept channel' index' (orderly.made other index' channel' uses')

theorem Step.orderly (step : Step alone before after) (orderly : before.panicked = false → Orderly before)
    (runs : after.panicked = false) : Orderly after := by
  cases step with
  | stays => exact orderly runs
  | takes handler index running idle => exact (orderly running).take idle index
  | sends running leads sent =>
    have orderly := orderly running
    exact orderly.follow (orderly.holds.send (fun _ _ => trivial) sent) (WaitChannels.send_open sent)
  | sendPanics => cases runs
  | receives running taken =>
    have orderly := orderly running
    exact orderly.follow (orderly.holds.receive taken).1 (WaitChannels.receive_open taken)
  | closes running uses closed => exact (orderly running).close uses closed
  | closePanics => cases runs
  | restarts => exact .initial

theorem Separate.take (separate : Separate before) (orderly : Orderly before) {handler : Nat} (index : Nat)
    (fresh : (before.wait.getWaitCh index).2 = before.wait.channels.length) :
    Separate { before with
      wait := (before.wait.getWaitCh index).1
      user := Function.update before.user handler (some (index, (before.wait.getWaitCh index).2)) } := by
  obtain ⟨-, isOpen, -⟩ := orderly.getWaitCh index
  -- the handlers before it have channels that were there before
  have older : ∀ user other channel, before.user user = some (other, channel) →
      channel ≠ (before.wait.getWaitCh index).2 := by
    intro user other channel uses
    obtain ⟨found, there, -⟩ := orderly.made user other channel uses
    have inside := (List.getElem?_eq_some_iff.mp there).1
    omega
  refine ⟨separate.running, fun user other channel uses => ?_,
    fun first second one two channel firstUses secondUses => ?_⟩
  · by_cases equal : user = handler
    · subst equal
      simp only [Function.update_self, Option.some.injEq, Prod.mk.injEq] at uses
      obtain ⟨-, rfl⟩ := uses
      exact isOpen
    · simp only [Function.update_of_ne equal] at uses
      exact WaitChannels.getWaitCh_open (separate.opened user other channel uses)
  · by_cases isFirst : first = handler <;> by_cases isSecond : second = handler
    · rw [isFirst, isSecond]
    · simp only [isFirst, Function.update_self, Function.update_of_ne isSecond, Option.some.injEq, Prod.mk.injEq]
        at firstUses secondUses
      exact absurd firstUses.2.symm (older second two channel secondUses)
    · simp only [isSecond, Function.update_self, Function.update_of_ne isFirst, Option.some.injEq, Prod.mk.injEq]
        at firstUses secondUses
      exact absurd secondUses.2.symm (older first one channel firstUses)
    · simp only [Function.update_of_ne isFirst, Function.update_of_ne isSecond] at firstUses secondUses
      exact separate.apart first second one two channel firstUses secondUses

theorem Separate.close (separate : Separate before) {handler index channel : Nat} {wait : WaitChannels Message}
    (uses : before.user handler = some (index, channel)) (closed : before.wait.close index channel = some wait) :
    Separate { before with wait, user := Function.update before.user handler none } := by
  have remaining : ∀ user use, Function.update before.user handler none user = some use →
      user ≠ handler ∧ before.user user = some use := by
    intro user use uses'
    have different : user ≠ handler := by
      rintro rfl
      simp at uses'
    exact ⟨different, (Function.update_of_ne different ..).symm.trans uses'⟩
  refine ⟨separate.running, fun user other channel' uses' => ?_,
    fun first second one two channel' firstUses secondUses => ?_⟩
  · obtain ⟨different, used⟩ := remaining user (other, channel') uses'
    refine WaitChannels.close_open closed (separate.opened user other channel' used) ?_
    rintro rfl
    exact different (separate.apart user handler other index channel' used uses)
  · exact separate.apart first second one two channel' (remaining first _ firstUses).2 (remaining second _ secondUses).2

theorem Step.separate (step : Step true before after) (orderly : Orderly before) (separate : Separate before) :
    Separate after := by
  have followed : ∀ {wait : WaitChannels Message}, (∀ channel, before.wait.Open channel → wait.Open channel) →
      Separate { before with wait } := fun stays =>
    ⟨separate.running, fun handler index channel uses => stays channel (separate.opened handler index channel uses),
      separate.apart⟩
  cases step with
  | stays => exact separate
  | takes handler index running idle makes =>
    have fresh : (before.wait.getWaitCh index).2 = before.wait.channels.length := by
      rw [WaitChannels.getWaitCh, makes rfl]
    exact separate.take orderly index fresh
  | sends running leads sent => exact followed (WaitChannels.send_open sent).2
  | sendPanics running leads panics => exact absurd panics (WaitChannels.send_ne_none (orderly.opened _ _ leads))
  | receives running taken => exact followed (WaitChannels.receive_open taken).2
  | closes running uses closed => exact separate.close uses closed
  | closePanics running uses panics => exact absurd panics (WaitChannels.close_ne_none (separate.opened _ _ _ uses))
  | restarts => exact .initial

end Handlers

end ShardedKV.Services
