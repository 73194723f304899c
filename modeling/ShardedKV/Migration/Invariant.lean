import Mathlib.Order.Nat
import ShardedKV.Migration.Protocol

/-!
# At most one group holds a shard

The owners of a shard form a chain along the assignments, and a group holds the shard only when
everyone before it in the chain has moved on.  So there is one holder or one copy on its way,
and it has everything that was ever executed on the shard.
-/

namespace ShardedKV.Migration

variable {Group Shard Client Data : Type} {scheme : Scheme Group Shard Data}
  {state before after : State Group Shard Client Data}

/-! ## Consequences in one state -/

theorem Passed.mono {shard : Shard} {number : Nat} (passed : Passed scheme before shard number)
    (grows : ∀ group, before.number group ≤ after.number group) : Passed scheme after shard number :=
  fun earlier positive less => (passed earlier positive less).trans_le (grows _)

theorem Placed.of_eq {group : Group} {shard : Shard} (placed : Placed scheme before group shard)
    (number : after.number group = before.number group)
    (phase : after.phase group shard = before.phase group shard) : Placed scheme after group shard := by
  unfold Placed
  rw [number, phase]
  exact placed

namespace Invariant

variable (invariant : Invariant scheme state)

include invariant

theorem holding_owner {group : Group} {shard : Shard} (holding : state.phase group shard = .holding) :
    1 ≤ state.number group ∧ scheme.owner (state.number group) shard = group := by
  have placed := invariant.placed group shard
  simpa only [Placed, holding] using placed

theorem absent_owner {group : Group} {shard : Shard} (absent : state.phase group shard = .absent)
    (inside : 1 ≤ state.number group) : scheme.owner (state.number group) shard ≠ group := by
  have placed := invariant.placed group shard
  simp only [Placed, absent] at placed
  exact placed inside

theorem awaiting_owner {group : Group} {shard : Shard} (awaiting : state.phase group shard = .awaiting) :
    2 ≤ state.number group ∧ scheme.owner (state.number group) shard = group ∧
      scheme.owner (state.number group - 1) shard ≠ group := by
  have placed := invariant.placed group shard
  simpa only [Placed, awaiting] using placed

theorem releasing_owner {group : Group} {shard : Shard} (releasing : state.phase group shard = .releasing) :
    2 ≤ state.number group ∧ scheme.owner (state.number group) shard ≠ group ∧
      scheme.owner (state.number group - 1) shard = group := by
  have placed := invariant.placed group shard
  simpa only [Placed, releasing] using placed

theorem outside_absent {group : Group} (outside : state.number group = 0) (shard : Shard) :
    state.phase group shard = .absent := by
  cases phase : state.phase group shard with
  | absent => rfl
  | holding =>
    have := (invariant.holding_owner phase).1
    omega
  | awaiting =>
    have := (invariant.awaiting_owner phase).1
    omega
  | releasing =>
    have := (invariant.releasing_owner phase).1
    omega

theorem holding_iff_owner {group : Group} {shard : Shard}
    (inside : 1 ≤ state.number group)
    (ready : state.phase group shard = .holding ∨ state.phase group shard = .absent) :
    state.phase group shard = .holding ↔ scheme.owner (state.number group) shard = group := by
  constructor
  · intro holding
    exact (invariant.holding_owner holding).2
  · intro owns
    rcases ready with holding | absent
    · exact holding
    · exact absurd owns (invariant.absent_owner absent inside)

theorem exclusive {first second : Group} {shard : Shard} (firstHolds : state.phase first shard = .holding)
    (secondHolds : state.phase second shard = .holding) : first = second := by
  obtain ⟨firstInside, firstOwns⟩ := invariant.holding_owner firstHolds
  obtain ⟨secondInside, secondOwns⟩ := invariant.holding_owner secondHolds
  have firstPassed := invariant.passed first shard firstHolds
  have secondPassed := invariant.passed second shard secondHolds
  rcases Nat.lt_trichotomy (state.number first) (state.number second) with less | same | more
  · -- The second holder is further, so the first has left the assignment it holds the shard in.
    have left := secondPassed _ firstInside less
    rw [firstOwns] at left
    omega
  · rw [← firstOwns, ← secondOwns, same]
  · have left := firstPassed _ secondInside more
    rw [secondOwns] at left
    omega

theorem not_pending {group : Group} {shard : Shard} {number : Nat} {copy : Data × (Client → Nat)}
    (holding : state.phase group shard = .holding) (offered : state.handoff number shard = some copy) :
    ¬ Pending scheme state number shard := by
  obtain ⟨inside, owns⟩ := invariant.holding_owner holding
  have passed := invariant.passed group shard holding
  obtain ⟨bound, _, chain⟩ := invariant.offered number shard copy offered
  intro pending
  rcases Nat.lt_trichotomy (state.number group) number with less | same | more
  · have left := chain _ inside less
    rw [owns] at left
    omega
  · rcases pending with behind | ⟨_, awaiting⟩
    · rw [← same, owns] at behind
      omega
    · rw [← same, owns, holding] at awaiting
      cases awaiting
  · have left := passed number (by omega) more
    rcases pending with behind | ⟨there, _⟩ <;> omega

theorem born {group : Group} {shard : Shard} (holding : state.phase group shard = .holding) :
    state.number (scheme.owner 1 shard) ≠ 0 := by
  obtain ⟨inside, owns⟩ := invariant.holding_owner holding
  have passed := invariant.passed group shard holding
  rcases Nat.lt_or_eq_of_le inside with more | first
  · have left := passed 1 (le_refl _) more
    omega
  · rw [← first] at owns
    rw [owns]
    omega

theorem executed_of_le_session {group : Group} {client : Client} {number : Nat} (positive : 1 ≤ number)
    (remembered : number ≤ state.session group client) : ∃ shard, state.done shard client number := by
  rcases invariant.sound group client with none_seen | ⟨shard, executed⟩
  · omega
  · rcases Nat.lt_or_eq_of_le remembered with less | same
    · exact (invariant.closed _ _ _ executed).2 number positive less
    · exact ⟨shard, same ▸ executed⟩

/-- A group that holds a shard recognises exactly the operations that were executed on it. -/
theorem le_session_iff {group : Group} {shard : Shard} {client : Client} {number : Nat}
    (holding : state.phase group shard = .holding) (positive : 1 ≤ number)
    (same : ∀ place, state.done place client number → place = shard) :
    number ≤ state.session group client ↔ state.done shard client number := by
  constructor
  · intro remembered
    obtain ⟨place, executed⟩ := invariant.executed_of_le_session positive remembered
    exact same place executed ▸ executed
  · exact (invariant.current group shard holding).covers client number

end Invariant

theorem invariant_initial : Invariant scheme (initial scheme : State Group Shard Client Data) where
  placed := by
    intro group shard inside
    simp [initial] at inside
  vacant := fun _ _ _ => rfl
  passed := by simp [initial]
  current := by simp [initial]
  offered := by simp [initial]
  kept := by simp [initial]
  retained := by simp [initial]
  unborn := fun _ _ => ⟨rfl, fun _ _ executed => executed⟩
  sound := fun _ _ => .inl rfl
  closed := by simp [initial]
  single := by simp [initial]
  delivered := by simp [initial]

/-! ## Every step keeps the invariant -/

theorem UpToDate.mono {shard : Shard} {data : Data} {sessions sessions' : Client → Nat}
    (upToDate : UpToDate state shard data sessions) (grows : ∀ client, sessions client ≤ sessions' client) :
    UpToDate state shard data sessions' :=
  ⟨upToDate.data_eq, fun client number executed => (upToDate.covers client number executed).trans (grows client)⟩

section

variable [DecidableEq Group]

namespace State

theorem enter_of_ne {group other : Group} (apart : other ≠ group) :
    (state.enter scheme group).number other = state.number other ∧
      ∀ shard, (state.enter scheme group).phase other shard = state.phase other shard := by
  simp [enter, apart]

theorem enter_number_le {group : Group} (outside : state.number group = 0) (other : Group) :
    state.number other ≤ (state.enter scheme group).number other := by
  simp only [enter]
  split
  · rename_i here
    rw [here]
    omega
  · exact le_refl _

theorem advance_of_ne {group other : Group} (apart : other ≠ group) :
    (state.advance scheme group).number other = state.number other ∧
      ∀ shard, (state.advance scheme group).phase other shard = state.phase other shard := by
  simp [advance, apart]

theorem advance_number_le (group other : Group) :
    state.number other ≤ (state.advance scheme group).number other := by
  simp only [advance]
  split
  · rename_i here
    rw [here]
    omega
  · exact le_refl _

variable {number : Nat} {group : Group} {shard : Shard}

theorem owner_of_nextPhase_holding (holds : nextPhase scheme number group shard = .holding) :
    scheme.owner number shard = group := by
  by_contra unowned
  rw [nextPhase, if_neg unowned] at holds
  split at holds <;> cases holds

theorem leaves_of_nextPhase_releasing (releases : nextPhase scheme number group shard = .releasing) :
    Leaves scheme number group shard := by
  by_cases owned : scheme.owner number shard = group
  · rw [nextPhase, if_pos owned] at releases
    refine ⟨owned, fun owns => ?_⟩
    rw [if_pos owns] at releases
    cases releases
  · rw [nextPhase, if_neg owned] at releases
    split at releases <;> cases releases

theorem owner_ne_of_nextPhase_idle
    (idle : nextPhase scheme number group shard = .absent ∨ nextPhase scheme number group shard = .awaiting) :
    scheme.owner number shard ≠ group := by
  intro owned
  rw [nextPhase, if_pos owned] at idle
  split at idle <;> simp at idle

end State

theorem Invariant.enter (invariant : Invariant scheme state) {group : Group}
    (outside : state.number group = 0) : Invariant scheme (state.enter scheme group) := by
  have grows : ∀ other, state.number other ≤ (state.enter scheme group).number other :=
    State.enter_number_le outside
  have entered : (state.enter scheme group).number group = 1 := by simp [State.enter]
  have phases : ∀ shard, (state.enter scheme group).phase group shard =
      if scheme.owner 1 shard = group then .holding else .absent := by
    intro shard
    simp [State.enter, invariant.outside_absent outside shard]
  -- A copy that is still on its way was on its way before.
  have pending : ∀ {number : Nat} {shard : Shard}, 2 ≤ number →
      Pending scheme (state.enter scheme group) number shard → Pending scheme state number shard := by
    intro number shard bound still
    by_cases here : scheme.owner number shard = group
    · exact .inl (by rw [here]; omega)
    · simpa only [Pending, (State.enter_of_ne here).1, (State.enter_of_ne here).2] using still
  refine ⟨?_, ?_, ?_, ?_, ?_, ?_, ?_, ?_, invariant.sound, invariant.closed, invariant.single, ?_⟩
  · intro other shard
    by_cases here : other = group
    · subst here
      by_cases owned : scheme.owner 1 shard = other
      · simp [Placed, phases, entered, owned]
      · simp [Placed, phases, entered, owned]
    · exact (invariant.placed other shard).of_eq (State.enter_of_ne here).1 ((State.enter_of_ne here).2 shard)
  · intro other shard idle
    by_cases here : other = group
    · subst here
      exact invariant.vacant other shard (.inl (invariant.outside_absent outside shard))
    · rw [(State.enter_of_ne here).2] at idle
      exact invariant.vacant other shard idle
  · intro other shard holds
    by_cases here : other = group
    · subst here
      rw [entered]
      intro earlier positive less
      omega
    · rw [(State.enter_of_ne here).2] at holds
      rw [(State.enter_of_ne here).1]
      exact (invariant.passed other shard holds).mono grows
  · intro other shard holds
    by_cases here : other = group
    · subst here
      have owned : scheme.owner 1 shard = other := by
        by_contra apart
        simp [phases, apart] at holds
      obtain ⟨truth, nothing⟩ := invariant.unborn shard (by rw [owned]; exact outside)
      refine ⟨?_, fun client number executed => absurd executed (nothing client number)⟩
      exact (invariant.vacant other shard (.inl (invariant.outside_absent outside shard))).trans truth.symm
    · rw [(State.enter_of_ne here).2] at holds
      have upToDate := invariant.current other shard holds
      exact ⟨upToDate.data_eq, upToDate.covers⟩
  · intro number shard copy offered
    obtain ⟨bound, moves, chain⟩ := invariant.offered number shard copy offered
    exact ⟨bound, moves, chain.mono grows⟩
  · intro number shard data sessions offered still
    have bound := (invariant.offered number shard _ offered).1
    have upToDate := invariant.kept number shard data sessions offered (pending bound still)
    exact ⟨upToDate.data_eq, upToDate.covers⟩
  · intro other shard releases
    by_cases here : other = group
    · subst here
      rw [phases] at releases
      split at releases <;> cases releases
    · rw [(State.enter_of_ne here).2] at releases
      rw [(State.enter_of_ne here).1]
      exact invariant.retained other shard releases
  · intro shard unused
    have := grows (scheme.owner 1 shard)
    exact invariant.unborn shard (by omega)
  · intro other number shard bound owns moved reached
    by_cases here : other = group
    · rw [here, entered] at reached
      omega
    · rw [(State.enter_of_ne here).1, (State.enter_of_ne here).2] at reached
      exact invariant.delivered other number shard bound owns moved reached

theorem Invariant.advance (invariant : Invariant scheme state) {group : Group}
    (inside : 1 ≤ state.number group)
    (ready : ∀ shard, state.phase group shard = .holding ∨ state.phase group shard = .absent) :
    Invariant scheme (state.advance scheme group) := by
  have grows : ∀ other, state.number other ≤ (state.advance scheme group).number other :=
    State.advance_number_le group
  have moved : (state.advance scheme group).number group = state.number group + 1 := by
    simp [State.advance]
  have phases : ∀ shard, (state.advance scheme group).phase group shard =
      State.nextPhase scheme (state.number group) group shard := by
    simp [State.advance]
  have held : ∀ {shard : Shard}, scheme.owner (state.number group) shard = group →
      state.phase group shard = .holding :=
    fun {shard} owns => (invariant.holding_iff_owner inside (ready shard)).mpr owns
  have passes : ∀ {shard : Shard}, scheme.owner (state.number group) shard = group →
      Passed scheme (state.advance scheme group) shard (state.number group + 1) := by
    intro shard owns earlier positive less
    rcases Nat.lt_or_eq_of_le (Nat.le_of_lt_succ less) with before | rfl
    · exact (invariant.passed group shard (held owns)).mono grows earlier positive before
    · rw [owns, moved]
      omega
  have pending : ∀ {number : Nat} {shard : Shard},
      Pending scheme (state.advance scheme group) number shard → Pending scheme state number shard := by
    intro number shard still
    by_cases here : scheme.owner number shard = group
    · refine .inl ?_
      simp only [Pending, here, moved] at still
      rw [here]
      omega
    · simpa only [Pending, (State.advance_of_ne here).1, (State.advance_of_ne here).2] using still
  have handoffs : ∀ {number : Nat} {shard : Shard} {copy : Data × (Client → Nat)},
      (state.advance scheme group).handoff number shard = some copy →
      (number = state.number group + 1 ∧ State.Leaves scheme (state.number group) group shard ∧
        copy = (state.data group shard, state.session group)) ∨ state.handoff number shard = some copy := by
    intro number shard copy offered
    simp only [State.advance] at offered
    split at offered
    · rename_i leaves
      exact .inl ⟨leaves.1, leaves.2, (Option.some.inj offered).symm⟩
    · exact .inr offered
  refine ⟨?_, ?_, ?_, ?_, ?_, ?_, ?_, ?_, invariant.sound, invariant.closed, invariant.single, ?_⟩
  · intro other shard
    by_cases here : other = group
    · subst here
      simp only [Placed, phases, moved, State.nextPhase, Nat.add_sub_cancel]
      by_cases owned : scheme.owner (state.number other) shard = other <;>
        by_cases owns : scheme.owner (state.number other + 1) shard = other <;>
        simp [owned, owns] <;> omega
    · exact (invariant.placed other shard).of_eq (State.advance_of_ne here).1 ((State.advance_of_ne here).2 shard)
  · intro other shard idle
    by_cases here : other = group
    · subst here
      -- What is absent or awaited now was not owned before, hence absent.
      rw [phases] at idle
      have unowned := State.owner_ne_of_nextPhase_idle idle
      refine invariant.vacant other shard (.inl ((ready shard).resolve_left ?_))
      intro holding
      exact unowned (invariant.holding_owner holding).2
    · rw [(State.advance_of_ne here).2] at idle
      exact invariant.vacant other shard idle
  · intro other shard holds
    by_cases here : other = group
    · subst here
      rw [phases] at holds
      rw [moved]
      exact passes (State.owner_of_nextPhase_holding holds)
    · rw [(State.advance_of_ne here).2] at holds
      rw [(State.advance_of_ne here).1]
      exact (invariant.passed other shard holds).mono grows
  · intro other shard holds
    by_cases here : other = group
    · subst here
      rw [phases] at holds
      have upToDate := invariant.current other shard (held (State.owner_of_nextPhase_holding holds))
      exact ⟨upToDate.data_eq, upToDate.covers⟩
    · rw [(State.advance_of_ne here).2] at holds
      have upToDate := invariant.current other shard holds
      exact ⟨upToDate.data_eq, upToDate.covers⟩
  · intro number shard copy offered
    rcases handoffs offered with ⟨rfl, leaves, _⟩ | old
    · refine ⟨by omega, ?_, passes leaves.1⟩
      rw [Nat.add_sub_cancel, leaves.1]
      exact Ne.symm leaves.2
    · obtain ⟨bound, moves, chain⟩ := invariant.offered number shard copy old
      exact ⟨bound, moves, chain.mono grows⟩
  · intro number shard data sessions offered still
    rcases handoffs offered with ⟨_, leaves, copied⟩ | old
    · cases copied
      have upToDate := invariant.current group shard (held leaves.1)
      exact ⟨upToDate.data_eq, upToDate.covers⟩
    · have upToDate := invariant.kept number shard data sessions old (pending still)
      exact ⟨upToDate.data_eq, upToDate.covers⟩
  · intro other shard releases
    by_cases here : other = group
    · subst here
      refine ⟨state.session other, ?_, fun client => le_refl _⟩
      rw [phases] at releases
      have leaves := State.leaves_of_nextPhase_releasing releases
      rw [moved]
      simp [State.advance, leaves]
    · rw [(State.advance_of_ne here).2] at releases
      obtain ⟨sessions, offered, covered⟩ := invariant.retained other shard releases
      refine ⟨sessions, ?_, covered⟩
      rw [(State.advance_of_ne here).1]
      -- The new copies are of shards that the group owned; this one was owned by another.
      have unowned : ¬ (state.number other = state.number group + 1 ∧
          State.Leaves scheme (state.number group) group shard) := by
        rintro ⟨next, leaves⟩
        have owned := (invariant.releasing_owner releases).2.2
        rw [next, Nat.add_sub_cancel, leaves.1] at owned
        exact here owned.symm
      simpa [State.advance, unowned] using offered
  · intro shard unused
    have := grows (scheme.owner 1 shard)
    exact invariant.unborn shard (by omega)
  · intro other number shard bound owns moves reached
    by_cases here : other = group
    · subst here
      rw [moved] at reached
      rcases reached with less | ⟨rfl, holds⟩
      · apply invariant.delivered other number shard bound owns moves
        rcases Nat.lt_or_eq_of_le (Nat.le_of_lt_succ less) with before | rfl
        · exact .inl before
        · exact .inr ⟨rfl, held owns⟩
      · rw [Nat.add_sub_cancel] at moves
        rw [phases] at holds
        exact absurd (State.owner_of_nextPhase_holding holds) moves
    · rw [(State.advance_of_ne here).1, (State.advance_of_ne here).2] at reached
      exact invariant.delivered other number shard bound owns moves reached

variable [DecidableEq Shard]

theorem Invariant.receive (invariant : Invariant scheme state) {group : Group} {shard : Shard} {data : Data}
    {given sessions : Client → Nat} (awaiting : state.phase group shard = .awaiting)
    (offered : state.handoff (state.number group) shard = some (data, given))
    (covers : ∀ client, given client ≤ sessions client)
    (sound : ∀ client, sessions client = 0 ∨ ∃ place, state.done place client (sessions client)) :
    Invariant scheme (state.receive group shard data sessions) := by
  obtain ⟨bound, owns, moves⟩ := invariant.awaiting_owner awaiting
  have elsewhere : ∀ {other : Group} {place : Shard}, ¬ (other = group ∧ place = shard) →
      (state.receive group shard data sessions).phase other place = state.phase other place ∧
      (state.receive group shard data sessions).data other place = state.data other place := by
    intro other place apart
    simp [State.receive, apart]
  have grows : ∀ other client, state.session other client ≤
      (state.receive group shard data sessions).session other client := by
    intro other client
    simp only [State.receive]
    split
    · rename_i here
      rw [here]
      omega
    · exact le_refl _
  have pending : ∀ {number : Nat} {place : Shard},
      Pending scheme (state.receive group shard data sessions) number place →
      Pending scheme state number place := by
    rintro number place (behind | ⟨there, still⟩)
    · exact .inl behind
    · refine .inr ⟨there, ?_⟩
      by_cases here : scheme.owner number place = group ∧ place = shard
      · simp only [State.receive] at still
        rw [if_pos here] at still
        cases still
      · rwa [(elsewhere here).1] at still
  refine ⟨?_, ?_, ?_, ?_, invariant.offered, ?_, ?_, invariant.unborn, ?_, invariant.closed,
    invariant.single, ?_⟩
  · intro other place
    by_cases here : other = group ∧ place = shard
    · obtain ⟨rfl, rfl⟩ := here
      simp only [Placed, State.receive, and_self, if_true]
      exact ⟨by omega, owns⟩
    · exact (invariant.placed other place).of_eq rfl (elsewhere here).1
  · intro other place idle
    have here : ¬ (other = group ∧ place = shard) := by
      rintro ⟨rfl, rfl⟩
      simp [State.receive] at idle
    rw [(elsewhere here).1] at idle
    rw [(elsewhere here).2]
    exact invariant.vacant other place idle
  · intro other place holds
    by_cases here : other = group ∧ place = shard
    · obtain ⟨rfl, rfl⟩ := here
      exact (invariant.offered _ _ _ offered).2.2
    · rw [(elsewhere here).1] at holds
      exact invariant.passed other place holds
  · intro other place holds
    by_cases here : other = group ∧ place = shard
    · obtain ⟨rfl, rfl⟩ := here
      -- The copy was on its way to this group, so it is up to date.
      have waits : Pending scheme state (state.number other) place := .inr (by rw [owns]; exact ⟨rfl, awaiting⟩)
      have upToDate := invariant.kept _ _ _ _ offered waits
      refine ⟨by simpa [State.receive] using upToDate.data_eq, ?_⟩
      intro client number executed
      have known := upToDate.covers client number executed
      have more := covers client
      simp only [State.receive, if_true]
      omega
    · rw [(elsewhere here).1] at holds
      rw [(elsewhere here).2]
      have upToDate := (invariant.current other place holds).mono (grows other)
      exact ⟨upToDate.data_eq, upToDate.covers⟩
  · intro number place copy known handed still
    have upToDate := invariant.kept number place copy known handed (pending still)
    exact ⟨upToDate.data_eq, upToDate.covers⟩
  · intro other place releases
    have here : ¬ (other = group ∧ place = shard) := by
      rintro ⟨rfl, rfl⟩
      simp [State.receive] at releases
    rw [(elsewhere here).1] at releases
    rw [(elsewhere here).2]
    obtain ⟨known, handed, covered⟩ := invariant.retained other place releases
    exact ⟨known, handed, fun client => (covered client).trans (grows other client)⟩
  · intro other client
    simp only [State.receive]
    split
    · rcases Nat.le_total (state.session group client) (sessions client) with less | more
      · rw [Nat.max_eq_right less]
        exact sound client
      · rw [Nat.max_eq_left more]
        exact invariant.sound group client
    · exact invariant.sound other client
  · intro other number place positive owned moved reached
    by_cases here : number = state.number group ∧ place = shard
    · exact .inr here
    · refine .inl (invariant.delivered other number place positive owned moved ?_)
      rcases reached with less | ⟨rfl, holds⟩
      · exact .inl less
      · refine .inr ⟨rfl, ?_⟩
        have apart : ¬ (other = group ∧ place = shard) := by
          rintro ⟨rfl, rfl⟩
          exact here ⟨rfl, rfl⟩
        rwa [(elsewhere apart).1] at holds

theorem Invariant.release (invariant : Invariant scheme state) {group : Group} {shard : Shard}
    (releasing : state.phase group shard = .releasing) :
    Invariant scheme (state.release scheme group shard) := by
  obtain ⟨bound, owns, owned⟩ := invariant.releasing_owner releasing
  have elsewhere : ∀ {other : Group} {place : Shard}, ¬ (other = group ∧ place = shard) →
      (state.release scheme group shard).phase other place = state.phase other place ∧
      (state.release scheme group shard).data other place = state.data other place := by
    intro other place apart
    simp [State.release, apart]
  -- Only an absent shard is new.
  have phases : ∀ {other : Group} {place : Shard}, (state.release scheme group shard).phase other place ≠ .absent →
      ¬ (other = group ∧ place = shard) := by
    rintro other place present ⟨rfl, rfl⟩
    simp [State.release] at present
  refine ⟨?_, ?_, ?_, ?_, invariant.offered, ?_, ?_, invariant.unborn, invariant.sound, invariant.closed,
    invariant.single, ?_⟩
  · intro other place
    by_cases here : other = group ∧ place = shard
    · obtain ⟨rfl, rfl⟩ := here
      simp only [Placed, State.release, and_self, if_true]
      exact fun _ => owns
    · exact (invariant.placed other place).of_eq rfl (elsewhere here).1
  · intro other place idle
    by_cases here : other = group ∧ place = shard
    · simp [State.release, here]
    · rw [(elsewhere here).1] at idle
      rw [(elsewhere here).2]
      exact invariant.vacant other place idle
  · intro other place holds
    rw [(elsewhere (phases (by rw [holds]; simp))).1] at holds
    exact invariant.passed other place holds
  · intro other place holds
    have here := phases (by rw [holds]; simp)
    rw [(elsewhere here).1] at holds
    rw [(elsewhere here).2]
    have upToDate := invariant.current other place holds
    exact ⟨upToDate.data_eq, upToDate.covers⟩
  · intro number place copy known handed still
    have waits : Pending scheme state number place := by
      rcases still with behind | ⟨there, awaiting⟩
      · exact .inl behind
      · rw [(elsewhere (phases (by rw [awaiting]; simp))).1] at awaiting
        exact .inr ⟨there, awaiting⟩
    have upToDate := invariant.kept number place copy known handed waits
    exact ⟨upToDate.data_eq, upToDate.covers⟩
  · intro other place releases
    have here := phases (by rw [releases]; simp)
    rw [(elsewhere here).1] at releases
    rw [(elsewhere here).2]
    exact invariant.retained other place releases
  · intro other number place positive owned' moved reached
    apply invariant.delivered other number place positive owned' moved
    rcases reached with less | ⟨same, holds⟩
    · exact .inl less
    · rw [(elsewhere (phases (by rw [holds]; simp))).1] at holds
      exact .inr ⟨same, holds⟩

variable [DecidableEq Client]

theorem Invariant.execute (invariant : Invariant scheme state) {group : Group} {shard : Shard}
    {client : Client} {number : Nat} (effect : Data → Data) (holding : state.phase group shard = .holding)
    (fresh : state.session group client < number)
    (earlier : ∀ count, 1 ≤ count → count < number → ∃ place, state.done place client count)
    (same : ∀ place, state.done place client number → place = shard) :
    Invariant scheme (state.execute group shard client number effect) := by
  have grows : ∀ other who, state.session other who ≤
      (state.execute group shard client number effect).session other who := by
    intro other who
    simp only [State.execute]
    split
    · rename_i here
      rw [here.1, here.2]
      omega
    · exact le_refl _
  -- A copy of another shard stays up to date.
  have elsewhere : ∀ {place : Shard} {data : Data} {sessions : Client → Nat}, place ≠ shard →
      UpToDate state place data sessions →
      UpToDate (state.execute group shard client number effect) place data sessions := by
    intro place data sessions other upToDate
    refine ⟨by simpa [State.execute, other] using upToDate.data_eq, ?_⟩
    intro who count executed
    simp only [State.execute, other, false_and, or_false] at executed
    exact upToDate.covers who count executed
  refine ⟨invariant.placed, ?_, invariant.passed, ?_, invariant.offered, ?_, ?_, ?_, ?_, ?_, ?_,
    invariant.delivered⟩
  · intro other place idle
    have apart : ¬ (other = group ∧ place = shard) := by
      rintro ⟨rfl, rfl⟩
      simp [State.execute, holding] at idle
    simpa [State.execute, apart] using invariant.vacant other place idle
  · intro other place holds
    have upToDate := (invariant.current other place holds).mono (grows other)
    by_cases here : place = shard
    · subst here
      obtain rfl := invariant.exclusive holds holding
      refine ⟨by simp [State.execute, (invariant.current other place holds).data_eq], ?_⟩
      intro who count executed
      rcases executed with old | ⟨_, rfl, rfl⟩
      · exact upToDate.covers who count old
      · simp [State.execute]
    · have unchanged : (state.execute group shard client number effect).data other place =
          state.data other place := by simp [State.execute, here]
      rw [unchanged]
      exact elsewhere here upToDate
  · intro count place data sessions offered pending
    by_cases here : place = shard
    · subst here
      exact absurd pending (invariant.not_pending holding offered)
    · exact elsewhere here (invariant.kept count place data sessions offered pending)
  · intro other place releases
    obtain ⟨sessions, offered, covered⟩ := invariant.retained other place releases
    have apart : ¬ (other = group ∧ place = shard) := by
      rintro ⟨rfl, rfl⟩
      simp [State.execute, holding] at releases
    exact ⟨sessions, by simpa [State.execute, apart] using offered,
      fun who => (covered who).trans (grows other who)⟩
  · intro place unused
    have here : place ≠ shard := by
      rintro rfl
      exact invariant.born holding unused
    simpa [State.execute, here] using invariant.unborn place unused
  · intro other who
    by_cases here : other = group ∧ who = client
    · exact .inr ⟨shard, .inr ⟨rfl, here.2, by simp [State.execute, here]⟩⟩
    · have unchanged : (state.execute group shard client number effect).session other who =
          state.session other who := by simp [State.execute, here]
      rw [unchanged]
      rcases invariant.sound other who with none_seen | ⟨place, executed⟩
      · exact .inl none_seen
      · exact .inr ⟨place, .inl executed⟩
  · intro place who count executed
    have older : ∀ smaller, (∃ there, state.done there who smaller) →
        ∃ there, (state.execute group shard client number effect).done there who smaller :=
      fun _ ⟨there, executed⟩ => ⟨there, .inl executed⟩
    rcases executed with old | ⟨_, rfl, rfl⟩
    · obtain ⟨positive, smaller⟩ := invariant.closed place who count old
      exact ⟨positive, fun less bound small => older less (smaller less bound small)⟩
    · exact ⟨by omega, fun less bound small => older less (earlier less bound small)⟩
  · intro first second who count atFirst atSecond
    rcases atFirst with oldFirst | ⟨atShard, rfl, rfl⟩
    · rcases atSecond with oldSecond | ⟨atShard, rfl, rfl⟩
      · exact invariant.single first second who count oldFirst oldSecond
      · rw [atShard]
        exact same first oldFirst
    · rcases atSecond with oldSecond | ⟨atShard', _, _⟩
      · rw [atShard]
        exact (same second oldSecond).symm
      · rw [atShard, atShard']

theorem Invariant.step (invariant : Invariant scheme before) (step : Step scheme before after) :
    Invariant scheme after := by
  cases step with
  | execute group shard client number effect holding fresh earlier same =>
    exact invariant.execute effect holding fresh earlier same
  | enter group outside => exact invariant.enter outside
  | advance group inside ready => exact invariant.advance inside ready
  | receive group shard data given sessions awaiting offered covers sound =>
    exact invariant.receive awaiting offered covers sound
  | release group shard releasing => exact invariant.release releasing

/-! ## What later states keep -/

end

theorem Extends.refl (state : State Group Shard Client Data) : Extends state state :=
  ⟨fun _ => le_refl _, fun _ _ _ same => same, fun _ _ _ same => same, fun _ _ same => same,
    fun _ _ _ => .inl rfl⟩

theorem Extends.trans {first second third : State Group Shard Client Data} (early : Extends first second)
    (late : Extends second third) : Extends first third where
  number := fun group => (early.number group).trans (late.number group)
  handoff := fun number shard copy offered => late.handoff _ _ _ (early.handoff number shard copy offered)
  done := fun shard client number executed => late.done _ _ _ (early.done shard client number executed)
  received := fun number shard arrived => late.received _ _ (early.received number shard arrived)
  phase := by
    intro group shard same
    have fromFirst := early.number group
    have toThird := late.number group
    have earlyPhase := early.phase group shard (by omega)
    have latePhase := late.phase group shard (by omega)
    rcases earlyPhase with same' | ⟨was, is⟩ | ⟨was, is⟩
    · rwa [same'] at latePhase
    · rw [is] at latePhase
      simp only [reduceCtorEq, false_and, or_false] at latePhase
      exact .inr (.inl ⟨was, latePhase⟩)
    · rw [is] at latePhase
      simp only [reduceCtorEq, false_and, or_false] at latePhase
      exact .inr (.inr ⟨was, latePhase⟩)

theorem Step.extends [DecidableEq Group] [DecidableEq Shard] [DecidableEq Client]
    (step : Step scheme before after) (invariant : Invariant scheme before) : Extends before after := by
  cases step with
  | execute group shard client number effect holding fresh earlier same =>
    exact ⟨fun _ => le_refl _, fun _ _ _ offered => offered, fun _ _ _ executed => .inl executed,
      fun _ _ arrived => arrived, fun _ _ _ => .inl rfl⟩
  | enter group outside =>
    refine ⟨State.enter_number_le outside, fun _ _ _ offered => offered, fun _ _ _ executed => executed,
      fun _ _ arrived => arrived, ?_⟩
    intro other shard same
    have apart : other ≠ group := by
      rintro rfl
      simp [State.enter, outside] at same
    exact .inl ((State.enter_of_ne apart).2 shard)
  | advance group inside ready =>
    refine ⟨State.advance_number_le group, ?_, fun _ _ _ executed => executed, fun _ _ arrived => arrived, ?_⟩
    · intro number shard copy offered
      -- Nothing was handed over in an assignment that its old owner has not entered.
      have unentered : ¬ (number = before.number group + 1 ∧
          State.Leaves scheme (before.number group) group shard) := by
        rintro ⟨rfl, leaves⟩
        have left := (invariant.offered _ _ _ offered).2.2 (before.number group) inside (Nat.lt_succ_self _)
        rw [leaves.1] at left
        omega
      simpa [State.advance, unentered] using offered
    · intro other shard same
      have apart : other ≠ group := by
        rintro rfl
        simp [State.advance] at same
      exact .inl ((State.advance_of_ne apart).2 shard)
  | receive group shard data given sessions awaiting offered covers sound =>
    refine ⟨fun _ => le_refl _, fun _ _ _ handed => handed, fun _ _ _ executed => executed,
      fun _ _ arrived => .inl arrived, ?_⟩
    intro other place _
    by_cases here : other = group ∧ place = shard
    · obtain ⟨rfl, rfl⟩ := here
      exact .inr (.inl ⟨awaiting, by simp [State.receive]⟩)
    · simp [State.receive, here]
  | release group shard releasing =>
    refine ⟨fun _ => le_refl _, fun _ _ _ handed => handed, fun _ _ _ executed => executed,
      fun _ _ arrived => arrived, ?_⟩
    intro other place _
    by_cases here : other = group ∧ place = shard
    · obtain ⟨rfl, rfl⟩ := here
      exact .inr (.inr ⟨releasing, by simp [State.release]⟩)
    · simp [State.release, here]

end ShardedKV.Migration
