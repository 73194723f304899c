import Mathlib.Algebra.Order.BigOperators.Group.Finset
import Mathlib.Data.Fintype.Card
import Mathlib.Tactic.Common

/-!
# Assignments of items to groups

How many items a group has, how many items change their group between two assignments, and when an
assignment with even loads changes as few of them as any other does.
-/

namespace ShardedKV.Loads

variable {Item Group : Type}

/-- The loads of any two groups differ by at most one. -/
def Balanced (groups : Finset Group) (loads : Group → Nat) : Prop :=
  ∀ one ∈ groups, ∀ other ∈ groups, loads one ≤ loads other + 1

/-! ## Two ways to distribute the same total -/

namespace Balanced

variable {groups : Finset Group} {old new other : Group → Nat}

/-- A group with the largest load in one distribution has no larger one in a balanced distribution. -/
theorem le_of_largest (balanced : Balanced groups other)
    (total : ∑ group ∈ groups, other group = ∑ group ∈ groups, new group) {top : Group} (member : top ∈ groups)
    (largest : ∀ group ∈ groups, new group ≤ new top) : other top ≤ new top := by
  by_contra! larger
  have more : ∑ group ∈ groups, new group < ∑ group ∈ groups, other group := by
    apply Finset.sum_lt_sum
    · intro group inside
      have := largest group inside
      have := balanced top member group inside
      omega
    · exact ⟨top, member, larger⟩
  omega

theorem ge_of_smallest (balanced : Balanced groups other)
    (total : ∑ group ∈ groups, other group = ∑ group ∈ groups, new group) {bottom : Group}
    (member : bottom ∈ groups) (smallest : ∀ group ∈ groups, new bottom ≤ new group) :
    new bottom ≤ other bottom := by
  by_contra! smaller
  have fewer : ∑ group ∈ groups, other group < ∑ group ∈ groups, new group := by
    apply Finset.sum_lt_sum
    · intro group inside
      have := smallest group inside
      have := balanced group inside bottom member
      omega
    · exact ⟨bottom, member, smaller⟩
  omega

/-- If no group that gains ends above one that loses, then no balanced distribution keeps more. -/
theorem sum_min_le (balanced : Balanced groups new) (balanced' : Balanced groups other)
    (total : ∑ group ∈ groups, other group = ∑ group ∈ groups, new group)
    (ordered : ∀ taker ∈ groups, ∀ giver ∈ groups, old taker < new taker → new giver < old giver →
      new taker ≤ new giver) :
    ∑ group ∈ groups, min (old group) (other group) ≤ ∑ group ∈ groups, min (old group) (new group) := by
  by_cases even : ∀ giver ∈ groups, new giver < old giver → ∀ group ∈ groups, new group ≤ new giver
  · -- Whoever loses ends with the largest load, so it cannot keep more.
    apply Finset.sum_le_sum
    intro group member
    by_cases gives : new group < old group
    · have := balanced'.le_of_largest total member (even group member gives)
      omega
    · omega
  · -- Some group ends above one that loses, so whoever gains ends with the smallest load.
    push Not at even
    obtain ⟨giver, member, gives, above, inside, higher⟩ := even
    have gains : ∀ group ∈ groups, new group + min (old group) (other group) ≤
        other group + min (old group) (new group) := by
      intro group here
      by_cases takes : old group < new group
      · have low := ordered group here giver member takes gives
        have smallest : ∀ any ∈ groups, new group ≤ new any := by
          intro any there
          have := balanced above inside any there
          omega
        have := balanced'.ge_of_smallest total here smallest
        omega
      · omega
    have summed := Finset.sum_le_sum gains
    rw [Finset.sum_add_distrib, Finset.sum_add_distrib] at summed
    omega

end Balanced

/-! ## Assignments -/

variable [Fintype Item] [DecidableEq Group]

/-- The number of items that a group has. -/
def load (assign : Item → Group) (group : Group) : Nat :=
  (Finset.univ.filter fun item => assign item = group).card

/-- The number of items whose group is another one. -/
def moved (old new : Item → Group) : Nat := (Finset.univ.filter fun item => old item ≠ new item).card

/-- Every item has one of the groups, and the groups have equal loads up to one. -/
structure Even (groups : Finset Group) (assign : Item → Group) : Prop where
  assigned : ∀ item, assign item ∈ groups
  balanced : Balanced groups (load assign)

variable {groups : Finset Group} {old new other : Item → Group}

theorem sum_load (assigned : ∀ item, new item ∈ groups) :
    ∑ group ∈ groups, load new group = Fintype.card Item := by
  have maps : Set.MapsTo new (Finset.univ : Finset Item) groups := fun item _ => assigned item
  exact (Finset.card_eq_sum_card_fiberwise maps).symm

theorem moved_add_sum_kept (old : Item → Group) (assigned : ∀ item, new item ∈ groups) :
    moved old new + ∑ group ∈ groups, (Finset.univ.filter fun item => old item = group ∧ new item = group).card =
      Fintype.card Item := by
  have maps : Set.MapsTo new (Finset.univ.filter fun item => old item = new item) groups :=
    fun item _ => assigned item
  have kept : (Finset.univ.filter fun item => old item = new item).card =
      ∑ group ∈ groups, (Finset.univ.filter fun item => old item = group ∧ new item = group).card := by
    rw [Finset.card_eq_sum_card_fiberwise maps]
    refine Finset.sum_congr rfl fun group _ => ?_
    congr 1
    ext item
    simp only [Finset.mem_filter, Finset.mem_univ, true_and]
    constructor
    · rintro ⟨same, rfl⟩
      exact ⟨same, rfl⟩
    · rintro ⟨rfl, same⟩
      exact ⟨same.symm, same⟩
  rw [← kept, moved, Nat.add_comm, Finset.card_filter_add_card_filter_not, Finset.card_univ]

theorem kept_le (old new : Item → Group) (group : Group) :
    (Finset.univ.filter fun item => old item = group ∧ new item = group).card ≤
      min (load old group) (load new group) := by
  apply Nat.le_min.mpr
  constructor
  · exact Finset.card_le_card fun item => by simp only [Finset.mem_filter]; exact fun both => ⟨both.1, both.2.1⟩
  · exact Finset.card_le_card fun item => by simp only [Finset.mem_filter]; exact fun both => ⟨both.1, both.2.2⟩

theorem kept_of_nested {group : Group}
    (nested : (∀ item, old item = group → new item = group) ∨ ∀ item, new item = group → old item = group) :
    min (load old group) (load new group) ≤
      (Finset.univ.filter fun item => old item = group ∧ new item = group).card := by
  rcases nested with gains | loses
  · refine (Nat.min_le_left _ _).trans (Finset.card_le_card fun item => ?_)
    simp only [Finset.mem_filter]
    exact fun here => ⟨here.1, here.2, gains item here.2⟩
  · refine (Nat.min_le_right _ _).trans (Finset.card_le_card fun item => ?_)
    simp only [Finset.mem_filter]
    exact fun here => ⟨here.1, loses item here.2, here.2⟩

/-- An even assignment in which every group only gains or only loses items, and none that gains
ends above one that loses, moves as few items as any even assignment. -/
theorem Even.moved_le (even : Even groups new) (even' : Even groups other)
    (nested : ∀ group ∈ groups,
      (∀ item, old item = group → new item = group) ∨ ∀ item, new item = group → old item = group)
    (ordered : ∀ taker ∈ groups, ∀ giver ∈ groups, load old taker < load new taker →
      load new giver < load old giver → load new taker ≤ load new giver) :
    moved old new ≤ moved old other := by
  have total : ∑ group ∈ groups, load other group = ∑ group ∈ groups, load new group := by
    rw [sum_load even'.assigned, sum_load even.assigned]
  have most := even.balanced.sum_min_le even'.balanced total ordered
  have stays := moved_add_sum_kept old even.assigned
  have stays' := moved_add_sum_kept old even'.assigned
  have atLeast := Finset.sum_le_sum fun group member => kept_of_nested (nested group member)
  have atMost := Finset.sum_le_sum fun group (_ : group ∈ groups) => kept_le old other group
  omega

end ShardedKV.Loads
