import Mathlib.Algebra.Order.Ring.Nat
import ShardedKV.Loops.Turns

/-!
# Depth-first search that remembers where it has been

From a configuration the search tries its moves in order, goes into what a move leads to unless it has
been somewhere of the same kind, and steps back when no move is left.  Every configuration is left for
good only when no goal can be reached from it, so it is safe not to enter its like again; and since
moves lead downwards, the search ends.
-/

namespace ShardedKV.Backtracking

variable {Config Move : Type}

structure Space (Config Move : Type) where
  moves : Config → List Move
  apply : Config → Move → Option Config
  goal : Config → Bool
  /-- Configurations that need not both be explored. -/
  same : Config → Config → Bool

/-- The moves lead from one configuration to the other. -/
inductive Path (space : Space Config Move) (start : Config) : List Move → Config → Prop where
  | nil : Path space start [] start
  | snoc {path : List Move} {config next : Config} {move : Move} (before : Path space start path config)
      (possible : move ∈ space.moves config) (applied : space.apply config move = some next) :
      Path space start (path ++ [move]) next

def Solvable (space : Space Config Move) (config : Config) : Prop :=
  ∃ path final, Path space config path final ∧ space.goal final = true

/-- Every move makes the rank smaller, and there are no more moves than the rank; like configurations
have the same rank and are solvable together. -/
structure Ranked (space : Space Config Move) (rank : Config → Nat) : Prop where
  smaller : ∀ config move next, move ∈ space.moves config → space.apply config move = some next →
    rank next < rank config
  moves : ∀ config, (space.moves config).length ≤ rank config
  same_rank : ∀ config other, space.same config other = true → rank config = rank other
  same_solvable : ∀ config other, space.same config other = true → Solvable space config → Solvable space other

/-! ## Paths -/

section Paths

variable {space : Space Config Move} {config next final : Config} {move : Move} {path : List Move}

theorem Path.cons (possible : move ∈ space.moves config) (applied : space.apply config move = some next)
    (rest : Path space next path final) : Path space config (move :: path) final := by
  induction rest with
  | nil => exact .snoc .nil possible applied
  | snoc before possible' applied' inductionHypothesis => exact .snoc inductionHypothesis possible' applied'

theorem Path.cases_head (taken : Path space config path final) :
    (path = [] ∧ final = config) ∨ ∃ move next rest, path = move :: rest ∧ move ∈ space.moves config ∧
      space.apply config move = some next ∧ Path space next rest final := by
  induction taken with
  | nil => exact .inl ⟨rfl, rfl⟩
  | snoc before possible applied inductionHypothesis =>
    right
    rcases inductionHypothesis with ⟨rfl, rfl⟩ | ⟨move, next, rest, rfl, first, leads, further⟩
    · exact ⟨_, _, [], rfl, possible, applied, .nil⟩
    · exact ⟨move, next, _, rfl, first, leads, further.snoc possible applied⟩

theorem Solvable.cases (solvable : Solvable space config) : space.goal config = true ∨
    ∃ move ∈ space.moves config, ∃ next, space.apply config move = some next ∧ Solvable space next := by
  obtain ⟨path, final, taken, reached⟩ := solvable
  rcases taken.cases_head with ⟨-, rfl⟩ | ⟨move, next, rest, -, possible, applied, further⟩
  · exact .inl reached
  · exact .inr ⟨move, possible, next, applied, rest, final, further, reached⟩

end Paths

/-! ## The search -/

/-- A configuration that was gone on from, the move that was made there, and the moves after it. -/
structure Frame (Config Move : Type) where
  config : Config
  move : Move
  left : List Move

structure Search (Config Move : Type) where
  config : Config
  /-- The moves that have not been tried here. -/
  left : List Move
  stack : List (Frame Config Move) := []
  cache : List Config := []

variable (space : Space Config Move)

def start (config : Config) : Search Config Move where
  config := config
  left := space.moves config

def turn (search : Search Config Move) : Loops.Turn (Search Config Move) :=
  if space.goal search.config then .leave
  else
    match search.left with
    | [] =>
      match search.stack with
      | [] => .leave
      | frame :: stack => .next { search with config := frame.config, left := frame.left, stack }
    | move :: left =>
      match space.apply search.config move with
      | none => .next { search with left }
      | some config =>
        if search.cache.any (space.same config) then .next { search with left }
        else .next {
          config
          left := space.moves config
          stack := { config := search.config, move, left } :: search.stack
          cache := config :: search.cache }

/-! ## Termination -/

/-- The number of turns in which a configuration of a rank is explored. -/
def cost : Nat → Nat
  | 0 => 1
  | rank + 1 => (rank + 1) * (1 + cost rank) + 1

theorem cost_mono {rank more : Nat} (less : rank ≤ more) : cost rank ≤ cost more := by
  induction less with
  | refl => exact le_rfl
  | step _ inductionHypothesis =>
    refine inductionHypothesis.trans ?_
    rename_i more _
    have := Nat.le_mul_of_pos_left (1 + cost more) (Nat.succ_pos more)
    rw [Nat.succ_eq_add_one] at this ⊢
    rw [cost]
    omega

/-- What is left to do at a configuration. -/
def work (rank : Nat) (left : List Move) : Nat := left.length * (1 + cost (rank - 1)) + 1

def Search.measure (rank : Config → Nat) (search : Search Config Move) : Nat :=
  work (rank search.config) search.left + (search.stack.map fun frame => work (rank frame.config) frame.left).sum

theorem work_le_cost {rank : Nat} {moves : List Move} (few : moves.length ≤ rank) : work rank moves ≤ cost rank := by
  cases rank with
  | zero => simp [work, cost, List.eq_nil_of_length_eq_zero (Nat.le_zero.mp few)]
  | succ rank =>
    have := Nat.mul_le_mul_right (1 + cost rank) few
    simp only [work, cost, Nat.add_sub_cancel]
    omega

/-! ## What the search knows -/

variable {space} {rank : Config → Nat} {root : Config} {search next : Search Config Move}

/-- The move leads nowhere, or to something like what has been entered. -/
def Handled (space : Space Config Move) (cache : List Config) (config : Config) (move : Move) : Prop :=
  ∀ next, space.apply config move = some next → ∃ entered ∈ cache, entered = next ∨ space.same next entered = true

/-- A configuration that has been left for good. -/
structure Closed (space : Space Config Move) (cache : List Config) (config : Config) : Prop where
  notGoal : space.goal config = false
  moves : ∀ move ∈ space.moves config, Handled space cache config move

theorem Handled.mono {cache more : List Config} {config : Config} {move : Move}
    (handled : Handled space cache config move)
    (kept : ∀ entered ∈ cache, entered ∈ more) : Handled space more config move := by
  intro next applied
  obtain ⟨entered, member, like⟩ := handled next applied
  exact ⟨entered, kept entered member, like⟩

theorem Closed.mono {cache more : List Config} {config : Config} (closed : Closed space cache config)
    (kept : ∀ entered ∈ cache, entered ∈ more) : Closed space more config :=
  ⟨closed.notGoal, fun move possible => (closed.moves move possible).mono kept⟩

theorem not_solvable_of_closed (ranked : Ranked space rank) {cache : List Config}
    (closed : ∀ entered ∈ root :: cache, Closed space cache entered) :
    ∀ entered ∈ root :: cache, ¬ Solvable space entered := by
  intro entered member solvable
  induction height : rank entered using Nat.strong_induction_on generalizing entered with
  | _ height inductionHypothesis =>
    subst height
    rcases solvable.cases with reached | ⟨move, possible, next, applied, further⟩
    · rw [(closed entered member).notGoal] at reached
      cases reached
    · have smaller := ranked.smaller _ _ _ possible applied
      obtain ⟨other, cached, rfl | same⟩ := (closed entered member).moves move possible next applied
      · exact inductionHypothesis _ smaller other (List.mem_cons_of_mem _ cached) further rfl
      · rw [ranked.same_rank _ _ same] at smaller
        exact inductionHypothesis _ smaller other (List.mem_cons_of_mem _ cached)
          (ranked.same_solvable _ _ same further) rfl

/-- The frames lead from the root to a configuration. -/
inductive Trail (space : Space Config Move) (root : Config) : List (Frame Config Move) → Config → Prop where
  | nil : Trail space root [] root
  | cons {stack : List (Frame Config Move)} {frame : Frame Config Move} {config : Config}
      (before : Trail space root stack frame.config) (notGoal : space.goal frame.config = false)
      (possible : frame.move ∈ space.moves frame.config)
      (left : ∀ move ∈ frame.left, move ∈ space.moves frame.config)
      (applied : space.apply frame.config frame.move = some config) : Trail space root (frame :: stack) config

theorem Trail.path {stack : List (Frame Config Move)} {config : Config} (trail : Trail space root stack config) :
    Path space root (stack.reverse.map Frame.move) config := by
  induction trail with
  | nil => exact .nil
  | cons before _ possible _ applied inductionHypothesis =>
    rw [List.reverse_cons, List.map_append]
    exact inductionHypothesis.snoc possible applied

structure Invariant (space : Space Config Move) (root : Config) (search : Search Config Move) : Prop where
  trail : Trail space root search.stack search.config
  left : ∀ move ∈ search.left, move ∈ space.moves search.config
  tried : ∀ move ∈ space.moves search.config, move ∈ search.left ∨ Handled space search.cache search.config move
  above : ∀ frame ∈ search.stack, ∀ move ∈ space.moves frame.config,
    move ∈ frame.left ∨ Handled space search.cache frame.config move
  closed : ∀ entered ∈ root :: search.cache, entered = search.config ∨
    (∃ frame ∈ search.stack, frame.config = entered) ∨ Closed space search.cache entered

theorem invariant_start (root : Config) : Invariant space root (start space root) where
  trail := .nil
  left := fun _ member => member
  tried := fun _ member => .inl member
  above := by simp [start]
  closed := by simp [start]

section

variable (invariant : Invariant space root search)
include invariant

theorem Invariant.close (notGoal : space.goal search.config = false)
    (exhausted : search.left = []) : Closed space search.cache search.config := by
  refine ⟨notGoal, fun move possible => (invariant.tried move possible).resolve_left fun left => ?_⟩
  rw [exhausted] at left
  cases left

theorem Invariant.skip {move : Move} {left : List Move}
    (isLeft : search.left = move :: left) (handled : Handled space search.cache search.config move) :
    Invariant space root { search with left } where
  trail := invariant.trail
  left := fun other member => invariant.left other (isLeft ▸ List.mem_cons_of_mem _ member)
  tried := by
    intro other possible
    rcases invariant.tried other possible with inLeft | handled'
    · rw [isLeft] at inLeft
      rcases List.mem_cons.mp inLeft with rfl | later
      · exact .inr handled
      · exact .inl later
    · exact .inr handled'
  above := invariant.above
  closed := invariant.closed

theorem Invariant.back (notGoal : space.goal search.config = false)
    (exhausted : search.left = []) {frame : Frame Config Move} {stack : List (Frame Config Move)}
    (isStack : search.stack = frame :: stack) :
    Invariant space root { search with config := frame.config, left := frame.left, stack } := by
  have closed := invariant.close notGoal exhausted
  have trail := invariant.trail
  have above := invariant.above
  have entered := invariant.closed
  rw [isStack] at trail above entered
  cases trail with
  | cons before _ _ inMoves _ =>
    refine ⟨before, inMoves, above frame List.mem_cons_self,
      fun other member => above other (List.mem_cons_of_mem _ member), fun config member => ?_⟩
    rcases entered config member with rfl | ⟨other, inStack, rfl⟩ | left
    · exact .inr (.inr closed)
    · rcases List.mem_cons.mp inStack with rfl | below
      · exact .inl rfl
      · exact .inr (.inl ⟨other, below, rfl⟩)
    · exact .inr (.inr left)

theorem Invariant.enter (notGoal : space.goal search.config = false)
    {move : Move} {left : List Move} (isLeft : search.left = move :: left) {config : Config}
    (applied : space.apply search.config move = some config) :
    Invariant space root {
      config
      left := space.moves config
      stack := { config := search.config, move, left } :: search.stack
      cache := config :: search.cache } := by
  have kept : ∀ entered ∈ search.cache, entered ∈ config :: search.cache := fun _ => List.mem_cons_of_mem _
  refine ⟨.cons invariant.trail notGoal (invariant.left move (isLeft ▸ List.mem_cons_self)) ?_ applied,
    fun _ member => member, fun _ member => .inl member, ?_, ?_⟩
  · exact fun other member => invariant.left other (isLeft ▸ List.mem_cons_of_mem _ member)
  · intro frame member other possible
    rcases List.mem_cons.mp member with rfl | below
    · rcases invariant.tried other possible with inLeft | handled
      · rw [isLeft] at inLeft
        rcases List.mem_cons.mp inLeft with rfl | later
        · refine .inr fun next isNext => ⟨config, List.mem_cons_self, .inl ?_⟩
          rw [applied, Option.some.injEq] at isNext
          exact isNext
        · exact .inl later
      · exact .inr (handled.mono kept)
    · exact (invariant.above frame below other possible).imp_right (·.mono kept)
  · intro entered member
    have old : entered ∈ root :: search.cache → entered = config ∨ (∃ frame ∈
        ({ config := search.config, move, left } : Frame Config Move) :: search.stack, frame.config = entered) ∨
        Closed space (config :: search.cache) entered := by
      intro member
      rcases invariant.closed entered member with rfl | ⟨frame, inStack, rfl⟩ | closed
      · exact .inr (.inl ⟨_, List.mem_cons_self, rfl⟩)
      · exact .inr (.inl ⟨frame, List.mem_cons_of_mem _ inStack, rfl⟩)
      · exact .inr (.inr (closed.mono kept))
    rcases List.mem_cons.mp member with rfl | inCache
    · exact old List.mem_cons_self
    · rcases List.mem_cons.mp inCache with rfl | earlier
      · exact .inl rfl
      · exact old (List.mem_cons_of_mem _ earlier)

theorem Invariant.turn (ranked : Ranked space rank) (turned : turn space search = .next next) :
    Invariant space root next ∧ next.measure rank < search.measure rank := by
  unfold Backtracking.turn at turned
  split at turned
  · cases turned
  rename_i notGoal
  rw [Bool.not_eq_true] at notGoal
  split at turned
  · rename_i exhausted
    split at turned
    · cases turned
    · rename_i frame stack isStack
      cases turned
      refine ⟨invariant.back notGoal exhausted isStack, ?_⟩
      simp only [Search.measure, isStack, exhausted, List.map_cons, List.sum_cons, work, List.length_nil]
      omega
  · rename_i move left isLeft
    have skipped : ({ search with left } : Search Config Move).measure rank < search.measure rank := by
      simp only [Search.measure, isLeft, work, List.length_cons, Nat.succ_mul]
      omega
    split at turned
    · rename_i rejected
      cases turned
      refine ⟨invariant.skip isLeft fun next isNext => ?_, skipped⟩
      rw [rejected] at isNext
      cases isNext
    · rename_i config applied
      split at turned
      · rename_i cached
        cases turned
        refine ⟨invariant.skip isLeft fun next isNext => ?_, skipped⟩
        rw [applied, Option.some.injEq] at isNext
        subst isNext
        obtain ⟨entered, member, same⟩ := List.any_eq_true.mp cached
        exact ⟨entered, member, .inr same⟩
      · cases turned
        refine ⟨invariant.enter notGoal isLeft applied, ?_⟩
        -- exploring what the move leads to costs less than the move was counted for
        have smaller := ranked.smaller _ _ _ (invariant.left move (isLeft ▸ List.mem_cons_self)) applied
        have below : work (rank config) (space.moves config) ≤ cost (rank search.config - 1) :=
          (work_le_cost (ranked.moves config)).trans (cost_mono (by omega))
        simp only [Search.measure, isLeft, List.map_cons, List.sum_cons]
        have here : work (rank search.config) (move :: left) =
            work (rank search.config) left + (1 + cost (rank search.config - 1)) := by
          simp only [work, List.length_cons, Nat.succ_mul]
          omega
        omega

end

theorem turn_ne_panic (search : Search Config Move) : turn space search ≠ .panic := by
  unfold turn
  repeat' split
  all_goals simp

theorem Invariant.leave (invariant : Invariant space root search) (left : Backtracking.turn space search = .leave)
    (notGoal : space.goal search.config = false) :
    search.left = [] ∧ search.stack = [] ∧ ∀ entered ∈ root :: search.cache, Closed space search.cache entered := by
  simp only [Backtracking.turn, notGoal, Bool.false_eq_true, if_false] at left
  split at left
  · rename_i exhausted
    split at left
    · rename_i bottom
      refine ⟨exhausted, bottom, fun entered member => ?_⟩
      rcases invariant.closed entered member with rfl | ⟨frame, inStack, -⟩ | closed
      · exact invariant.close notGoal exhausted
      · rw [bottom] at inStack
        cases inStack
      · exact closed
    · cases left
  · repeat' split at left
    all_goals cases left

theorem Invariant.goal_iff (invariant : Invariant space root search) (ranked : Ranked space rank)
    (left : Backtracking.turn space search = .leave) : space.goal search.config = true ↔ Solvable space root := by
  refine ⟨fun reached => ⟨_, _, invariant.trail.path, reached⟩, fun solvable => ?_⟩
  by_contra notGoal
  rw [Bool.not_eq_true] at notGoal
  obtain ⟨-, -, closed⟩ := invariant.leave left notGoal
  exact not_solvable_of_closed ranked closed root List.mem_cons_self solvable

theorem measure_start_le (ranked : Ranked space rank) (root : Config) :
    (start space root).measure rank ≤ cost (rank root) := by
  simpa [Search.measure, start] using work_le_cost (ranked.moves root)

end ShardedKV.Backtracking
