import Mathlib.Data.List.Basic

/-!
# Strings

A string of Go is any sequence of bytes, and `<` compares two of them byte by byte.
-/

namespace ShardedKV

abbrev GoString := List UInt8

theorem GoString.eq_of_not_lt (one other : GoString) (notLess : ¬ one < other) (notGreater : ¬ other < one) :
    one = other :=
  List.le_antisymm notGreater notLess

/-- What comes before the first byte of some kind. -/
theorem GoString.takeWhile_ne {byte : UInt8} {text : GoString} (absent : byte ∉ text) (rest : GoString) :
    (text ++ byte :: rest).takeWhile (· ≠ byte) = text := by
  have all : ∀ other ∈ text, decide (other ≠ byte) = true := by
    intro other member
    rw [decide_eq_true_iff]
    rintro rfl
    exact absent member
  rw [List.takeWhile_append_of_pos all, List.takeWhile_cons_of_neg (by simp), List.append_nil]

end ShardedKV
