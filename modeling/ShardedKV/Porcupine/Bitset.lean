import Mathlib.Algebra.Order.Ring.Nat
import Mathlib.Data.List.Basic
import Mathlib.Tactic.Common

/-!
# Bit sets

`porcupine/bitset.go`: bits 0 to 63 are in the first chunk, the next ones in the second, and so on.
-/

namespace ShardedKV.Porcupine

structure Bitset where
  chunks : List (BitVec 64)
deriving DecidableEq, Repr

def newBitset (bits : Nat) : Bitset where
  chunks := List.replicate (bits / 64 + if bits % 64 ≠ 0 then 1 else 0) 0

namespace Bitset

def bitsetIndex (pos : Nat) : Nat × Nat := (pos / 64, pos % 64)

/-- `none` is an index out of range. -/
def set (b : Bitset) (pos : Nat) : Option Bitset :=
  let (major, minor) := bitsetIndex pos
  b.chunks[major]?.map fun chunk => ⟨b.chunks.set major (chunk ||| (1#64 <<< minor))⟩

def clear (b : Bitset) (pos : Nat) : Option Bitset :=
  let (major, minor) := bitsetIndex pos
  b.chunks[major]?.map fun chunk => ⟨b.chunks.set major (chunk &&& ~~~(1#64 <<< minor))⟩

def get (b : Bitset) (pos : Nat) : Option Bool :=
  let (major, minor) := bitsetIndex pos
  b.chunks[major]?.map fun chunk => chunk &&& (1#64 <<< minor) ≠ 0#64

/-- `bits.OnesCount64` -/
def onesCount64 (v : BitVec 64) : Nat := (List.range 64).countP v.getLsbD

def popcnt (b : Bitset) : Nat := (b.chunks.map onesCount64).sum

def hash (b : Bitset) : BitVec 64 := b.chunks.foldl (· ^^^ ·) (BitVec.ofNat 64 b.popcnt)

def equals (b b2 : Bitset) : Bool :=
  if b.chunks.length ≠ b2.chunks.length then false
  else (List.range b.chunks.length).all fun i => b.chunks[i]? = b2.chunks[i]?

/-! ## What a bit set contains -/

def Contains (b : Bitset) (pos : Nat) : Prop := b.get pos = some true

instance (b : Bitset) (pos : Nat) : Decidable (b.Contains pos) := inferInstanceAs (Decidable (_ = _))

theorem getLsbD_shiftLeft_one {minor : Nat} (inside : minor < 64) (i : Nat) :
    (1#64 <<< minor).getLsbD i = decide (minor = i) := by
  rw [← BitVec.twoPow_eq, BitVec.getLsbD_twoPow]
  simp [inside]

theorem and_shiftLeft_one_ne_zero {minor : Nat} (inside : minor < 64) (chunk : BitVec 64) :
    chunk &&& (1#64 <<< minor) ≠ 0#64 ↔ chunk.getLsbD minor = true := by
  constructor
  · intro nonzero
    by_contra unset
    refine nonzero (BitVec.eq_of_getLsbD_eq fun i less => ?_)
    rw [BitVec.getLsbD_and, getLsbD_shiftLeft_one inside, BitVec.getLsbD_zero]
    by_cases here : minor = i
    · subst here
      simpa using unset
    · simp [here]
  · intro isSet zero
    have bit := congrArg (fun v : BitVec 64 => v.getLsbD minor) zero
    simp [BitVec.getLsbD_and, getLsbD_shiftLeft_one inside, isSet] at bit

theorem contains_iff (b : Bitset) (pos : Nat) :
    b.Contains pos ↔ ∃ chunk, b.chunks[pos / 64]? = some chunk ∧ chunk.getLsbD (pos % 64) = true := by
  have inside : pos % 64 < 64 := Nat.mod_lt _ (by decide)
  simp only [Contains, get, bitsetIndex, Option.map_eq_some_iff, decide_eq_true_eq,
    and_shiftLeft_one_ne_zero inside]

theorem contains_set_chunk {b : Bitset} {pos : Nat} {chunk changed : BitVec 64}
    (here : b.chunks[pos / 64]? = some chunk)
    (others : ∀ i, i < 64 → i ≠ pos % 64 → changed.getLsbD i = chunk.getLsbD i) (q : Nat) :
    (⟨b.chunks.set (pos / 64) changed⟩ : Bitset).Contains q ↔
      if q = pos then changed.getLsbD (pos % 64) = true else b.Contains q := by
  have bound := (List.getElem?_eq_some_iff.mp here).1
  rw [contains_iff, contains_iff, List.getElem?_set]
  by_cases sameChunk : pos / 64 = q / 64
  · rw [← sameChunk, here, if_pos rfl, if_pos bound]
    simp only [Option.some.injEq, exists_eq_left']
    split
    · rename_i same
      rw [same]
    · rw [others (q % 64) (Nat.mod_lt _ (by decide)) (by omega)]
  · have different : q ≠ pos := by
      rintro rfl
      exact sameChunk rfl
    rw [if_neg sameChunk, if_neg different]

/-- The position has a bit. -/
def Covers (b : Bitset) (pos : Nat) : Prop := pos / 64 < b.chunks.length

theorem set_of_covers {b : Bitset} {pos : Nat} (covers : b.Covers pos) :
    ∃ after, b.set pos = some after ∧ after.chunks.length = b.chunks.length ∧
      ∀ q, after.Contains q ↔ q = pos ∨ b.Contains q := by
  have here := List.getElem?_eq_getElem covers
  have inside : pos % 64 < 64 := Nat.mod_lt _ (by decide)
  have result : b.set pos = some ⟨b.chunks.set (pos / 64) (b.chunks[pos / 64] ||| 1#64 <<< (pos % 64))⟩ := by
    simp only [set, bitsetIndex, here, Option.map_some]
  refine ⟨_, result, List.length_set .., fun q => ?_⟩
  rw [contains_set_chunk here]
  · by_cases same : q = pos
    · simp [same, BitVec.getLsbD_or, getLsbD_shiftLeft_one inside]
    · simp [same]
  · intro i _ different
    simp [BitVec.getLsbD_or, getLsbD_shiftLeft_one inside, Ne.symm different]

theorem clear_of_covers {b : Bitset} {pos : Nat} (covers : b.Covers pos) :
    ∃ after, b.clear pos = some after ∧ after.chunks.length = b.chunks.length ∧
      ∀ q, after.Contains q ↔ q ≠ pos ∧ b.Contains q := by
  have here := List.getElem?_eq_getElem covers
  have inside : pos % 64 < 64 := Nat.mod_lt _ (by decide)
  have result : b.clear pos = some ⟨b.chunks.set (pos / 64) (b.chunks[pos / 64] &&& ~~~(1#64 <<< (pos % 64)))⟩ := by
    simp only [clear, bitsetIndex, here, Option.map_some]
  refine ⟨_, result, List.length_set .., fun q => ?_⟩
  rw [contains_set_chunk here]
  · by_cases same : q = pos
    · simp [same, BitVec.getLsbD_and, getLsbD_shiftLeft_one inside]
    · simp [same]
  · intro i less different
    rw [BitVec.getLsbD_and, BitVec.getLsbD_not, getLsbD_shiftLeft_one inside]
    simp [less, Ne.symm different]

theorem equals_iff (b b2 : Bitset) : b.equals b2 = true ↔ b = b2 := by
  obtain ⟨chunks⟩ := b
  obtain ⟨chunks2⟩ := b2
  simp only [equals, ne_eq, ite_not, Bitset.mk.injEq]
  constructor
  · intro equal
    split at equal
    · rename_i sameLength
      refine List.ext_getElem? fun i => ?_
      by_cases inside : i < chunks.length
      · simpa using List.all_eq_true.mp equal i (List.mem_range.mpr inside)
      · rw [List.getElem?_eq_none (by omega), List.getElem?_eq_none (by omega)]
    · cases equal
  · rintro rfl
    simp

theorem ext_contains {b b2 : Bitset} (sameLength : b.chunks.length = b2.chunks.length)
    (same : ∀ pos, b.Contains pos ↔ b2.Contains pos) : b = b2 := by
  obtain ⟨chunks⟩ := b
  obtain ⟨chunks2⟩ := b2
  congr 1
  refine List.ext_getElem sameLength fun i inside inside2 => ?_
  refine BitVec.eq_of_getLsbD_eq fun j less => ?_
  have here := same (64 * i + j)
  rw [contains_iff, contains_iff, show (64 * i + j) / 64 = i by omega, show (64 * i + j) % 64 = j by omega] at here
  simp only [List.getElem?_eq_getElem inside, List.getElem?_eq_getElem inside2, Option.some.injEq,
    exists_eq_left'] at here
  exact Bool.eq_iff_iff.mpr here

theorem newBitset_covers {bits pos : Nat} (inside : pos < bits) : (newBitset bits).Covers pos := by
  simp only [Covers, newBitset, List.length_replicate]
  split <;> omega

theorem newBitset_empty (bits pos : Nat) : ¬ (newBitset bits).Contains pos := by
  rw [contains_iff]
  rintro ⟨chunk, here, isSet⟩
  have zero : chunk = 0#64 := List.eq_of_mem_replicate (List.mem_of_getElem? here)
  simp [zero] at isSet

end Bitset

end ShardedKV.Porcupine
