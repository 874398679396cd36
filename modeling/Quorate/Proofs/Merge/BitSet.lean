import Quorate.Result.BitSet
import Mathlib.Data.Nat.Bitwise

/-! A bit set read as a list of flags, one for each index below its size. -/

set_option autoImplicit false

namespace Quorate.BitSet

theorem toNat_mask (index : Nat) : (mask index).toNat = 2 ^ (index % 64) := by
  have bound : index % 64 < 64 := Nat.mod_lt _ (by decide)
  have small : 2 ^ (index % 64) < 2 ^ 64 := Nat.pow_lt_pow_right (by decide) bound
  have shift : (index % 64).toUInt64.toNat = index % 64 := by
    simpa [Nat.toUInt64] using Nat.mod_eq_of_lt (Nat.lt_trans bound (by decide : 64 < 2 ^ 64))
  rw [mask, UInt64.toNat_shiftLeft, shift, Nat.mod_mod, UInt64.toNat_one, Nat.shiftLeft_eq,
    Nat.one_mul, Nat.mod_eq_of_lt small]

theorem and_mask_eq_zero (word : UInt64) (index : Nat) :
    word &&& mask index = 0 ↔ word.toNat.testBit (index % 64) = false := by
  rw [← UInt64.toNat_inj, UInt64.toNat_and, toNat_mask, Nat.and_two_pow, UInt64.toNat_zero]
  cases word.toNat.testBit (index % 64) <;> simp

theorem testBit_or_mask (word : UInt64) (index bit : Nat) :
    (word ||| mask index).toNat.testBit bit = (word.toNat.testBit bit || index % 64 == bit) := by
  rw [UInt64.toNat_or, toNat_mask, Nat.testBit_or, Nat.testBit_two_pow]
  rfl

def contains (b : BitSet) (index : Nat) : Bool :=
  (b.words[index / 64]?).any fun word => word.toNat.testBit (index % 64)

/-- The flags below the size of a set, and the count that is kept of them. -/
structure Holds (b : BitSet) (flags : List Bool) : Prop where
  room : flags.length ≤ 64 * b.words.length
  contains : ∀ index (bound : index < flags.length), b.contains index = flags[index]
  cardinality : b.cardinality = flags.count true

theorem holds_empty (size : Nat) : (empty size).Holds (List.replicate size false) := by
  refine ⟨by simp [empty]; omega, ?_, by simp [empty, List.count_replicate]⟩
  intro index bound
  have word : index / 64 < (size + 63) / 64 := by simp at bound; omega
  simp [BitSet.contains, empty, word]

/-- An index for which there is room is taken in, and answered as new if it was missing. No other
index comes or goes. -/
theorem insert?_of_room {b : BitSet} {index : Nat} (room : index < 64 * b.words.length) :
    ∃ b', b.insert? index = some (!b.contains index, b') ∧ b'.words.length = b.words.length ∧
      (∀ other, b'.contains other = (b.contains other || index == other)) ∧
      b'.cardinality = b.cardinality + (if b.contains index then 0 else 1) ∧
      (b.contains index = true → b' = b) := by
  have inside : index / 64 < b.words.length := by omega
  obtain ⟨word, found⟩ : ∃ word, b.words[index / 64]? = some word :=
    ⟨_, List.getElem?_eq_getElem inside⟩
  have bit : b.contains index = word.toNat.testBit (index % 64) := by simp [contains, found]
  cases there : b.contains index with
  | true =>
    have set : ¬ word &&& mask index = 0 := by
      rw [and_mask_eq_zero, ← bit, there]
      decide
    refine ⟨b, by simp [insert?, found, set], rfl, ?_, rfl, fun _ => rfl⟩
    intro other
    by_cases same : index = other
    · subst same
      simp [there]
    · simp [same]
  | false =>
    have clear : word &&& mask index = 0 := by rw [and_mask_eq_zero, ← bit, there]
    refine ⟨⟨b.words.set (index / 64) (word ||| mask index), b.cardinality + 1⟩,
      by simp [insert?, found, clear], by simp, ?_, rfl, by simp⟩
    intro other
    -- the flag is in another word, at another bit of the word, or the one that is set
    by_cases sameWord : index / 64 = other / 64
    · have before : b.contains other = word.toNat.testBit (other % 64) := by
        simp [contains, ← sameWord, found]
      have after : (b.words.set (index / 64) (word ||| mask index))[other / 64]? =
          some (word ||| mask index) := by
        rw [← sameWord, List.getElem?_set_self inside]
      have sameBit : (index % 64 == other % 64) = (index == other) := by
        rw [Bool.eq_iff_iff, beq_iff_eq, beq_iff_eq]
        omega
      rw [before, ← sameBit, ← testBit_or_mask]
      simp only [contains, after, Option.any_some]
    · have different : (index == other) = false :=
        beq_false_of_ne fun equal => sameWord (equal ▸ rfl)
      have after : (b.words.set (index / 64) (word ||| mask index))[other / 64]? =
          b.words[other / 64]? := List.getElem?_set_ne sameWord
      rw [different, Bool.or_false]
      simp only [contains, after]

variable {b : BitSet} {flags : List Bool} {index : Nat}

theorem Holds.room_at (holds : b.Holds flags) (bound : index < flags.length) :
    index < 64 * b.words.length := Nat.lt_of_lt_of_le bound holds.room

theorem insert?_again (holds : b.Holds flags) (bound : index < flags.length)
    (there : flags[index] = true) : b.insert? index = some (false, b) := by
  obtain ⟨b', inserted, -, -, -, same⟩ := insert?_of_room (holds.room_at bound)
  have set : b.contains index = true := by rw [holds.contains index bound, there]
  rw [inserted, same set, set]
  rfl

/-- A new index sets its own flag and no other. -/
theorem insert?_new (holds : b.Holds flags) (bound : index < flags.length)
    (missing : flags[index] = false) :
    ∃ b', b.insert? index = some (true, b') ∧ b'.Holds (flags.set index true) := by
  obtain ⟨b', inserted, length, contains, cardinality, -⟩ := insert?_of_room (holds.room_at bound)
  have unset : b.contains index = false := by rw [holds.contains index bound, missing]
  rw [unset] at inserted cardinality
  refine ⟨b', inserted, by simpa [length] using holds.room, ?_, ?_⟩
  · intro other bound'
    rw [contains, holds.contains other (by simpa using bound'), List.getElem_set]
    by_cases same : index = other
    · simp [same]
    · simp [same]
  · simp [cardinality, holds.cardinality, List.count_set bound, missing]

end Quorate.BitSet
