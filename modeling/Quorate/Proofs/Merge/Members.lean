import Mathlib.Data.Finset.Card
import Mathlib.Data.Finset.Range
import Quorate.Proofs.Merge.BitSet

/-! A bit set as the finite set of its members. Every insertion below the size succeeds and adds its
index to that set, so the running count is the number of members, and it reaches the size only when
every index is there. -/

set_option autoImplicit false

namespace Quorate.BitSet

/-- The set has the bits of `members` and no others, and room for the indices below `size`. -/
structure Refines (b : BitSet) (size : Nat) (members : Finset Nat) : Prop where
  length : b.words.length = (size + 63) / 64
  below : ∀ index ∈ members, index < size
  contains : ∀ index, b.contains index = true ↔ index ∈ members
  cardinality : b.cardinality = members.card

theorem refines_empty (size : Nat) : (empty size).Refines size ∅ := by
  refine ⟨by simp [empty], by simp, fun index => ?_, rfl⟩
  simp only [BitSet.contains, empty, Finset.notMem_empty, iff_false, Bool.not_eq_true]
  rw [List.getElem?_replicate]
  split <;> simp

/-- Insert indices one after the other; no answer if there is no room for one of them. -/
def insertAll? (b : BitSet) (indices : List Nat) : Option BitSet :=
  indices.foldlM (fun b index => (b.insert? index).map Prod.snd) b

namespace Refines

variable {b : BitSet} {size index : Nat} {members : Finset Nat}

theorem room (refines : b.Refines size members) (bound : index < size) :
    index < 64 * b.words.length := by
  have length := refines.length
  omega

/-- An insertion answers whether the index is new, and adds it to the members. -/
theorem insert? (refines : b.Refines size members) (bound : index < size) :
    ∃ b', b.insert? index = some (decide (index ∉ members), b') ∧
      b'.Refines size (insert index members) := by
  obtain ⟨b', inserted, length, contains, cardinality, -⟩ := insert?_of_room (refines.room bound)
  have there : b.contains index = decide (index ∈ members) := by
    rw [Bool.eq_iff_iff, refines.contains, decide_eq_true_iff]
  refine ⟨b', by rw [inserted, there, decide_not], length.trans refines.length, ?_, ?_, ?_⟩
  · intro other member
    rcases Finset.mem_insert.mp member with rfl | member
    · exact bound
    · exact refines.below other member
  · intro other
    rw [contains, Bool.or_eq_true, refines.contains, beq_iff_eq, Finset.mem_insert, or_comm]
    exact or_congr_left eq_comm
  · rw [cardinality, there, refines.cardinality, Finset.card_insert_eq_ite]
    by_cases member : index ∈ members <;> simp [member]

theorem insertAll? {indices : List Nat} (refines : b.Refines size members)
    (inside : ∀ index ∈ indices, index < size) :
    ∃ b', b.insertAll? indices = some b' ∧ b'.Refines size (members ∪ indices.toFinset) := by
  induction indices generalizing b members with
  | nil => exact ⟨b, rfl, by simpa using refines⟩
  | cons index indices ih =>
    obtain ⟨b₁, inserted, refines₁⟩ := refines.insert? (inside index List.mem_cons_self)
    obtain ⟨b₂, rest, refines₂⟩ := ih refines₁ fun i member =>
      inside i (List.mem_cons_of_mem _ member)
    refine ⟨b₂, ?_, ?_⟩
    · simpa [BitSet.insertAll?, inserted] using rest
    · rwa [List.toFinset_cons, Finset.union_insert, ← Finset.insert_union]

theorem subset_range (refines : b.Refines size members) : members ⊆ Finset.range size :=
  fun index member => Finset.mem_range.mpr (refines.below index member)

theorem cardinality_le (refines : b.Refines size members) : b.cardinality ≤ size := by
  rw [refines.cardinality, ← Finset.card_range size]
  exact Finset.card_le_card refines.subset_range

/-- The count reaches the size when every index is a member. -/
theorem cardinality_eq_size (refines : b.Refines size members) :
    b.cardinality = size ↔ ∀ index < size, index ∈ members := by
  have part := refines.subset_range
  rw [refines.cardinality]
  constructor
  · intro full index bound
    have all : members = Finset.range size :=
      Finset.eq_of_subset_of_card_le part (by rw [Finset.card_range, full])
    rw [all]
    exact Finset.mem_range.mpr bound
  · intro all
    have whole : Finset.range size ⊆ members := fun index member =>
      all index (Finset.mem_range.mp member)
    rw [part.antisymm whole, Finset.card_range]

end Refines

/-- After any insertions below its size a bit set holds the indices inserted and counts each of them
once, so the count is the size when every index was inserted. The next index finds its word and its
bit there, is answered as new if it was not inserted before, and sets no other bit. -/
theorem insertions_refine_finset (size : Nat) (indices : List Nat)
    (inside : ∀ index ∈ indices, index < size) :
    ∃ b, (empty size).insertAll? indices = some b ∧
      (∀ index, b.contains index = true ↔ index ∈ indices) ∧
      b.cardinality = indices.toFinset.card ∧
      (b.cardinality = size ↔ ∀ index < size, index ∈ indices) ∧
      ∀ index < size, index / 64 < b.words.length ∧ (mask index).toNat = 2 ^ (index % 64) ∧
        ∃ b', b.insert? index = some (decide (index ∉ indices), b') ∧
          b'.contains index = true ∧
          ∀ other, other ≠ index → b'.contains other = b.contains other := by
  obtain ⟨b, inserted, refines⟩ := (refines_empty size).insertAll? inside
  rw [Finset.empty_union] at refines
  refine ⟨b, inserted, fun index => by rw [refines.contains, List.mem_toFinset],
    refines.cardinality, by simpa using refines.cardinality_eq_size, ?_⟩
  intro index bound
  have room := refines.room bound
  obtain ⟨b', next, refines'⟩ := refines.insert? bound
  refine ⟨by omega, toNat_mask index, b', by simpa using next, ?_, ?_⟩
  · exact (refines'.contains index).mpr (Finset.mem_insert_self index _)
  · intro other apart
    rw [Bool.eq_iff_iff, refines'.contains, refines.contains, Finset.mem_insert]
    exact or_iff_right apart

/-- The first bit of the second word, and the last index of all. -/
theorem sixty_fifth_index_inserted_once :
    (∀ index ∈ [64, 0, 64], index < 65) ∧
      ∃ b, (empty 65).insertAll? [64, 0, 64] = some b ∧ b.cardinality = 2 ∧
        b.insert? 64 = some (false, b) ∧ ∃ b', b.insert? 63 = some (true, b') := by
  have inside : ∀ index ∈ [64, 0, 64], index < 65 := by decide
  obtain ⟨b, inserted, -, cardinality, -, next⟩ := insertions_refine_finset 65 [64, 0, 64] inside
  obtain ⟨-, -, b', new, -⟩ := next 63 (by decide)
  cases inserted
  exact ⟨inside, _, rfl, cardinality, rfl, b', new⟩

end Quorate.BitSet
