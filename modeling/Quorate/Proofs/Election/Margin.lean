import Mathlib.Data.List.Perm.Basic

/-! Keys that take each other out. Each pair holds two different keys, so no key has more than
half of the keys that are paired; what is left over is the margin of the key that is ahead. -/

set_option autoImplicit false

namespace Quorate

variable {K : Type}

/-- The keys are those left over and disjoint pairs of different keys. -/
def PairedOff (keys left : List K) : Prop :=
  ∃ pairs : List (K × K), (∀ pair ∈ pairs, pair.1 ≠ pair.2) ∧
    keys.Perm (left ++ pairs.flatMap fun pair => [pair.1, pair.2])

/-- A key is among the keys of some things as often as it is the key of one of them. -/
theorem count_keys {A : Type} [DecidableEq K] (key : A → K) (votes : List A) (k : K) :
    (votes.map key).count k = votes.countP fun v => key v = k := by
  rw [List.count, List.countP_map]
  exact List.countP_congr fun v _ => by simp

namespace PairedOff

variable {keys left : List K} {k other : K}

theorem nil : PairedOff ([] : List K) [] := ⟨[], by simp, .refl _⟩

/-- One more key is left over. -/
theorem keep (paired : PairedOff keys left) (k : K) : PairedOff (keys ++ [k]) (k :: left) := by
  obtain ⟨pairs, differ, perm⟩ := paired
  exact ⟨pairs, differ, (List.perm_append_singleton k keys).trans (perm.cons k)⟩

/-- One more key takes out a key that was left over. -/
theorem pair (paired : PairedOff keys (other :: left)) (differ : other ≠ k) :
    PairedOff (keys ++ [k]) left := by
  obtain ⟨pairs, all, perm⟩ := paired
  refine ⟨(k, other) :: pairs, ?_, ?_⟩
  · intro pair member
    rcases List.mem_cons.mp member with rfl | member
    · exact differ.symm
    · exact all pair member
  · rw [List.flatMap_cons]
    exact (List.perm_append_singleton k keys).trans
      ((perm.cons k).trans (List.perm_append_comm_assoc [k, other] left _))

section

variable {A : Type} {key : A → K} {votes : List A}

/-- Things whose keys are paired are pairs themselves. -/
theorem exists_pairs {rest : List A} {pairs : List (K × K)}
    (keys : rest.map key = pairs.flatMap fun pair => [pair.1, pair.2]) :
    ∃ pairs' : List (A × A), rest = pairs'.flatMap (fun pair => [pair.1, pair.2]) ∧
      pairs = pairs'.map (Prod.map key key) := by
  induction pairs generalizing rest with
  | nil => exact ⟨[], by simpa using keys, rfl⟩
  | cons pair pairs ih =>
    obtain ⟨first, second⟩ := pair
    simp only [List.flatMap_cons, List.cons_append, List.nil_append] at keys
    obtain ⟨a, others, rfl, rfl, keys₁⟩ := List.map_eq_cons_iff.mp keys
    obtain ⟨b, rest, rfl, rfl, keys₂⟩ := List.map_eq_cons_iff.mp keys₁
    obtain ⟨pairs', rfl, rfl⟩ := ih keys₂
    exact ⟨(a, b) :: pairs', rfl, rfl⟩

/-- If the keys of some things are paired off, so are the things. -/
theorem of_keys (paired : PairedOff (votes.map key) left) :
    ∃ (own : List A) (pairs : List (A × A)), own.map key = left ∧
      (∀ pair ∈ pairs, key pair.1 ≠ key pair.2) ∧
      votes.Perm (own ++ pairs.flatMap fun pair => [pair.1, pair.2]) := by
  obtain ⟨pairs, differ, perm⟩ := paired
  -- a permutation of the keys is the keys of a permutation
  obtain ⟨sorted, keys, same⟩ : ∃ sorted : List A,
      left ++ pairs.flatMap (fun pair => [pair.1, pair.2]) = sorted.map key ∧
        sorted.Perm votes := by
    have moved := perm.symm
    rwa [← congrFun₂ (List.eq_map_comp_perm key) _ votes] at moved
  obtain ⟨own, rest, rfl, mine, others⟩ := List.map_eq_append_iff.mp keys.symm
  obtain ⟨pairs', rfl, rfl⟩ := exists_pairs others
  refine ⟨own, pairs', mine, ?_, same.symm⟩
  intro pair member
  exact differ (Prod.map key key pair) (List.mem_map_of_mem member)

end

section

variable [DecidableEq K]

/-- A pair of different keys holds a key at most once. -/
theorem count_pairs_le {pairs : List (K × K)} (differ : ∀ pair ∈ pairs, pair.1 ≠ pair.2) (k : K) :
    2 * (pairs.flatMap fun pair => [pair.1, pair.2]).count k ≤
      (pairs.flatMap fun pair => [pair.1, pair.2]).length := by
  induction pairs with
  | nil => simp
  | cons pair pairs ih =>
    have rest := ih fun p member => differ p (List.mem_cons_of_mem _ member)
    have apart := differ pair List.mem_cons_self
    have once : [pair.1, pair.2].count k ≤ 1 := by
      simp only [List.count_cons, List.count_nil, beq_iff_eq]
      split <;> split <;> simp_all
    simp only [List.flatMap_cons, List.count_append, List.length_append, List.length_cons,
      List.length_nil]
    omega

/-- A key has what is left over of it, and at most half of the rest. -/
theorem count_le (paired : PairedOff keys left) (k : K) :
    2 * keys.count k + left.length ≤ keys.length + 2 * left.count k := by
  obtain ⟨pairs, differ, perm⟩ := paired
  have half := count_pairs_le differ k
  rw [perm.count_eq, perm.length_eq, List.count_append, List.length_append]
  omega

/-- A key that more than half of the keys are is left over. -/
theorem majority_left (paired : PairedOff keys left) {k : K}
    (most : keys.length < 2 * keys.count k) : k ∈ left := by
  apply List.count_pos_iff.mp
  have := paired.count_le k
  omega

theorem left_count_le (paired : PairedOff keys left) (k : K) : left.count k ≤ keys.count k := by
  obtain ⟨pairs, -, perm⟩ := paired
  rw [perm.count_eq, List.count_append]
  exact Nat.le_add_right _ _

end

end PairedOff

end Quorate
