import Mathlib.Data.List.Induction
import Quorate.Election.Sentinel
import Quorate.Proofs.Election.Margin

/-! The pairing pass over plain numbers. It keeps the same invariant as the pass over codes, with
the absent number for "no candidate". -/

set_option autoImplicit false

namespace Quorate.Election.SentinelPairing

variable {V : Type} [BEq V] [LawfulBEq V] {absent : V} {votes : List V} {p : SentinelPairing V}

@[simp] theorem next_absent (p : SentinelPairing V) : p.next absent absent = p := by
  simp [SentinelPairing.next]

/-- The numbers that the pairing pass has not paired off. -/
def left (absent : V) (p : SentinelPairing V) : List V :=
  if p.leader == absent then [] else List.replicate p.count p.leader

/-- The pairing invariant: the votes seen are `count` votes for the leader and pairs of different
votes. -/
structure Pairs (absent : V) (votes : List V) (p : SentinelPairing V) : Prop where
  counted : p.leader = absent ↔ p.count = 0
  leads : p.leader ≠ absent → p.leader ∈ votes
  paired : PairedOff (votes.filter (· != absent)) (p.left absent)

theorem Pairs.next (pairs : p.Pairs absent votes) (vote : V) :
    (p.next absent vote).Pairs absent (votes ++ [vote]) := by
  obtain ⟨leader, count⟩ := p
  obtain ⟨counted, leads, paired⟩ := pairs
  dsimp only at counted leads
  have seen (ahead : leader ≠ absent) : leader ∈ votes ++ [vote] :=
    List.mem_append_left _ (leads ahead)
  unfold SentinelPairing.next
  by_cases skipped : vote = absent
  · rw [if_pos (beq_iff_eq.mpr skipped)]
    exact ⟨counted, seen, by simpa [skipped] using paired⟩
  · have cast : (votes ++ [vote]).filter (· != absent) = votes.filter (· != absent) ++ [vote] := by
      simp [skipped]
    rw [if_neg (by simpa using skipped)]
    by_cases dropped : leader = absent
    · -- all votes so far are paired off, so the new one leads
      rw [if_pos (beq_iff_eq.mpr dropped)]
      refine ⟨by simpa using skipped, fun _ => by simp, ?_⟩
      rw [cast]
      simpa [left, skipped, dropped] using paired.keep vote
    · rw [if_neg (by simpa using dropped)]
      have positive : count ≠ 0 := fun none => dropped (counted.mpr none)
      simp only [left, beq_iff_eq, dropped, if_false] at paired
      by_cases agrees : leader = vote
      · rw [if_pos (beq_iff_eq.mpr agrees)]
        refine ⟨by simpa using dropped, seen, ?_⟩
        rw [cast, ← agrees]
        simpa [left, dropped, List.replicate_succ] using paired.keep leader
      · rw [if_neg (by simpa using agrees)]
        -- the vote takes one vote of the leader with it
        have fewer : PairedOff ((votes ++ [vote]).filter (· != absent))
            (List.replicate (count - 1) leader) := by
          obtain ⟨n, rfl⟩ := Nat.exists_eq_succ_of_ne_zero positive
          rw [cast]
          exact paired.pair agrees
        split
        next last =>
          rw [last] at fewer
          exact ⟨by simp, by simp, by simpa [left] using fewer⟩
        next more => exact ⟨by simp [dropped, more], seen, by simpa [left, dropped] using fewer⟩

theorem run_pairs (absent : V) (votes : List V) : (run absent votes).Pairs absent votes := by
  induction votes using List.reverseRecOn with
  | nil => exact ⟨by simp [run], by simp [run], by simpa [run, left] using PairedOff.nil⟩
  | append_singleton seen vote ih =>
    rw [run, List.foldl_append]
    exact ih.next vote

end Quorate.Election.SentinelPairing
