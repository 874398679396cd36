import Quorate.Proofs.Election.Order

/-! What an election answers, by two facts: the winner that its passes confirm, if any, and the
number of distinct values that it counts. Elections by codes and over numbers both answer so. -/

set_option autoImplicit false

namespace Quorate.Election

/-- The winner, if there is one, and otherwise what the number of distinct values decides. -/
def answer {α : Type} (threshold groups : Nat) : Option α → Except Error (Option α)
  | some winner => .ok (some winner)
  | none => noMajority threshold groups

section

variable {α : Type} {threshold groups : Nat} {winner : Option α}

@[simp] theorem answer_some (w : α) : answer threshold groups (some w) = .ok (some w) := rfl

theorem answer_none :
    answer threshold groups (none : Option α) =
      if threshold < groups then .error (splitError threshold) else .ok none :=
  rfl

theorem answer_eq_winner {w : α} :
    answer threshold groups winner = .ok (some w) ↔ winner = some w := by
  cases winner with
  | some v => simp
  | none =>
    rw [answer_none]
    split <;> simp

theorem answer_eq_split :
    answer threshold groups winner = .error (splitError threshold) ↔
      winner = none ∧ threshold < groups := by
  cases winner with
  | some v => simp
  | none =>
    rw [answer_none]
    split <;> simp_all

theorem answer_notReached :
    NotReached (answer threshold groups winner) ↔ winner = none ∧ threshold < groups := by
  constructor
  · rintro ⟨reported, reason, refused⟩
    cases winner with
    | some v => cases refused
    | none =>
      rw [answer_none] at refused
      split at refused
      next many => exact ⟨rfl, many⟩
      next => cases refused
  · intro lost
    exact ⟨_, _, answer_eq_split.mpr lost⟩

theorem answer_eq_nobody :
    answer threshold groups winner = .ok none ↔ winner = none ∧ groups ≤ threshold := by
  cases winner with
  | some v => simp
  | none =>
    rw [answer_none]
    split <;> simp <;> omega

theorem answer_without_winner (lost : ∀ w, answer threshold groups winner ≠ .ok (some w)) :
    winner = none :=
  Option.eq_none_iff_forall_ne_some.mpr fun w wins => lost w (answer_eq_winner.mpr wins)

end

section

variable {V : Type} [BEq V] {threshold : Nat} {votes : List (Ballot V)} {p : Pairing V}

theorem confirmed_eq_some_iff {winner : Ballot V} :
    confirmed threshold votes p = some winner ↔
      (∃ code, p.leader = some (winner, code)) ∧
        (threshold ≤ p.count ∨ threshold ≤ support winner.value votes) := by
  constructor
  · exact confirmed_eq_some
  · rintro ⟨⟨code, leads⟩, enough⟩
    unfold confirmed
    simp only [leads]
    exact if_pos enough

theorem elect_eq_answer (positive : 0 < threshold) (voter : Voter V) (votes : List (Option V)) :
    elect threshold voter votes =
      answer threshold (distinctUpTo voter (threshold + 1) (votes.filterMap id))
        (confirmed threshold (ballots votes) (Pairing.run voter (ballots votes))) := by
  rw [elect_positive positive, map_value_ballots]
  cases confirmed threshold (ballots votes) (Pairing.run voter (ballots votes)) with
  | some winner => rfl
  | none => rfl

end

section

variable {N : Type} [BEq N] {absent : N} {threshold : Nat} {votes : List N}

/-- The first position of a pairing's leader, if the leader wins among `votes`. -/
def SentinelPairing.elected (absent : N) (threshold : Nat) (votes : List N)
    (p : SentinelPairing N) : Option Nat :=
  if p.wins absent threshold votes then votes.findIdx? (· == p.leader) else none

variable [LawfulBEq N]

/-- A number that was cast stands at some position. -/
theorem exists_findIdx? {v : N} (cast : v ∈ votes) : ∃ i, votes.findIdx? (· == v) = some i := by
  apply Option.isSome_iff_exists.mp
  rw [List.findIdx?_isSome, List.any_eq_true]
  exact ⟨v, cast, beq_self_eq_true v⟩

theorem SentinelPairing.Pairs.stands {p : SentinelPairing N} (pairs : p.Pairs absent votes)
    (wins : p.wins absent threshold votes = true) :
    ∃ i, votes.findIdx? (· == p.leader) = some i :=
  exists_findIdx? (pairs.leads (pairs.wins_iff.mp wins).1)

/-- Numbers are counted as any voter counts them. -/
theorem electAmong_eq_answer (positive : 0 < threshold) (voter : Voter N) (absent : N)
    (votes : List N) :
    electAmong threshold absent votes =
      answer threshold (distinctUpTo voter (threshold + 1) (votes.filter (· != absent)))
        ((SentinelPairing.run absent votes).elected absent threshold votes) := by
  rw [electAmong_positive positive, length_presentUpTo voter]
  unfold SentinelPairing.elected
  split
  next wins =>
    obtain ⟨i, stands⟩ := (SentinelPairing.run_pairs absent votes).stands wins
    rw [stands]
    rfl
  next => rfl

theorem SentinelPairing.Pairs.elected_eq_some_iff {p : SentinelPairing N}
    (pairs : p.Pairs absent votes) {i : Nat} :
    p.elected absent threshold votes = some i ↔
      p.leader ≠ absent ∧ threshold ≤ votes.countP (· == p.leader) ∧
        votes.findIdx? (· == p.leader) = some i := by
  have wins : p.wins absent threshold votes = true ↔ _ := pairs.wins_iff
  unfold elected
  rw [← and_assoc, ← wins]
  split <;> simp_all

end

end Quorate.Election
