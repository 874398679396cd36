import Quorate.Proofs.Election.Answer

/-! The answers of an election as its threshold rises: first a winner, then a report of fragmented
votes, then nobody. One threshold is compared with a higher one over the same votes, for any codes
and any equality. -/

set_option autoImplicit false

namespace Quorate.Election

/-- What the answer at a higher threshold says of the answer at the threshold `low`. -/
structure Descends {α : Type} (low : Nat) (lower higher : Except Error (Option α)) : Prop where
  /-- A winner stays the winner. -/
  winner : ∀ w, higher = .ok (some w) → lower = .ok (some w)
  /-- Fragmented votes stay fragmented or elect someone. -/
  split : NotReached higher → (∃ w, lower = .ok (some w)) ∨ lower = .error (splitError low)
  /-- Where nobody is elected, nobody is elected at the higher threshold either. -/
  nobody : lower = .ok none → higher = .ok none

variable {low high : Nat}

/-- It is enough that a lower threshold confirms what a higher one does, and that the counts of
distinct values pass their thresholds alike. -/
theorem Descends.of_answers {α : Type} {groups groups' : Nat} {winner winner' : Option α}
    (kept : ∀ w, winner' = some w → winner = some w) (counts : high < groups' → low < groups) :
    Descends low (answer low groups winner) (answer high groups' winner') := by
  constructor
  · intro w elected
    exact answer_eq_winner.mpr (kept w (answer_eq_winner.mp elected))
  · intro refused
    have many := counts (answer_notReached.mp refused).2
    cases winner with
    | some w => exact .inl ⟨w, rfl⟩
    | none => exact .inr (answer_eq_split.mpr ⟨rfl, many⟩)
  · intro nobody
    obtain ⟨lost, few⟩ := answer_eq_nobody.mp nobody
    apply answer_eq_nobody.mpr
    constructor
    · apply Option.eq_none_iff_forall_ne_some.mpr
      intro w wins
      have := kept w wins
      simp [lost] at this
    · apply Nat.le_of_not_lt
      intro many
      have := counts many
      omega

section

variable {V : Type} [BEq V] (le : low ≤ high)
include le

/-- More distinct values than a threshold are more than any lower one, also as far as they are
counted. -/
theorem lt_distinctUpTo_of_le (voter : Voter V) (values : List V)
    (many : high < distinctUpTo voter (high + 1) values) :
    low < distinctUpTo voter (low + 1) values := by
  have le' : low + 1 ≤ high + 1 := by omega
  have capped := distinctUpTo_eq_min voter (by omega) le' values
  omega

theorem confirmed_of_le {votes : List (Ballot V)} {p : Pairing V} {winner : Ballot V}
    (wins : confirmed high votes p = some winner) : confirmed low votes p = some winner := by
  obtain ⟨leads, enough⟩ := confirmed_eq_some_iff.mp wins
  exact confirmed_eq_some_iff.mpr ⟨leads, enough.imp (Nat.le_trans le) (Nat.le_trans le)⟩

theorem SentinelPairing.Pairs.elected_of_le {N : Type} [BEq N] [LawfulBEq N] {absent : N}
    {votes : List N} {p : SentinelPairing N} (pairs : p.Pairs absent votes) {i : Nat}
    (wins : p.elected absent high votes = some i) : p.elected absent low votes = some i := by
  obtain ⟨present, enough, stands⟩ := pairs.elected_eq_some_iff.mp wins
  exact pairs.elected_eq_some_iff.mpr ⟨present, Nat.le_trans le enough, stands⟩

end

/-- From a higher threshold to a lower one a winner stays the same vote, fragmented votes stay so or
elect someone, and nobody is elected only where nobody was. -/
theorem threshold_phases {V N : Type} [BEq V] [BEq N] [LawfulBEq N] (positive : 0 < low)
    (le : low ≤ high) :
    (∀ (voter : Voter V) (votes : List (Option V)),
      Descends low (elect low voter votes) (elect high voter votes)) ∧
    ∀ (absent : N) (votes : List N),
      Descends low (electAmong low absent votes) (electAmong high absent votes) := by
  have positive' : 0 < high := Nat.lt_of_lt_of_le positive le
  constructor
  · intro voter votes
    rw [elect_eq_answer positive, elect_eq_answer positive']
    apply Descends.of_answers
    · intro winner wins
      exact confirmed_of_le le wins
    · exact lt_distinctUpTo_of_le le voter _
  · intro absent votes
    rw [electAmong_eq_answer positive (Voter.constant noVote),
      electAmong_eq_answer positive' (Voter.constant noVote)]
    apply Descends.of_answers
    · intro i wins
      exact (SentinelPairing.run_pairs absent votes).elected_of_le le wins
    · exact lt_distinctUpTo_of_le le _ _

/-- Votes for three different values. -/
def differentVotes : List (Option (List UInt8)) := [some [1], none, some [2, 2], some [3, 3, 3]]

theorem different_from_two_to_one :
    elect 2 Voter.length differentVotes = .error (splitError 2) ∧
      ((∃ w, elect 1 Voter.length differentVotes = .ok (some w)) ∨
        elect 1 Voter.length differentVotes = .error (splitError 1)) ∧
      electAmong 2 (0 : Int32) [0, 5, 7, 5] = .ok (some 1) ∧
      electAmong 1 (0 : Int32) [0, 5, 7, 5] = .ok (some 1) := by
  obtain ⟨byCodes, overNumbers⟩ := threshold_phases (V := List UInt8) (N := Int32)
    (show 0 < 1 by decide) (show 1 ≤ 2 by decide)
  have refused : elect 2 Voter.length differentVotes = .error (splitError 2) := by rfl
  have elected : electAmong 2 (0 : Int32) [0, 5, 7, 5] = .ok (some 1) := by rfl
  exact ⟨refused, (byCodes Voter.length differentVotes).split ⟨_, _, refused⟩, elected,
    (overNumbers 0 [0, 5, 7, 5]).winner 1 elected⟩

end Quorate.Election
