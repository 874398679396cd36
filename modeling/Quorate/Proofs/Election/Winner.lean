import Quorate.Proofs.Election.Pairing

/-! Which votes an election can return when unequal values may share a code. A candidate leaves by
two doors: the pairing count, which compares codes, and the recount, which compares values. -/

set_option autoImplicit false

namespace Quorate

variable {V : Type}

theorem mem_ballotsFrom {votes : List (Option V)} {start : Nat} {b : Ballot V}
    (member : b ∈ ballotsFrom start votes) :
    ∃ i, b.position = start + i ∧ votes[i]? = some (some b.value) := by
  induction votes generalizing start with
  | nil => simp [ballotsFrom] at member
  | cons vote rest ih =>
    have later (member : b ∈ ballotsFrom (start + 1) rest) :
        ∃ i, b.position = start + i ∧ (vote :: rest)[i]? = some (some b.value) := by
      obtain ⟨i, position, here⟩ := ih member
      exact ⟨i + 1, by omega, here⟩
    cases vote with
    | none => exact later member
    | some v =>
      rcases List.mem_cons.mp member with rfl | member
      · exact ⟨0, rfl, rfl⟩
      · exact later member

theorem map_value_ballots (votes : List (Option V)) :
    (ballots votes).map Ballot.value = votes.filterMap id :=
  map_value_ballotsFrom votes 0

/-- A ballot says where its value stands. -/
theorem mem_ballots {votes : List (Option V)} {b : Ballot V} (member : b ∈ ballots votes) :
    votes[b.position]? = some (some b.value) := by
  obtain ⟨i, position, here⟩ := mem_ballotsFrom member
  rwa [position, Nat.zero_add]

namespace Election

variable [BEq V] {voter : Voter V} {threshold : Nat}

theorem support_ballots (v : V) (votes : List (Option V)) :
    support v (ballots votes) = (votes.filterMap id).countP fun w => w == v := by
  rw [← map_value_ballots, List.countP_map]
  rfl

theorem confirmed_eq_some {votes : List (Ballot V)} {p : Pairing V} {winner : Ballot V}
    (wins : confirmed threshold votes p = some winner) :
    (∃ code, p.leader = some (winner, code)) ∧
      (threshold ≤ p.count ∨ threshold ≤ support winner.value votes) := by
  unfold confirmed at wins
  split at wins
  next => cases wins
  next candidate code top =>
    split at wins
    next enough =>
      cases wins
      exact ⟨⟨code, top⟩, enough⟩
    next => cases wins

theorem elect_zero (voter : Voter V) (votes : List (Option V)) :
    elect 0 voter votes = .error (.invalidArgument "threshold must be at least 1") :=
  rfl

theorem elect_positive (positive : 0 < threshold) (votes : List (Option V)) :
    elect threshold voter votes =
      match confirmed threshold (ballots votes) (Pairing.run voter (ballots votes)) with
      | some winner => .ok (some winner)
      | none => noMajority threshold
          (distinctUpTo voter (threshold + 1) ((ballots votes).map Ballot.value)) := by
  rw [elect, checkThreshold, if_neg (Nat.ne_of_gt positive)]
  rfl

theorem elect_eq_some {votes : List (Option V)} {winner : Ballot V}
    (elected : elect threshold voter votes = .ok (some winner)) :
    confirmed threshold (ballots votes) (Pairing.run voter (ballots votes)) = some winner := by
  rcases Nat.eq_zero_or_pos threshold with rfl | positive
  · rw [elect_zero] at elected
    cases elected
  · rw [elect_positive positive] at elected
    split at elected
    next wins =>
      cases elected
      exact wins
    next =>
      unfold noMajority at elected
      split at elected <;> cases elected

/-- Votes equal to a value have its code. -/
theorem support_le_tally {votes : List (Ballot V)} (sound : voter.Sound (votes.map Ballot.value))
    {v : V} (cast : v ∈ votes.map Ballot.value) :
    support v votes ≤ tally voter votes (voter v) := by
  apply List.countP_mono_left
  intro b member equal
  simpa using sound b.value (List.mem_map_of_mem member) v cast equal

/-- Where fewer votes are equal to a value than have its code, an unequal one shares its code. -/
theorem exists_collision (voter : Voter V) {votes : List (Ballot V)} {v : V}
    (fewer : support v votes < tally voter votes (voter v)) :
    ∃ b ∈ votes, voter b.value = voter v ∧ (b.value == v) = false := by
  apply Decidable.byContradiction
  intro none
  apply Nat.not_le_of_lt fewer
  apply List.countP_mono_left
  intro b member same
  apply Decidable.byContradiction
  intro other
  exact none ⟨b, member, by simpa using same, by simpa using other⟩

/-- What an election promises of the vote it returns. -/
structure Wins (threshold : Nat) (voter : Voter V) (votes : List (Option V))
    (winner : Ballot V) : Prop where
  /-- The winner is one of the votes. -/
  cast : votes[winner.position]? = some (some winner.value)
  /-- Enough votes have its code. -/
  coded : threshold ≤ tally voter (ballots votes) (voter winner.value)
  /-- Enough votes are equal to it, unless its code alone was ahead by enough votes and an unequal
  value shares it. -/
  equal : threshold ≤ support winner.value (ballots votes) ∨
    threshold ≤ (Pairing.run voter (ballots votes)).count ∧
      ∃ b ∈ ballots votes, voter b.value = voter winner.value ∧ (b.value == winner.value) = false

theorem elect_winner_supported {votes : List (Option V)}
    (sound : voter.Sound ((ballots votes).map Ballot.value)) {winner : Ballot V}
    (elected : elect threshold voter votes = .ok (some winner)) :
    Wins threshold voter votes winner := by
  obtain ⟨⟨code, leads⟩, enough⟩ := confirmed_eq_some (elect_eq_some elected)
  have sees := Pairing.run_sees voter (ballots votes)
  unfold Pairing.Sees at sees
  rw [leads] at sees
  have cast := List.mem_map_of_mem (f := Ballot.value) sees.cast
  have equal := support_le_tally sound cast
  have backed := sees.backed
  rw [sees.named] at backed
  -- the pairing count is at most the votes with the code, not those with the value
  refine ⟨mem_ballots sees.cast, by omega, ?_⟩
  rcases Nat.lt_or_ge (support winner.value (ballots votes)) threshold with few | recounted
  · have counted : threshold ≤ (Pairing.run voter (ballots votes)).count := by omega
    exact .inr ⟨counted, exists_collision voter (by omega)⟩
  · exact .inl recounted

/-- Two votes for different values, which the voter cannot tell apart. -/
def collidingVotes : List (Option String) := [some "A", some "B"]

/-- The first of two colliding votes wins an election that asks for two equal ones. -/
theorem collision_elects :
    (Voter.constant 7).Sound ((ballots collidingVotes).map Ballot.value) ∧
      elect 2 (Voter.constant 7) collidingVotes = .ok (some ⟨0, "A"⟩) ∧
      ¬ 2 ≤ support "A" (ballots collidingVotes) :=
  ⟨fun _ _ _ _ _ => rfl, by rfl, by decide⟩

theorem collision_wins :
    Wins 2 (Voter.constant 7) collidingVotes ⟨0, "A"⟩ :=
  elect_winner_supported (fun _ _ _ _ _ => rfl) (by rfl)

end Election

end Quorate
