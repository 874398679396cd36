import Quorate.Merge.Threshold
import Quorate.Proofs.Election.Distinct

/-! What a threshold merge returns, by the number of votes for each value. When more than half of
the replies must agree, the votes alone decide which of its answers it gives. -/

set_option autoImplicit false

namespace Quorate.ThresholdMerger

variable {V : Type}

/-- The values of the replies that have one. -/
def cast (votes : List (Option V)) : List V := votes.filterMap id

@[simp] theorem cast_none (votes : List (Option V)) : cast (none :: votes) = cast votes := rfl

@[simp] theorem cast_some (v : V) (votes : List (Option V)) :
    cast (some v :: votes) = v :: cast votes := rfl

theorem map_value_ballots (votes : List (Option V)) :
    (ballots votes).map Ballot.value = cast votes :=
  map_value_ballotsFrom votes 0

theorem length_cast_le (votes : List (Option V)) : (cast votes).length ≤ votes.length :=
  List.length_filterMap_le _ _

theorem length_ballots_le (votes : List (Option V)) : (ballots votes).length ≤ votes.length := by
  have length := congrArg List.length (map_value_ballots votes)
  rw [List.length_map] at length
  rw [length]
  exact length_cast_le votes

variable [BEq V] {m : ThresholdMerger V} {votes : List (Option V)}

theorem support_eq (votes : List (Option V)) (v : V) :
    Election.support v (ballots votes) = (cast votes).countP fun w => w == v := by
  rw [← map_value_ballots, List.countP_map]
  rfl

theorem merge_few (few : votes.length < m.threshold) :
    m.merge votes = .error (m.tooFew votes.length) := by
  simp [merge, canMerge, Nat.not_le_of_lt few]

theorem merge_enough (enough : m.threshold ≤ votes.length) :
    m.merge votes =
      match Election.confirmed m.threshold (ballots votes)
        (Pairing.run m.voter (ballots votes)) with
      | some winner => .ok (some winner.value)
      | none =>
        if m.threshold < distinctUpTo m.voter (m.threshold + 1) (cast votes) then
          .error (Election.splitError m.threshold)
        else .ok none := by
  have positive : m.threshold ≠ 0 := Nat.ne_of_gt m.positive
  simp only [merge, canMerge, enough, decide_true, if_true, Election.elect,
    Election.checkThreshold, positive, if_false, map_value_ballots]
  cases Election.confirmed m.threshold (ballots votes) (Pairing.run m.voter (ballots votes)) with
  | some winner => rfl
  | none =>
    show Except.map _ (Election.noMajority _ _) = _
    unfold Election.noMajority
    split <;> rfl

section

variable (faithful : m.voter.Faithful (cast votes))
include faithful

/-- A value that is returned is one of the replies, and enough replies are equal to it. -/
theorem merge_sound {v : V} (merged : m.merge votes = .ok (some v)) :
    v ∈ cast votes ∧ m.threshold ≤ (cast votes).countP fun w => w == v := by
  rcases Nat.lt_or_ge votes.length m.threshold with few | enough
  · rw [merge_few few] at merged
    cases merged
  · rw [merge_enough enough] at merged
    split at merged
    next winner wins =>
      cases merged
      obtain ⟨member, supported⟩ := Election.confirmed_sound
        (by rw [map_value_ballots]; exact faithful) wins
      rw [support_eq] at supported
      refine ⟨?_, supported⟩
      rw [← map_value_ballots]
      exact List.mem_map_of_mem member
    next => split at merged <;> cases merged

/-- A value that enough replies are equal to, out of fewer than twice as many, is returned. -/
theorem merge_complete (enough : m.threshold ≤ votes.length)
    (majority : votes.length < 2 * m.threshold) {v : V} (here : v ∈ cast votes)
    (supported : m.threshold ≤ (cast votes).countP fun w => w == v) :
    ∃ w, (w == v) = true ∧ m.merge votes = .ok (some w) := by
  rw [← map_value_ballots] at faithful here
  rw [← support_eq] at supported
  obtain ⟨winner, wins, -, equal⟩ := Election.confirmed_complete faithful here supported
    (Nat.lt_of_le_of_lt (length_ballots_le votes) majority)
  exact ⟨winner.value, equal, by rw [merge_enough enough, wins]⟩

/-- Without such a value, the replies are too fragmented or there are just not enough. -/
theorem merge_split (enough : m.threshold ≤ votes.length)
    (nobody : ∀ v ∈ cast votes, (cast votes).countP (fun w => w == v) < m.threshold) :
    MoreDistinct m.threshold (cast votes) ∧
        m.merge votes = .error (Election.splitError m.threshold) ∨
      ¬ MoreDistinct m.threshold (cast votes) ∧ m.merge votes = .ok none := by
  rw [← lt_distinctUpTo_iff faithful.tellsApart faithful.sound]
  cases merged : m.merge votes with
  | ok winner =>
    cases winner with
    | some v =>
      obtain ⟨member, supported⟩ := merge_sound faithful merged
      exact absurd supported (Nat.not_le_of_lt (nobody v member))
    | none =>
      rw [merge_enough enough] at merged
      split at merged
      next => cases merged
      next =>
        split at merged
        next => cases merged
        next few => exact .inr ⟨few, rfl⟩
  | error e =>
    rw [merge_enough enough] at merged
    split at merged
    next => cases merged
    next =>
      split at merged
      next many => exact .inl ⟨many, merged.symm ▸ rfl⟩
      next => cases merged

end

/-- What the merge of some votes comes to. -/
structure Exact (m : ThresholdMerger V) (votes : List (Option V))
    (o : Except Error (Option V)) : Prop where
  few : (∃ reason, o = .error (.invalidArgument reason)) ↔ votes.length < m.threshold
  /-- No value is returned that too few replies are equal to. -/
  sound : ∀ v, o = .ok (some v) →
    v ∈ cast votes ∧ m.threshold ≤ (cast votes).countP fun w => w == v
  wins : m.threshold ≤ votes.length → votes.length < 2 * m.threshold → ∀ v ∈ cast votes,
    (∃ w, (w == v) = true ∧ o = .ok (some w)) ↔
      m.threshold ≤ (cast votes).countP fun w => w == v
  split : m.threshold ≤ votes.length → votes.length < 2 * m.threshold →
    ((∃ reason, o = .error (.quorumNotReached m.threshold reason)) ↔
      MoreDistinct m.threshold (cast votes))
  other : m.threshold ≤ votes.length → votes.length < 2 * m.threshold →
    (∀ v ∈ cast votes, (cast votes).countP (fun w => w == v) < m.threshold) →
    ¬ MoreDistinct m.threshold (cast votes) → o = .ok none

theorem merge_exact (faithful : m.voter.Faithful (cast votes)) : m.Exact votes (m.merge votes) := by
  refine ⟨⟨?_, fun few => ⟨_, merge_few few⟩⟩, fun v => merge_sound faithful, ?_, ?_, ?_⟩
  · rintro ⟨reason, refused⟩
    apply Nat.lt_of_not_le
    intro enough
    rw [merge_enough enough] at refused
    split at refused
    next => cases refused
    next => split at refused <;> cases refused
  · intro enough majority v here
    refine ⟨?_, merge_complete faithful enough majority here⟩
    rintro ⟨w, equal, merged⟩
    obtain ⟨cast, supported⟩ := merge_sound faithful merged
    refine Nat.le_trans supported (Nat.le_of_eq (List.countP_congr fun u member => ?_))
    rw [← faithful u member w cast, ← faithful u member v here, (faithful w cast v here).mpr equal]
  · intro enough majority
    refine ⟨?_, fun many => ?_⟩
    · rintro ⟨reason, refused⟩
      rw [merge_enough enough] at refused
      rw [← lt_distinctUpTo_iff faithful.tellsApart faithful.sound]
      split at refused
      next => cases refused
      next =>
        split at refused
        next many => exact many
        next => cases refused
    · -- a value with enough votes would leave too few for so many distinct ones
      have nobody : ∀ v ∈ cast votes, (cast votes).countP (fun w => w == v) < m.threshold := by
        intro v here
        have room := many.room faithful.tellsApart here
        have length := length_cast_le votes
        omega
      rcases merge_split faithful enough nobody with ⟨-, merged⟩ | ⟨few, -⟩
      · exact ⟨_, merged⟩
      · exact absurd many few
  · intro enough majority nobody few
    rcases merge_split faithful enough nobody with ⟨many, -⟩ | ⟨-, merged⟩
    · exact absurd many few
    · exact merged

end Quorate.ThresholdMerger
