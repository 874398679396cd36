import Quorate.Proofs.Election.Distinct
import Quorate.Proofs.Election.Winner

/-! Elections in which a value stands on its own: where no other value shares its code, a winner has
the votes it needs, and a value with more votes than all others together wins with them. -/

set_option autoImplicit false

namespace Quorate

variable {V : Type} [BEq V] {voter : Voter V} {threshold : Nat}

/-- Among some values, only those equal to `v` have its code. -/
def Voter.Unshared (voter : Voter V) (values : List V) (v : V) : Prop :=
  ∀ w ∈ values, voter w = voter v → (w == v) = true

namespace Election

section

variable {votes : List (Ballot V)} {v : V} (sound : voter.Sound (votes.map Ballot.value))
  (cast : v ∈ votes.map Ballot.value) (unshared : voter.Unshared (votes.map Ballot.value) v)
include sound cast unshared

/-- A value that stands on its own has the votes that its code has. -/
theorem support_eq_of_unshared : support v votes = tally voter votes (voter v) := by
  apply Nat.le_antisymm (support_le_tally sound cast)
  apply List.countP_mono_left
  intro b member same
  exact unshared b.value (List.mem_map_of_mem member) (by simpa using same)

/-- A winner that stands on its own has enough votes, whichever door it leaves by. -/
theorem support_of_unshared {p : Pairing V} {winner : Ballot V} (same : winner.value = v)
    (pairs : p.Pairs voter votes) (wins : confirmed threshold votes p = some winner) :
    threshold ≤ support v votes := by
  subst same
  obtain ⟨⟨code, top⟩, enough⟩ := confirmed_eq_some wins
  rcases enough with ahead | recounted
  · have sees := pairs.sees
    unfold Pairing.Sees at sees
    rw [top] at sees
    rw [support_eq_of_unshared sound cast unshared, ← sees.named]
    exact Nat.le_trans ahead sees.backed
  · exact recounted

/-- A value that stands on its own wins with most of the votes, if they are enough. -/
theorem confirmed_of_unshared [EquivBEq V] (enough : threshold ≤ support v votes)
    (most : votes.length < 2 * support v votes) :
    ∃ winner, confirmed threshold votes (Pairing.run voter votes) = some winner ∧
      (winner.value == v) = true := by
  have alike (b : Ballot V) (member : b ∈ votes) (named : voter b.value = voter v) :
      (b.value == v) = true := unshared b.value (List.mem_map_of_mem member) named
  rw [support_eq_of_unshared sound cast unshared] at most
  -- the recount is for a value that is equal to `v`, so it counts the same votes
  have recounted (b : Ballot V) (member : b ∈ votes) (named : voter b.value = voter v) :
      threshold ≤ support b.value votes := by
    unfold support
    simp only [BEq.congr_right (alike b member named)]
    exact enough
  obtain ⟨winner, wins, member, named⟩ := confirmed_of_majority most recounted
  exact ⟨winner, wins, alike winner member named⟩

end

/-- Let no other value share the code of the value in question. Then a winner has enough votes, and
a value with enough votes wins if it has more than all others together, in whatever order they are
cast and whether or not the others share codes. -/
theorem elect_majority [EquivBEq V] (positive : 0 < threshold) {votes : List (Option V)}
    (sound : voter.Sound (votes.filterMap id)) :
    (∀ winner, elect threshold voter votes = .ok (some winner) →
      voter.Unshared (votes.filterMap id) winner.value →
      votes[winner.position]? = some (some winner.value) ∧
        threshold ≤ (votes.filterMap id).countP fun w => w == winner.value) ∧
    ∀ v ∈ votes.filterMap id, voter.Unshared (votes.filterMap id) v →
      threshold ≤ ((votes.filterMap id).countP fun w => w == v) →
      ((votes.filterMap id).countP fun w => !(w == v)) <
        ((votes.filterMap id).countP fun w => w == v) →
      ∃ winner, elect threshold voter votes = .ok (some winner) ∧ (winner.value == v) = true := by
  have values : (ballots votes).map Ballot.value = votes.filterMap id :=
    map_value_ballotsFrom votes 0
  have counted (v : V) :
      ((votes.filterMap id).countP fun w => w == v) = support v (ballots votes) := by
    rw [← values, List.countP_map]
    rfl
  have length : (votes.filterMap id).length = (ballots votes).length := by
    rw [← values, List.length_map]
  constructor
  · intro winner elected unshared
    have wins := elect_eq_some elected
    have pairs := Pairing.run_pairs voter (ballots votes)
    obtain ⟨⟨code, top⟩, -⟩ := confirmed_eq_some wins
    have member := (pairs.leads winner code top).1
    refine ⟨mem_ballots member, ?_⟩
    rw [← values] at sound unshared
    rw [counted]
    exact support_of_unshared sound (List.mem_map_of_mem member) unshared rfl pairs wins
  · intro v cast unshared enough more
    have all := length_eq_countP_add_filter (votes.filterMap id) v
    rw [← List.countP_eq_length_filter] at all
    have most : (ballots votes).length < 2 * support v (ballots votes) := by
      rw [← length, ← counted]
      omega
    rw [counted] at enough
    rw [← values] at sound cast unshared
    obtain ⟨winner, wins, equal⟩ := confirmed_of_unshared sound cast unshared enough most
    refine ⟨winner, ?_, equal⟩
    rw [elect_positive positive, wins]

/-- Votes with a majority of one, cast between others that the voter cannot tell apart. -/
def mixedVotes : List (Option String) :=
  [some "B", none, some "A", some "C", some "A", some "A"]

def tellsA : Voter String := fun s => if s = "A" then 1 else 2

theorem majority_among_collisions :
    tellsA.Sound (mixedVotes.filterMap id) ∧ tellsA.Unshared (mixedVotes.filterMap id) "A" ∧
      elect 3 tellsA mixedVotes = .ok (some ⟨5, "A"⟩) ∧
      (3 ≤ (mixedVotes.filterMap id).countP fun w => w == "A") ∧
      ∃ winner, elect 3 tellsA mixedVotes = .ok (some winner) ∧ (winner.value == "A") = true := by
  have sound : tellsA.Sound (mixedVotes.filterMap id) := Voter.sound_of_lawful _ _
  have unshared : tellsA.Unshared (mixedVotes.filterMap id) "A" := by
    unfold Voter.Unshared
    decide
  have elected : elect 3 tellsA mixedVotes = .ok (some ⟨5, "A"⟩) := by rfl
  obtain ⟨counted, wins⟩ := elect_majority (show 0 < 3 by decide) sound
  exact ⟨sound, unshared, elected, (counted _ elected unshared).2,
    wins "A" (by decide) unshared (by decide) (by decide)⟩

end Election

end Quorate
