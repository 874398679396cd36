import Mathlib.Data.List.Forall2
import Quorate.Proofs.Election.Answer

/-! Two elections side by side. The pairing pass asks of two votes only whether they share a code,
so votes that correspond one by one, and share codes alike, are paired alike. What differs between
them, as where they stand or what their codes are, is never looked at. -/

set_option autoImplicit false

namespace Quorate

/-- Where corresponding things look alike, so do things that may be missing. -/
theorem map_eq_of_rel {α β γ : Type} {matched : α → β → Prop} {f : α → γ} {g : β → γ}
    (same : ∀ a b, matched a b → f a = g b) {x : Option α} {y : Option β}
    (rel : Option.Rel matched x y) : x.map f = y.map g := by
  cases rel with
  | none => rfl
  | some related => exact congrArg some (same _ _ related)

section

variable {V W : Type}

namespace Pairing

variable (voter : Voter V) (voter' : Voter W) (matched : Ballot V → Ballot W → Prop)

/-- Two pairings that stand alike: the leaders correspond and are ahead by the same count. -/
inductive Alike : Pairing V → Pairing W → Prop where
  | nobody : Alike ⟨none, 0⟩ ⟨none, 0⟩
  | leader {a : Ballot V} {b : Ballot W} (count : Nat) (leads : matched a b) :
    Alike ⟨some (a, voter a.value), count⟩ ⟨some (b, voter' b.value), count⟩

/-- Two votes share a code exactly if the votes that correspond to them do. -/
def ShareAlike : Prop :=
  ∀ ⦃a b c d⦄, matched a b → matched c d →
    (voter a.value = voter c.value ↔ voter' b.value = voter' d.value)

variable {voter voter' matched}

theorem Alike.next (share : ShareAlike voter voter' matched) {p : Pairing V} {q : Pairing W}
    (alike : Alike voter voter' matched p q) {a : Ballot V} {b : Ballot W} (cast : matched a b) :
    Alike voter voter' matched (p.next voter a) (q.next voter' b) := by
  cases alike with
  | nobody => exact .leader 1 cast
  | leader count leads =>
    have same := share leads cast
    unfold Pairing.next
    dsimp only
    split
    next agrees =>
      rw [if_pos (same.mp agrees)]
      exact .leader (count + 1) leads
    next differs =>
      rw [if_neg (mt same.mpr differs)]
      split
      · exact .nobody
      · exact .leader (count - 1) leads

theorem Alike.foldl (share : ShareAlike voter voter' matched) {votes : List (Ballot V)}
    {votes' : List (Ballot W)} (cast : List.Forall₂ matched votes votes') {p : Pairing V}
    {q : Pairing W} (alike : Alike voter voter' matched p q) :
    Alike voter voter' matched (votes.foldl (Pairing.next voter) p)
      (votes'.foldl (Pairing.next voter') q) := by
  induction cast generalizing p q with
  | nil => exact alike
  | cons first rest ih => exact ih (alike.next share first)

theorem run_alike (share : ShareAlike voter voter' matched) {votes : List (Ballot V)}
    {votes' : List (Ballot W)} (cast : List.Forall₂ matched votes votes') :
    Alike voter voter' matched (run voter votes) (run voter' votes') :=
  Alike.foldl share cast .nobody

end Pairing

variable [BEq V] [BEq W] {voter : Voter V} {voter' : Voter W}
  {matched : Ballot V → Ballot W → Prop}

/-- Pairings that stand alike confirm corresponding votes, if these have as many votes each. -/
theorem Pairing.Alike.confirmed {votes : List (Ballot V)} {votes' : List (Ballot W)}
    {p : Pairing V} {q : Pairing W} (alike : Alike voter voter' matched p q)
    (support : ∀ a b, matched a b →
      Election.support a.value votes = Election.support b.value votes') (threshold : Nat) :
    Option.Rel matched (Election.confirmed threshold votes p)
      (Election.confirmed threshold votes' q) := by
  cases alike with
  | nobody => exact .none
  | leader count leads =>
    unfold Election.confirmed
    simp only [support _ _ leads]
    split
    · exact .some leads
    · exact .none

end

/-- Votes without their positions correspond one by one. -/
theorem forall₂_ballots {V : Type} {votes votes' : List (Option V)}
    (same : votes.filterMap id = votes'.filterMap id) :
    List.Forall₂ (fun a b => a.value = b.value) (ballots votes) (ballots votes') := by
  rw [← map_value_ballots, ← map_value_ballots, ← List.forall₂_eq_eq_eq] at same
  simpa only [List.forall₂_map_left_iff, List.forall₂_map_right_iff] using same

namespace Election

variable {V : Type} [BEq V]

/-- Positions without a vote change nothing but the position of a winner. -/
theorem confirmed_of_values (voter : Voter V) {votes votes' : List (Option V)}
    (same : votes.filterMap id = votes'.filterMap id) (threshold : Nat) :
    (confirmed threshold (ballots votes) (Pairing.run voter (ballots votes))).map Ballot.value =
      (confirmed threshold (ballots votes') (Pairing.run voter (ballots votes'))).map
        Ballot.value := by
  have share : Pairing.ShareAlike voter voter fun a b => a.value = b.value := by
    intro a b c d first second
    rw [first, second]
  have support (a b : Ballot V) (equal : a.value = b.value) :
      support a.value (ballots votes) = support b.value (ballots votes') := by
    rw [support_ballots, support_ballots, same, equal]
  have alike := Pairing.run_alike share (forall₂_ballots same)
  exact map_eq_of_rel (fun _ _ equal => equal) (alike.confirmed support threshold)

end Election

end Quorate
