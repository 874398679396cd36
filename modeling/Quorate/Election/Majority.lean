import Quorate.Election.Distinct
import Quorate.Election.Pairing
import Quorate.Error

/-!
Threshold elections. The pairing pass proposes one candidate. It wins at once when its count
reaches the threshold, and otherwise when enough votes are equal to it by value. Without a
winner, votes split across more values than the threshold are an error; fewer are just not enough.
-/

set_option autoImplicit false

namespace Quorate.Election

variable {V : Type}

/-- A threshold of zero would let every value win. -/
def checkThreshold (threshold : Nat) : Except Error Unit :=
  if threshold = 0 then .error (.invalidArgument "threshold must be at least 1") else .ok ()

def splitError (threshold : Nat) : Error :=
  .quorumNotReached threshold
    ("votes split across more than " ++ toString threshold ++ " distinct values")

/-- The answer when no candidate reached the threshold and the votes hold `groups` distinct
values. -/
def noMajority {α : Type} (threshold groups : Nat) : Except Error (Option α) :=
  if threshold < groups then .error (splitError threshold) else .ok none

/-- The votes equal to the candidate by value. -/
def support [BEq V] (candidate : V) (votes : List (Ballot V)) : Nat :=
  votes.countP fun b => b.value == candidate

/-- The candidate that a pairing proposes, if it is confirmed. -/
def confirmed [BEq V] (threshold : Nat) (votes : List (Ballot V)) (p : Pairing V) :
    Option (Ballot V) :=
  match p.leader with
  | none => none
  | some (candidate, _) =>
    if threshold ≤ p.count ∨ threshold ≤ support candidate.value votes then some candidate else none

/-- Elect the value that at least `threshold` votes agree on. The winner is the vote that the
pairing pass took up as its candidate. -/
def elect [BEq V] (threshold : Nat) (voter : Voter V) (votes : List (Option V)) :
    Except Error (Option (Ballot V)) := do
  checkThreshold threshold
  let cast := ballots votes
  match confirmed threshold cast (Pairing.run voter cast) with
  | some winner => .ok (some winner)
  | none => noMajority threshold (distinctUpTo voter (threshold + 1) (cast.map Ballot.value))

end Quorate.Election
