import Quorate.Election.Majority

/-!
The threshold merge: many replies become the one reply that at least `threshold` of them agree
on. A reply without a value never counts as a vote, but it does count as a reply.
-/

set_option autoImplicit false

namespace Quorate

/-- A merge by election. It can be shared by any number of merges, as nothing in it changes. -/
structure ThresholdMerger (V : Type) where
  /-- How many replies must agree. -/
  threshold : Nat
  voter : Voter V
  positive : 0 < threshold

namespace ThresholdMerger

variable {V : Type}

def make? (threshold : Nat) (voter : Voter V) : Except Error (ThresholdMerger V) :=
  if h : 0 < threshold then .ok ⟨threshold, voter, h⟩
  else .error (.invalidArgument "threshold must be at least 1")

def canMerge (m : ThresholdMerger V) (values : List (Option V)) : Bool :=
  m.threshold ≤ values.length

/-- Why a merge of `given` values is refused. -/
def tooFew (m : ThresholdMerger V) (given : Nat) : Error :=
  .invalidArgument
    ("ThresholdMerger requires at least " ++ toString m.threshold ++ " values, got " ++
      toString given)

def merge [BEq V] (m : ThresholdMerger V) (values : List (Option V)) : Except Error (Option V) :=
  if m.canMerge values then (Election.elect m.threshold m.voter values).map (·.map Ballot.value)
  else .error (m.tooFew values.length)

def describe (m : ThresholdMerger V) : String :=
  "ThresholdMerger \x7b threshold: " ++ toString m.threshold ++ ", election: Mjrty \x7d"

end ThresholdMerger

/-- The first reply that has a value. -/
def firstReply {V : Type} (values : List (Option V)) : Option V := values.findSome? id

end Quorate
