import Quorate.Vote.Code

/-!
The pairing pass of a majority election. It keeps one candidate and a count: a vote for the
candidate raises the count, any other vote lowers it, and a candidate whose count reaches zero is
dropped for the next vote that comes. Votes are compared by code.
-/

set_option autoImplicit false

namespace Quorate

/-- A vote and where it stands among all positions. -/
structure Ballot (V : Type) where
  position : Nat
  value : V

/-- The votes cast, in order; positions without a vote are left out. -/
def ballotsFrom {V : Type} : (start : Nat) → List (Option V) → List (Ballot V)
  | _, [] => []
  | start, none :: rest => ballotsFrom (start + 1) rest
  | start, some v :: rest => ⟨start, v⟩ :: ballotsFrom (start + 1) rest

def ballots {V : Type} (votes : List (Option V)) : List (Ballot V) := ballotsFrom 0 votes

/-- What the pairing pass remembers: the leading vote with its code, and the votes it is ahead
by. -/
structure Pairing (V : Type) where
  leader : Option (Ballot V × Code)
  count : Nat

namespace Pairing

variable {V : Type}

def empty : Pairing V := ⟨none, 0⟩

/-- Count one more vote. -/
def next (voter : Voter V) (p : Pairing V) (b : Ballot V) : Pairing V :=
  match p.leader with
  | none => ⟨some (b, voter b.value), 1⟩
  | some (_, code) =>
    if code = voter b.value then { p with count := p.count + 1 }
    else if p.count - 1 = 0 then ⟨none, 0⟩
    else { p with count := p.count - 1 }

def run (voter : Voter V) (votes : List (Ballot V)) : Pairing V := votes.foldl (next voter) empty

end Pairing

/-- The values of the votes cast are the values present. -/
theorem map_value_ballotsFrom {V : Type} (votes : List (Option V)) (start : Nat) :
    (ballotsFrom start votes).map Ballot.value = votes.filterMap id := by
  induction votes generalizing start with
  | nil => rfl
  | cons vote rest ih => cases vote <;> simp [ballotsFrom, ih]

end Quorate
