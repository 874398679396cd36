import Quorate.Election.Majority

/-!
Elections over plain numbers, where one number marks the positions without a vote. The same
number stands for "no candidate" during the pairing pass, and the winner is answered by the first
position that holds it.
-/

set_option autoImplicit false

namespace Quorate.Election

variable {V : Type} [BEq V]

/-- The leading number, `absent` if there is none, and the votes it is ahead by. -/
structure SentinelPairing (V : Type) where
  leader : V
  count : Nat

/-- Count one more position. -/
def SentinelPairing.next (absent : V) (p : SentinelPairing V) (vote : V) : SentinelPairing V :=
  if vote == absent then p
  else if p.leader == absent then ⟨vote, 1⟩
  else if p.leader == vote then { p with count := p.count + 1 }
  else if p.count - 1 = 0 then ⟨absent, 0⟩
  else { p with count := p.count - 1 }

def SentinelPairing.run (absent : V) (votes : List V) : SentinelPairing V :=
  votes.foldl (next absent) ⟨absent, 0⟩

/-- Whether a pairing's leader wins among `votes`. -/
def SentinelPairing.wins (absent : V) (threshold : Nat) (votes : List V)
    (p : SentinelPairing V) : Bool :=
  p.leader != absent && (threshold ≤ p.count || threshold ≤ votes.countP (· == p.leader))

/-- Elect the number that at least `threshold` positions hold, by its first position. -/
def electAmong (threshold : Nat) (absent : V) (votes : List V) : Except Error (Option Nat) := do
  checkThreshold threshold
  let p := SentinelPairing.run absent votes
  if p.wins absent threshold votes then .ok (votes.findIdx? (· == p.leader))
  else noMajority threshold (presentUpTo absent (threshold + 1) [] votes).length

end Quorate.Election
