import Quorate.Vote.Code

/-!
How many distinct values a list of votes holds, as far as it matters: counting stops at a limit.
Values are told apart by equality among those that share a code.
-/

set_option autoImplicit false

namespace Quorate

variable {V : Type}

/-- Whether a value equal to `v` is among `kept`, looking only at values with the code of `v`. -/
def alreadyKept [BEq V] (voter : Voter V) (kept : List V) (v : V) : Bool :=
  kept.any fun k => voter k == voter v && k == v

/-- The first value of each group of equal values, until there are `limit` of them. -/
def representatives [BEq V] (voter : Voter V) (limit : Nat) : (kept : List V) → List V → List V
  | kept, [] => kept
  | kept, v :: rest =>
    if alreadyKept voter kept v then representatives voter limit kept rest
    else if limit ≤ kept.length + 1 then kept ++ [v]
    else representatives voter limit (kept ++ [v]) rest

/-- The number of distinct values, or `limit` if there are at least that many. -/
def distinctUpTo [BEq V] (voter : Voter V) (limit : Nat) (values : List V) : Nat :=
  (representatives voter limit [] values).length

/-- The values other than `absent`, each once, until there are `limit` of them. -/
def presentUpTo [BEq V] (absent : V) (limit : Nat) : (seen : List V) → List V → List V
  | seen, [] => seen
  | seen, v :: rest =>
    if v == absent || seen.contains v then presentUpTo absent limit seen rest
    else if limit ≤ seen.length + 1 then v :: seen
    else presentUpTo absent limit (v :: seen) rest

end Quorate
