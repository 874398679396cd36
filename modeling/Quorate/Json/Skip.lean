import Quorate.Json.Number

/-!
Skipping a JSON value of any depth. The brackets that are open are kept on a stack; every step of
the loop takes at least one character.
-/

set_option autoImplicit false

namespace Quorate.Json

inductive Bracket where
  | list
  | object
  deriving DecidableEq, Repr

def Bracket.closing : Bracket → Char
  | .list => ']'
  | .object => '}'

/-- Where the text stands inside a bracket. -/
inductive Place where
  /-- After the opening. -/
  | opened
  /-- After a comma. -/
  | next
  /-- After a value. -/
  | after
  deriving DecidableEq, Repr

/-- Begin a value at its first character: skip it, or enter its bracket. -/
def enter (c : Char) (cs : List Char) : Except Fault (Option Bracket × List Char) :=
  let skipped (rest : Except Fault (List Char)) :=
    rest.map fun rest => ((none : Option Bracket), rest)
  if c = 'n' then skipped (word ['u', 'l', 'l'] cs)
  else if c = 't' then skipped (word ['r', 'u', 'e'] cs)
  else if c = 'f' then skipped (word ['a', 'l', 's', 'e'] cs)
  else if c = '-' then skipped (skipNumber cs)
  else if isDigit c then skipped (skipNumber (c :: cs))
  else if c = '"' then skipped (skipString cs)
  else if c = '[' then .ok (some .list, cs)
  else if c = '\x7b' then .ok (some .object, cs)
  else .error .malformed

/-- Read the colon between the name and the value of a member. -/
def colon (cs : List Char) : Except Fault (List Char) :=
  match skipBlank cs with
  | [] => .error .truncated
  | c :: rest => if c = ':' then .ok rest else .error .malformed

/-- Begin a value after any blanks. -/
def enterNext (cs : List Char) : Except Fault (Option Bracket × List Char) :=
  match skipBlank cs with
  | [] => .error .truncated
  | c :: rest => enter c rest

/-- Begin what stands in a bracket: a value in a list, a named value in an object. -/
def enterItem (b : Bracket) (c : Char) (cs : List Char) :
    Except Fault (Option Bracket × List Char) :=
  match b with
  | .list => enter c cs
  | .object => if c = '"' then skipString cs >>= colon >>= enterNext else .error .malformed

/-- Skip to the end of the bracket `b` and of those around it, in at most `fuel` steps. -/
def skipOut : (fuel : Nat) → Place → Bracket → List Bracket → List Char → Except Fault (List Char)
  | 0, _, _, _, _ => .error .truncated
  | fuel + 1, place, b, around, cs =>
    match skipBlank cs with
    | [] => .error .truncated
    | c :: rest =>
      if place ≠ .next ∧ c = b.closing then
        match around with
        | [] => .ok rest
        | b :: around => skipOut fuel .after b around rest
      else if place = .after then
        if c = ',' then skipOut fuel .next b around rest else .error .malformed
      else
        match enterItem b c rest with
        | .error e => .error e
        | .ok (none, rest) => skipOut fuel .after b around rest
        | .ok (some inner, rest) => skipOut fuel .opened inner (b :: around) rest

/-- Skip a value. -/
def skipValue (cs : List Char) : Except Fault (List Char) :=
  match enterNext cs with
  | .error e => .error e
  | .ok (none, rest) => .ok rest
  | .ok (some b, rest) => skipOut rest.length .opened b [] rest

end Quorate.Json
