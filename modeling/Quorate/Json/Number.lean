import Quorate.Json.Scan

/-!
Numbers of a JSON text. A number without fraction or exponent that fits in 64 bits is whole; any
other is floating, computed from a significand of 64 bits and a power of ten. A number can also be
skipped, for which its size does not matter.
-/

set_option autoImplicit false

namespace Quorate.Json

inductive Number where
  | natural (n : Nat)
  /-- A whole number below zero. -/
  | negative (n : Int)
  | floating (x : Float)

namespace Number

def found : Number → Found
  | .natural n => .integer n
  | .negative n => .integer n
  | .floating x => .floating x

/-- The nearest floating number. -/
def toFloat : Number → Float
  | .natural n => n.toUInt64.toFloat
  | .negative n => -n.natAbs.toUInt64.toFloat
  | .floating x => x

end Number

def digit? (c : Char) : Option Nat :=
  if '0' ≤ c ∧ c ≤ '9' then some (c.toNat - 48) else none

def isDigit (c : Char) : Bool := (digit? c).isSome

/-- The largest significand. -/
def largest : Nat := Nat.pow 2 64 - 1

/-- Append digits to a significand for as long as it fits, and count the digits appended. -/
def append (significand : Nat) : List Char → Nat × Nat
  | [] => (significand, 0)
  | c :: cs =>
    let next := significand * 10 + (digit? c).getD 0
    if next ≤ largest then
      let (significand, count) := append next cs
      (significand, count + 1)
    else (significand, 0)

def powerOfTen (n : Nat) : Float := Float.ofScientific 1 false n

/-- The quotient of `x` by ten to the power `n`, in steps of the largest power there is. -/
def divided (x : Float) (n : Nat) : Float :=
  if n ≤ 308 then x / powerOfTen n
  else if x == 0 then x
  else divided (x / powerOfTen 308) (n - 308)
termination_by n

/-- A significand times a power of ten; a number too large for a floating one is refused. -/
def scaled (positive : Bool) (significand : Nat) (power : Int) : Except Fault Number :=
  let x := significand.toUInt64.toFloat
  let signed (x : Float) : Number := .floating (if positive then x else -x)
  if power < 0 then .ok (signed (divided x (-power).toNat))
  else if x == 0 then .ok (signed x)
  else if 308 < power then .error .malformed
  else
    let y := x * powerOfTen power.toNat
    if y.isInf then .error .malformed else .ok (signed y)

def digits (cs : List Char) : List Char × List Char := cs.span isDigit

/-- Read a number from its exponent on, after the letter. -/
def exponent (positive : Bool) (significand : Nat) (power : Int) (cs : List Char) :
    Except Fault (Number × List Char) :=
  let (up, cs) := match cs with
    | '+' :: cs => (true, cs)
    | '-' :: cs => (false, cs)
    | cs => (true, cs)
  match digits cs with
  | ([], []) => .error .truncated
  | ([], _ :: _) => .error .malformed
  | (ds, rest) =>
    let n : Nat := ds.foldl (fun n c => n * 10 + (digit? c).getD 0) 0
    (scaled positive significand (if up then power + n else power - n)).map (·, rest)

def isExponentMark (c : Char) : Bool := c = 'e' || c = 'E'

/-- Read a number from its fraction on, after the point. -/
def fraction (positive : Bool) (significand : Nat) (power : Int) (cs : List Char) :
    Except Fault (Number × List Char) :=
  match digits cs with
  | ([], []) => .error .truncated
  | ([], _ :: _) => .error .malformed
  | (ds, rest) =>
    let (significand, count) := append significand ds
    let power := power - count
    match rest with
    | c :: more =>
      if isExponentMark c then exponent positive significand power more
      else (scaled positive significand power).map (·, rest)
    | [] => (scaled positive significand power).map (·, rest)

/-- A whole number; zero with a minus sign and what does not fit become floating. -/
def whole (positive : Bool) (significand : Nat) : Number :=
  if positive then .natural significand
  else if 0 < significand ∧ significand ≤ Nat.pow 2 63 then .negative (-significand)
  else .floating (-significand.toUInt64.toFloat)

/-- Read a number after its integer digits, the last `power` of which did not fit. -/
def afterInteger (positive : Bool) (significand power : Nat) (cs : List Char) :
    Except Fault (Number × List Char) :=
  let plain : Except Fault (Number × List Char) :=
    if power = 0 then .ok (whole positive significand, cs)
    else (scaled positive significand power).map (·, cs)
  match cs with
  | c :: more =>
    if c = '.' then fraction positive significand power more
    else if isExponentMark c then exponent positive significand power more
    else plain
  | [] => plain

/-- Read a number after its sign. -/
def readNumber (positive : Bool) (cs : List Char) : Except Fault (Number × List Char) :=
  match cs with
  | [] => .error .truncated
  | c :: rest =>
    if c = '0' then
      if (rest.head?.map isDigit).getD false then .error .malformed
      else afterInteger positive 0 0 rest
    else if isDigit c then
      let (ds, rest) := digits cs
      let (significand, count) := append 0 ds
      afterInteger positive significand (ds.length - count) rest
    else .error .malformed

/-- Skip an exponent after its letter. -/
def skipExponent (cs : List Char) : Except Fault (List Char) :=
  let cs := match cs with
    | '+' :: cs | '-' :: cs => cs
    | cs => cs
  match digits cs with
  | ([], _) => .error .malformed
  | (_, rest) => .ok rest

/-- Skip a fraction after its point. -/
def skipFraction (cs : List Char) : Except Fault (List Char) :=
  match digits cs with
  | ([], _) => .error .malformed
  | (_, c :: rest) => if isExponentMark c then skipExponent rest else .ok (c :: rest)
  | (_, []) => .ok []

/-- Skip a number after its sign. -/
def skipNumber (cs : List Char) : Except Fault (List Char) :=
  match digits cs with
  | ([], _) => .error .malformed
  | ('0' :: _ :: _, _) => .error .malformed
  | (_, c :: rest) =>
    if c = '.' then skipFraction rest
    else if isExponentMark c then skipExponent rest
    else .ok (c :: rest)
  | (_, []) => .ok []

end Quorate.Json
