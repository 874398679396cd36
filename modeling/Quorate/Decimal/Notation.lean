import Quorate.Decimal.Shortest

/-!
How a floating point number is written: positionally with at least one decimal while its size is
in range, and with an exponent outside it.
-/

set_option autoImplicit false

namespace Quorate.Decimal

structure Notation where
  /-- Powers of ten of the leading digit that are written positionally. -/
  lowest : Int
  highest : Int
  /-- Whether an exponent that is not negative has a plus sign. -/
  plus : Bool
  tie : Tie

namespace Notation

/-- The notation of values: positional from 10⁻⁴ up to 10¹⁶, and ties go up. -/
def value : Notation := ⟨-4, 15, false, .up⟩

/-- The notation inside messages about a configuration: positional from 10⁻⁵ up to 10¹⁶, and ties
go to the even neighbour. -/
def found : Notation := ⟨-5, 15, true, .toEven⟩

def zeros (n : Nat) : String := String.ofList (List.replicate n '0')

/-- Positional digits with a point. -/
def positional (d : Digits) : String :=
  let digits := toString d.value
  let fraction := (-d.power).toNat
  if 0 ≤ d.power then digits ++ zeros d.power.toNat ++ ".0"
  else if fraction < digits.length then
    String.ofList (digits.toList.take (digits.length - fraction)) ++ "." ++
      String.ofList (digits.toList.drop (digits.length - fraction))
  else "0." ++ zeros (fraction - digits.length) ++ digits

/-- The power of ten of the leading digit. -/
def power (n : Notation) (p : Int) : String :=
  (if 0 ≤ p ∧ n.plus then "+" else "") ++ toString p

/-- One digit, the other digits after a point, and the power of ten of the first. -/
def exponential (n : Notation) (d : Digits) : String :=
  let digits := (toString d.value).toList
  let fraction := match digits.tail with
    | [] => ""
    | rest => "." ++ String.ofList rest
  String.ofList (digits.take 1) ++ fraction ++ "e" ++ n.power (d.power + digits.length - 1)

def write (n : Notation) (x : Float) : String :=
  match Shape.ofFloat x with
  | .nan => "NaN"
  | .infinite negative => if negative then "-inf" else "inf"
  | .finite negative mantissa exponent =>
    let sign := if negative then "-" else ""
    if mantissa = 0 then sign ++ "0.0"
    else
      let d := shortest n.tie mantissa exponent
      let power := d.power + digitCount d.value - 1
      sign ++ if n.lowest ≤ power ∧ power ≤ n.highest then positional d else n.exponential d

end Notation

end Quorate.Decimal
