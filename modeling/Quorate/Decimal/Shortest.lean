/-!
The shortest decimal that reads back as a given binary number, and of those the nearest. A number
`mantissa * 2 ^ exponent` with `0 < mantissa` owns the interval of reals that round to it; the
digits are those of the coarsest decimal grid with a point in that interval. A number halfway
between two such points goes the way that is asked for.
-/

set_option autoImplicit false

namespace Quorate.Decimal

/-- A floating point number by its parts. Zero is finite with mantissa zero. -/
inductive Shape where
  | nan
  | infinite (negative : Bool)
  | finite (negative : Bool) (mantissa : Nat) (exponent : Int)

def Shape.ofFloat (x : Float) : Shape :=
  let bits := x.toBits.toNat
  let negative := Nat.pow 2 63 ≤ bits
  let exponent := bits / Nat.pow 2 52 % Nat.pow 2 11
  let fraction := bits % Nat.pow 2 52
  if exponent = 2047 then if fraction = 0 then .infinite negative else .nan
  else if exponent = 0 then .finite negative fraction (-1074)
  else .finite negative (Nat.pow 2 52 + fraction) (Int.ofNat exponent - 1075)

/-- Decimal digits as a number and the power of ten of the last one. -/
structure Digits where
  value : Nat
  power : Int

/-- The same number without trailing zeros. -/
def Digits.strip (d : Digits) : Digits :=
  if h : d.value ≠ 0 ∧ d.value % 10 = 0 then Digits.strip ⟨d.value / 10, d.power + 1⟩ else d
termination_by d.value
decreasing_by omega

/-- The integer `x * 2 ^ scale / 10 ^ power`, as a numerator over `gridUnit scale power`. -/
def onGrid (x : Nat) (scale power : Int) : Nat :=
  x * Nat.pow 2 scale.toNat * Nat.pow 10 (-power).toNat

def gridUnit (scale power : Int) : Nat := Nat.pow 2 (-scale).toNat * Nat.pow 10 power.toNat

/-- The number of decimal digits, at least one. -/
def digitCount (n : Nat) : Nat := (Nat.toDigits 10 n).length

/-- The power of ten of the leading digit of `x * 2 ^ scale`, for `0 < x`. -/
def leadingPower (x : Nat) (scale : Int) : Int :=
  let numerator := onGrid x scale 0
  let denominator := gridUnit scale 0
  let guess : Int := (digitCount numerator : Int) - digitCount denominator
  if onGrid x scale guess < gridUnit scale guess then guess - 1 else guess

/-- Where a number goes that is as far from the point below as from the point above. -/
inductive Tie where
  | toEven
  | up
  deriving DecidableEq, Repr

/-- The point of the grid of step `10 ^ power` that represents the number, if there is one. Four
times the mantissa is used so that the ends of the interval are whole. -/
def pointOn (tie : Tie) (mantissa : Nat) (exponent power : Int) : Option Nat :=
  let scale := exponent - 2
  let unit := gridUnit scale power
  let below := if mantissa = Nat.pow 2 52 ∧ exponent ≠ -1074 then 1 else 2
  let low := onGrid (4 * mantissa - below) scale power
  let high := onGrid (4 * mantissa + 2) scale power
  let middle := onGrid (4 * mantissa) scale power
  let inside (point : Nat) : Bool :=
    if mantissa % 2 = 0 then low ≤ point * unit && point * unit ≤ high
    else low < point * unit && point * unit < high
  let floor := middle / unit
  let distanceDown := middle - floor * unit
  let distanceUp := (floor + 1) * unit - middle
  match inside floor, inside (floor + 1) with
  | false, false => none
  | true, false => some floor
  | false, true => some (floor + 1)
  | true, true =>
    if distanceDown < distanceUp then some floor
    else if distanceUp < distanceDown then some (floor + 1)
    else if tie = .toEven ∧ floor % 2 = 0 then some floor else some (floor + 1)

/-- The shortest digits for a number with a positive mantissa; seventeen always suffice. -/
def shortest (tie : Tie) (mantissa : Nat) (exponent : Int) : Digits :=
  let top := leadingPower (4 * mantissa) (exponent - 2)
  let found := (List.range 17).findSome? fun (more : Nat) =>
    let power := top - Int.ofNat more
    (pointOn tie mantissa exponent power).map fun point => (⟨point, power⟩ : Digits)
  (found.getD ⟨0, 0⟩).strip

end Quorate.Decimal
