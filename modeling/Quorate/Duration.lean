/-!
Lengths of time, counted in nanoseconds. A length is written in the largest of the units s, ms, µs
and ns that it fills at least once, with as many decimals as it needs.
-/

set_option autoImplicit false

namespace Quorate

structure Duration where
  nanoseconds : Nat
  deriving DecidableEq, Repr, Inhabited

namespace Duration

def ofMillis (ms : Nat) : Duration := ⟨ms * 1000000⟩

def ofParts (seconds nanoseconds : Nat) : Duration := ⟨seconds * 1000000000 + nanoseconds⟩

/-- The longest length whose whole seconds fit in 64 bits. -/
def longest : Duration := ofParts (Nat.pow 2 64 - 1) 999999999

def seconds (d : Duration) : Nat := d.nanoseconds / 1000000000

def subsecond (d : Duration) : Nat := d.nanoseconds % 1000000000

/-- Whole milliseconds. -/
def millis (d : Duration) : Nat := d.nanoseconds / 1000000

/-- The decimals of `part` out of `10 ^ places`, without trailing zeros. -/
def decimals : (places part : Nat) → List Char
  | 0, _ => []
  | places + 1, part =>
    if part = 0 then []
    else Nat.digitChar (part / Nat.pow 10 places % 10) :: decimals places (part % Nat.pow 10 places)

/-- A count of units of `10 ^ places` nanoseconds each. -/
def inUnit (d : Duration) (places : Nat) (unit : String) : String :=
  let whole := toString (d.nanoseconds / Nat.pow 10 places)
  match decimals places (d.nanoseconds % Nat.pow 10 places) with
  | [] => whole ++ unit
  | digits => whole ++ "." ++ String.ofList digits ++ unit

def text (d : Duration) : String :=
  if Nat.pow 10 9 ≤ d.nanoseconds then d.inUnit 9 "s"
  else if Nat.pow 10 6 ≤ d.nanoseconds then d.inUnit 6 "ms"
  else if Nat.pow 10 3 ≤ d.nanoseconds then d.inUnit 3 "µs"
  else d.inUnit 0 "ns"

@[simp] theorem millis_ofMillis (ms : Nat) : (ofMillis ms).millis = ms := by
  simp only [ofMillis, millis, Nat.mul_div_cancel _ (by decide : 0 < 1000000)]

end Duration

end Quorate
