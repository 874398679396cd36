import Quorate.Vote.Code

/-!
Values of the common types that can stand for election: texts, byte strings, whole numbers of a
fixed width, truth values and floating point numbers. Equality is that of the type, so a number
that is not one differs from itself.
-/

set_option autoImplicit false

namespace Quorate

inductive Element where
  | text (s : String)
  | bytes (b : List UInt8)
  /-- A whole number and its width in bytes. -/
  | whole (width : Nat) (n : Int)
  | flag (b : Bool)
  | real (x : Float)
  deriving BEq, Inhabited

namespace Element

instance : Raw Element where
  bytes
    | .text s => Raw.bytes s
    | .bytes b => b
    | _ => []

/-- Numbers are hashed as their bytes, negative ones in two's complement. -/
instance : Hashed Element where
  feed
    | .text s => Hashed.feed s
    | .bytes b => Hashed.feed b
    | .whole width n => littleEndian width (n % Int.pow 256 width).toNat
    | .flag b => [if b then 1 else 0]
    | .real _ => []

/-- Votes by the number rounded toward zero, as far as a code reaches. -/
def truncated : Voter Element
  | .real x => x.toInt32
  | _ => 0

end Element

end Quorate
