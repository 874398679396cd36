import Quorate.Hash.Murmur
import Quorate.Hash.Sip

/-!
Vote codes. A voter maps each value to a 32 bit code that an election compares instead of the
value; one code is kept for positions without a vote, and no value gets it from a hash.
-/

set_option autoImplicit false

namespace Quorate

/-- The number an election sees in place of a value. -/
abbrev Code := Int32

/-- The code of a position without a vote. -/
def noVote : Code := -1

/-- A voter is sound on values it maps to equal codes whenever they are equal; unequal values may
share a code. -/
abbrev Voter (V : Type) := V → Code

/-- Values that have bytes to hash, with a mark of where they end. -/
class Hashed (V : Type) where
  feed : V → List UInt8

/-- Values that are text or bytes. -/
class Raw (V : Type) where
  bytes : V → List UInt8

/-- The bytes of a natural number, least significant first, in `count` places. -/
def littleEndian (count n : Nat) : List UInt8 :=
  (List.range count).map fun i => (n / Nat.pow 256 i).toUInt8

instance : Raw String := ⟨fun s => s.toUTF8.toList⟩
instance : Raw (List UInt8) := ⟨id⟩

/-- A text ends with a byte that no text holds. -/
instance : Hashed String := ⟨fun s => s.toUTF8.toList ++ [0xff]⟩

/-- A byte string is announced by its length. -/
instance : Hashed (List UInt8) := ⟨fun b => littleEndian 8 b.length ++ b⟩

namespace Code

/-- A hash as a code. The hash that would read as `noVote` takes the largest code instead. -/
def ofHash (h : UInt32) : Code := if h.toInt32 = noVote then Int32.maxValue else h.toInt32

end Code

namespace Voter

variable {V : Type}

/-- Votes by the hash of the value, its upper half folded onto the lower. -/
def hash [Hashed V] : Voter V := fun v =>
  let h := Hash.sip13 (Hashed.feed v)
  Code.ofHash (h ^^^ (h >>> 32)).toUInt32

/-- Votes by the content of the value alone. -/
def content [Raw V] : Voter V := fun v => Code.ofHash (Hash.murmur32 (Raw.bytes v))

/-- Gives every value the same code. -/
def constant (c : Code) : Voter V := fun _ => c

/-- Votes by the number of bytes. -/
def length [Raw V] : Voter V := fun v => Int32.ofNat (Raw.bytes v).length

/-- The code of a position, which may hold no vote. -/
def vote (voter : Voter V) : Option V → Code
  | none => noVote
  | some v => voter v

end Voter

end Quorate
