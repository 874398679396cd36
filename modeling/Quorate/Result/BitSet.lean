/-!
A set of indices below a fixed size, kept as bits in words of 64 with a running count.
-/

set_option autoImplicit false

namespace Quorate

structure BitSet where
  words : List UInt64
  cardinality : Nat
  deriving DecidableEq, Repr

namespace BitSet

/-- The empty set with room for the indices below `size`. -/
def empty (size : Nat) : BitSet := ⟨List.replicate ((size + 63) / 64) 0, 0⟩

/-- The word with only the bit of `index` set. -/
def mask (index : Nat) : UInt64 := 1 <<< (index % 64).toUInt64

/-- Add an index, and whether it was not there before; no answer if there is no room for it. -/
def insert? (b : BitSet) (index : Nat) : Option (Bool × BitSet) :=
  (b.words[index / 64]?).map fun word =>
    if word &&& mask index = 0 then
      (true, ⟨b.words.set (index / 64) (word ||| mask index), b.cardinality + 1⟩)
    else (false, b)

end BitSet

end Quorate
