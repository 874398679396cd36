/-!
The hash Murmur3 of a byte string in its 32 bit form, with seed zero.
-/

set_option autoImplicit false

namespace Quorate.Hash

/-- Rotation of a word to the left, for `0 < amount < 32`. -/
def rotate32 (x : UInt32) (amount : UInt32) : UInt32 := (x <<< amount) ||| (x >>> (32 - amount))

/-- The word whose least significant byte comes first; missing bytes are zero. -/
def littleEndian32 : List UInt8 → UInt32
  | [] => 0
  | b :: rest => b.toUInt32 ||| (littleEndian32 rest <<< 8)

def murmurScramble (k : UInt32) : UInt32 := rotate32 (k * 0xcc9e2d51) 15 * 0x1b873593

/-- Mix every whole word of `bytes` in, then what is left of it. -/
def murmurWords : List UInt8 → UInt32 → UInt32
  | a :: b :: c :: d :: rest, h =>
    murmurWords rest
      (rotate32 (h ^^^ murmurScramble (littleEndian32 [a, b, c, d])) 13 * 5 + 0xe6546b64)
  | [], h => h
  | tail, h => h ^^^ murmurScramble (littleEndian32 tail)

def murmurFinish (h : UInt32) : UInt32 :=
  let h := (h ^^^ (h >>> 16)) * 0x85ebca6b
  let h := (h ^^^ (h >>> 13)) * 0xc2b2ae35
  h ^^^ (h >>> 16)

def murmur32 (bytes : List UInt8) : UInt32 :=
  murmurFinish (murmurWords bytes 0 ^^^ bytes.length.toUInt32)

end Quorate.Hash
