/-!
The keyed hash SipHash-1-3 of a byte string, with both keys zero: one mixing round for each
eight bytes and three at the end.
-/

set_option autoImplicit false

namespace Quorate.Hash

/-- Rotation of a word to the left, for `0 < amount < 64`. -/
def rotate64 (x : UInt64) (amount : UInt64) : UInt64 := (x <<< amount) ||| (x >>> (64 - amount))

/-- The four words the rounds mix. -/
structure SipState where
  v0 : UInt64
  v1 : UInt64
  v2 : UInt64
  v3 : UInt64

namespace SipState

def initial : SipState :=
  ⟨0x736f6d6570736575, 0x646f72616e646f6d, 0x6c7967656e657261, 0x7465646279746573⟩

def round (s : SipState) : SipState :=
  let v0 := s.v0 + s.v1
  let v2 := s.v2 + s.v3
  let v1 := rotate64 s.v1 13 ^^^ v0
  let v3 := rotate64 s.v3 16 ^^^ v2
  let v0 := rotate64 v0 32
  let v2 := v2 + v1
  let v0 := v0 + v3
  let v1 := rotate64 v1 17 ^^^ v2
  let v3 := rotate64 v3 21 ^^^ v0
  ⟨v0, v1, rotate64 v2 32, v3⟩

/-- Mix one message word in. -/
def absorb (s : SipState) (word : UInt64) : SipState :=
  let s := { s with v3 := s.v3 ^^^ word }.round
  { s with v0 := s.v0 ^^^ word }

def finish (s : SipState) : UInt64 :=
  let s := { s with v2 := s.v2 ^^^ 0xff }.round.round.round
  s.v0 ^^^ s.v1 ^^^ s.v2 ^^^ s.v3

end SipState

/-- The word whose least significant byte comes first; missing bytes are zero. -/
def littleEndian64 : List UInt8 → UInt64
  | [] => 0
  | b :: rest => b.toUInt64 ||| (littleEndian64 rest <<< 8)

/-- Mix every whole word of `bytes` in, then the rest under the length of the whole message. -/
def sipWords (length : Nat) : List UInt8 → SipState → SipState
  | a :: b :: c :: d :: e :: f :: g :: h :: rest, s =>
    sipWords length rest (s.absorb (littleEndian64 [a, b, c, d, e, f, g, h]))
  | tail, s => s.absorb (littleEndian64 tail ||| (length.toUInt64 <<< 56))

def sip13 (bytes : List UInt8) : UInt64 := (sipWords bytes.length bytes .initial).finish

end Quorate.Hash
