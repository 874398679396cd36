import Quorate.Json.Skip

/-!
Reading a JSON value of an expected type: whole numbers and variants. A variant is its bare name,
or an object with that one member.
-/

set_option autoImplicit false

namespace Quorate.Json

/-- What a text without leading blanks starts with. -/
def found (cs : List Char) : Except Fault Found :=
  match cs with
  | [] => .error .malformed
  | c :: rest =>
    if c = 'n' then (word ['u', 'l', 'l'] rest).map fun _ => .null
    else if c = 't' then (word ['r', 'u', 'e'] rest).map fun _ => .boolean true
    else if c = 'f' then (word ['a', 'l', 's', 'e'] rest).map fun _ => .boolean false
    else if c = '-' then (readNumber false rest).map fun read => read.1.found
    else if isDigit c then (readNumber true cs).map fun read => read.1.found
    else if c = '"' then (readString rest).map fun read => .string (String.ofList read.1)
    else if c = '[' then .ok .sequence
    else if c = '\x7b' then .ok .map
    else .error .malformed

/-- The fault of a text that holds something other than expected. -/
def wrongType (expected : String) (cs : List Char) : Fault :=
  match found cs with
  | .error e => e
  | .ok x => .mismatch (.type x expected)

/-- A number as a whole number that is not negative. -/
def Number.toNat (expected : String) : Number → Except Fault Nat
  | .natural n => .ok n
  | .negative n => .error (.mismatch (.value (.integer n) expected))
  | .floating x => .error (.mismatch (.type (.floating x) expected))

/-- Read a whole number of 64 bits. -/
def readNat (expected : String) : Reader Nat := fun cs =>
  match skipBlank cs with
  | [] => .error .truncated
  | c :: rest =>
    let number : Except Fault (Number × List Char) :=
      if c = '-' then readNumber false rest
      else if isDigit c then readNumber true (c :: rest)
      else .error (wrongType expected (c :: rest))
    number >>= fun (x, rest) => (x.toNat expected).map (·, rest)

/-- Read the content of a variant that has none. -/
def readNull : Reader Unit := fun cs =>
  match skipBlank cs with
  | [] => .error .truncated
  | c :: rest =>
    if c = 'n' then (word ['u', 'l', 'l'] rest).map ((), ·)
    else .error (wrongType "unit" (c :: rest))

/-- Read the name of a variant, which is a string. -/
def readName {ν : Type} (known : List (String × ν)) : Reader ν := fun cs =>
  match skipBlank cs with
  | [] => .error .truncated
  | c :: rest =>
    if c = '"' then do
      let (name, rest) ← readString rest
      match known.lookup (String.ofList name) with
      | some x => .ok (x, rest)
      | none => .error (.mismatch (.unknownVariant (String.ofList name) (known.map Prod.fst)))
    else .error .malformed

/-- A type of variants: their names, what a bare name means, and the content of a named member. -/
structure Variants (ν α : Type) where
  known : List (String × ν)
  bare : ν → Except Fault α
  content : ν → Reader α

def readVariant {ν α : Type} (v : Variants ν α) : Reader α := fun cs =>
  match skipBlank cs with
  | [] => .error .truncated
  | c :: rest =>
    if c = '"' then do
      let (name, rest) ← readName v.known (c :: rest)
      let x ← v.bare name
      .ok (x, rest)
    else if c = '\x7b' then do
      let (name, rest) ← readName v.known rest
      let rest ← colon rest
      let (x, rest) ← v.content name rest
      match skipBlank rest with
      | [] => .error .truncated
      | c :: rest => if c = '\x7d' then .ok (x, rest) else .error .malformed
    else .error .malformed

/-- Read a text that is one value, with nothing but blanks around it. -/
def readAll {α : Type} (read : Reader α) (cs : List Char) : Except Fault α := do
  let (x, rest) ← read cs
  if (skipBlank rest).isEmpty then .ok x else .error .malformed

end Quorate.Json
