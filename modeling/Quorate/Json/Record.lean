import Quorate.Json.Expect

/-!
Reading records from JSON. A record is an object of its fields, among which unknown members are
skipped, or a list of its fields in order.
-/

set_option autoImplicit false

namespace Quorate.Json

/-- A type of records, `δ` being one in the making. -/
structure Fields (δ α : Type) where
  /-- The type, for messages. -/
  expected : String
  empty : δ
  /-- Take in a member, given its name and the text after the name. -/
  member : δ → String → Reader δ
  finish : δ → Except Fault α
  /-- Read the fields from a list, one item each. -/
  items : Reader α

/-- Go to the next item of a list, if there is one. -/
def nextItem? (first : Bool) (cs : List Char) : Except Fault (Option (List Char)) :=
  match skipBlank cs with
  | [] => .error .truncated
  | c :: rest =>
    if c = ']' then .ok none
    else if first then .ok (some (c :: rest))
    else if c = ',' then
      match skipBlank rest with
      | [] => .error .truncated
      | c :: rest => if c = ']' then .error .malformed else .ok (some (c :: rest))
    else .error .malformed

/-- Read the end of a list. -/
def endList (cs : List Char) : Except Fault (List Char) :=
  match skipBlank cs with
  | [] => .error .truncated
  | c :: rest => if c = ']' then .ok rest else .error .malformed

/-- Read the name of the next member of an object, if there is one, or else the end. -/
def nextMember? (first : Bool) (cs : List Char) : Except Fault (Option String × List Char) :=
  let named (cs : List Char) : Except Fault (Option String × List Char) :=
    (readString cs).map fun (name, rest) => (some (String.ofList name), rest)
  match skipBlank cs with
  | [] => .error .truncated
  | c :: rest =>
    if c = '\x7d' then .ok (none, rest)
    else if first then if c = '"' then named rest else .error .malformed
    else if c = ',' then
      match skipBlank rest with
      | [] => .error .truncated
      | c :: rest => if c = '"' then named rest else .error .malformed
    else .error .malformed

/-- Read the members of an object up to its end, at most `fuel` of them. -/
def readMembers {δ α : Type} (f : Fields δ α) : (fuel : Nat) → Bool → δ → Reader δ
  | 0, _, _, _ => .error .truncated
  | fuel + 1, first, draft, cs => do
    match ← nextMember? first cs with
    | (none, rest) => .ok (draft, rest)
    | (some name, rest) =>
      let (draft, rest) ← f.member draft name rest
      readMembers f fuel false draft rest

def readRecord {δ α : Type} (f : Fields δ α) : Reader α := fun cs =>
  match skipBlank cs with
  | [] => .error .truncated
  | c :: rest =>
    if c = '[' then do
      let (x, rest) ← f.items rest
      let rest ← endList rest
      .ok (x, rest)
    else if c = '\x7b' then do
      let (draft, rest) ← readMembers f (rest.length + 1) true f.empty rest
      let x ← f.finish draft
      .ok (x, rest)
    else .error (wrongType f.expected (c :: rest))

/-- A field that must not come twice. -/
def once {α : Type} (field : String) (earlier : Option α) (read : Reader α) : Reader α := fun cs =>
  if earlier.isSome then .error (.mismatch (.duplicateField field))
  else colon cs >>= read

/-- A field that must not be missing. -/
def required {α : Type} (field : String) : Option α → Except Fault α
  | some x => .ok x
  | none => .error (.mismatch (.missingField field))

/-- Skip the value of an unknown member. -/
def skipMember {α : Type} (x : α) : Reader α := fun cs =>
  (colon cs >>= skipValue).map (x, ·)

/-- Read the next item of a list, of which `index` were read; none at the end of the list. -/
def item? {α : Type} (index : Nat) (read : Reader α) : Reader (Option α) := fun cs => do
  match ← nextItem? (index == 0) cs with
  | none => .ok (none, cs)
  | some rest =>
    let (x, rest) ← read rest
    .ok (some x, rest)

/-- Read an item that must be there, of a list with `expected` items. -/
def item {α : Type} (expected : String) (index : Nat) (read : Reader α) : Reader α := fun cs => do
  match ← item? index read cs with
  | (none, _) => .error (.mismatch (.length index expected))
  | (some x, rest) => .ok (x, rest)

end Quorate.Json
