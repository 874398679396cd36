import Quorate.Decimal.Notation
import Quorate.Text.Quoted

/-!
Why a JSON text is refused. Text that is no JSON and text that ends too early are told apart, and
both from text that is JSON but not of the expected type. A text is read from left to right and
refused at the first fault.
-/

set_option autoImplicit false

namespace Quorate.Json

/-- What stands where something else was expected. -/
inductive Found where
  | null
  | boolean (b : Bool)
  | integer (n : Int)
  | floating (x : Float)
  | string (s : String)
  | sequence
  | map
  /-- The bare name of a variant that has content. -/
  | unitVariant

namespace Found

def text : Found → String
  | .null => "null"
  | .boolean b => "boolean `" ++ (if b then "true" else "false") ++ "`"
  | .integer n => "integer `" ++ toString n ++ "`"
  | .floating x => "floating point `" ++ Decimal.Notation.found.write x ++ "`"
  | .string s => "string " ++ Text.quoted s
  | .sequence => "sequence"
  | .map => "map"
  | .unitVariant => "unit variant"

end Found

/-- How JSON fails to be of the expected type. -/
inductive Mismatch where
  | type (found : Found) (expected : String)
  | value (found : Found) (expected : String)
  | length (n : Nat) (expected : String)
  | unknownVariant (name : String) (known : List String)
  | missingField (name : String)
  | duplicateField (name : String)

namespace Mismatch

def name (s : String) : String := "`" ++ s ++ "`"

def message : Mismatch → String
  | .type found expected => "invalid type: " ++ found.text ++ ", expected " ++ expected
  | .value found expected => "invalid value: " ++ found.text ++ ", expected " ++ expected
  | .length n expected => "invalid length " ++ toString n ++ ", expected " ++ expected
  | .unknownVariant found known =>
    "unknown variant " ++ name found ++ ", expected " ++ " or ".intercalate (known.map name)
  | .missingField field => "missing field " ++ name field
  | .duplicateField field => "duplicate field " ++ name field

end Mismatch

inductive Fault where
  /-- The text is no JSON. -/
  | malformed
  /-- The text ends where more was needed. -/
  | truncated
  | mismatch (m : Mismatch)

namespace Fault

/-- The kind of fault, in one word. -/
def category : Fault → String
  | .malformed => "syntax"
  | .truncated => "eof"
  | .mismatch _ => "data"

end Fault

/-- Reads a front part of a text and leaves the rest. -/
abbrev Reader (α : Type) := List Char → Except Fault (α × List Char)

end Quorate.Json
