import Quorate.Duration
import Quorate.Json.Quoted
import Quorate.Text.Quoted

/-!
What can go wrong for a caller: the causes, the message of each, and its JSON form. Broken
promises of a source are not errors; they are panics of the operation that notices them.
-/

set_option autoImplicit false

namespace Quorate

inductive Error where
  /-- Malformed input to a constructor or to a merge. -/
  | invalidArgument (reason : String)
  /-- The result was cancelled before a value or a failure was set. -/
  | cancelled
  /-- A bounded wait ended while the result was still pending. -/
  | timeout (limit : Duration)
  /-- The votes were too fragmented to elect a winner. -/
  | quorumNotReached (threshold : Nat) (reason : String)
  /-- A failure set by a producer. -/
  | generic (reason : String)
  | io (reason : String)
  | invalidConfig (reason : String)
  deriving DecidableEq, Repr, Inhabited

namespace Error

/-- The name of the cause. -/
def name : Error → String
  | .invalidArgument _ => "InvalidArgument"
  | .cancelled => "Cancelled"
  | .timeout _ => "Timeout"
  | .quorumNotReached .. => "QuorumNotReached"
  | .generic _ => "Generic"
  | .io _ => "Io"
  | .invalidConfig _ => "InvalidConfig"

/-- The details of the cause, each a field name and its text; none for a bare name. -/
def fields : Error → List (String × String)
  | .invalidArgument reason | .generic reason | .io reason | .invalidConfig reason =>
    [("reason", Text.quoted reason)]
  | .cancelled => []
  | .timeout limit => [("timeout", limit.text)]
  | .quorumNotReached threshold reason =>
    [("threshold", toString threshold), ("reason", Text.quoted reason)]

def message (e : Error) : String :=
  match e.fields with
  | [] => e.name
  | fields =>
    e.name ++ " \x7b " ++
      ", ".intercalate (fields.map fun (field, text) => field ++ ": " ++ text) ++ " \x7d"

/-- The JSON object with the given members, whose values are JSON texts. -/
def jsonObject (members : List (String × String)) : String :=
  "\x7b" ++
    ",".intercalate (members.map fun (key, value) => Json.quoted key ++ ":" ++ value) ++ "\x7d"

def json (e : Error) : String :=
  match e with
  | .invalidArgument reason | .generic reason | .io reason | .invalidConfig reason =>
    jsonObject [(e.name, jsonObject [("reason", Json.quoted reason)])]
  | .cancelled => Json.quoted e.name
  | .timeout limit =>
    jsonObject [(e.name, jsonObject [("timeout", jsonObject
      [("secs", toString limit.seconds), ("nanos", toString limit.subsecond)])])]
  | .quorumNotReached threshold reason =>
    jsonObject [(e.name,
      jsonObject [("threshold", toString threshold), ("reason", Json.quoted reason)])]

def isCancelled : Error → Bool
  | .cancelled => true
  | _ => false

def isTimeout : Error → Bool
  | .timeout _ => true
  | _ => false

def isQuorumNotReached : Error → Bool
  | .quorumNotReached .. => true
  | _ => false

end Error

end Quorate
