import Quorate.Scenario.Bench

/-!
Results as text: the state of a result in one line, and the descriptions of its cell and handles.
-/

set_option autoImplicit false

namespace Quorate.Scenario

abbrev Item := Result Value Code

def valueText : Value → String
  | none => "null"
  | some s => Json.quoted s

def stateText : State Value → String
  | .pending => "P"
  | .succeeded v => "S:" ++ valueText v
  | .failed e => "F:" ++ e.message
  | .cancelled => "C"

/-- The state of a result, with its progress if it counts any. -/
def stateLine (x : Item) : String :=
  stateText x.cell.state ++
    match x.remaining?, x.completed?, x.size? with
    | some n, _, _ => " left=" ++ toString n
    | none, some done, some size => " " ++ toString done ++ "/" ++ toString size
    | _, _, _ => ""

def flagText (b : Bool) : String := if b then "true" else "false"

/-- A name with its fields. -/
def structText (name : String) (fields : List (String × String)) : String :=
  name ++ " \x7b " ++
    ", ".intercalate (fields.map fun (field, text) => field ++ ": " ++ text) ++ " \x7d"

/-- The cell of a result, unless its lock is held or was poisoned. -/
def cellText (x : Item) : String :=
  let locked : Bool := match x.kind with
    | .merge m => m.lock != .free
    | _ => false
  if locked then "Unable to acquire lock for logging at this time..."
  else structText "Completion"
    [("pending", flagText x.cell.state.isPending),
     ("queued_callbacks", toString x.cell.queue.length),
     ("notified", flagText x.cell.notified)]

/-- An observer's handle. -/
def handleText (x : Item) : String :=
  match x.kind with
  | .settable => structText "ResultHandle" [("completion", cellText x)]
  | .latch _ => structText "CountDownResult" [("completion", cellText x)]
  | .merge m => structText "MergingResult" [("size", toString m.size), ("completion", cellText x)]
  | .foreign .. => "stub"

/-- The producer's handle of a result that has one. -/
def producerText? (x : Item) : Option String :=
  match x.kind with
  | .settable => some (structText "SettableResult" [("completion", cellText x)])
  | .latch _ => some (handleText x)
  | _ => none

end Quorate.Scenario
