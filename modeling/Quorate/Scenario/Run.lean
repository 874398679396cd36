import Quorate.Result.System
import Quorate.Scenario.Client

/-!
Running a scenario. The operations run one after another on the first thread; each leaves a report
of its reply, of what was written down meanwhile, and of the named results whose state changed. What
nothing holds any more goes between two operations.
-/

set_option autoImplicit false

namespace Quorate.Scenario

structure Report where
  reply : Reply
  log : List Entry
  /-- Names with the new state of their results. -/
  states : List (String × String)

/-- How many steps one operation may take. -/
def patience : Nat := Nat.pow 10 9

/-- The named results that are no stubs, with their states. -/
def states (s : Stage) : List (String × String) :=
  s.client.names.filterMap fun (name, handle) =>
    match s.results[handle.result]? with
    | some x => if x.isForeign then none else some (name, stateLine x)
    | none => none

/-- The states that are new or differ from before. -/
def changes (before after : List (String × String)) : List (String × String) :=
  after.filter fun (name, state) => before.lookup name != some state

def replyOf (s : System Value Code Bench) : Reply :=
  match s.result? with
  | some (.ok a) => s.store.client.replyOf a
  | some (.error p) => .panic p
  | none => .text "blocked"

/-- Run one operation. -/
def step (s : System Value Code Bench) (op : Op) : System Value Code Bench × Report :=
  let before := states s.store
  let stage := Stage.releaseGone s.store
  let cleared := { stage with client := { stage.client with log := [] } }
  let s := (System.restart { s with store := cleared } (.run (.op op))).run client patience
  (s, ⟨replyOf s, s.store.client.log, changes before (states s.store)⟩)

def runFrom (s : System Value Code Bench) : List Op → List Report
  | [] => []
  | op :: ops =>
    let (s, report) := step s op
    report :: runFrom s ops

def run (ops : List Op) : List Report :=
  runFrom ⟨.empty .empty, [⟨.ok .unit, []⟩]⟩ ops

end Quorate.Scenario
