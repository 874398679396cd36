import Quorate.Replica.Basic
import Quorate.Result.System

/-!
What runs when replicas are read: one thread for each replica, and the reader, which starts them
and merges their results. A reader that waits gives up after a time and cancels the merge.
-/

set_option autoImplicit false

namespace Quorate.Replica

variable {V : Type}

/-- A replica with the name it goes by in errors. -/
structure Member (V : Type) where
  replica : Replica V
  origin : String
  deriving Repr

/-- What the reader does with the merge. -/
inductive Purpose where
  /-- End with the merge. -/
  | build
  /-- Wait for its outcome, at most so long. -/
  | read (patience : Duration)
  deriving Repr

structure Plan (V : Type) where
  merge : List (Option V) → Outcome (Option V)
  purpose : Purpose

inductive Work (V : Type) where
  /-- Wait for the delay of a replica. -/
  | delay (result : ResultId) (member : Member V)
  /-- Complete the result of a replica. -/
  | reply (result : ResultId) (member : Member V)
  /-- Start the replicas that are left. -/
  | gather (plan : Plan V) (members : List (Member V)) (sources : List ResultId)
  /-- Start a replica on the new result. -/
  | start (plan : Plan V) (member : Member V) (members : List (Member V)) (sources : List ResultId)
  /-- Turn to the new merge. -/
  | merged (plan : Plan V)
  | judge (merge : ResultId)
  | abandon
  | finish

namespace Work

abbrev Step (V : Type) := Action (Option V) (Work V)

/-- Go on with a piece of work, given the answer it waited for. -/
def resume (a : Answer (Option V)) : Work V → Step V
  | .delay result member => .call (.sleep member.replica.delay) (.reply result member)
  | .reply result member =>
    match member.replica.state? member.origin with
    | some state => .call (.complete result state) .finish
    | none => .finish .unit
  | .gather plan [] sources =>
    .call (.build (.plain fun values => .ok (plan.merge values)) sources) (.merged plan)
  | .gather plan (member :: members) sources =>
    .call (.create .settable) (.start plan member members sources)
  | .start plan member members sources =>
    match a with
    | .result result =>
      .call (.fork (.run (.delay result member))) (.gather plan members (sources ++ [result]))
    | _ => .finish .unit
  | .merged plan =>
    match a, plan.purpose with
    | .result merge, .read patience => .call (.within merge patience) (.judge merge)
    | _, _ => .finish a
  | .judge merge =>
    match a with
    | .pending => .call (.cancel merge) .abandon
    | _ => .finish a
  | .abandon => .finish .pending
  | .finish => .finish .unit

end Work

/-- Replicas make no results of their own kind. -/
def client : Client (Option V) (Work V) Unit where
  resume work a _ := ((), work.resume a)
  serve _ _ := .finish

abbrev Reading (V : Type) := System (Option V) (Work V) Unit

/-- Read from the given replicas. -/
def reading (plan : Plan V) (members : List (Member V)) : Reading V :=
  .start () (.run (.gather plan members []))

/-- How many steps a reading may take. -/
def patience : Nat := Nat.pow 10 9

end Quorate.Replica
