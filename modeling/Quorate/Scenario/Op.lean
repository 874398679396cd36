import Quorate.Config.Load
import Quorate.Replica.Fault
import Quorate.Result.Machine

/-!
The operations of a scenario. Results go by names that the scenario gives them. Callbacks, stubs
and mergers run scripts of further operations.
-/

set_option autoImplicit false

namespace Quorate.Scenario

abbrev Value := Option String

/-- What a stub does with a callback registered on it. -/
inductive Keeping where
  | store
  | fire
  | drop
  deriving DecidableEq, Repr, Inhabited

/-- Where a callback runs. -/
inductive Placement where
  | here
  /-- On a thread of its own, which may have a name. -/
  | thread (name : Option String)
  /-- On a thread of a pool. -/
  | pool
  deriving DecidableEq, Repr

namespace Placement

/-- The panic of a thread whose name has a NUL character in it, first at the byte `position`. -/
def nulInName (position : Nat) (bytes : List UInt8) : Panic :=
  "thread name may not contain interior null bytes: NulError(" ++ toString position ++ ", [" ++
    ", ".intercalate (bytes.map fun b => toString b.toNat) ++ "])"

def executor : Placement → Executor
  | .here => .inline
  | .pool | .thread none => .join
  | .thread (some name) =>
    let bytes := name.toUTF8.toList
    match bytes.idxOf? 0 with
    | some position => .refuse (nulInName position bytes)
    | none => .join

end Placement

/-- New values for the fields of a stub; `ω` is the type of operations. -/
structure StubChange (ω : Type) where
  keeping : Option Keeping
  done : Option Bool
  cancelled : Option Bool
  cancelReturns : Option Bool
  outcome : Option (Outcome Value)
  onGet : Option (List ω)

inductive Core where
  /-- All values joined, a missing one as a tilde. -/
  | concat
  | fixed (value : Value)
  | election (threshold : Nat) (voter : Voter String)
  /-- The merger of a configuration. -/
  | config (text : String)
  | fail (e : Error)
  | panic (message : Panic)

/-- A merger that shows its values to spies before it merges them; each spy runs a script. -/
structure Mixer (ω : Type) where
  spies : List (List ω)
  core : Core

inductive Op where
  | settable (name : String) (initial : Option (State Value))
  | countdown (name : String) (count : Nat) (value : Value)
  | merge (name : String) (mixer : Option (Mixer Op)) (sources : List String)
  | stub (name : String) (fields : StubChange Op)
  | set (name : String) (fields : StubChange Op)
  /-- Run the callbacks that a stub has stored. -/
  | fire (name : String)
  | clone (name source : String)
  | drop (name : String)
  | succeed (name : String) (value : Value)
  | fail (name : String) (e : Error)
  | producerCancel (name : String)
  | producerIsDone (name : String)
  | producerDebug (name : String)
  | inject (name : String) (fault : Replica.Fault) (origin : String)
  | countDown (name : String)
  | remaining (name : String)
  | get (name : String)
  | getTimeout (name : String) (timeout : Duration)
  | cancel (name : String)
  | isDone (name : String)
  | isCancelled (name : String)
  | size (name : String)
  | completed (name : String)
  | debug (name : String)
  | on (name label : String) (script : List Op) (placement : Placement)
  /-- Start a thread that reads a result. -/
  | waiter (name label : String) (timeout : Option Duration)
  | join (label : String)
  /-- Create a future that reads a result. -/
  | wait (name label : String)
  | poll (label : String)
  /-- Count the references to a handle that merges hold. -/
  | refs (name : String)
  /-- Each operation on a thread of its own. -/
  | par (ops : List Op)
  | panic (message : Panic)
  | sleep (d : Duration)
  | unknown

/-- What an operation answers. -/
inductive Reply where
  | text (s : String)
  | flag (b : Bool)
  | count (n : Nat)
  | outcome (o : Outcome Value)
  | refused (f : LoadFailure)
  | panic (p : Panic)
  | all (replies : List Reply)

/-- What a scenario writes down while it runs. -/
inductive Entry where
  /-- A callback began; on a thread of its own with that thread's name. -/
  | callback (label : String) (thread : Option (Option String))
  /-- An operation of the script of `label` was answered. -/
  | inside (label : String) (reply : Reply)
  /-- A method of a stub was called. -/
  | stub (name method : String)
  /-- A merger was given these values. -/
  | merge (values : List Value)

/-- A merger as a function, which may panic. -/
abbrev Merging := List Value → Except Panic (Outcome Value)

namespace Core

def concatenation (values : List Value) : String :=
  String.join (values.map fun value => value.getD "~")

/-- The function that merges, or why there is none. -/
def merging? : Core → Except LoadFailure Merging
  | .concat => .ok fun values => .ok (.ok (some (concatenation values)))
  | .fixed value => .ok fun _ => .ok (.ok value)
  | .election threshold voter =>
    match ThresholdMerger.make? threshold voter with
    | .error e => .error (.error e)
    | .ok m => .ok fun values => .ok (m.merge values)
  | .config text => do
    let c ← Config.load (.ok text.toUTF8)
    match c.replyMerger (V := String) with
    | .error e => .error (.error e)
    | .ok m => .ok fun values => .ok (m.merge values)
  | .fail e => .ok fun _ => .ok (.error e)
  | .panic p => .ok fun _ => .error p

end Core

end Quorate.Scenario
