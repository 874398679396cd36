import Quorate.Scenario.Op

/-!
What a scenario remembers while it runs: the names of its results, its stubs, threads and futures,
and what it has written down. A script that waits for an answer is a piece of code, kept as data.
-/

set_option autoImplicit false

namespace Quorate.Scenario

/-- What a script does when all its operations are done. -/
inductive Ending where
  | give (a : Answer Value)
  /-- Go on to the next spy of a merger, or merge. -/
  | mix (spies : List (List Op)) (merging : Merging) (values : List Value)

/-- A name stands for a handle. Handles of one result have different tags. -/
structure Handle where
  result : ResultId
  tag : Nat
  deriving DecidableEq, Repr

inductive Code where
  | op (op : Op)
  /-- Answer `reply` to the operation, whatever its call answered. -/
  | replying (reply : Reply)
  /-- Answer what the call answered. -/
  | answering
  /-- Name the new result, then bring it to its initial state. -/
  | created (name : String) (initial : Option (State Value))
  | stubbed (name : String) (fields : StubChange Op)
  | merged (name : String)
  | forked (label : String)
  | joined (label : String)
  /-- Read a result on a thread of its own. -/
  | reading (handle : Handle) (timeout : Option Duration)
  /-- End the thread that has read a result. -/
  | read (handle : Handle)
  | awaited (label : String) (handle : Handle)
  /-- Give a future that is not ready its name back. -/
  | polled (label : String) (handle : Handle) (future : FutureId)
  /-- Run stored callbacks, `count` in all. -/
  | firing (tasks : List (Task Code)) (count : Nat)
  /-- Throw callbacks away, then panic. -/
  | losing (tasks : List (Task Code)) (p : Panic)
  | forking (ops : List Op) (threads : List Nat)
  | joining (threads : List Nat) (replies : List Reply)
  | callback (label : String) (script : List Op) (placement : Placement)
  /-- Run the operations of a script, and write each answer down. -/
  | script (label : String) (ops : List Op) (ending : Ending)
  /-- Write an answer down and go on with the script. -/
  | scripted (label : String) (ops : List Op) (ending : Ending)
  | mixing (spies : List (List Op)) (merging : Merging) (values : List Value)
  | serving (stub : ResultId) (method : Method Value Code)
  | giving (a : Answer Value)
  /-- End with what the call answered. -/
  | passing

structure Stub where
  name : String
  keeping : Keeping
  cancelReturns : Bool
  outcome : Outcome Value
  onGet : List Op
  stored : List (Task Code)

namespace Stub

def blank (name : String) : Stub := ⟨name, .store, false, .ok none, [], []⟩

def change (s : Stub) (fields : StubChange Op) : Stub :=
  { s with
    keeping := fields.keeping.getD s.keeping
    cancelReturns := fields.cancelReturns.getD s.cancelReturns
    outcome := fields.outcome.getD s.outcome
    onGet := fields.onGet.getD s.onGet }

end Stub

structure Bench where
  names : List (String × Handle)
  /-- How many handles were made. -/
  tags : Nat
  stubs : List (ResultId × Stub)
  /-- The tags of the handles that each merge was given. -/
  merges : List (ResultId × List Nat)
  waiters : List (String × Nat)
  futures : List (String × Handle × FutureId)
  /-- The handles that threads and futures are reading. -/
  readings : List Handle
  /-- The replies given so far; an answer refers to its place in this list. -/
  replies : List Reply
  log : List Entry

/-- The list with `key` standing for `value` alone. -/
def assign {α β : Type} [BEq α] (entries : List (α × β)) (key : α) (value : β) : List (α × β) :=
  (key, value) :: entries.filter fun entry => entry.1 != key

/-- The list without `key`. -/
def forget {α β : Type} [BEq α] (entries : List (α × β)) (key : α) : List (α × β) :=
  entries.filter fun entry => entry.1 != key

namespace Bench

def empty : Bench := ⟨[], 0, [], [], [], [], [], [], []⟩

/-- Let `name` stand for a new handle of a result. -/
def name (b : Bench) (name : String) (result : ResultId) : Bench :=
  { b with names := assign b.names name ⟨result, b.tags⟩, tags := b.tags + 1 }

def write (b : Bench) (e : Entry) : Bench := { b with log := b.log ++ [e] }

def beginReading (b : Bench) (h : Handle) : Bench := { b with readings := h :: b.readings }

def endReading (b : Bench) (h : Handle) : Bench := { b with readings := b.readings.erase h }

/-- Let `label` stand for a future, and give up the one it stood for. -/
def keepFuture (b : Bench) (label : String) (h : Handle) (f : FutureId) : Bench :=
  let b := match b.futures.lookup label with
    | some (old, _) => b.endReading old
    | none => b
  { b with futures := assign b.futures label (h, f) }

def setStub (b : Bench) (r : ResultId) (s : Stub) : Bench := { b with stubs := assign b.stubs r s }

/-- The reply that an answer refers to. -/
def replyOf (b : Bench) : Answer Value → Reply
  | .token n => (b.replies[n]?).getD (.text "gone")
  | .flag b => .flag b
  | .outcome o => .outcome o
  | .panicked p => .panic p
  | .pending => .text "pending"
  | _ => .text "ok"

end Bench

/-- The store of a scenario. -/
abbrev Stage := Store Value Code Bench

end Quorate.Scenario
