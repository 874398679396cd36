import Quorate.Result.Gathering
import Quorate.Result.Latch

/-!
A store of results. `V` is the type of values and `κ` the type of a client's pieces of code, which
may stand as callbacks on a result or as the merger of a merge. Results are named by the order of
their creation and are never removed.
-/

set_option autoImplicit false

namespace Quorate

/-- The message of a broken promise. -/
abbrev Panic := String

abbrev FutureId := Nat

inductive Callback (κ : Type) where
  /-- Let a merge look at its source at `index`. -/
  | observe (merge : ResultId) (index : Nat)
  /-- Wake the future that waits for the result. -/
  | signal (future : FutureId)
  | client (code : κ)

/-- Where a callback runs. -/
inductive Executor where
  /-- On the thread that hands it over. -/
  | inline
  /-- On a thread of its own, which is not waited for. -/
  | spawn
  /-- On a thread of its own, which is waited for; a panic there ends that thread alone. -/
  | join
  /-- Nowhere: the executor panics and throws the callback away. -/
  | refuse (p : Panic)
  deriving DecidableEq, Repr

structure Task (κ : Type) where
  callback : Callback κ
  executor : Executor

/-- Turns the values of all sources of a merge into its outcome, or panics. -/
inductive Merger (V κ : Type) where
  | plain (merge : List V → Except Panic (Outcome V))
  /-- Client code that finishes with an outcome. -/
  | code (merge : List V → κ)

/-- The lock of a merge, as far as it can be seen: mergers run while it is held, and one that
panics leaves it poisoned. A poisoned lock still locks. -/
inductive Lock where
  | free
  | held
  | poisoned
  deriving DecidableEq, Repr

structure Merge (V κ : Type) where
  merger : Merger V κ
  size : Nat
  gathering : Gathering V
  lock : Lock

inductive Kind (V κ : Type) where
  /-- Completed by its producer, cancellable by its observers. -/
  | settable
  /-- Completed by a number of acknowledgements, never cancellable. -/
  | latch (latch : Latch V)
  | merge (merge : Merge V κ)
  /-- A result of the client's own making, with what it claims to be. -/
  | foreign (done cancelled : Bool)

structure Result (V κ : Type) where
  cell : Cell V (Task κ)
  kind : Kind V κ

/-- How far the reading of a result by a future has come. -/
inductive Phase where
  | created
  | waiting
  | sent
  /-- The callback that would have woken it is gone. -/
  | dropped
  | finished
  deriving DecidableEq, Repr

structure Future where
  result : ResultId
  phase : Phase
  deriving DecidableEq, Repr

/-- `σ` is whatever the client remembers. -/
structure Store (V κ σ : Type) where
  results : List (Result V κ)
  futures : List Future
  now : Nat
  client : σ

namespace Store

variable {V κ σ : Type}

def empty (client : σ) : Store V κ σ := ⟨[], [], 0, client⟩

def set (s : Store V κ σ) (r : ResultId) (x : Result V κ) : Store V κ σ :=
  { s with results := s.results.set r x }

/-- Add a result; its name is the number of results before it. -/
def push (s : Store V κ σ) (x : Result V κ) : Store V κ σ :=
  { s with results := s.results ++ [x] }

def setPhase (s : Store V κ σ) (f : FutureId) (phase : Phase) : Store V κ σ :=
  { s with futures := s.futures.modify f fun future => { future with phase } }

/-- What becomes of a future when the callback that would wake it is thrown away. -/
def dropTask (s : Store V κ σ) (t : Task κ) : Store V κ σ :=
  match t.callback with
  | .signal f =>
    { s with futures := s.futures.modify f fun future =>
        if future.phase = .waiting then { future with phase := .dropped } else future }
  | _ => s

def dropTasks (s : Store V κ σ) (tasks : List (Task κ)) : Store V κ σ := tasks.foldl dropTask s

end Store

namespace Result

variable {V κ : Type}

/-- Whether a merger is running under the lock of this result. -/
def isHeld (x : Result V κ) : Bool :=
  match x.kind with
  | .merge m => m.lock = .held
  | _ => false

def isForeign (x : Result V κ) : Bool :=
  match x.kind with
  | .foreign .. => true
  | _ => false

def isDone (x : Result V κ) : Bool :=
  match x.kind with
  | .foreign done _ => done
  | _ => !x.cell.state.isPending

/-- A latch is never cancelled. -/
def isCancelled (x : Result V κ) : Bool :=
  match x.kind with
  | .foreign _ cancelled => cancelled
  | .latch _ => false
  | _ => x.cell.state.isCancelled

/-- How many sources gave a value, for a merge. -/
def completed? (x : Result V κ) : Option Nat :=
  match x.kind with
  | .merge m => some m.gathering.completed.cardinality
  | _ => none

def size? (x : Result V κ) : Option Nat :=
  match x.kind with
  | .merge m => some m.size
  | _ => none

def remaining? (x : Result V κ) : Option Nat :=
  match x.kind with
  | .latch l => some l.remaining
  | _ => none

end Result

end Quorate
