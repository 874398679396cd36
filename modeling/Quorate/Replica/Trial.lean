import Quorate.Merge.Threshold
import Quorate.Replica.Work

/-!
A trial of replicas: they are read and merged by election, and the merge is looked at. If a silent
replica keeps it pending, it is looked at when all others have replied, and then cancelled.
-/

set_option autoImplicit false

namespace Quorate.Replica

variable {V : Type}

/-- What became of a merge that was kept pending. -/
structure Aftermath (V : Type) where
  done : Bool
  /-- What its cancellation returned. -/
  cancel : Bool
  outcome : Outcome (Option V)

structure Trial (V : Type) where
  size : Nat
  /-- How many replicas gave a value; not known if one fails, as the others may come later. -/
  completed : Option Nat
  outcome : Outcome (Option V)
  aftermath : Option (Aftermath V)

namespace Trial

def origin : String := "replica read"

/-- How long a merge that is kept pending is waited for. -/
def glance : Duration := .ofMillis 5

/-- Make a call on the first thread of a reading and run it. -/
def call (s : Reading V) (c : Call (Option V) (Work V)) : Reading V :=
  (s.restart c).run client patience

def outcome? (s : Reading V) : Option (Outcome (Option V)) :=
  match s.result? with
  | some (.ok (.outcome o)) => some o
  | _ => none

def flag? (s : Reading V) : Option Bool :=
  match s.result? with
  | some (.ok (.flag b)) => some b
  | _ => none

def merge? (s : Reading V) : Option ResultId :=
  match s.result? with
  | some (.ok (.result m)) => some m
  | _ => none

/-- How long it takes until every replica has replied that ever will. -/
def longestDelay (replicas : List (Replica V)) : Duration :=
  ⟨((replicas.filter fun r => !r.fault.isSilent).map fun r => r.delay.nanoseconds).foldl max 0⟩

/-- Run a trial; none if it gets stuck. -/
def run [BEq V] (merger : ThresholdMerger V) (replicas : List (Replica V)) : Option (Trial V) := do
  let members := replicas.map fun replica => { replica, origin : Member V }
  let s := (reading ⟨merger.merge, .build⟩ members).run client patience
  let m ← merge? s
  let size ← (← s.store.results[m]?).size?
  let completed (s : Reading V) : Option Nat := do (← s.store.results[m]?).completed?
  let fails := replicas.any fun r => r.fault.active && !r.fault.isSilent
  let silent := replicas.any fun r => r.fault.isSilent
  if fails || !silent then
    let s := call s (.get m none)
    let outcome ← outcome? s
    some ⟨size, if fails then none else completed s, outcome, none⟩
  else
    let s := call s (.sleep (longestDelay replicas))
    let replied := completed s
    let s := call s (.get m (some glance))
    let outcome ← outcome? s
    let done := (← s.store.results[m]?).isDone
    let s := call s (.cancel m)
    let cancel ← flag? s
    let s := call s (.get m none)
    some ⟨size, replied, outcome, some ⟨done, cancel, ← outcome? s⟩⟩

end Trial

end Quorate.Replica
