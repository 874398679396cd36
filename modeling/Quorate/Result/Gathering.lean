import Quorate.Result.BitSet
import Quorate.Result.Cell

/-!
What a merge has gathered so far: which sources gave a value, the values by position, and the
sources themselves, which are released when the merge no longer needs them.
-/

set_option autoImplicit false

namespace Quorate

/-- Where a result stands in its store. -/
abbrev ResultId := Nat

structure Gathering (V : Type) where
  completed : BitSet
  slots : List (Option V)
  sources : List ResultId

namespace Gathering

variable {V T : Type}

def start (sources : List ResultId) : Gathering V :=
  ⟨.empty sources.length, List.replicate sources.length none, sources⟩

/-- Let go of the sources. -/
def release (g : Gathering V) : Gathering V := { g with sources := [] }

/-- Take the values out, in order of position, and let go of the sources. -/
def take (g : Gathering V) : List V × Gathering V :=
  (g.slots.filterMap id, { g with slots := g.slots.map fun _ => none, sources := [] })

/-- What the outcome of one source does to a merge. -/
inductive Arrival (V T : Type) where
  /-- The merge was terminal already. -/
  | late
  /-- There is no such position. -/
  | outside
  /-- The position gave a value before. -/
  | twice
  /-- More values are missing. -/
  | recorded (g : Gathering V)
  /-- It was the last value: the values to merge. -/
  | complete (values : List V) (g : Gathering V)
  /-- The source failed, and the merge with it: the callbacks to deliver. -/
  | failed (cell : Cell V T) (g : Gathering V) (tasks : List T)

/-- Take in the outcome of the source at `index`. -/
def arrive (c : Cell V T) (g : Gathering V) (size index : Nat) (o : Outcome V) : Arrival V T :=
  match o with
  | .error e =>
    match c.transition (.failed e) with
    | none => .late
    | some (cell, tasks) => .failed cell g.release tasks
  | .ok v =>
    if c.state.isPending then
      match g.completed.insert? index with
      | none => .outside
      | some (false, _) => .twice
      | some (true, completed) =>
        let g := { g with completed, slots := g.slots.set index (some v) }
        if completed.cardinality = size then
          let (values, g) := g.take
          .complete values g
        else .recorded g
    else .late

end Gathering

end Quorate
