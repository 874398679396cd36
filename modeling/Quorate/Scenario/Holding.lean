import Quorate.Scenario.Bench

/-!
Which results of a scenario are still there. A result is held from outside by its names and by what
reads it, and by other results: a merge holds its sources, and a result holds the merges that it is
to call back. A result goes when all its holders are gone, and a merge that goes lets go of its
sources. Results that hold one another stay for ever.
-/

set_option autoImplicit false

namespace Quorate.Scenario.Stage

/-- The merge that a callback calls back. -/
def mergeOf? (t : Task Code) : Option ResultId :=
  match t.callback with
  | .observe merge _ => some merge
  | _ => none

/-- What is held by a result. -/
def heldBy (s : Stage) (r : ResultId) : List ResultId :=
  match s.results[r]? with
  | none => []
  | some x =>
    let sources := match x.kind with
      | .merge m => m.gathering.sources
      | _ => []
    let stored := match s.client.stubs.lookup r with
      | some stub => stub.stored
      | none => []
    sources ++ (x.cell.queue ++ stored).filterMap mergeOf?

/-- What is held from outside. -/
def heldOutside (s : Stage) : List ResultId :=
  (s.client.names.map Prod.snd ++ s.client.readings).map Handle.result

/-- The results that have a holder outside or among the results that are marked. -/
def withHolder (s : Stage) (marked : Array Bool) : Array Bool :=
  let holders := (List.range s.results.length).filter fun r => marked.getD r false
  (s.heldOutside ++ holders.flatMap s.heldBy).foldl (fun marks r => marks.setIfInBounds r true)
    (Array.replicate s.results.length false)

/-- Drop the marks of results without a holder, until every marked one has a holder. -/
def settle (s : Stage) : Nat → Array Bool → Array Bool
  | 0, marked => marked
  | fuel + 1, marked =>
    let kept := s.withHolder marked
    if kept == marked then marked else s.settle fuel kept

/-- A mark for every result that is still there. Each round but the last drops a mark. -/
def present (s : Stage) : Array Bool :=
  s.settle (s.results.length + 1) (Array.replicate s.results.length true)

/-- Let the merges that are gone let go of their sources. -/
def releaseGone (s : Stage) : Stage :=
  let present := s.present
  let release (r : ResultId) (x : Result Value Code) : Result Value Code :=
    match x.kind with
    | .merge m =>
      if present.getD r false then x
      else { x with kind := .merge { m with gathering := m.gathering.release } }
    | _ => x
  { s with results := s.results.mapIdx release }

/-- How many references there are to a handle besides its name: those of the pending merges that
have it as a source, and those of its readers. -/
def references (s : Stage) (tag : Nat) : Nat :=
  let merges := s.client.merges.map fun (merge, tags) =>
    match s.results[merge]? with
    | some ⟨_, .merge m⟩ => if m.gathering.sources.isEmpty then 0 else tags.count tag
    | _ => 0
  merges.foldl (· + ·) 0 + s.client.readings.countP fun handle => handle.tag = tag

end Quorate.Scenario.Stage
