import Quorate.Result.Store

/-! What a merge promises, without callbacks, locks or threads. It gathers one value from each
source; the first failure or cancel decides it, and so does the last value, through the merger. -/

set_option autoImplicit false

namespace Quorate

variable {V κ : Type}

/-- Where a merge stands. -/
inductive Progress (V : Type) where
  /-- There are no sources; the merger runs while the merge is constructed. -/
  | opening
  /-- The values that have arrived, by position. -/
  | gathering (values : List (Option V))
  /-- The values are with the merger, and nothing else reaches the merge. -/
  | merging (values : List V)
  /-- The merger panicked. -/
  | broken
  | decided (state : State V)

/-- What reaches a merge. -/
inductive Event (V : Type) where
  | arrived (index : Nat) (o : Outcome V)
  | cancelled
  /-- The merger answered. -/
  | answered (o : Outcome V)
  | panicked

namespace Progress

/-- A merge without sources has nothing to wait for. -/
def start (size : Nat) : Progress V :=
  if size = 0 then .opening else .gathering (List.replicate size none)

/-- Hand the values to the merger. A plain merger ends at once. -/
def handed (merger : Merger V κ) (values : List V) : Progress V :=
  match merger with
  | .plain f =>
    match f values with
    | .ok o => .decided (.ofOutcome o)
    | .error _ => .broken
  | .code _ => .merging values

/-- The merger gets the values once there is one for every position. -/
def gathered (merger : Merger V κ) (values : List (Option V)) : Progress V :=
  if values.all Option.isSome then handed merger (values.filterMap id) else .gathering values

def next (merger : Merger V κ) : Progress V → Event V → Progress V
  | .gathering values, .arrived index (.ok v) =>
    match values[index]? with
    | some none => gathered merger (values.set index (some v))
    | _ => .gathering values
  | .gathering _, .arrived _ (.error e) | .broken, .arrived _ (.error e) => .decided (.failed e)
  | .gathering _, .cancelled | .opening, .cancelled | .broken, .cancelled => .decided .cancelled
  | .merging _, .answered o | .opening, .answered o => .decided (.ofOutcome o)
  | .merging _, .panicked => .broken
  | p, _ => p

/-- Where a merge stands after some events. -/
def run (merger : Merger V κ) (p : Progress V) (events : List (Event V)) : Progress V :=
  events.foldl (next merger) p

/-- The state that a reader sees. -/
def state : Progress V → State V
  | .decided state => state
  | _ => .pending

variable {merger : Merger V κ}

@[simp] theorem run_nil (p : Progress V) : run merger p [] = p := rfl

@[simp] theorem run_cons (p : Progress V) (event : Event V) (events : List (Event V)) :
    run merger p (event :: events) = run merger (next merger p event) events := rfl

theorem run_append (p : Progress V) (events events' : List (Event V)) :
    run merger p (events ++ events') = run merger (run merger p events) events' :=
  List.foldl_append

/-- A decision is final. -/
@[simp] theorem run_decided (state : State V) (events : List (Event V)) :
    run merger (.decided state) events = .decided state := by
  induction events with
  | nil => rfl
  | cons event events ih => cases event <;> exact ih

end Progress

end Quorate
