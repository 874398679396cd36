import Quorate.Result.Cell

/-!
Faults of a producer. A fault that is active takes the completion of a result over from the
producer, and completes it in its own way or never.
-/

set_option autoImplicit false

namespace Quorate.Replica

/-- What a faulty producer does instead of delivering its value. -/
inductive Misbehaviour where
  | fail
  | cancel
  /-- Never complete. -/
  | hang
  deriving DecidableEq, Repr, Inhabited

structure Fault where
  active : Bool
  misbehaviour : Misbehaviour
  deriving DecidableEq, Repr, Inhabited

namespace Fault

/-- The producer delivers its value. -/
def never : Fault := ⟨false, .fail⟩

/-- Whether a replica under this fault gives no reply at all. -/
def isSilent (f : Fault) : Bool := f.active && f.misbehaviour != .fail

def mocked (origin : String) : Error := .io ("Mocked error on " ++ origin)

/-- The state that the fault moves a result to, if it moves it. -/
def state? {V : Type} (f : Fault) (origin : String) : Option (State V) :=
  if f.active then
    match f.misbehaviour with
    | .fail => some (.failed (mocked origin))
    | .cancel => some .cancelled
    | .hang => none
  else none

end Fault

end Quorate.Replica
