import Quorate.Replica.Fault
import Quorate.Result.Store
import Quorate.Vote.Code

/-!
Simulated replicas. A replica answers a read with its reply, after a delay, unless a fault takes
over. A random delay is a whole number of milliseconds drawn below a limit.
-/

set_option autoImplicit false

namespace Quorate

structure Replica (V : Type) where
  /-- None if the replica has no value. -/
  reply : Option V
  delay : Duration
  fault : Replica.Fault
  deriving Repr

namespace Replica

variable {V : Type}

/-- How many delays there are to draw from, for random delays below `longest`. The count of
milliseconds is raised to one and then cut to 64 bits. -/
def choices (longest : Duration) : Nat := max longest.millis 1 % Nat.pow 2 64

/-- The delay for a draw. There must be a choice, and a draw beyond the last is the last. -/
def drawDelay (longest : Duration) (draw : Nat) : Except Panic Duration :=
  if choices longest = 0 then .error "cannot sample empty range"
  else .ok (.ofMillis (min draw (choices longest - 1)))

def withRandomDelay (r : Replica V) (longest : Duration) (draw : Nat) : Except Panic (Replica V) :=
  (drawDelay longest draw).map fun delay => { r with delay }

/-- The state that the replica moves its result to, if it does. -/
def state? (r : Replica V) (origin : String) : Option (State (Option V)) :=
  if r.fault.active then r.fault.state? origin else some (.succeeded r.reply)

end Replica

/-- The bytes of a text, as values that replicas reply with. -/
structure Payload where
  text : String
  deriving DecidableEq, Repr, Inhabited

instance : Raw Payload := ⟨fun p => Raw.bytes p.text⟩

instance : Hashed Payload := ⟨fun p => Hashed.feed (Raw.bytes p.text)⟩

end Quorate
