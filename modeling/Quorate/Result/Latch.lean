import Quorate.Result.Cell

/-!
A latch succeeds with a value known in advance after a number of acknowledgements.
-/

set_option autoImplicit false

namespace Quorate

structure Latch (V : Type) where
  remaining : Nat
  /-- Handed over to the state when the last acknowledgement arrives. -/
  value : Option V

namespace Latch

variable {V T : Type}

/-- A latch and its cell. One that waits for nothing has succeeded already. -/
def start (count : Nat) (value : V) : Cell V T × Latch V :=
  if count = 0 then (.settled (.succeeded value), ⟨0, none⟩) else (.fresh, ⟨count, some value⟩)

/-- What one acknowledgement does to a latch. -/
inductive Ack (V T : Type) where
  /-- The result was terminal already. -/
  | late
  /-- More are missing. -/
  | counted (latch : Latch V)
  /-- It was the last one: the callbacks to deliver. -/
  | last (cell : Cell V T) (latch : Latch V) (tasks : List T)

def acknowledge (c : Cell V T) (l : Latch V) : Ack V T :=
  if c.state.isPending then
    let remaining := l.remaining - 1
    if 0 < remaining then .counted ⟨remaining, l.value⟩
    else match l.value with
      | none => .counted ⟨remaining, none⟩
      | some v => match c.transition (.succeeded v) with
        | none => .counted ⟨remaining, none⟩
        | some (cell, tasks) => .last cell ⟨remaining, none⟩ tasks
  else .late

end Latch

end Quorate
