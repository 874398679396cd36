import Quorate.Error

/-!
The cell behind every result: a state that leaves `pending` at most once, the callbacks queued
until then, and two flags. A transition drains the queue; the callbacks taken out are delivered
afterwards, and only then are waiting readers notified.
-/

set_option autoImplicit false

namespace Quorate

/-- What a reader gets once a result is terminal. -/
abbrev Outcome (V : Type) := Except Error V

inductive State (V : Type) where
  | pending
  | succeeded (v : V)
  | failed (e : Error)
  | cancelled
  deriving DecidableEq, Repr, Inhabited

namespace State

variable {V : Type}

def isPending : State V → Bool
  | .pending => true
  | _ => false

def isCancelled : State V → Bool
  | .cancelled => true
  | _ => false

def outcome? : State V → Option (Outcome V)
  | .pending => none
  | .succeeded v => some (.ok v)
  | .failed e => some (.error e)
  | .cancelled => some (.error .cancelled)

def ofOutcome : Outcome V → State V
  | .ok v => .succeeded v
  | .error e => .failed e

theorem isPending_iff (s : State V) : s.isPending = true ↔ s = .pending := by
  cases s <;> simp [isPending]

theorem isPending_eq_false_iff (s : State V) : s.isPending = false ↔ s ≠ .pending := by
  cases s <;> simp [isPending]

@[simp] theorem isPending_ofOutcome (o : Outcome V) : (ofOutcome o).isPending = false := by
  cases o <;> rfl

@[simp] theorem outcome?_ofOutcome (o : Outcome V) : (ofOutcome o).outcome? = some o := by
  cases o <;> rfl

theorem outcome?_eq_none_iff (s : State V) : s.outcome? = none ↔ s.isPending = true := by
  cases s <;> simp [outcome?, isPending]

theorem exists_outcome {s : State V} (ended : s.isPending = false) : ∃ o, s.outcome? = some o := by
  cases s <;> first | exact ⟨_, rfl⟩ | cases ended

end State

/-- `T` is the type of the queued callbacks. -/
structure Cell (V T : Type) where
  state : State V
  queue : List T
  /-- Set by the transition, which takes the queue: from then on callbacks run at once. -/
  drained : Bool
  /-- Set when the drained callbacks have been delivered. -/
  notified : Bool

namespace Cell

variable {V T : Type}

def fresh : Cell V T := ⟨.pending, [], false, false⟩

/-- Move a pending cell to `s` and take its queue out. -/
def transition (c : Cell V T) (s : State V) : Option (Cell V T × List T) :=
  if c.state.isPending then some ({ c with state := s, queue := [], drained := true }, c.queue)
  else none

/-- Queue a callback, unless the queue was taken already. -/
def enqueue (c : Cell V T) (t : T) : Option (Cell V T) :=
  if c.drained then none else some { c with queue := c.queue ++ [t] }

def notify (c : Cell V T) : Cell V T := { c with notified := true }

/-- A cell that was terminal from the start, with nobody to tell. -/
def settled (s : State V) : Cell V T := ⟨s, [], true, true⟩

/-- The outcome a reader may take: at once if the cell was terminal when it came, otherwise once
the cell has notified. -/
def release? (c : Cell V T) (terminalOnEntry : Bool) : Option (Outcome V) :=
  if terminalOnEntry || c.notified then c.state.outcome? else none

theorem transition_eq_some_iff (c : Cell V T) (s : State V) (c' : Cell V T) (tasks : List T) :
    c.transition s = some (c', tasks) ↔
      c.state.isPending = true ∧ c' = ⟨s, [], true, c.notified⟩ ∧ tasks = c.queue := by
  by_cases h : c.state.isPending = true
  · simp only [transition, h, if_true, Option.some.injEq, Prod.mk.injEq, true_and]
    exact and_congr ⟨Eq.symm, Eq.symm⟩ ⟨Eq.symm, Eq.symm⟩
  · simp [transition, h]

theorem transition_eq_none_iff (c : Cell V T) (s : State V) :
    c.transition s = none ↔ c.state.isPending = false := by
  unfold transition
  split <;> simp_all

theorem enqueue_eq_some_iff (c : Cell V T) (t : T) (c' : Cell V T) :
    c.enqueue t = some c' ↔ c.drained = false ∧ c' = { c with queue := c.queue ++ [t] } := by
  cases h : c.drained
  · simp only [enqueue, h, Bool.false_eq_true, if_false, Option.some.injEq, true_and]
    exact ⟨Eq.symm, Eq.symm⟩
  · simp [enqueue, h]

end Cell

end Quorate
