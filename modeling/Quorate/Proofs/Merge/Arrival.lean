import Quorate.Result.Gathering

/-! What the outcome of a source does to a merge, by the cases that can arise. -/

set_option autoImplicit false

namespace Quorate.Gathering

variable {V T : Type} {c : Cell V T} {g : Gathering V} {size index : Nat} {o : Outcome V}

theorem arrive_late (terminal : c.state.isPending = false) :
    arrive c g size index o = .late := by
  cases o with
  | error e => simp [arrive, (Cell.transition_eq_none_iff c (.failed e)).mpr terminal]
  | ok v => simp [arrive, terminal]

theorem arrive_error (pending : c.state.isPending = true) (e : Error) :
    arrive c g size index (.error e) =
      .failed ⟨.failed e, [], true, c.notified⟩ g.release c.queue := by
  simp [arrive, Cell.transition, pending]

/-- The gathering with one more value. -/
def record (g : Gathering V) (completed : BitSet) (index : Nat) (v : V) : Gathering V :=
  { g with completed, slots := g.slots.set index (some v) }

theorem arrive_ok (pending : c.state.isPending = true) (v : V) :
    arrive c g size index (.ok v) =
      match g.completed.insert? index with
      | none => .outside
      | some (false, _) => .twice
      | some (true, completed) =>
        if completed.cardinality = size then
          .complete (g.record completed index v).take.1 (g.record completed index v).take.2
        else .recorded (g.record completed index v) := by
  simp only [arrive, pending, if_true]
  cases g.completed.insert? index with
  | none => rfl
  | some added =>
    obtain ⟨new, completed⟩ := added
    cases new <;> rfl

/-- An arrival that changes the merge finds it pending. -/
theorem pending_of_arrive {a : Arrival V T} (arrival : arrive c g size index o = a)
    (change : a ≠ .late) : c.state.isPending = true := by
  cases pending : c.state.isPending with
  | true => rfl
  | false => exact absurd (arrival.symm.trans (arrive_late pending)) change

theorem arrive_recorded {g' : Gathering V} (arrival : arrive c g size index o = .recorded g') :
    ∃ v completed, o = .ok v ∧ g.completed.insert? index = some (true, completed) ∧
      completed.cardinality ≠ size ∧ g' = g.record completed index v := by
  have pending : c.state.isPending = true := pending_of_arrive arrival (by simp)
  cases o with
  | error e => simp [arrive_error pending] at arrival
  | ok v =>
    rw [arrive_ok pending] at arrival
    split at arrival
    next => cases arrival
    next => cases arrival
    next completed inserted =>
      split at arrival
      next => cases arrival
      next missing => cases arrival; exact ⟨v, completed, rfl, inserted, missing, rfl⟩

theorem arrive_complete {values : List V} {g' : Gathering V}
    (arrival : arrive c g size index o = .complete values g') :
    ∃ v completed, o = .ok v ∧ g.completed.insert? index = some (true, completed) ∧
      completed.cardinality = size ∧ values = (g.record completed index v).take.1 ∧
      g' = (g.record completed index v).take.2 := by
  have pending : c.state.isPending = true := pending_of_arrive arrival (by simp)
  cases o with
  | error e => simp [arrive_error pending] at arrival
  | ok v =>
    rw [arrive_ok pending] at arrival
    split at arrival
    next => cases arrival
    next => cases arrival
    next completed inserted =>
      split at arrival
      next full => cases arrival; exact ⟨v, completed, rfl, inserted, full, rfl, rfl⟩
      next => cases arrival

theorem arrive_failed {cell : Cell V T} {g' : Gathering V} {tasks : List T}
    (arrival : arrive c g size index o = .failed cell g' tasks) :
    ∃ e, o = .error e ∧ cell = ⟨.failed e, [], true, c.notified⟩ ∧ g' = g.release ∧
      tasks = c.queue := by
  have pending : c.state.isPending = true := pending_of_arrive arrival (by simp)
  cases o with
  | error e =>
    rw [arrive_error pending] at arrival
    cases arrival
    exact ⟨e, rfl, rfl, rfl, rfl⟩
  | ok v =>
    rw [arrive_ok pending] at arrival
    split at arrival
    next => cases arrival
    next => cases arrival
    next => split at arrival <;> cases arrival

end Quorate.Gathering
