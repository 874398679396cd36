import Quorate.Proofs.System.Later

/-! What the queue of a result holds. A new result has no callbacks, and a step adds those that it
registers. -/

set_option autoImplicit false

namespace Quorate

variable {V κ : Type}

/-- A new result has no callbacks. -/
theorem Frame.made?_queue {result : Return V} {frame : Frame V κ} {x : Result V κ}
    (made : frame.made? result = some x) : x.cell.queue = [] := by
  obtain ⟨-, fresh | ⟨state, -, settled⟩⟩ := Frame.made?_start made
  · rw [fresh]
    rfl
  · rw [settled]
    rfl

namespace Result

variable {x : Result V κ} {task : Task κ}

theorem transition_queue {state : State V} {cell : Cell V (Task κ)} {tasks : List (Task κ)}
    (same : x.cell.transition state = some (cell, tasks)) : cell.queue = [] := by
  obtain ⟨-, rfl, -⟩ := (Cell.transition_eq_some_iff _ _ _ _).mp same
  rfl

theorem complete_queue {state : State V} (member : task ∈ (x.complete state).cell.queue) :
    task ∈ x.cell.queue := by
  unfold complete at member
  split at member
  next => exact member
  next same => rw [transition_queue same] at member; cases member

theorem merged_queue {m : Merge V κ} {o : Outcome V} (member : task ∈ (x.merged m o).cell.queue) :
    task ∈ x.cell.queue := by
  unfold merged at member
  split at member
  next => exact member
  next same => rw [transition_queue same] at member; cases member

theorem commit_queue {index : Nat} {o : Outcome V}
    (member : task ∈ (x.commit index o).cell.queue) : task ∈ x.cell.queue := by
  obtain ⟨cell, kind⟩ := x
  cases kind with
  | merge m =>
    simp only [commit] at member
    split at member
    next => exact member
    next => exact member
    next => exact member
    next => exact member
    next cell' gathering tasks arrival =>
      obtain ⟨e, -, rfl, -⟩ := Gathering.arrive_failed arrival
      cases member
    next values gathering arrival =>
      split at member
      next =>
        split at member
        next => exact member
        next => exact merged_queue member
      next => exact member
  | _ => exact member

/-- A queue gets the callbacks that are registered, and no others. -/
theorem touch_queue {result : Return V} {frame : Frame V κ}
    (member : task ∈ (x.touch result frame).cell.queue) :
    task ∈ x.cell.queue ∨ ∃ r, frame = .call (.register r task) := by
  unfold touch at member
  split at member
  next => exact .inl (complete_queue member)
  next =>
    obtain ⟨cell, kind⟩ := x
    cases kind with
    | latch latch =>
      simp only [countDown] at member
      split at member
      next => exact .inl member
      next => exact .inl member
      next ack =>
        obtain ⟨-, v, rfl, -⟩ := Latch.acknowledge_last ack
        cases member
    | _ => exact .inl member
  next =>
    obtain ⟨cell, kind⟩ := x
    cases kind with
    | settable => exact .inl (complete_queue member)
    | merge m =>
      simp only [cancel] at member
      split at member
      next => exact .inl member
      next cell' tasks same =>
        rw [transition_queue (x := ⟨cell, .merge m⟩) same] at member
        cases member
    | _ => exact .inl member
  next a r task' =>
    unfold register at member
    split at member
    next => exact .inl member
    next =>
      split at member
      next => exact .inl member
      next cell same =>
        obtain ⟨-, rfl⟩ := (Cell.enqueue_eq_some_iff _ _ _).mp same
        rcases List.mem_append.mp member with member | member
        · exact .inl member
        · rw [List.mem_singleton.mp member]
          exact .inr ⟨r, rfl⟩
  next =>
    unfold claim at member
    split at member <;> exact .inl member
  next => exact .inl member
  next => exact .inl (commit_queue member)
  next =>
    obtain ⟨cell, kind⟩ := x
    unfold mergerEnded at member
    split at member
    next =>
      cases kind with
      | merge m => exact .inl (merged_queue member)
      | _ => exact .inl member
    next => exact .inl member
    next => cases kind <;> exact .inl member
  next => exact .inl member

end Result

end Quorate
