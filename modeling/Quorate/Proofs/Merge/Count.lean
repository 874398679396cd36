import Quorate.Proofs.Merge.OneShot

/-! How many sources a merge has counted. While it gathers, it counts the values that have arrived;
once its merger was called, it has counted all of its sources, and goes on to say so. -/

set_option autoImplicit false

namespace Quorate

variable {V κ σ : Type}

namespace Result

/-- The positions whose sources gave a value, for a merge. -/
def completedSet? (x : Result V κ) : Option BitSet :=
  match x.kind with
  | .merge m => some m.gathering.completed
  | _ => none

theorem completed?_eq (x : Result V κ) : x.completed? = x.completedSet?.map BitSet.cardinality := by
  obtain ⟨cell, kind⟩ := x
  cases kind <;> rfl

theorem completedSet?_complete (x : Result V κ) (state : State V) :
    (x.complete state).completedSet? = x.completedSet? := by
  unfold complete
  split <;> rfl

theorem completedSet?_merged {cell : Cell V (Task κ)} {kind : Kind V κ} {m : Merge V κ}
    (o : Outcome V) (same : (Result.mk cell kind).completedSet? = some m.gathering.completed) :
    ((Result.mk cell kind).merged m o).completedSet? = some m.gathering.completed := by
  unfold merged
  split
  next => exact same
  next => rfl

/-- A merge counts only what its sources tell it, and no further once it has ended. -/
theorem completedSet?_touch {x : Result V κ} {frame : Frame V κ}
    (silent : x.cell.state.isPending = false ∨ ∀ merge index, frame ≠ .commit merge index)
    (result : Return V) : (x.touch result frame).completedSet? = x.completedSet? := by
  obtain ⟨cell, kind⟩ := x
  unfold touch
  split
  next => exact completedSet?_complete _ _
  next =>
    cases kind with
    | latch latch => simp only [countDown]; split <;> rfl
    | _ => rfl
  next =>
    cases kind with
    | settable => exact completedSet?_complete _ _
    | merge m => simp only [cancel]; split <;> rfl
    | _ => rfl
  next =>
    unfold register
    split
    next => rfl
    next => split <;> rfl
  next =>
    unfold claim
    cases kind <;> rfl
  next => rfl
  next index =>
    cases kind with
    | merge m =>
      rcases silent with ended | other
      · simp only [commit, Gathering.arrive_late ended]
      · exact absurd rfl (other _ _)
    | _ => rfl
  next =>
    unfold mergerEnded
    split
    next o =>
      cases kind with
      | merge m => exact completedSet?_merged o rfl
      | _ => rfl
    next => rfl
    next => cases kind <;> rfl
  next => rfl

theorem completed?_touch {x : Result V κ} {frame : Frame V κ}
    (silent : x.cell.state.isPending = false ∨ ∀ merge index, frame ≠ .commit merge index)
    (result : Return V) : (x.touch result frame).completed? = x.completed? := by
  rw [completed?_eq, completed?_eq, completedSet?_touch silent]

end Result

section

variable {client : Client V κ σ} {s s₁ : System V κ σ} {m : ResultId} {sources : List ResultId}
  {merge : List V → Outcome V} {p : Progress V} {μ : Moment V κ σ} {h : List (Moment V κ σ)}
  {merged : List (List V)}

/-- A merge that gathers has counted the values that have arrived. -/
theorem Progress.Shows.counts {merger : Merger V κ} {values : List (Option V)} {x : Result V κ}
    (shows : (Progress.gathering values).Shows merger sources x) :
    x.completed? = some ((values.map Option.isSome).count true) := by
  cases shows with
  | gathering _ holds => exact congrArg some holds.cardinality

/-- A merger that was called has decided the merge. -/
theorem Progress.Verdict.called {size : Nat} {events : List (Event V)}
    (verdict : Progress.Verdict (.plain fun values => .ok (merge values) : Merger V κ) size events p
      merged) (called : merged ≠ []) : ∃ values, p = .decided (.ofOutcome (merge values)) := by
  cases verdict with
  | «open» => exact absurd rfl called
  | ended => exact absurd rfl called
  | @full _ _ _ _ _ values => exact ⟨values, by simp only [handed, run_decided]⟩

/-- A merge has counted all of its sources when it calls its merger. -/
theorem Moment.merged?_counts {values : List V} (calls : μ.merged? m = some values)
    {x : Result V κ} (there : μ.store.results[m]? = some x)
    (shows : p.Shows (.plain fun values => .ok (merge values)) sources x) :
    μ.frame.subject? = some m ∧
      (x.touch μ.result μ.frame).completed? = some sources.length := by
  obtain ⟨cell, gathering, lock, rfl⟩ := shows.isMerge
  unfold merged? at calls
  split at calls
  next o r index cell' record answered frame found =>
    cases there.symm.trans found
    split at calls
    next same =>
      subst same
      split at calls
      next values' gathering' arrival =>
        have pending : cell.state.isPending = true :=
          Gathering.pending_of_arrive arrival (by simp)
        obtain ⟨v, completed, -, -, full, -, rfl⟩ := Gathering.arrive_complete arrival
        rw [answered, frame]
        refine ⟨rfl, ?_⟩
        simp only [Result.touch, Result.commit, arrival, Result.merged, Cell.transition, pending,
          if_true]
        exact congrArg some full
      next => cases calls
    next => cases calls
  next => cases calls

/-- A merge whose merger was called has counted all of its sources. -/
theorem Run.counted (run : Run client Call.Fair s h s₁) (some : sources ≠ []) (sound : s.Sound)
    (orderly : s.Orderly)
    (shows : s.store.Shows m (.plain fun values => .ok (merge values)) sources
      (.start sources.length))
    (called : h.filterMap (Moment.merged? m) ≠ []) {x : Result V κ}
    (there : s₁.store.results[m]? = Option.some x) :
    x.completed? = Option.some sources.length := by
  induction run generalizing x with
  | start => exact absurd rfl called
  | @step h s₁ s₂ t μ run found step fair ih =>
    obtain ⟨μ', e, calls, moment, yields, rfl⟩ := System.step_yields step
    cases found.symm.trans moment
    obtain ⟨before, there', shows'⟩ := run.shows sound orderly shows
    have store := (System.moment?_eq_some found).1
    have touched := yields.touches.there m before (by rw [store]; exact there')
    cases there.symm.trans touched
    -- the step calls the merger, or it was called before and nothing is counted since
    cases calls : μ.merged? m with
    | some values =>
      obtain ⟨about, counts⟩ := Moment.merged?_counts calls (by rw [store]; exact there') shows'
      rw [if_pos about]
      exact counts
    | none =>
      rw [filterMap_concat, calls, Option.toList_none, List.append_nil] at called
      have counts := ih called there'
      obtain ⟨values, decided⟩ := (run.verdict some sound orderly shows).called called
      have ended : before.cell.state.isPending = false := by
        rw [shows'.state, decided]
        exact State.isPending_ofOutcome _
      split
      next => rw [Result.completed?_touch (.inl ended), counts]
      next => exact counts
  | begin c _ _ ih => exact ih called there
  | pass now _ _ ih => exact ih called there

end

end Quorate
