import Quorate.Proofs.Merge.Count
import Quorate.Proofs.Merge.Members

/-! The positions that a merge has counted, through every run. A commit adds the position it is for
if it adds any, and all other steps leave the set alone, so it only grows, stays within the size and
ends with the merge. -/

set_option autoImplicit false

namespace Quorate

variable {V κ σ : Type}

/-- Taking in the outcome of a source counts its position or nothing. -/
theorem Result.completedSet?_commit {x : Result V κ} {b : BitSet} (there : x.completedSet? = some b)
    (index : Nat) (o : Outcome V) :
    (x.commit index o).completedSet? = some b ∨ ∃ b', b.insert? index = some (true, b') ∧
      (x.commit index o).completedSet? = some b' := by
  obtain ⟨cell, kind⟩ := x
  cases kind with
  | merge m =>
    cases there
    simp only [commit]
    split
    next => exact .inl rfl
    next => exact .inl rfl
    next => exact .inl rfl
    next g arrival =>
      obtain ⟨v, completed, -, inserted, -, rfl⟩ := Gathering.arrive_recorded arrival
      exact .inr ⟨completed, inserted, rfl⟩
    next cell' g tasks arrival =>
      obtain ⟨e, -, -, rfl, -⟩ := Gathering.arrive_failed arrival
      exact .inl rfl
    next values g arrival =>
      have pending := Gathering.pending_of_arrive arrival (by simp)
      obtain ⟨v, completed, -, inserted, -, -, rfl⟩ := Gathering.arrive_complete arrival
      refine .inr ⟨completed, inserted, ?_⟩
      split
      next =>
        split
        next => rfl
        next =>
          simp only [merged, Cell.transition, pending, if_true]
          rfl
      next => rfl
  | _ => exact .inl there

/-- A step counts the position that a source speaks for, or nothing. -/
theorem Result.completedSet?_grows {x : Result V κ} {b : BitSet} (there : x.completedSet? = some b)
    (result : Return V) (frame : Frame V κ) :
    (x.touch result frame).completedSet? = some b ∨ ∃ merge index b',
      frame = .commit merge index ∧ b.insert? index = some (true, b') ∧
        (x.touch result frame).completedSet? = some b' := by
  by_cases commits : ∃ merge index, frame = .commit merge index
  · obtain ⟨merge, index, rfl⟩ := commits
    -- a source speaks only with an outcome
    cases result with
    | error p => exact .inl there
    | ok a =>
      cases a with
      | outcome o =>
        rcases completedSet?_commit there index o with same | ⟨b', inserted, same⟩
        · exact .inl same
        · exact .inr ⟨merge, index, b', rfl, inserted, same⟩
      | _ => exact .inl there
  · have silent : ∀ merge index, frame ≠ .commit merge index :=
      fun merge index same => commits ⟨merge, index, same⟩
    exact .inl ((completedSet?_touch (.inr silent) result).trans there)

/-- The merge `m` has counted its sources at the positions `members`, and no others. -/
def Store.Counts (s : Store V κ σ) (m : ResultId) (size : Nat) (members : Finset Nat) : Prop :=
  ∃ x b, s.results[m]? = some x ∧ x.completedSet? = some b ∧ b.Refines size members

theorem Store.Counts.refines {s : Store V κ σ} {m : ResultId} {size : Nat} {members : Finset Nat}
    (counts : s.Counts m size members) {cell : Cell V (Task κ)} {merge : Merge V κ}
    (there : s.results[m]? = some ⟨cell, .merge merge⟩) :
    merge.gathering.completed.Refines size members := by
  obtain ⟨x, b, there', same, refines⟩ := counts
  cases there.symm.trans there'
  cases same
  exact refines

section

variable {client : Client V κ σ} {s s₁ : System V κ σ} {m : ResultId} {size t : Nat}
  {members : Finset Nat} {μ : Moment V κ σ} {e : Effect V κ σ} {calls : List (Call V κ)}
  {h : List (Moment V κ σ)} {x : Result V κ}

/-- A step adds to the positions that are counted. -/
theorem System.counts_step (sound : s.Sound) (found : s.moment? t = some μ)
    (yields : μ.Yields client e calls) (merge : s.store.IsMerge m size)
    (counts : s.store.Counts m size members) :
    ∃ members', members ⊆ members' ∧ (s.after t μ.below e calls).store.Counts m size members' := by
  obtain ⟨x, b, there, same, refines⟩ := counts
  have store := (moment?_eq_some found).1
  have after := yields.touches.there m x (by rw [store]; exact there)
  have here := (sound.frames.moment found).1
  split at after
  next about =>
    rcases Result.completedSet?_grows same μ.result μ.frame with
      same' | ⟨merge', index, b', frame, inserted, same'⟩
    · exact ⟨members, subset_rfl, _, b, after, same', refines⟩
    · rw [frame] at here about
      cases about
      -- the frame knows that its position is below the size of the merge
      obtain ⟨size', ⟨cell, record, found', length⟩, bound⟩ := here
      obtain ⟨cell', record', found'', length'⟩ := merge
      cases found'.symm.trans found''
      rw [← length, length'] at bound
      obtain ⟨b'', inserted', refines'⟩ := refines.insert? bound
      obtain ⟨-, rfl⟩ := Prod.mk.inj (Option.some.inj (inserted.symm.trans inserted'))
      exact ⟨_, Finset.subset_insert index members, _, b', after, same', refines'⟩
  next => exact ⟨members, subset_rfl, x, b, after, same, refines⟩

/-- In every run the positions that a merge has counted grow, and stay within its size. -/
theorem Run.counts (run : Run client Call.Fair s h s₁) (sound : s.Sound)
    (merge : s.store.IsMerge m size) (counts : s.store.Counts m size members) :
    ∃ members', members ⊆ members' ∧ s₁.store.Counts m size members' := by
  induction run with
  | start => exact ⟨members, subset_rfl, counts⟩
  | step run found step _ ih =>
    obtain ⟨μ, e, calls, moment, yields, rfl⟩ := System.step_yields step
    obtain ⟨members₁, grown, counts₁⟩ := ih
    obtain ⟨members₂, grown', counts₂⟩ := System.counts_step (run.sound sound) moment yields
      (run.store_later.isMerge merge) counts₁
    exact ⟨members₂, grown.trans grown', counts₂⟩
  | begin c _ _ ih => exact ih
  | pass now _ _ ih => exact ih

/-- A merge that has ended counts no further. -/
theorem Run.completedSet?_ended (run : Run client Call.Fair s h s₁)
    (there : s.store.results[m]? = some x) (terminal : x.cell.state.isPending = false) :
    ∃ x', s₁.store.results[m]? = some x' ∧ x'.completedSet? = x.completedSet? := by
  induction run with
  | start => exact ⟨x, there, rfl⟩
  | step run found step _ ih =>
    obtain ⟨μ, e, calls, moment, yields, rfl⟩ := System.step_yields step
    obtain ⟨x₁, there₁, same⟩ := ih
    obtain ⟨x₂, there₂, later⟩ := run.store_later m x there
    cases there₁.symm.trans there₂
    have store := (System.moment?_eq_some moment).1
    have after := yields.touches.there m x₁ (by rw [store]; exact there₁)
    have ended : x₁.cell.state.isPending = false := by rw [later.state terminal, terminal]
    refine ⟨_, after, ?_⟩
    split
    next => rw [Result.completedSet?_touch (.inl ended), same]
    next => exact same
  | begin c _ _ ih => exact ih
  | pass now _ _ ih => exact ih

/-- A merge that has just been made has counted nothing. -/
theorem Built.counts {merger : Merger V κ} {sources : List ResultId}
    (built : Built client Call.Fair merger sources m s) : s.store.Counts m sources.length ∅ := by
  obtain ⟨run, found, answered, frame, step, rfl⟩ := built
  obtain ⟨μ, e, calls, moment, yields, rfl⟩ := System.step_yields step
  cases found.symm.trans moment
  have touches := yields.touches
  rw [(System.moment?_eq_some found).1, answered, frame] at touches
  exact ⟨_, _, touches.made, rfl, BitSet.refines_empty sources.length⟩

end

end Quorate
