import Quorate.Proofs.System.Completion

/-! The parts of a cell agree in every state of a run. Who registers looks at one part, who
completes at another and who waits at a third; a callback or a reader would be lost if they told
different stories, also while a panic goes through the call that moves them. -/

set_option autoImplicit false

namespace Quorate

variable {V κ σ : Type}

/-- The parts of a cell tell one story. -/
structure Cell.Consistent {T : Type} (cell : Cell V T) : Prop where
  /-- The callbacks are taken out exactly where the state is terminal. -/
  drained : cell.drained = true ↔ cell.state.isPending = false
  /-- None of them is left behind, and none comes after. -/
  empty : cell.drained = true → cell.queue = []
  /-- Readers are told after that. -/
  notified : cell.notified = true → cell.drained = true

theorem Result.Orderly.consistent {x : Result V κ} {merging delivering : Nat}
    (orderly : x.Orderly merging delivering) : x.cell.Consistent := by
  cases state : x.cell.state.isPending with
  | true =>
    obtain ⟨undrained, untold, -⟩ := orderly.waiting state
    exact ⟨by simp [undrained, state], by simp [undrained], by simp [untold]⟩
  | false =>
    obtain ⟨drained, empty, -⟩ := orderly.ended state
    exact ⟨by simp [drained, state], fun _ => empty, fun _ => drained⟩

/-- A call that can end `r` is in progress: it has taken its first step, and its thread has not come
back to the frames below it. -/
inductive Completing (r : ResultId) (h : List (Moment V κ σ)) (s : System V κ σ) : Prop where
  | intro {before later : List (Moment V κ σ)} {μ : Moment V κ σ} {a : Answer V} {c : Call V κ}
      {thread : Thread V κ} :
      h = before ++ μ :: later → μ.result = .ok a → μ.frame = .call c → c.Ends r →
      (∀ μ' ∈ later, μ'.thread = μ.thread → μ.below.length ≤ μ'.below.length) →
      s.threads[μ.thread]? = some thread → μ.below.length < thread.frames.length →
      Completing r h s

/-- Only a call can end a result. -/
theorem Frame.Ending.exists_call {frame : Frame V κ} {r : ResultId} (ending : frame.Ending r) :
    ∃ c, frame = .call c ∧ c.Ends r := by
  cases frame with
  | call c => exact ⟨c, rfl, ending⟩
  | _ => exact ending.elim

/-- No call is in progress once all threads have ended. -/
theorem System.Quiet.not_completing {s : System V κ σ} (quiet : s.Quiet) (r : ResultId)
    (h : List (Moment V κ σ)) : ¬ Completing r h s := by
  rintro ⟨-, -, -, -, -, there, above⟩
  rw [quiet _ (List.mem_of_getElem? there)] at above
  exact absurd above (Nat.not_lt_zero _)

section

variable {client : Client V κ σ} {s s₁ : System V κ σ} {h : List (Moment V κ σ)} {r : ResultId}
  {x : Result V κ}

/-- As long as the readers are not told, the thread that delivers stays above the frames `base`. -/
theorem Run.told_or_above {queue : List (Task κ)} {reply : Answer V} {t : Nat}
    {base : List (Frame V κ)} (run : Run client Call.Fair s h s₁) (sound : s.Sound)
    (orderly : s.Orderly)
    (start : s.threads[t]? = some ⟨.ok .unit, .deliver r queue none reply :: base⟩) :
    s₁.store.Told r ∨ (∀ μ ∈ h, μ.thread = t → base.length ≤ μ.below.length) ∧
      ∃ thread, s₁.threads[t]? = some thread ∧ base.length < thread.frames.length := by
  -- a thread that did nothing below is still above, or has told the readers
  have stands {h : List (Moment V κ σ)} {s₁ : System V κ σ} (run : Run client Call.Fair s h s₁)
      (inside : ∀ μ ∈ h, μ.thread = t → base.length ≤ μ.below.length) :
      s₁.store.Told r ∨ ∃ thread, s₁.threads[t]? = some thread ∧
        base.length < thread.frames.length := by
    obtain ⟨⟨thread, there, delivery⟩, -⟩ := run.delivering sound orderly start inside
    rcases delivery.working with ⟨above, -⟩ | ⟨-, told, -⟩
    · exact .inr ⟨thread, there, above⟩
    · exact .inl told
  have moves : s₁.store.Told r ∨ ∀ μ ∈ h, μ.thread = t → base.length ≤ μ.below.length := by
    induction run with
    | start => exact .inr (by simp)
    | @step h s₁ s₂ t' μ run found step obeyed ih =>
      have later := (Run.step .start found step obeyed).store_later
      rcases ih with told | inside
      · exact .inl (told.later later)
      rcases stands run inside with told | ⟨thread, there, above⟩
      · exact .inl (told.later later)
      refine .inr fun μ' member same => ?_
      rcases List.mem_append.mp member with member | member
      · exact inside μ' member same
      · cases List.mem_singleton.mp member
        obtain ⟨-, rfl, selected⟩ := System.moment?_eq_some found
        rw [same] at selected
        cases there.symm.trans selected
        exact Nat.lt_succ_iff.mp above
    | begin c _ _ ih => exact ih
    | pass now _ past ih => exact ih.imp_left fun told => told.later (Store.later_of_results rfl)
  rcases moves with told | inside
  · exact .inl told
  · exact (stands run inside).imp_right fun above => ⟨inside, above⟩

/-- A result that a call has ended has told its readers, or the call is still in progress. -/
theorem Run.told_or_completing {memory : σ}
    (run : Run client Call.Fair ⟨.empty memory, []⟩ h s₁)
    (there : s₁.store.results[r]? = some x) (direct : x.Direct) (settles : settled r h ≠ []) :
    s₁.store.Told r ∨ Completing r h s₁ := by
  obtain ⟨state, ended⟩ := List.exists_mem_of_ne_nil _ settles
  obtain ⟨μ, member, took⟩ := List.mem_filterMap.mp ended
  have ends : μ.settled? r ≠ none := by simp [took]
  -- the run up to the step that ended the result, and from there on
  obtain ⟨before, later, rfl⟩ := List.append_of_mem member
  obtain ⟨s₂, t, s₃, first, found, step, rest⟩ := run.split
  obtain ⟨μ', e, calls, moment, yields, rfl⟩ := System.step_yields step
  cases found.symm.trans moment
  have sound := first.sound (System.sound_empty memory)
  have orderly := first.orderly (System.sound_empty memory) (System.orderly_empty memory)
  obtain ⟨store, thread, -⟩ := System.moment?_eq_some found
  -- a result that is direct now was so when it ended
  obtain ⟨x₂, there₂⟩ := Option.ne_none_iff_exists'.mp fun missing =>
    ends (Moment.settled?_missing missing)
  obtain ⟨x₃, there₃, later₃⟩ := yields.touches.later r x₂ there₂
  obtain ⟨x₄, there₄, later₄⟩ := rest.store_later r x₃ there₃
  cases there.symm.trans there₄
  have called : μ.frame.Sound μ.store := store ▸ (sound.frames.moment found).1
  obtain ⟨⟨a, result⟩, ending, reply, answered, frames⟩ :=
    yields.settled there₂ (later₃.direct (later₄.direct direct)) called ends
  obtain ⟨c, frame, ending⟩ := ending.exists_call
  have start := System.after_self found e calls
  rw [answered, frames] at start
  have silent : ∀ c, μ.call? client = some c → c.Fair μ.store := by simp [Moment.call?, frame]
  rcases rest.told_or_above (sound.step found silent yields) (orderly.step sound found yields)
    start with told | ⟨inside, thread', there', above⟩
  · exact .inl told
  · right
    rw [← thread] at inside there'
    exact .intro rfl result frame ending inside there' above

/-- What is true of the cell of a result in a state of a run. -/
structure CellInvariant (client : Client V κ σ) (r : ResultId) (h : List (Moment V κ σ))
    (s : System V κ σ) (x : Result V κ) : Prop where
  consistent : x.cell.Consistent
  /-- Once it is terminal, its state and its empty queue stay. -/
  frozen : x.cell.state.isPending = false → ∀ h' s', Run client Call.Fair s h' s' →
    ∃ x', s'.store.results[r]? = some x' ∧ x'.cell.state = x.cell.state ∧ x'.cell.queue = []
  /-- The readers of a settable result or a latch that is terminal are told, unless a call that can
  end it has not come back. -/
  told : x.Direct → x.cell.state.isPending = false → ¬ Completing r h s → x.cell.notified = true

/-- The cell of every result is consistent in every state that calls, callbacks, mergers and their
panics can lead to. -/
theorem cell_invariant {memory : σ} (run : Run client Call.Fair ⟨.empty memory, []⟩ h s)
    (there : s.store.results[r]? = some x) : CellInvariant client r h s x := by
  have sound := run.sound (System.sound_empty memory)
  have orderly := run.orderly (System.sound_empty memory) (System.orderly_empty memory)
  refine ⟨(orderly.there r x there).consistent, ?_, ?_⟩
  · intro terminal h' s' rest
    obtain ⟨x', there', later⟩ := rest.store_later r x there
    have state := later.state terminal
    have ended := ((rest.orderly sound orderly).there r x' there').ended (by rw [state, terminal])
    exact ⟨x', there', state, ended.2.1⟩
  · -- a result that was born terminal has nobody to tell
    intro direct terminal idle
    have told : s.store.Told r := by
      have ended (settles : settled r h ≠ []) : s.store.Told r :=
        (run.told_or_completing there direct settles).resolve_right idle
      cases run.recorded.there r x there direct with
      | waiting pending => exact absurd pending (by simp [terminal])
      | born _ _ _ _ told => exact told
      | ended _ once | delivered _ once => exact ended (by simp [once])
    obtain ⟨x', there', told⟩ := told
    cases there.symm.trans there'
    exact told

end

namespace Panicked

/-- A result whose callback has not run yet, and which has already succeeded. -/
def delivering : List (Moment Unit Unit Unit) × System Unit Unit Unit :=
  (System.mk (.empty ()) []).perform client [(.create .settable, 1),
    (.register 0 ⟨.client (), .inline⟩, 1), (.complete 0 (.succeeded ()), 2)]

theorem told_when_completing_is_over :
    (Run client Call.Fair ⟨.empty (), []⟩ delivering.1 delivering.2 ∧
      Completing 0 delivering.1 delivering.2 ∧
      ∃ x, delivering.2.store.results[0]? = some x ∧
        CellInvariant client 0 delivering.1 delivering.2 x ∧ x.cell.state = .succeeded () ∧
        x.cell.notified = false) ∧
    Run client Call.Fair ⟨.empty (), []⟩ succeeded.1 succeeded.2 ∧
      ¬ Completing 0 succeeded.1 succeeded.2 ∧
      ∃ x, succeeded.2.store.results[0]? = some x ∧ x.Direct ∧
        CellInvariant client 0 succeeded.1 succeeded.2 x ∧ x.cell.state = .succeeded () ∧
        x.cell.notified = true := by
  have running : Run client Call.Fair ⟨.empty (), []⟩ delivering.1 delivering.2 :=
    Run.perform Client.panicking_fair _ _
  have completing : Completing 0 delivering.1 delivering.2 := by
    have called : delivering.1 = delivering.1.take 2 ++ delivering.1[2] :: delivering.1.drop 3 :=
      rfl
    have ends : Call.Ends (V := Unit) (κ := Unit) 0 (.complete 0 (.succeeded ())) := rfl
    exact .intro called rfl rfl ends (by decide) rfl (by decide)
  have run : Run client Call.Fair ⟨.empty (), []⟩ succeeded.1 succeeded.2 :=
    Run.perform Client.panicking_fair _ _
  have finished : ¬ Completing 0 succeeded.1 succeeded.2 :=
    (System.quiet_of_all rfl).not_completing 0 succeeded.1
  have first : delivering.2.store.results[0]? =
      some ⟨⟨.succeeded (), [], true, false⟩, .settable⟩ := rfl
  have last : succeeded.2.store.results[0]? =
      some ⟨⟨.succeeded (), [], true, true⟩, .settable⟩ := rfl
  have holds := cell_invariant run last
  exact ⟨⟨running, completing, _, first, cell_invariant running first, rfl, rfl⟩, run, finished,
    _, last, trivial, holds, rfl, holds.told trivial rfl finished⟩

end Panicked

end Quorate
