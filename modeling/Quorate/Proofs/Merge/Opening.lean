import Quorate.Proofs.Merge.Simulation
import Quorate.Proofs.System.Finish

/-! A merge without sources. Its construction runs the merger and completes the merge, so that
without a cancel the merge ends with what the merger returned for no values. -/

set_option autoImplicit false

namespace Quorate

variable {V κ σ : Type} {m : ResultId} {o : Outcome V}

/-- A frame by which the construction of `m` completes it. -/
def Frame.Opens (m : ResultId) : Frame V κ → Prop
  | .opening r | .call (.complete r _) => r = m
  | _ => False

/-- A thread that constructs `m` is about to complete it with `o`. -/
inductive Thread.Opens (m : ResultId) (o : Outcome V) : Thread V κ → Prop where
  | apart {thread : Thread V κ} : (∀ f ∈ thread.frames, ¬ f.Opens m) → Opens m o thread
  | opening {below : List (Frame V κ)} : (∀ f ∈ below, ¬ f.Opens m) →
      Opens m o ⟨.ok (.outcome o), .opening m :: below⟩
  | completing {a : Answer V} {below : List (Frame V κ)} : (∀ f ∈ below, ¬ f.Opens m) →
      Opens m o ⟨.ok a, .call (.complete m (.ofOutcome o)) :: below⟩

theorem Frame.Plain.opens {s : Store V κ σ} {f : Frame V κ} (plain : f.Plain s)
    (opens : f.Opens m) : m < s.results.length := by
  cases f with
  | opening r =>
    cases opens
    obtain ⟨size, isMerge⟩ := plain
    exact isMerge.there
  | call c =>
    cases c with
    | complete r state => cases opens; exact plain
    | _ => exact opens.elim
  | _ => exact opens.elim

section

variable {client : Client V κ σ} {s : Store V κ σ} {result : Return V} {frame : Frame V κ}
  {e : Effect V κ σ}

/-- Only the construction of `m` brings up its completion. -/
theorem Emits.not_opens {result' : Return V} {frames : List (Frame V κ)}
    (emits : Emits client s result frame result' frames) (plain : s.Plain) (here : frame.Plain s)
    (apart : s.results.length ≠ m) (not : frame ≠ .opening m) : ∀ f ∈ frames, ¬ f.Opens m := by
  intro f member opens
  cases emits with
  | passive passive passes _ =>
    have passed := passes f member
    cases f with
    | opening r => exact passed.elim
    | call c => cases c <;> first | exact passed.elim | exact opens.elim
    | _ => exact opens.elim
  | opens form =>
    rcases form with ⟨f, p, -, -, -, rfl⟩ | ⟨f, o, -, -, -, rfl⟩ | ⟨f, code, -, -⟩
    · cases member
    · rw [List.mem_singleton.mp member] at opens
      exact apart opens
    · obtain ⟨g, other⟩ := here.1
      cases code.symm.trans other
  | completes =>
    simp only [List.mem_cons, List.not_mem_nil, or_false] at member
    rcases member with rfl | rfl
    · cases opens
      exact not rfl
    · exact opens
  | serves _ found foreign => rw [plain.own found] at foreign; cases foreign
  | inquires found foreign => rw [plain.own found] at foreign; cases foreign
  | merges found _ _ code =>
    obtain ⟨g, other⟩ := (plain _ _ found).1.1
    cases code.symm.trans other
  | calls => exact here
  | attempts => exact here
  | polls => exact here
  | _ =>
    simp only [List.mem_cons, List.not_mem_nil, or_false] at member <;>
      rcases member with rfl | rfl <;> exact opens

namespace Thread.Opens

variable {rest : List (Frame V κ)} (opens : Thread.Opens m o ⟨result, frame :: rest⟩)
include opens

theorem below : ∀ f ∈ rest, ¬ f.Opens m := by
  cases opens with
  | apart not => exact fun f member => not f (List.mem_cons_of_mem _ member)
  | opening not => exact not
  | completing not => exact not

/-- The completion of `m` tells it the outcome `o`, and nothing else does. -/
theorem event (about : frame.Opens m) :
    frame = .opening m ∨ frame.event? m result = some (.answered o) := by
  cases opens with
  | apart not => exact absurd about (not _ List.mem_cons_self)
  | opening => exact .inl rfl
  | completing => exact .inr (by simp [Frame.event?])

theorem answered (here : frame.Plain s) {o' : Outcome V}
    (event : frame.event? m result = some (.answered o')) : o' = o := by
  have about : frame.Opens m := by
    unfold Frame.event? at event
    split at event
    next => split at event <;> cases event
    next =>
      split at event
      next same => exact same
      next => cases event
    next => split at event <;> cases event
    next => exact here.elim
    next => exact here.elim
    next => cases event
  rcases opens.event about with rfl | event'
  · cases result with
    | ok a => cases a <;> cases event
    | error p => cases event
  · cases event.symm.trans event'
    rfl

theorem step (plain : s.Plain) (here : frame.Plain s) (apart : s.results.length ≠ m)
    (effect : s.resume client result frame = some e) :
    Thread.Opens m o ⟨e.result, e.frames ++ rest⟩ ∧
      (frame = .opening m → ∃ f ∈ e.frames, f.Opens m) := by
  by_cases starts : frame = .opening m
  · subst starts
    cases opens with
    | apart not => exact absurd rfl (not _ List.mem_cons_self)
    | opening not =>
      cases effect
      refine ⟨.completing fun f member => ?_, fun _ => ⟨_, List.mem_cons_self, rfl⟩⟩
      rcases List.mem_append.mp member with member | member
      · rw [List.mem_singleton.mp member]
        exact id
      · exact not f member
  · refine ⟨.apart fun f member => ?_, fun same => absurd same starts⟩
    rcases List.mem_append.mp member with member | member
    · exact (Store.resume_emits effect).not_opens plain here apart starts f member
    · exact opens.below f member

end Thread.Opens

end

/-- What the construction of `m` has told it, or is still about to tell it. -/
structure System.Opens (m : ResultId) (o : Outcome V) (s : System V κ σ) (events : List (Event V)) :
    Prop where
  merge : ∃ size, s.store.IsMerge m size
  threads : ∀ thread ∈ s.threads, thread.Opens m o
  answers : ∀ o', .answered o' ∈ events → o' = o
  going : .answered o ∉ events →
    ∃ (t : Nat) (thread : Thread V κ), s.threads[t]? = some thread ∧ ∃ f ∈ thread.frames, f.Opens m

section

variable {client : Client V κ σ} {s s₁ : System V κ σ} {t : Nat} {μ : Moment V κ σ}
  {e : Effect V κ σ} {calls : List (Call V κ)} {h : List (Moment V κ σ)}
  {events : List (Event V)}

theorem System.Opens.step (opens : s.Opens m o events) (plain : s.Plain)
    (found : s.moment? t = some μ) (yields : μ.Yields client e calls) :
    (s.after t μ.below e calls).Opens m o (events ++ (μ.event? m).toList) := by
  obtain ⟨rfl, effect⟩ := plain.resumed found yields
  have selected := (moment?_eq_some found).2.2
  have here := (plain.frames.moment found).1
  have own := opens.threads _ (List.mem_of_getElem? selected)
  obtain ⟨size, isMerge⟩ := opens.merge
  have apart : s.store.results.length ≠ m := Nat.ne_of_gt isMerge.there
  obtain ⟨stepped, starts⟩ := own.step plain.store here apart effect
  refine ⟨⟨size, (Store.resume_touches effect).later.isMerge isMerge⟩,
    threads_after stepped opens.threads (by simp), fun o' member => ?_, fun silent => ?_⟩
  · rcases List.mem_append.mp member with member | member
    · exact opens.answers o' member
    · exact own.answered here (Option.mem_toList.mp member)
  · rw [List.mem_append, not_or] at silent
    obtain ⟨t', thread, there, f, member, about⟩ := opens.going silent.1
    by_cases same : t = t'
    · -- the frame that is to complete the merge goes on to its call, or tells the merge
      subst same
      cases selected.symm.trans there
      rcases List.mem_cons.mp member with rfl | member
      · rcases own.event about with first | event
        · obtain ⟨f, member, about⟩ := starts first
          exact ⟨t, _, after_self found e [], f, List.mem_append_left _ member, about⟩
        · exact absurd (Option.mem_toList.mpr event) silent.2
      · exact absurd about (own.below f member)
    · exact ⟨t', thread, after_other there same _ _ _, f, member, about⟩

theorem Run.opens (run : Run client Call.Plain s h s₁) (plain : s.Plain) (opens : s.Opens m o []) :
    s₁.Opens m o (h.filterMap (Moment.event? m)) := by
  induction run with
  | start => exact opens
  | @step h _ _ _ μ run found step _ ih =>
    obtain ⟨μ, e, calls, moment, yields, rfl⟩ := System.step_yields step
    cases found.symm.trans moment
    rw [filterMap_concat]
    exact ih.step (run.plain plain) found yields
  | begin c _ obeyed ih =>
    obtain ⟨isMerge, threads, answers, going⟩ := ih
    refine ⟨isMerge, System.threads_begin threads ?_, answers, fun silent => ?_⟩
    · refine .apart fun f included about => ?_
      rw [List.mem_singleton.mp included] at about
      cases c with
      | complete r state =>
        -- nobody outside can complete a merge
        cases about
        obtain ⟨x, found, takes⟩ := obeyed
        obtain ⟨size, cell, merge, found', -⟩ := isMerge
        cases found.symm.trans found'
        exact takes
      | _ => exact about
    · obtain ⟨t, thread, there, opens⟩ := going silent
      exact ⟨t, thread, System.begin_other there c, opens⟩
  | pass now _ _ ih =>
    obtain ⟨⟨size, isMerge⟩, threads, answers, going⟩ := ih
    exact ⟨⟨size, isMerge⟩, threads, answers, going⟩

/-- A merge without sources waits for its construction, or was cancelled. -/
theorem Progress.run_opening (merger : Merger V κ) (events : List (Event V)) :
    run merger .opening events = .opening ∧ (∀ o, .answered o ∉ events) ∨
      (∃ o, .answered o ∈ events ∧ run merger .opening events = .decided (.ofOutcome o)) ∨
      .cancelled ∈ events ∧ run merger .opening events = .decided .cancelled := by
  induction events with
  | nil => exact .inl ⟨rfl, by simp⟩
  | cons event events ih =>
    cases event with
    | arrived index o =>
      have still : next merger .opening (.arrived index o) = .opening := by cases o <;> rfl
      simpa [still] using ih
    | cancelled => exact .inr (.inr ⟨List.mem_cons_self, run_decided _ _⟩)
    | answered o => exact .inr (.inl ⟨o, List.mem_cons_self, run_decided _ _⟩)
    | panicked =>
      have still : next merger .opening .panicked = .opening := rfl
      simpa [still] using ih

theorem Built.fair {merger : Merger V κ} {sources : List ResultId}
    (built : Built client Call.Plain merger sources m s) :
    Built client Call.Fair merger sources m s :=
  built.mono fun _ _ => Call.Plain.fair

theorem Built.ready {merger : Merger V κ} {sources : List ResultId}
    (built : Built client Call.Plain merger sources m s) : s.Ready := by
  obtain ⟨run, found, answered, frame, step, -⟩ := built
  obtain ⟨μ, e, calls, moment, yields, rfl⟩ := System.step_yields step
  cases found.symm.trans moment
  exact (run.ready (System.ready_empty _)).step found yields

section

variable {f : List V → Except Panic (Outcome V)} (built : Built client Call.Plain (.plain f) [] m s)
include built

/-- The construction of a merge without sources goes on with what the merger returned. -/
theorem Built.opens (returns : f [] = .ok o) : s.Opens m o [] := by
  obtain @⟨memory, h₀, s₀, t, μ, a, run, found, answered, frame, step, rfl⟩ := built
  obtain ⟨μ, e, calls, moment, yields, rfl⟩ := System.step_yields step
  cases found.symm.trans moment
  have plain := run.plain (System.plain_empty _)
  obtain ⟨rfl, effect⟩ := plain.resumed found yields
  have made := (Store.resume_touches effect).made
  rw [answered, frame] at made effect
  simp only [Store.resume, Store.proceed, Store.enter, List.isEmpty_nil, if_true, returns,
    Option.some.injEq] at effect
  subst effect
  -- no frame that was there knows of the new merge
  have old (f : Frame V κ) (here : f.Plain s₀.store) : ¬ f.Opens s₀.store.results.length :=
    fun opens => Nat.lt_irrefl _ (here.opens opens)
  refine ⟨⟨_, _, _, made, rfl⟩, System.threads_after ?_ ?_ (by simp), by simp, fun _ => ?_⟩
  · exact .opening fun f member => old f ((plain.frames.moment found).2 f member)
  · exact fun thread member => .apart fun f included =>
      old f (plain.frames thread member f included)
  · exact ⟨_, _, System.after_self found _ [], _, List.mem_append_left _ List.mem_cons_self, rfl⟩

/-- Once all threads have ended, a merge without sources that was not cancelled has ended with what
the merger returned. -/
theorem Built.opened (returns : f [] = .ok o) (run : Run client Call.Plain s h s₁) :
    ∃ p, s₁.store.Shows m (.plain f) [] p ∧
      ((p = .opening ∧ ¬ s₁.Quiet) ∨ p = .decided (.ofOutcome o) ∨
        .cancelled ∈ h.filterMap (Moment.event? m) ∧ p = .decided .cancelled) := by
  have before := built.fair
  refine ⟨_, run.fair.shows before.sound before.orderly before.shows, ?_⟩
  have opens := run.opens built.ready.plain (built.opens returns)
  rcases Progress.run_opening (.plain f) (h.filterMap (Moment.event? m)) with
    ⟨same, silent⟩ | ⟨o', member, same⟩ | cancelled
  · refine .inl ⟨same, fun quiet => ?_⟩
    obtain ⟨t, thread, there, f, member, -⟩ := opens.going (silent o)
    rw [quiet thread (List.mem_of_getElem? there)] at member
    cases member
  · exact .inr (.inl (opens.answers o' member ▸ same))
  · exact .inr (.inr cancelled)

end

end

end Quorate
