import Quorate.Proofs.System.Later

/-! What a step does to futures. A future keeps its result. Its phase changes when it is polled, when
its callback runs or is thrown away, and when it finds out about that. -/

set_option autoImplicit false

namespace Quorate

variable {V κ σ : Type}

/-- A step of the frame throws the task away. -/
inductive Frame.Drops (task : Task κ) : Return V → Frame V κ → Prop where
  | discards {a : Answer V} : Drops task (.ok a) (.call (.discard task))
  | refuses {a : Answer V} {p : Panic} : task.executor = .refuse p →
      Drops task (.ok a) (.call (.perform task))
  | unwinds {p : Panic} {merge : ResultId} {sources : List ResultId} {all : Bool}
      {drained : List (Task κ)} : task ∈ drained →
      Drops task (.error p) (.sweep merge sources all drained)

/-- The step of a frame that changes the phase of a future. -/
inductive Future.Changes (f : FutureId) : Return V → Frame V κ → Phase → Prop where
  | polls {a : Answer V} : Changes f (.ok a) (.call (.poll f)) .waiting
  | wakes {a : Answer V} : Changes f (.ok a) (.start (.signal f)) .sent
  | loses {result : Return V} {frame : Frame V κ} {task : Task κ} : frame.Drops task result →
      task.callback = .signal f → Changes f result frame .dropped
  | finishes {a : Answer V} : Changes f (.ok a) (.check f) .finished

namespace Store

variable {client : Client V κ σ} {s : Store V κ σ} {e : Effect V κ σ} {result : Return V}
  {frame : Frame V κ}

/-- What a step does to futures: they keep their results, and new ones have not been polled. -/
structure Rephases (s : Store V κ σ) (result : Return V) (frame : Frame V κ) (e : Effect V κ σ) :
    Prop where
  there : ∀ (f : FutureId) (future : Future), s.futures[f]? = some future →
    ∃ phase, e.store.futures[f]? = some { future with phase } ∧
      (phase = future.phase ∨ Future.Changes f result frame phase)
  new : ∀ (f : FutureId) (future : Future), s.futures[f]? = none →
    e.store.futures[f]? = some future → future.phase = .created

theorem rephases_same (same : e.store.futures = s.futures) : s.Rephases result frame e := by
  refine ⟨fun f future there => ⟨future.phase, by rw [same, there], .inl rfl⟩, ?_⟩
  intro f future missing there
  rw [same, missing] at there
  cases there

theorem rephases_setPhase {f : FutureId} {phase : Phase}
    (same : e.store.futures = (s.setPhase f phase).futures)
    (changes : Future.Changes f result frame phase) : s.Rephases result frame e := by
  constructor
  · intro f' future there
    by_cases here : f = f'
    · subst here
      exact ⟨phase, by simp [same, setPhase, there], .inr changes⟩
    · refine ⟨future.phase, ?_, .inl rfl⟩
      simp [same, setPhase, there, here]
  · intro f' future missing there
    simp [same, setPhase, List.getElem?_modify, missing] at there

/-- What becomes of a future when tasks are thrown away. -/
theorem dropTask_futures (task : Task κ) (f : FutureId) :
    (s.dropTask task).futures[f]? = s.futures[f]? ∨ task.callback = .signal f ∧
      ∃ future, s.futures[f]? = some future ∧
        (s.dropTask task).futures[f]? = some { future with phase := .dropped } := by
  unfold dropTask
  split
  next f' callback =>
    by_cases here : f' = f
    · subst here
      cases there : s.futures[f']? with
      | none => simp [there]
      | some future =>
        by_cases waits : future.phase = .waiting
        · exact .inr ⟨callback, future, rfl, by simp [there, waits]⟩
        · exact .inl (by simp [there, waits])
    · exact .inl (by simp [here])
  next => exact .inl rfl

theorem dropTasks_futures (tasks : List (Task κ)) (f : FutureId) :
    (s.dropTasks tasks).futures[f]? = s.futures[f]? ∨
      (∃ task ∈ tasks, task.callback = .signal f) ∧ ∃ future, s.futures[f]? = some future ∧
        (s.dropTasks tasks).futures[f]? = some { future with phase := .dropped } := by
  induction tasks generalizing s with
  | nil => exact .inl rfl
  | cons task tasks ih =>
    have first := dropTask_futures (s := s) task f
    have rest : ((s.dropTask task).dropTasks tasks).futures[f]? = _ ∨ _ := ih
    change ((s.dropTask task).dropTasks tasks).futures[f]? = _ ∨ _ ∧ ∃ future, _ ∧
      ((s.dropTask task).dropTasks tasks).futures[f]? = _
    rcases rest with kept | ⟨⟨task', member, signals⟩, future', there', lost⟩
    · rw [kept]
      exact first.imp_right fun ⟨signals, lost⟩ => ⟨⟨task, List.mem_cons_self, signals⟩, lost⟩
    · refine .inr ⟨⟨task', List.mem_cons_of_mem _ member, signals⟩, ?_⟩
      rcases first with kept | ⟨-, future, there, lost'⟩
      · exact ⟨future', kept ▸ there', lost⟩
      · cases there'.symm.trans lost'
        exact ⟨future, there, lost⟩

theorem rephases_drop {tasks : List (Task κ)} (same : e.store.futures = (s.dropTasks tasks).futures)
    (drops : ∀ task ∈ tasks, frame.Drops task result) : s.Rephases result frame e := by
  constructor
  · intro f future there
    rcases dropTasks_futures (s := s) tasks f with
      kept | ⟨⟨task, member, signals⟩, future', there', lost⟩
    · exact ⟨future.phase, by rw [same, kept, there], .inl rfl⟩
    · cases there.symm.trans there'
      exact ⟨.dropped, same ▸ lost, .inr (.loses (drops task member) signals)⟩
  · intro f future missing there
    rw [same] at there
    rcases dropTasks_futures (s := s) tasks f with kept | ⟨-, future', there', -⟩
    · rw [kept, missing] at there
      cases there
    · cases missing.symm.trans there'

theorem completing_futures {r : ResultId} {x : Result V κ} {state : State V} {reply : Answer V}
    (effect : s.completing r x state reply = some e) : e.store.futures = s.futures := by
  obtain ⟨results, same⟩ := completing_only effect
  rw [same]

theorem enter_rephases {c : Call V κ} (a : Answer V) (effect : s.enter client c = some e) :
    s.Rephases (.ok a) (.call c) e := by
  cases c with
  | complete r state =>
    obtain ⟨x, -, -, effect⟩ := locking_eq_some effect
    exact rephases_same (completing_futures effect)
  | countDown r =>
    obtain ⟨x, -, -, effect⟩ := locking_eq_some effect
    split at effect
    next => split at effect <;> cases effect <;> exact rephases_same rfl
    next => cases effect
  | cancel r =>
    obtain ⟨x, -, -, effect⟩ := locking_eq_some effect
    split at effect
    next => exact rephases_same (completing_futures effect)
    next => cases effect; exact rephases_same rfl
    next => split at effect <;> cases effect <;> exact rephases_same rfl
    next => cases effect; exact rephases_same rfl
  | register r task =>
    obtain ⟨x, -, -, effect⟩ := locking_eq_some effect
    split at effect
    next => cases effect; exact rephases_same rfl
    next => split at effect <;> cases effect <;> exact rephases_same rfl
  | get r timeout =>
    obtain ⟨x, -, ⟨-, rfl⟩ | ⟨-, rfl⟩⟩ := enter_get_eq_some effect <;> exact rephases_same rfl
  | build merger sources =>
    simp only [enter] at effect
    split at effect
    next =>
      split at effect
      next => split at effect <;> cases effect <;> exact rephases_same rfl
      next => cases effect; exact rephases_same rfl
    next => cases effect; exact rephases_same rfl
  | await r =>
    cases effect
    constructor
    · intro f future there
      refine ⟨future.phase, ?_, .inl rfl⟩
      have bound := (List.getElem?_eq_some_iff.mp there).1
      rw [List.getElem?_append_left bound, there]
    · intro f future missing there
      have beyond := List.getElem?_eq_none_iff.mp missing
      rw [List.getElem?_append_right beyond] at there
      rw [List.mem_singleton.mp (List.mem_of_getElem? there)]
  | poll f =>
    simp only [enter] at effect
    split at effect
    next => cases effect
    next =>
      split at effect <;> cases effect
      · exact rephases_setPhase rfl .polls
      · exact rephases_same rfl
  | claim r done cancelled =>
    obtain ⟨x, -, -, effect⟩ := locking_eq_some effect
    split at effect <;> cases effect
    exact rephases_same rfl
  | perform task =>
    simp only [enter] at effect
    split at effect <;> cases effect
    next => exact rephases_same rfl
    next => exact rephases_same rfl
    next => exact rephases_same rfl
    next p refuses =>
      refine rephases_drop (show _ = (s.dropTasks [task]).futures from rfl) fun task' member => ?_
      rw [List.mem_singleton.mp member]
      exact .refuses refuses
  | discard task =>
    cases effect
    refine rephases_drop (show _ = (s.dropTasks [task]).futures from rfl) fun task' member => ?_
    rw [List.mem_singleton.mp member]
    exact .discards
  | fork c => cases effect
  | _ => cases effect; exact rephases_same rfl

theorem commit_futures {merge : ResultId} {index : Nat} {o : Outcome V}
    (effect : s.commit merge index o = some e) : e.store.futures = s.futures := by
  obtain ⟨results, same⟩ := commit_only effect
  rw [same]

theorem proceed_rephases (a : Answer V) (effect : s.proceed client a frame = some e) :
    s.Rephases (.ok a) frame e := by
  cases frame with
  | call c => exact enter_rephases a effect
  | start callback =>
    cases callback <;> cases effect
    · exact rephases_same rfl
    · exact rephases_setPhase rfl .wakes
    · exact rephases_same rfl
  | deliver r tasks first reply =>
    cases tasks with
    | nil =>
      simp only [proceed] at effect
      split at effect
      next => cases effect
      next => split at effect <;> cases first <;> cases effect <;> exact rephases_same rfl
    | cons task tasks => cases effect; exact rephases_same rfl
  | lookup merge index =>
    obtain ⟨x, -, -, effect⟩ := locking_eq_some effect
    split at effect
    next => split at effect <;> cases effect <;> exact rephases_same rfl
    next => cases effect
  | query merge index source => exact rephases_same (by rw [query_results effect])
  | commit merge index =>
    cases a with
    | outcome o => exact rephases_same (commit_futures effect)
    | _ => cases effect
  | merging merge =>
    cases a with
    | outcome o =>
      simp only [proceed] at effect
      split at effect
      next => exact rephases_same (completing_futures effect)
      next => cases effect
    | _ => cases effect
  | opening merge => cases a <;> cases effect; exact rephases_same rfl
  | attach merge sources index =>
    obtain ⟨x, -, -, effect⟩ := locking_eq_some effect
    split at effect
    next => cases effect; exact rephases_same rfl
    next => split at effect <;> cases effect <;> exact rephases_same rfl
  | sweep merge sources all drained =>
    cases a with
    | flag b => cases sources <;> cases effect <;> exact rephases_same rfl
    | _ => cases effect
  | read r timeout deadline =>
    obtain ⟨x, -, -, effect⟩ := locking_eq_some effect
    cases effect
    exact rephases_same rfl
  | wait r timeout deadline terminalOnEntry =>
    obtain ⟨x, -, -, effect⟩ := locking_eq_some effect
    split at effect
    next => cases effect; exact rephases_same rfl
    next => split at effect <;> cases effect; exact rephases_same rfl
    next => cases effect
  | polling r deadline =>
    obtain ⟨x, -, ⟨o, -, rfl⟩ | ⟨-, -, rfl⟩⟩ := proceed_polling_eq_some effect <;>
      exact rephases_same rfl
  | check f =>
    simp only [proceed] at effect
    split at effect
    next => cases effect
    next =>
      split at effect <;> cases effect
      · exact rephases_setPhase rfl .finishes
      · exact rephases_setPhase rfl .finishes
      · exact rephases_same rfl
      · exact rephases_same rfl
      · exact rephases_same rfl
  | sleeping deadline =>
    simp only [proceed] at effect
    split at effect <;> cases effect
    exact rephases_same rfl
  | joining t deadline => cases effect
  | client code =>
    simp only [proceed] at effect
    split at effect <;> cases effect <;> exact rephases_same rfl
  | _ => cases effect; exact rephases_same rfl

theorem unwind_rephases (p : Panic) (effect : s.unwind p frame = some e) :
    s.Rephases (.error p) frame e := by
  cases frame with
  | merging merge =>
    simp only [unwind] at effect
    split at effect <;> cases effect
    exact rephases_same rfl
  | sweep merge sources all drained =>
    cases effect
    exact rephases_drop rfl fun task member => .unwinds member
  | _ => cases effect; exact rephases_same rfl

theorem resume_rephases (effect : s.resume client result frame = some e) :
    s.Rephases result frame e := by
  cases result with
  | ok a => exact proceed_rephases a effect
  | error p => exact unwind_rephases p effect

end Store

theorem Moment.Yields.rephases {client : Client V κ σ} {μ : Moment V κ σ} {e : Effect V κ σ}
    {calls : List (Call V κ)} (yields : μ.Yields client e calls) :
    μ.store.Rephases μ.result μ.frame e := by
  cases yields with
  | resumed effect => exact Store.resume_rephases effect
  | forked _ _ _ => exact Store.rephases_same rfl
  | joined _ _ _ => exact Store.rephases_same rfl

end Quorate
