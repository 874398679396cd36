import Quorate.Proofs.System.Later

/-! Schedules of a system that is left to itself or is only asked some things. As in a run any
thread may take the next step, and time may pass; the calls of client code are its own affair, and
only the calls from outside obey a rule. -/

set_option autoImplicit false

namespace Quorate

variable {V κ σ : Type}

namespace Store

variable {client : Client V κ σ} {s : Store V κ σ} {e : Effect V κ σ}

@[grind =] theorem dropTask_now (t : Task κ) : (s.dropTask t).now = s.now := by
  unfold dropTask
  split <;> rfl

@[grind =] theorem dropTasks_now (tasks : List (Task κ)) : (s.dropTasks tasks).now = s.now := by
  unfold dropTasks
  induction tasks generalizing s with
  | nil => rfl
  | cons t tasks ih => rw [List.foldl_cons, ih, dropTask_now]

theorem completing_now {r : ResultId} {x : Result V κ} {state : State V} {reply : Answer V}
    (effect : s.completing r x state reply = some e) : e.store.now = s.now := by
  obtain ⟨results, same⟩ := completing_only effect
  rw [same]

theorem enter_now {c : Call V κ} (effect : s.enter client c = some e) : e.store.now = s.now := by
  cases c <;> simp only [enter] at effect <;>
    grind [locking, answering, raising, continuing, set, push, setPhase, completing_now]

theorem commit_now {merge : ResultId} {index : Nat} {o : Outcome V}
    (effect : s.commit merge index o = some e) : e.store.now = s.now := by
  obtain ⟨results, same⟩ := commit_only effect
  rw [same]

theorem proceed_now {a : Answer V} {frame : Frame V κ}
    (effect : s.proceed client a frame = some e) : e.store.now = s.now := by
  cases frame with
  | call c => exact enter_now effect
  | start callback =>
    cases callback <;> cases effect <;> rfl
  | deliver r tasks first reply =>
    cases tasks <;> simp only [proceed] at effect <;>
      grind [answering, raising, continuing, set]
  | _ =>
    simp only [proceed, query] at effect
    grind [locking, merged, answering, raising, continuing, set, setPhase, completing_now,
      commit_now]

theorem unwind_now {p : Panic} {frame : Frame V κ} (effect : s.unwind p frame = some e) :
    e.store.now = s.now := by
  cases frame <;> simp only [unwind] at effect <;>
    grind [answering, raising, continuing, set]

/-- No step takes time. -/
theorem resume_now {result : Return V} {frame : Frame V κ}
    (effect : s.resume client result frame = some e) : e.store.now = s.now := by
  cases result with
  | ok a => exact proceed_now effect
  | error p => exact unwind_now effect

end Store

theorem Moment.Yields.now {client : Client V κ σ} {μ : Moment V κ σ} {e : Effect V κ σ}
    {calls : List (Call V κ)} (yields : μ.Yields client e calls) : e.store.now = μ.store.now := by
  cases yields with
  | resumed effect => exact Store.resume_now effect
  | forked => rfl
  | joined => rfl

/-- A schedule from `s`, with the moment of every step. -/
inductive Schedule (client : Client V κ σ) (asks : System V κ σ → Call V κ → Prop)
    (s : System V κ σ) : List (Moment V κ σ) → System V κ σ → Prop where
  | start : Schedule client asks s [] s
  | step {h : List (Moment V κ σ)} {s₁ s₂ : System V κ σ} {t : Nat} {μ : Moment V κ σ} :
      Schedule client asks s h s₁ → s₁.moment? t = some μ → s₁.step client t = some s₂ →
      Schedule client asks s (h ++ [μ]) s₂
  | begin {h : List (Moment V κ σ)} {s₁ : System V κ σ} (c : Call V κ) :
      Schedule client asks s h s₁ → asks s₁ c → Schedule client asks s h (s₁.begin c)
  | pass {h : List (Moment V κ σ)} {s₁ : System V κ σ} (now : Nat) :
      Schedule client asks s h s₁ → s₁.store.now ≤ now → Schedule client asks s h (s₁.pass now)

/-- No calls from outside. -/
def Call.Never (_ : System V κ σ) (_ : Call V κ) : Prop := False

namespace Schedule

variable {client : Client V κ σ} {asks : System V κ σ → Call V κ → Prop} {s s₁ s₂ : System V κ σ}
  {h h' : List (Moment V κ σ)}

theorem trans (first : Schedule client asks s h s₁) (next : Schedule client asks s₁ h' s₂) :
    Schedule client asks s (h ++ h') s₂ := by
  induction next with
  | start => simpa using first
  | step _ found step ih => simpa [List.append_assoc] using ih.step found step
  | begin c _ obeyed ih => exact ih.begin c obeyed
  | pass now _ past ih => exact ih.pass now past

theorem mono {asks' : System V κ σ → Call V κ → Prop} (weaker : ∀ s c, asks s c → asks' s c)
    (schedule : Schedule client asks s h s₁) : Schedule client asks' s h s₁ := by
  induction schedule with
  | start => exact .start
  | step _ found step ih => exact ih.step found step
  | begin c _ obeyed ih => exact ih.begin c (weaker _ _ obeyed)
  | pass now _ past ih => exact ih.pass now past

theorem drive (s : System V κ σ) (ts : List Nat) :
    Schedule client asks s (s.drive client ts).1 (s.drive client ts).2 := by
  induction ts generalizing s with
  | nil => exact .start
  | cons t ts ih =>
    unfold System.drive
    split
    next μ s' found step =>
      have first : Schedule client asks s ([] ++ [μ]) s' := .step .start found step
      exact first.trans (ih s')
    next => exact ih s

theorem store_later (schedule : Schedule client asks s h s₁) : s.store.Later s₁.store := by
  induction schedule with
  | start => exact .refl _
  | step _ found step ih =>
    obtain ⟨μ, e, calls, moment, yields, rfl⟩ := System.step_yields step
    have later := yields.touches.later
    rw [(System.moment?_eq_some moment).1] at later
    exact ih.trans later
  | begin _ _ _ ih => exact ih
  | pass _ _ _ ih => exact ih

/-- Every step was taken before now. -/
theorem past (schedule : Schedule client asks s h s₁) : ∀ μ ∈ h, μ.store.now ≤ s₁.store.now := by
  induction schedule with
  | start => simp
  | @step h₁ s₁ s₂ t μ _ found step ih =>
    obtain ⟨μ', e, calls, moment, yields, rfl⟩ := System.step_yields step
    cases found.symm.trans moment
    have same : e.store.now = s₁.store.now := by
      rw [yields.now, (System.moment?_eq_some moment).1]
    intro μ' member
    show μ'.store.now ≤ e.store.now
    rcases List.mem_append.mp member with member | member
    · rw [same]
      exact ih μ' member
    · rw [List.mem_singleton.mp member]
      exact Nat.le_of_eq yields.now.symm
  | begin _ _ _ ih => exact ih
  | pass now _ past ih => exact fun μ member => Nat.le_trans (ih μ member) past

/-- A thread goes through its stages by its own steps, while the others do as they do. -/
theorem thread {P : List (Moment V κ σ) → Store V κ σ → Thread V κ → Prop} {t : Nat}
    {thread : Thread V κ} (schedule : Schedule client asks s h s₁)
    (here : s.threads[t]? = some thread) (start : P [] s.store thread)
    (own : ∀ {h₁ s₁ μ e calls}, Schedule client asks s h₁ s₁ → s₁.moment? t = some μ →
      μ.Yields client e calls → P h₁ μ.store ⟨μ.result, μ.frame :: μ.below⟩ →
        P (h₁ ++ [μ]) e.store ⟨e.result, e.frames ++ μ.below⟩)
    (other : ∀ {h₁ s₁ s₂ thread} {μ : Moment V κ σ}, s₁.Later s₂ → μ.thread ≠ t →
      P h₁ s₁ thread → P (h₁ ++ [μ]) s₂ thread)
    (pass : ∀ {h₁ s₁ s₂ thread}, s₁.Later s₂ → P h₁ s₁ thread → P h₁ s₂ thread) :
    ∃ thread, s₁.threads[t]? = some thread ∧ P h s₁.store thread := by
  induction schedule with
  | start => exact ⟨thread, here, start⟩
  | @step h₁ s₁ s₂ t' μ schedule found step ih =>
    obtain ⟨μ', e, calls, moment, yields, rfl⟩ := System.step_yields step
    cases found.symm.trans moment
    obtain ⟨thread, here, stage⟩ := ih
    obtain ⟨store, stepped, selected⟩ := System.moment?_eq_some found
    by_cases same : t' = t
    · subst same
      cases selected.symm.trans here
      rw [← store] at stage
      exact ⟨_, System.after_self found e calls, own schedule found yields stage⟩
    · have later := yields.touches.later
      rw [store] at later
      exact ⟨thread, System.after_other here same _ _ _, other later (by rwa [stepped]) stage⟩
  | begin c _ _ ih =>
    obtain ⟨thread, here, stage⟩ := ih
    exact ⟨thread, System.begin_other here c, stage⟩
  | @pass h s₁ now _ _ ih =>
    obtain ⟨thread, here, stage⟩ := ih
    have later : s₁.store.Later (s₁.pass now).store := Store.later_of_results rfl
    exact ⟨thread, here, pass later stage⟩

end Schedule

namespace System

/-- What thread `t` ended with, if it has ended. -/
def answer? (s : System V κ σ) (t : Nat) : Option (Return V) :=
  match s.threads[t]? with
  | some ⟨result, []⟩ => some result
  | _ => none

theorem answer?_eq_some_iff {s : System V κ σ} {t : Nat} {result : Return V} :
    s.answer? t = some result ↔ s.threads[t]? = some ⟨result, []⟩ := by
  unfold answer?
  split
  next selected => simp [selected]
  next other =>
    refine ⟨nofun, fun selected => ?_⟩
    exact absurd selected (other result)

theorem answer?_begin {s : System V κ σ} {t : Nat} {result : Return V}
    (finished : s.answer? t = some result) (c : Call V κ) : (s.begin c).answer? t = some result :=
  answer?_eq_some_iff.mpr (begin_other (answer?_eq_some_iff.mp finished) c)

/-- A thread that has not ended is about to take a step. -/
theorem moment?_of_busy {s : System V κ σ} {t : Nat} (there : t < s.threads.length)
    (busy : s.answer? t = none) : ∃ μ, s.moment? t = some μ := by
  have selected := List.getElem?_eq_getElem there
  generalize s.threads[t] = thread at selected
  obtain ⟨result, frames⟩ := thread
  cases frames with
  | nil => cases busy.symm.trans (answer?_eq_some_iff.mpr selected)
  | cons frame below => exact ⟨⟨s.store, t, result, frame, below⟩, by simp [moment?, selected]⟩

/-- Thread `t` can take its next step, at the latest when some time has passed. -/
def Moves (client : Client V κ σ) (s : System V κ σ) (t : Nat) : Prop :=
  ∃ now s', s.store.now ≤ now ∧ (s.pass now).step client t = some s'

theorem moves_of_resume {client : Client V κ σ} {s : System V κ σ} {t : Nat} {result : Return V}
    {frame : Frame V κ} {below : List (Frame V κ)}
    (here : s.threads[t]? = some ⟨result, frame :: below⟩)
    (effect : ∃ e, s.store.resume client result frame = some e) : s.Moves client t := by
  obtain ⟨e, effect⟩ := effect
  exact ⟨s.store.now, _, Nat.le_refl _, step_of_resume here effect⟩

/-- Left to itself, the system takes a bounded number of steps. -/
def Bounded (client : Client V κ σ) (s : System V κ σ) : Prop :=
  ∃ bound, ∀ h s', Schedule client Call.Never s h s' → h.length ≤ bound

end System

/-- A thread that has ended has taken its last step. -/
theorem Schedule.answered {client : Client V κ σ} {asks : System V κ σ → Call V κ → Prop}
    {s s' : System V κ σ} {h : List (Moment V κ σ)} (schedule : Schedule client asks s h s')
    {t : Nat} {result : Return V} (finished : s.answer? t = some result) :
    s'.answer? t = some result := by
  obtain ⟨thread, here, rfl⟩ := schedule.thread (P := fun _ _ thread => thread = ⟨result, []⟩)
    (System.answer?_eq_some_iff.mp finished) rfl (fun _ _ _ busy => by cases busy)
    (fun _ _ same => same) (fun _ same => same)
  exact System.answer?_eq_some_iff.mpr here

end Quorate
