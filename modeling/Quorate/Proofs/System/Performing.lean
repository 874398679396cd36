import Quorate.Proofs.System.Delivery
import Quorate.Proofs.System.Sound

/-! What becomes of a task that is handed to its executor. The step that hands it over is followed,
on the thread that runs the callback, by the one that starts it and by the first one of its own
code, whatever other threads do in between. A callback that was not handed over does not start. -/

set_option autoImplicit false

namespace Quorate

variable {V κ σ : Type}

/-- The next step of thread `t` is not held up, whatever other threads do before it, and leads from
one system to another as `P` says. -/
def System.Next (client : Client V κ σ) (t : Nat) (P : System V κ σ → System V κ σ → Prop)
    (s : System V κ σ) : Prop :=
  ∀ h s₁, Run client Call.Fair s h s₁ → (∀ μ ∈ h, μ.thread ≠ t) →
    ∃ s₂, s₁.step client t = some s₂ ∧ P s₁ s₂

/-- The thread that a piece of client code leaves above the frames `base` by what it does next. -/
def Action.onto (base : List (Frame V κ)) : Action V κ → Thread V κ
  | .call c next => ⟨.ok .unit, .call c :: .client next :: base⟩
  | .attempt c next => ⟨.ok .unit, .call c :: .guard :: .client next :: base⟩
  | .finish a => ⟨.ok a, base⟩
  | .panic p => ⟨.error p, base⟩

/-- Thread `t` starts a callback above the frames `base` with its next step. Client code is entered
with the step after that; a merge is about to look at its source, and a future is woken. -/
def Callback.Runs (client : Client V κ σ) (t : Nat) (base : List (Frame V κ)) :
    Callback κ → System V κ σ → Prop
  | .client code => System.Next client t fun s s' => s'.store = s.store ∧
      s'.threads[t]? = some ⟨.ok .unit, .client code :: base⟩ ∧
      s'.Next client t fun s s' =>
        s'.store = { s.store with client := (client.resume code .unit s.store).1 } ∧
        s'.threads[t]? = some ((client.resume code .unit s.store).2.onto base)
  | .observe merge index => System.Next client t fun s s' => s'.store = s.store ∧
      s'.threads[t]? = some ⟨.ok .unit, .lookup merge index :: base⟩
  | .signal f => System.Next client t fun s s' => s'.store = s.store.setPhase f .sent ∧
      s'.threads[t]? = some ⟨.ok .unit, base⟩

/-- What has become of a task that thread `t` hands over above the frames `base`, in the step from
`s` to `s'`. -/
inductive Task.Performed (client : Client V κ σ) (t : Nat) (base : List (Frame V κ))
    (s s' : System V κ σ) : Task κ → Prop where
  /-- It runs in its place. -/
  | inline {callback : Callback κ} : s'.store = s.store →
      s'.threads[t]? = some ⟨.ok .unit, .start callback :: base⟩ →
      callback.Runs client t base s' → Performed client t base s s' ⟨callback, .inline⟩
  /-- It runs while the thread waits for it; a panic ends with it. -/
  | join {callback : Callback κ} : s'.store = s.store →
      s'.threads[t]? = some ⟨.ok .unit, .start callback :: .threadEnd :: base⟩ →
      callback.Runs client t (.threadEnd :: base) s' →
      Performed client t base s s' ⟨callback, .join⟩
  /-- A new thread runs it, and this one goes on. -/
  | spawn {callback : Callback κ} : s'.store = s.store →
      (s'.Next client t fun s s' => s'.store = s.store ∧
        s'.threads[t]? = some ⟨.ok (.thread s.threads.length), base⟩ ∧
        s'.Next client s.threads.length fun s₁ s₁' => s₁'.store = s₁.store ∧
          s₁'.threads[s.threads.length]? = some ⟨.ok .unit, [.start callback]⟩ ∧
          callback.Runs client s.threads.length [] s₁') →
      Performed client t base s s' ⟨callback, .spawn⟩
  /-- No executor takes it: it is thrown away, and the thread panics. -/
  | refuse {callback : Callback κ} {p : Panic} :
      s'.store = s.store.dropTask ⟨callback, .refuse p⟩ →
      s'.threads[t]? = some ⟨.error p, base⟩ →
      Performed client t base s s' ⟨callback, .refuse p⟩

section

variable {client : Client V κ σ} {s s' : System V κ σ} {t : Nat} {base : List (Frame V κ)}
  {h : List (Moment V κ σ)} {P : System V κ σ → System V κ σ → Prop}

/-- A thread whose frame has an effect in every store is not held up. -/
theorem System.next_of_resume {result : Return V} {frame : Frame V κ}
    (here : s.threads[t]? = some ⟨result, frame :: base⟩)
    (goes : ∀ s₁ : System V κ σ, s₁.threads[t]? = some ⟨result, frame :: base⟩ →
      ∃ e, s₁.store.resume client result frame = some e ∧ P s₁ (s₁.after t base e [])) :
    s.Next client t P := by
  intro h s₁ run others
  have still := run.returned here fun μ member same => absurd same (others μ member)
  obtain ⟨e, effect, leads⟩ := goes s₁ still
  exact ⟨_, step_of_resume still effect, leads⟩

theorem Callback.runs {callback : Callback κ}
    (here : s.threads[t]? = some ⟨.ok .unit, .start callback :: base⟩) :
    callback.Runs client t base s := by
  cases callback with
  | observe merge index =>
    exact System.next_of_resume here fun s₁ here => ⟨_, rfl, rfl, System.after_there here _ _⟩
  | signal f =>
    exact System.next_of_resume here fun s₁ here => ⟨_, rfl, rfl, System.after_there here _ _⟩
  | client code =>
    refine System.next_of_resume here fun s₁ here => ?_
    have enters : (s₁.after t base ⟨s₁.store, .ok .unit, [.client code]⟩ []).threads[t]? =
        some ⟨.ok .unit, .client code :: base⟩ := System.after_there here _ []
    refine ⟨_, rfl, rfl, enters, System.next_of_resume enters fun s₂ here => ?_⟩
    simp only [Store.resume, Store.proceed]
    split <;> rename_i action <;> rw [action] <;>
      exact ⟨_, rfl, rfl, System.after_there here _ []⟩

/-- A task is handed over at once, whatever its executor makes of it. -/
theorem Task.performed {task : Task κ} {a : Answer V}
    (here : s.threads[t]? = some ⟨.ok a, .call (.perform task) :: base⟩) :
    ∃ s', s.step client t = some s' ∧ task.Performed client t base s s' := by
  obtain ⟨callback, executor⟩ := task
  cases executor with
  | inline =>
    have starts := System.after_there here ⟨s.store, .ok .unit, [.start callback]⟩ []
    exact ⟨_, System.step_of_resume here rfl, .inline rfl starts (Callback.runs starts)⟩
  | join =>
    have starts := System.after_there here ⟨s.store, .ok .unit, [.start callback, .threadEnd]⟩ []
    exact ⟨_, System.step_of_resume here rfl, .join rfl starts (Callback.runs starts)⟩
  | refuse p =>
    exact ⟨_, System.step_of_resume here rfl, .refuse rfl (System.after_there here _ [])⟩
  | spawn =>
    have forks := System.after_there here ⟨s.store, .ok .unit,
      [.call (.fork (.perform ⟨callback, .inline⟩))]⟩ []
    refine ⟨_, System.step_of_resume here rfl, .spawn rfl fun h₁ s₁ run others => ?_⟩
    have forks := run.returned forks fun μ member same => absurd same (others μ member)
    have begun : (s₁.after t base ⟨s₁.store, .ok (.thread s₁.threads.length), []⟩
        [.perform ⟨callback, .inline⟩]).threads[s₁.threads.length]? =
          some ⟨.ok .unit, [.call (.perform ⟨callback, .inline⟩)]⟩ := by
      simp [System.after, Thread.ofCall]
    refine ⟨_, System.step_of_fork forks, rfl, System.after_there forks _ _, ?_⟩
    refine System.next_of_resume begun fun s₂ begun => ?_
    have starts := System.after_there begun ⟨s₂.store, .ok .unit, [.start callback]⟩ []
    exact ⟨_, rfl, rfl, starts, Callback.runs starts⟩

/-- Every callback of `r` that the run `h` from `s` to `s'` delivers is performed. -/
def Performs (client : Client V κ σ) (r : ResultId) (s : System V κ σ) (h : List (Moment V κ σ))
    (s' : System V κ σ) : Prop :=
  ∀ before μ later task, h = before ++ μ :: later → μ.delivered? r = some task →
    ∃ s₁ s₂, Run client Call.Fair s before s₁ ∧ s₁.moment? μ.thread = some μ ∧
      s₁.step client μ.thread = some s₂ ∧ task.Performed client μ.thread μ.below s₁ s₂ ∧
      Run client Call.Fair s₂ later s'

/-- No callback is lost between its delivery and its executor. -/
theorem Run.performs (run : Run client Call.Fair s h s') (r : ResultId) :
    Performs client r s h s' := by
  rintro before μ later task rfl hands
  obtain ⟨s₁, t, s₂, first, found, step, rest⟩ := run.split
  obtain ⟨-, rfl, selected⟩ := System.moment?_eq_some found
  obtain ⟨⟨a, answered⟩, frame⟩ := Moment.delivered?_eq_some hands
  rw [answered, frame] at selected
  obtain ⟨s₂', step', performed⟩ : ∃ s', s₁.step client μ.thread = some s' ∧
      task.Performed client μ.thread μ.below s₁ s' := Task.performed selected
  cases step.symm.trans step'
  exact ⟨s₁, s₂, first, found, step, performed, rest⟩

end

theorem getElem?_append_cases {α : Type} {xs ys : List α} {i : Nat} {x : α}
    (here : (xs ++ ys)[i]? = some x) : xs[i]? = some x ∨ ys[i - xs.length]? = some x := by
  rw [List.getElem?_append] at here
  split at here
  · exact .inl here
  · exact .inr here

/-- The last step of thread `t` in the history `h` handed over a task with this callback. -/
def HandedOver (callback : Callback κ) (t : Nat) (h : List (Moment V κ σ)) : Prop :=
  ∃ earlier μ between task, h = earlier ++ μ :: between ∧ μ.thread = t ∧
    (∀ ν ∈ between, ν.thread ≠ t) ∧ μ.hands? = some task ∧ task.callback = callback

theorem HandedOver.concat_other {callback : Callback κ} {t : Nat} {h : List (Moment V κ σ)}
    {μ : Moment V κ σ} (handed : HandedOver callback t h) (other : μ.thread ≠ t) :
    HandedOver callback t (h ++ [μ]) := by
  obtain ⟨earlier, ν, between, task, rfl, thread, others, hands, same⟩ := handed
  refine ⟨earlier, ν, between ++ [μ], task, by simp, thread, fun ω member => ?_, hands, same⟩
  rcases List.mem_append.mp member with member | member
  · exact others ω member
  · rw [List.mem_singleton.mp member]
    exact other

/-- A callback that is to start stands on top of its thread, which has just handed it over. -/
def Thread.StartsHanded (thread : Thread V κ) (t : Nat) (h : List (Moment V κ σ)) : Prop :=
  (∀ f ∈ thread.frames.tail, ∀ callback, f ≠ .start callback) ∧
    ∀ callback, thread.frames.head? = some (.start callback) → HandedOver callback t h

/-- A thread without callbacks that are to start. -/
theorem Thread.startsHanded_of_none {thread : Thread V κ} {t : Nat} {h : List (Moment V κ σ)}
    (none : ∀ f ∈ thread.frames, ∀ callback, f ≠ .start callback) : thread.StartsHanded t h :=
  ⟨fun f member => none f (List.mem_of_mem_tail member), fun callback top =>
    absurd rfl (none _ (List.mem_of_mem_head? top) callback)⟩

/-- The step lemma: only the step that hands a task over puts its callback on top. -/
theorem Moment.Yields.startsHanded {client : Client V κ σ} {μ : Moment V κ σ} {e : Effect V κ σ}
    {calls : List (Call V κ)} {h : List (Moment V κ σ)} (yields : μ.Yields client e calls)
    (below : ∀ f ∈ μ.below, ∀ callback, f ≠ .start callback) :
    Thread.StartsHanded ⟨e.result, e.frames ++ μ.below⟩ μ.thread (h ++ [μ]) := by
  have without (none : ∀ f ∈ e.frames, ∀ callback, f ≠ .start callback) :
      Thread.StartsHanded ⟨e.result, e.frames ++ μ.below⟩ μ.thread (h ++ [μ]) :=
    Thread.startsHanded_of_none (List.forall_mem_append.mpr ⟨none, below⟩)
  rcases yields.emits with ⟨-, emits⟩ | ⟨a, b, c, -, -, -, frames, -⟩
  · rcases emits.starts with none | ⟨a, task, rest, answered, frame, frames, none⟩
    · exact without none
    · rw [frames]
      refine ⟨List.forall_mem_append.mpr ⟨none, below⟩, fun callback top => ?_⟩
      cases top
      exact ⟨h, μ, [], task, rfl, rfl, nofun, by simp [Moment.hands?, answered, frame], rfl⟩
  · exact without (by simp [frames])

/-- The run lemma. -/
theorem Run.startsHanded {client : Client V κ σ} {rule : Store V κ σ → Call V κ → Prop}
    {s s' : System V κ σ} {h : List (Moment V κ σ)} (run : Run client rule s h s')
    (none : ∀ thread ∈ s.threads, ∀ f ∈ thread.frames, ∀ callback, f ≠ .start callback) :
    ∀ (t : Nat) (thread : Thread V κ), s'.threads[t]? = some thread → thread.StartsHanded t h := by
  have new (c : Call V κ) : ∀ f ∈ (Thread.ofCall c).frames, ∀ callback, f ≠ .start callback := by
    simp [Thread.ofCall]
  induction run with
  | start =>
    exact fun t thread here => Thread.startsHanded_of_none
      (none thread (List.mem_of_getElem? here))
  | @step h s₁ s₂ t' μ _ found step _ ih =>
    obtain ⟨μ', e, calls, moment, yields, rfl⟩ := System.step_yields step
    cases found.symm.trans moment
    obtain ⟨-, rfl, selected⟩ := System.moment?_eq_some found
    intro t thread here
    by_cases same : μ.thread = t
    · subst same
      cases here.symm.trans (System.after_self found e calls)
      exact yields.startsHanded (ih _ _ selected).1
    · rw [System.after] at here
      rcases getElem?_append_cases here with old | new'
      · rw [List.getElem?_set_ne same] at old
        obtain ⟨below, top⟩ := ih t _ old
        exact ⟨below, fun callback starts => (top callback starts).concat_other same⟩
      · obtain ⟨c, -, rfl⟩ := List.mem_map.mp (List.mem_of_getElem? new')
        exact Thread.startsHanded_of_none (new c)
  | begin c _ _ ih =>
    intro t thread here
    rcases getElem?_append_cases here with old | new'
    · exact ih t thread old
    · rw [List.mem_singleton.mp (List.mem_of_getElem? new')]
      exact Thread.startsHanded_of_none (new c)
  | pass _ _ _ ih => exact ih

/-- In a run from nothing, a callback starts only where it was just handed over. -/
theorem Run.starts {client : Client V κ σ} {rule : Store V κ σ → Call V κ → Prop} {memory : σ}
    {s : System V κ σ} {before later : List (Moment V κ σ)} {μ : Moment V κ σ}
    {callback : Callback κ} (run : Run client rule ⟨.empty memory, []⟩ (before ++ μ :: later) s)
    (starts : μ.frame = .start callback) : HandedOver callback μ.thread before := by
  obtain ⟨s₁, t, s₂, first, found, -, -⟩ := run.split
  obtain ⟨-, rfl, selected⟩ := System.moment?_eq_some found
  exact (first.startsHanded nofun _ _ selected).2 callback (by simp [starts])

end Quorate
