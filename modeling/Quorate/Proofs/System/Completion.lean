import Quorate.Proofs.System.Ledger
import Quorate.Proofs.System.Performing

/-! One call ends a result, and that call delivers. Among all calls that could end a result of a
producer, the first one to reach it takes its callbacks out and hands them over before it returns;
the others change nothing. A callback that comes later is handed over by its own registration. What
is handed over runs, unless its executor refuses it. -/

set_option autoImplicit false

namespace Quorate

variable {V κ σ : Type}

/-- Thread `t` begins the call `c` on top of the frames `base`, which leads to `s'`. The system runs
on from there, but the thread does nothing below the call. -/
inductive Spans (client : Client V κ σ) (c : Call V κ) (s : System V κ σ) (t : Nat)
    (base : List (Frame V κ)) (s' : System V κ σ) (h : List (Moment V κ σ)) (s₁ : System V κ σ) :
    Prop where
  | intro {store : Store V κ σ} {a : Answer V} :
      s.moment? t = some ⟨store, t, .ok a, .call c, base⟩ → s.step client t = some s' →
      Run client Call.Fair s' h s₁ → (∀ μ ∈ h, μ.thread = t → base.length ≤ μ.below.length) →
      Spans client c s t base s' h s₁

/-- A call that can end the result `r`. -/
def Call.Ends (r : ResultId) (c : Call V κ) : Prop := (Frame.call c).Ending r

theorem Call.Ends.not_passive {r : ResultId} {c : Call V κ} (ends : c.Ends r) :
    ¬ (Frame.call c).Passive := by
  intro passive
  cases c <;> first | exact passive | exact ends

/-- What comes of a call that could end a result. -/
inductive Decides (c : Call V κ) (r : ResultId) (x : Result V κ) (t : Nat) (base : List (Frame V κ))
    (s' : System V κ σ) (h : List (Moment V κ σ)) (s₁ : System V κ σ) : Prop where
  /-- The call ended the result: its thread alone hands the callbacks over, in order, and it returns
  when all of them are handed over and the readers are told. -/
  | won : x.cell.state.isPending = true →
      (∃ x', s'.store.results[r]? = some x' ∧ x'.cell.state.isPending = false) →
      (∀ μ ∈ h, μ.thread ≠ t → μ.delivered? r = none) → delivered r h <+: x.cell.queue →
      (∀ result, s₁.threads[t]? = some ⟨result, base⟩ →
        delivered r h = x.cell.queue ∧ s₁.store.Told r ∧
          (result = .ok (.flag true) ∨ ∃ p, result = .error p)) →
      Decides c r x t base s' h s₁
  /-- The call returned at once. -/
  | lost {b : Bool} : (∃ x', s'.store.results[r]? = some x' ∧ x'.cell = x.cell) →
      s'.threads[t]? = some ⟨.ok (.flag b), base⟩ → (b = true → c = .countDown r) →
      Decides c r x t base s' h s₁

namespace Store

variable {client : Client V κ σ} {s : Store V κ σ} {e : Effect V κ σ}

theorem completing_reply {r r' : ResultId} {x : Result V κ} {state : State V} {reply a : Answer V}
    {tasks : List (Task κ)} {first : Option Panic}
    (effect : s.completing r x state reply = some e)
    (frames : e.frames = [.deliver r' tasks first a]) : a = reply := by
  unfold completing at effect
  split at effect <;> cases effect
  · cases frames
  · cases frames
    rfl

/-- A call that ends a result will answer that it did. -/
theorem enter_reply {c : Call V κ} {r r' : ResultId} {a : Answer V} {tasks : List (Task κ)}
    {first : Option Panic} (effect : s.enter client c = some e) (ends : c.Ends r)
    (frames : e.frames = [.deliver r' tasks first a]) : a = .flag true := by
  cases c with
  | complete r'' state =>
    obtain ⟨x, -, -, effect⟩ := locking_eq_some effect
    exact completing_reply effect frames
  | countDown r'' =>
    obtain ⟨x, -, -, effect⟩ := locking_eq_some effect
    split at effect
    next => split at effect <;> cases effect <;> cases frames; rfl
    next => cases effect
  | cancel r'' =>
    obtain ⟨x, -, -, effect⟩ := locking_eq_some effect
    split at effect
    next => exact completing_reply effect frames
    next => cases effect; cases frames
    next => split at effect <;> cases effect <;> cases frames
    next => cases effect; cases frames
  | _ => exact ends.elim

/-- What the first step of a call does that could end a result: nothing, or it ends it. -/
inductive Enters (c : Call V κ) (r : ResultId) (x : Result V κ) (e : Effect V κ σ) : Prop where
  | leaves {b : Bool} : (∃ x', e.store.results[r]? = some x' ∧ x'.cell = x.cell) →
      e.result = .ok (.flag b) → e.frames = [] → (b = true → c = .countDown r) → Enters c r x e
  | ends : x.cell.state.isPending = true →
      (∃ x', e.store.results[r]? = some x' ∧ x'.cell.state.isPending = false) →
      e.result = .ok .unit → e.frames = [.deliver r x.cell.queue none (.flag true)] →
      Enters c r x e

theorem enter_enters {c : Call V κ} {r : ResultId} {x : Result V κ}
    (effect : s.enter client c = some e) (ends : c.Ends r) (sound : (Frame.call c).Sound s)
    (there : s.results[r]? = some x) (direct : x.Direct) : Enters c r x e := by
  have about : (Frame.call c).subject? = some r := ends.subject
  have after := (enter_touches .unit effect).there r x there
  rw [if_pos about] at after
  have emits := enter_emits (a := .unit) effect
  have reply {r' : ResultId} {a : Answer V} {tasks : List (Task κ)} {first : Option Panic}
      (frames : e.frames = [.deliver r' tasks first a]) : a = .flag true :=
    enter_reply effect ends frames
  generalize result : e.result = result' at emits
  generalize frames : e.frames = frames' at emits reply
  cases emits with
  | passive passive _ => exact absurd passive ends.not_passive
  | keeps ending found same counted =>
    cases about.symm.trans ending.subject
    cases there.symm.trans found
    exact .leaves ⟨_, after, same⟩ result frames fun yes => Frame.call.inj (counted yes)
  | settles about' found settles terminal form =>
    cases about.symm.trans about'
    cases there.symm.trans found
    cases reply rfl
    refine .ends settles.pending ⟨_, after, ?_⟩ result frames
    rw [settles.cell]
    rcases terminal with terminal | frame
    · exact terminal
    · rw [frame] at sound
      exact sound.terminal
  | sweeps found _ =>
    cases about
    cases there.symm.trans found
    exact direct.elim
  | serves form found foreign =>
    rcases form with rfl | ⟨task, rfl⟩
    · cases about
      cases there.symm.trans found
      rw [direct.own] at foreign
      cases foreign
    · exact ends.elim
  | _ => exact ends.elim

end Store

section

variable {client : Client V κ σ} {c : Call V κ} {s s' s₁ : System V κ σ} {t : Nat}
  {base : List (Frame V κ)} {h : List (Moment V κ σ)} {r : ResultId} {x : Result V κ}

/-- What the first step of a call leaves behind. -/
theorem Spans.entered (spans : Spans client c s t base s' h s₁) (apart : ∀ c', c ≠ .fork c') :
    ∃ e, s.store.enter client c = some e ∧ s'.store = e.store ∧
      s'.threads[t]? = some ⟨e.result, e.frames ++ base⟩ := by
  obtain ⟨found, step, -, -⟩ := spans
  obtain ⟨μ, e, calls, moment, yields, rfl⟩ := System.step_yields step
  cases found.symm.trans moment
  have store := (System.moment?_eq_some found).1
  have self := System.after_self found e calls
  dsimp only at store
  subst store
  cases yields with
  | resumed effect => exact ⟨e, effect, rfl, self⟩
  | forked _ _ fork =>
    cases fork
    exact absurd rfl (apart _)
  | joined _ _ join => cases join

/-- A call that has answered with its first step is over. -/
theorem Spans.answered {result : Return V} (spans : Spans client c s t base s' h s₁)
    (thread : s'.threads[t]? = some ⟨result, base⟩) : s₁.threads[t]? = some ⟨result, base⟩ := by
  obtain ⟨-, -, run, inside⟩ := spans
  exact run.returned thread inside

/-- The first step of a call that ends a result, or counts for it, does to the result what the call
does. -/
theorem Spans.touched (spans : Spans client c s t base s' h s₁)
    (there : s.store.results[r]? = some x) (ends : c.Ends r) :
    s'.store.results[r]? = some (x.touch (.ok .unit) (.call c)) := by
  obtain ⟨e, effect, store, -⟩ := spans.entered (by rintro c' rfl; exact ends)
  have after := (Store.enter_touches .unit effect).there r x there
  rw [if_pos (Frame.Ending.subject ends)] at after
  rw [store, after]

/-- The order of a system lasts through the first step of a call. -/
theorem Spans.ordered (spans : Spans client c s t base s' h s₁) (sound : s.Sound)
    (orderly : s.Orderly) : (Frame.call c).Sound s.store ∧ s'.Sound ∧ s'.Orderly := by
  obtain ⟨found, step, -, -⟩ := spans
  obtain ⟨μ, e, calls, moment, yields, rfl⟩ := System.step_yields step
  cases found.symm.trans moment
  exact ⟨(sound.frames.moment found).1, sound.step found (by simp [Moment.call?]) yields,
    orderly.step sound found yields⟩

theorem Spans.decides (spans : Spans client c s t base s' h s₁) (ends : c.Ends r) (sound : s.Sound)
    (orderly : s.Orderly) (there : s.store.results[r]? = some x) (direct : x.Direct) :
    Decides c r x t base s' h s₁ := by
  have apart (c' : Call V κ) : c ≠ .fork c' := by
    rintro rfl
    exact ends
  obtain ⟨e, effect, store, thread⟩ := spans.entered apart
  obtain ⟨called, sound', orderly'⟩ := spans.ordered sound orderly
  obtain ⟨-, -, run, inside⟩ := spans
  cases Store.enter_enters effect ends called there direct with
  | leaves after result frames counted =>
    rw [result, frames] at thread
    rw [← store] at after
    exact .lost after thread counted
  | ends pending after result frames =>
    rw [result, frames] at thread
    rw [← store] at after
    -- the call took the callbacks out, so the frame that delivers them is on its thread
    obtain ⟨⟨thread', there', delivery⟩, alone⟩ := run.delivering sound' orderly' thread inside
    refine .won pending after alone delivery.isPrefix fun result returned => ?_
    cases there'.symm.trans returned
    rcases delivery.working with ⟨higher, -⟩ | ⟨all, told, result', same, answer⟩
    · exact absurd higher (Nat.lt_irrefl _)
    · cases same
      exact ⟨all, told, answer⟩

/-- A callback that is registered on a pending result waits in its queue. -/
theorem Spans.queues {task : Task κ}
    (spans : Spans client (.register r task) s t base s' h s₁) (orderly : s.Orderly)
    (there : s.store.results[r]? = some x) (direct : x.Direct)
    (pending : x.cell.state.isPending = true) :
    s'.threads[t]? = some ⟨.ok .unit, base⟩ ∧ ∃ x', s'.store.results[r]? = some x' ∧
      x'.cell = { x.cell with queue := x.cell.queue ++ [task] } := by
  obtain ⟨e, effect, store, thread⟩ := spans.entered nofun
  have undrained := ((orderly.there r x there).waiting pending).1
  obtain ⟨x', there', -, effect⟩ := Store.locking_eq_some effect
  cases there.symm.trans there'
  simp only [direct.own, Bool.false_eq_true, if_false, Cell.enqueue, undrained] at effect
  cases effect
  have bound := (List.getElem?_eq_some_iff.mp there).1
  exact ⟨thread, _, by rw [store]; exact List.getElem?_set_self bound, by simp only [undrained]⟩

/-- A registration on a result that has ended goes straight to the executor: the queue was taken
when the result ended. -/
theorem Spans.registers {task : Task κ}
    (spans : Spans client (.register r task) s t base s' h s₁) (orderly : s.Orderly)
    (there : s.store.results[r]? = some x) (direct : x.Direct)
    (terminal : x.cell.state.isPending = false) :
    s'.threads[t]? = some ⟨.ok .unit, .call (.perform task) :: base⟩ := by
  obtain ⟨e, effect, store, thread⟩ := spans.entered nofun
  have drained := ((orderly.there r x there).ended terminal).1
  obtain ⟨x', there', -, effect⟩ := Store.locking_eq_some effect
  cases there.symm.trans there'
  simp only [direct.own, Bool.false_eq_true, if_false, Cell.enqueue, drained, if_true] at effect
  cases effect
  exact thread

/-- A callback that is registered on a result that has ended is handed over, once, before its
registration returns. -/
theorem Spans.registered {task : Task κ}
    (spans : Spans client (.register r task) s t base s' h s₁) (orderly : s.Orderly)
    (there : s.store.results[r]? = some x) (direct : x.Direct)
    (terminal : x.cell.state.isPending = false) :
    handed t base.length h <+: [task] ∧
      ∀ result, s₁.threads[t]? = some ⟨result, base⟩ → handed t base.length h = [task] := by
  have start := spans.registers orderly there direct terminal
  obtain ⟨-, -, run, inside⟩ := spans
  obtain ⟨thread', done, here, handover, hands⟩ := run.handover start inside
  rw [hands]
  constructor
  · cases done <;> simp
  · intro result returned
    cases here.symm.trans returned
    cases done with
    | true => rfl
    | false =>
      generalize same : Thread.mk result base = thread at handover
      cases handover with
      | ready => exact absurd (congrArg (fun thread => thread.frames.length) same) (by simp)

/-- How a result that is completed by its producers stands in a run `h` from `s₀` to `s`: who ended
it, and what became of its callbacks. -/
structure DeliveredOnce (client : Client V κ σ) (r : ResultId) (s₀ : System V κ σ)
    (h : List (Moment V κ σ)) (s : System V κ σ) (x : Result V κ) : Prop where
  /-- It took one terminal state at most, and keeps it. -/
  single : settled r h = [] ∨ settled r h = [x.cell.state]
  kept : x.cell.state.isPending = false → ∀ h' s', Run client Call.Fair s h' s' →
    ∃ x', s'.store.results[r]? = some x' ∧ x'.cell.state = x.cell.state
  /-- It took its state in the first step of a call that can end it. -/
  called : ∀ μ ∈ h, μ.settled? r ≠ none → (∃ a, μ.result = .ok a) ∧ μ.frame.Ending r
  /-- While it is pending, its callbacks wait, and none of them is handed over. -/
  waiting : x.cell.state.isPending = true →
    settled r h = [] ∧ delivered r h = [] ∧ x.cell.queue = queued r h
  /-- One that comes then joins the others, and its registration returns at once. -/
  queues : x.cell.state.isPending = true → ∀ task t base s' h' s₁,
    Spans client (.register r task) s t base s' h' s₁ →
      s'.threads[t]? = some ⟨.ok .unit, base⟩ ∧ ∃ x', s'.store.results[r]? = some x' ∧
        x'.cell = { x.cell with queue := x.cell.queue ++ [task] }
  /-- They are handed over in the order of their registration, none of them twice. -/
  ordered : delivered r h <+: queued r h
  /-- One that is handed over runs: the thread goes on with its code, or with a thread for it. Only
  an executor that refuses it keeps it from running. -/
  runs : Performs client r s₀ h s
  /-- No callback starts but where it was just handed over. -/
  only : ∀ before μ later callback, h = before ++ μ :: later → μ.frame = .start callback →
    HandedOver callback μ.thread before
  /-- All of them are handed over once nobody delivers any more. -/
  finished : x.cell.state.isPending = false → s.weight (Frame.delivers r) = 0 →
    delivered r h = queued r h ∧ x.cell.notified = true
  /-- The call that ends it delivers before it returns, and every other returns at once. -/
  decides : ∀ c t base s' h' s₁, Call.Ends r c → Spans client c s t base s' h' s₁ →
    Decides c r x t base s' h' s₁
  /-- A callback that comes later is handed over, and runs likewise, before its registration
  returns. -/
  late : x.cell.state.isPending = false → ∀ task t base s' h' s₁,
    Spans client (.register r task) s t base s' h' s₁ →
      s'.Next client t (task.Performed client t base) ∧ handed t base.length h' <+: [task] ∧
      ∀ result, s₁.threads[t]? = some ⟨result, base⟩ → handed t base.length h' = [task]

theorem Ledger.ordered (ledger : Ledger r h s x) : Quorate.delivered r h <+: queued r h := by
  cases ledger with
  | waiting _ _ none | born _ _ none =>
    rw [none]
    exact List.nil_prefix
  | ended _ _ delivering =>
    obtain ⟨thread, -, delivery⟩ := delivering
    exact delivery.isPrefix
  | delivered _ _ all => exact all ▸ List.prefix_rfl

theorem Ledger.finished (ledger : Ledger r h s x) (terminal : x.cell.state.isPending = false)
    (idle : s.weight (Frame.delivers r) = 0) :
    Quorate.delivered r h = queued r h ∧ s.store.Told r := by
  cases ledger with
  | waiting pending => exact absurd pending (by simp [terminal])
  | born _ _ none empty told => exact ⟨none.trans empty.symm, told⟩
  | ended _ _ delivering =>
    obtain ⟨thread, there, delivery⟩ := delivering
    rcases delivery.working with ⟨-, works⟩ | ⟨all, told, -⟩
    · have enough := System.load_le (w := Frame.delivers r) there
      omega
    · exact ⟨all, told⟩
  | delivered _ _ all told => exact ⟨all, told⟩

/-- A settable result or a latch is ended by one call at most, which delivers all callbacks that
were registered before, once and in order; later ones are handed over as they come. -/
theorem completion_delivers_once {memory : σ} (run : Run client Call.Fair ⟨.empty memory, []⟩ h s)
    (there : s.store.results[r]? = some x) (direct : x.Direct) :
    DeliveredOnce client r ⟨.empty memory, []⟩ h s x := by
  have sound := run.sound (System.sound_empty memory)
  have orderly := run.orderly (System.sound_empty memory) (System.orderly_empty memory)
  have ledger := run.recorded.there r x there direct
  constructor
  · cases ledger with
    | waiting _ unsettled | born _ unsettled => exact .inl unsettled
    | ended _ once | delivered _ once => exact .inr once
  · intro terminal h' s' later
    obtain ⟨x', there', later⟩ := later.store_later r x there
    exact ⟨x', there', later.state terminal⟩
  · exact run.recorded.called r x there direct
  · exact ledger.pending
  · intro pending task t base s' h' s₁ spans
    exact spans.queues orderly there direct pending
  · exact ledger.ordered
  · exact run.performs r
  · rintro before μ later callback rfl starts
    exact run.starts starts
  · intro terminal idle
    obtain ⟨all, x', there', told⟩ := ledger.finished terminal idle
    cases there.symm.trans there'
    exact ⟨all, told⟩
  · intro c t base s' h' s₁ ends spans
    exact spans.decides ends sound orderly there direct
  · intro terminal task t base s' h' s₁ spans
    have start := spans.registers orderly there direct terminal
    refine ⟨fun h₂ s₂ next others => ?_, spans.registered orderly there direct terminal⟩
    exact Task.performed (next.returned start fun μ member same => absurd same (others μ member))

end

namespace Panicked

def client : Client Unit Unit Unit := .panicking Unit "boom"

/-- A result with a callback that panics and one that no executor takes, which then succeeds. -/
def succeeded : List (Moment Unit Unit Unit) × System Unit Unit Unit :=
  (System.mk (.empty ()) []).perform client [(.create .settable, 1),
    (.register 0 ⟨.client (), .inline⟩, 1), (.register 0 ⟨.client (), .refuse "full"⟩, 1),
    (.complete 0 (.succeeded ()), 10)]

theorem both_delivered :
    Run client Call.Fair ⟨.empty (), []⟩ succeeded.1 succeeded.2 ∧
      (∃ x, succeeded.2.store.results[0]? = some x ∧ x.Direct ∧
        DeliveredOnce client 0 ⟨.empty (), []⟩ succeeded.1 succeeded.2 x) ∧
      settled 0 succeeded.1 = [.succeeded ()] ∧
      delivered 0 succeeded.1 = [⟨.client (), .inline⟩, ⟨.client (), .refuse "full"⟩] ∧
      -- the code of the first callback is entered, and panics
      (∃ s s₁ s₂ below, Run client Call.Fair ⟨.empty (), []⟩ (succeeded.1.take 6) s ∧
        s.step client 3 = some s₁ ∧ s₁.threads[3]? = some ⟨.ok .unit, .client () :: below⟩ ∧
        s₁.step client 3 = some s₂ ∧ s₂.threads[3]? = some ⟨.error "boom", below⟩) ∧
      -- no executor takes the second one
      (∃ s s₁ below, Run client Call.Fair ⟨.empty (), []⟩ (succeeded.1.take 10) s ∧
        s.step client 3 = some s₁ ∧ s₁.threads[3]? = some ⟨.error "full", below⟩) ∧
      succeeded.2.threads[3]? = some ⟨.error "boom", []⟩ := by
  have run : Run client Call.Fair ⟨.empty (), []⟩ succeeded.1 succeeded.2 :=
    Run.perform Client.panicking_fair _ _
  have there : succeeded.2.store.results[0]? =
      some ⟨⟨.succeeded (), [], true, true⟩, .settable⟩ := rfl
  have once := completion_delivers_once run there trivial
  have idle : succeeded.2.weight (Frame.delivers 0) = 0 := rfl
  have queue : queued 0 succeeded.1 =
      [⟨.client (), .inline⟩, ⟨.client (), .refuse "full"⟩] := rfl
  refine ⟨run, ⟨_, there, trivial, once⟩, rfl, (once.finished rfl idle).1.trans queue, ?_, ?_, rfl⟩
  · obtain ⟨s, s₁, first, found, step, performed, -⟩ :=
      once.runs (succeeded.1.take 5) _ (succeeded.1.drop 6) ⟨.client (), .inline⟩ rfl rfl
    cases performed with
    | inline _ _ runs =>
      obtain ⟨s₂, enters, -, entered, panics⟩ := runs [] s₁ .start nofun
      obtain ⟨s₃, ends, -, ended⟩ := panics [] s₂ .start nofun
      exact ⟨s₁, s₂, s₃, _, first.step found step nofun, enters, entered, ends, ended⟩
  · obtain ⟨s, s₁, first, -, step, performed, -⟩ :=
      once.runs (succeeded.1.take 10) _ (succeeded.1.drop 11) ⟨.client (), .refuse "full"⟩ rfl rfl
    cases performed with
    | refuse _ panics => exact ⟨s, s₁, _, first, step, panics⟩

end Panicked

end Quorate
