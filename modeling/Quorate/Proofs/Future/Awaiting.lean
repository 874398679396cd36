import Quorate.Proofs.Future.Waking
import Quorate.Proofs.Merge.Waiting

/-! Awaiting a result agrees with reading it. A future that resolves does so with the outcome of the
state that its result has ended in: it was woken and reads the result, or it lost its callback to
the unwinding cancellation of a merge, which is then cancelled indeed. -/

set_option autoImplicit false

namespace Quorate

variable {V κ σ : Type}

theorem State.ended_of_outcome {state : State V} {o : Outcome V} (outcome : state.outcome? = some o) :
    state.isPending = false := by
  cases state <;> first | rfl | cases outcome

/-- How far a poll of the future `f`, which reads the result `r`, has come: what its thread goes on
with, and what stands above the frames below the poll. -/
inductive Polling (s : Store V κ σ) (f : FutureId) (r : ResultId) :
    Return V → List (Frame V κ) → Prop where
  | registers {a : Answer V} :
      Polling s f r (.ok a) [.call (.register r ⟨.signal f, .inline⟩), .check f]
  | performs {a : Answer V} :
      Polling s f r (.ok a) [.call (.perform ⟨.signal f, .inline⟩), .check f]
  | wakes {a : Answer V} : Polling s f r (.ok a) [.start (.signal f), .check f]
  | checks {a : Answer V} : Polling s f r (.ok a) [.check f]
  | reads {a : Answer V} : s.HasEnded r → Polling s f r (.ok a) [.call (.get r none)]
  | locks {a : Answer V} : s.HasEnded r → Polling s f r (.ok a) [.read r none none]
  | waits : s.HasEnded r → Polling s f r (.ok .unit) [.wait r none none true]
  | pends : Polling s f r (.ok .pending) []
  | resolves {x : Result V κ} {o : Outcome V} : s.results[r]? = some x →
      x.cell.state.outcome? = some o → Polling s f r (.ok (.outcome o)) []

section

variable {client : Client V κ σ} {s s' : Store V κ σ} {f : FutureId} {r : ResultId}
  {result : Return V} {frame : Frame V κ} {frames : List (Frame V κ)} {e : Effect V κ σ}

theorem Polling.later (polling : Polling s f r result frames) (later : s.Later s') :
    Polling s' f r result frames := by
  cases polling with
  | registers => exact .registers
  | performs => exact .performs
  | wakes => exact .wakes
  | checks => exact .checks
  | reads ended => exact .reads (later.hasEnded ended)
  | locks ended => exact .locks (later.hasEnded ended)
  | waits ended => exact .waits (later.hasEnded ended)
  | pends => exact .pends
  | resolves found outcome =>
    obtain ⟨x', found', later⟩ := later r _ found
    refine .resolves found' ?_
    rw [later.state (State.ended_of_outcome outcome)]
    exact outcome

theorem Store.not_foreign {x : Result V κ} (found : s.results[r]? = some x)
    (own : x.isForeign = false) : ¬ s.Foreign r := by
  rintro ⟨x', found', foreign⟩
  cases found.symm.trans found'
  cases own.symm.trans foreign

/-- A future that finds out that it was woken goes on to read, and one that lost its callback answers
for its result, which is cancelled. -/
theorem Store.check_polls {a : Answer V} {future : Future} {x : Result V κ} (wakings : s.Wakings)
    (there : s.futures[f]? = some future) (found : s.results[future.result]? = some x)
    (own : x.isForeign = false) (effect : s.proceed client a (.check f) = some e) :
    Polling e.store f future.result e.result e.frames := by
  have apart := not_foreign found own
  simp only [proceed, there] at effect
  split at effect <;> cases effect
  next sent => exact .reads ((wakings.woken f future there sent).resolve_left apart)
  next dropped =>
    obtain ⟨x', found', -, cancelled⟩ :=
      ((wakings.lost f future there dropped).resolve_left apart).terminal
    exact .resolves found' (by rw [cancelled]; rfl)
  all_goals exact .pends

theorem Polling.step {future : Future} {x : Result V κ} (wakings : s.Wakings)
    (there : s.futures[f]? = some future) (found : s.results[future.result]? = some x)
    (own : x.isForeign = false) (polling : Polling s f future.result result (frame :: frames))
    (effect : s.resume client result frame = some e) :
    Polling e.store f future.result e.result (e.frames ++ frames) := by
  cases polling with
  | registers =>
    have effect : s.enter client (.register future.result ⟨.signal f, .inline⟩) = some e := effect
    obtain ⟨x', found', -, effect⟩ := Store.locking_eq_some effect
    cases found.symm.trans found'
    simp only [own, Bool.false_eq_true, if_false] at effect
    split at effect <;> cases effect
    · exact .performs
    · exact .checks
  | performs => cases effect; exact .wakes
  | wakes => cases effect; exact .checks
  | @checks a =>
    rw [List.append_nil]
    have effect : s.proceed client a (.check f) = some e := effect
    exact Store.check_polls wakings there found own effect
  | @reads a ended =>
    have enters : s.resume client (.ok a) (.call (.get future.result none)) = _ :=
      Store.get_enters found own
    cases effect.symm.trans enters
    exact .locks ended
  | @locks a ended =>
    obtain ⟨x', found', terminal⟩ := ended
    cases found.symm.trans found'
    obtain ⟨x₀, found₀, -, effect⟩ := Store.locking_eq_some effect
    cases found.symm.trans found₀
    rw [terminal] at effect
    cases effect
    exact .waits ⟨x, found, terminal⟩
  | waits =>
    have effect : s.proceed client .unit (.wait future.result none none true) = some e := effect
    obtain ⟨x', o, found', -, releases, rfl⟩ := Store.wait_goes.mp effect
    cases releases with
    | ended outcome => exact .resolves found' outcome
    | expired _ limited => cases limited

/-- A poll neither forks nor joins: what it yields is the effect of its frame. -/
theorem Polling.resumed {μ : Moment V κ σ} {calls : List (Call V κ)}
    (polling : Polling s f r μ.result (μ.frame :: frames)) (yields : μ.Yields client e calls) :
    μ.store.resume client μ.result μ.frame = some e := by
  obtain ⟨store, t, result, frame, below⟩ := μ
  cases yields with
  | resumed effect => exact effect
  | forked _ _ fork => cases fork; cases polling
  | joined _ _ join => cases join; cases polling

end

/-- The result `r` has ended with the outcome `o`, and all its readers get that. -/
structure Agreed (client : Client V κ σ) (r : ResultId) (o : Outcome V) (s : System V κ σ) :
    Prop where
  /-- The result has ended, and keeps its outcome. -/
  outcome : ∀ h s', Run client Call.Fair s h s' →
    ∃ x, s'.store.results[r]? = some x ∧ x.cell.state.outcome? = some o
  /-- Whoever comes to read it, with or without a timeout, is not held up by anything that other
  threads do: it comes in, finds the result and is answered with the outcome, each with the next step
  of its thread. -/
  reads : ∀ h s' t μ timeout, Run client Call.Fair s h s' → s'.moment? t = some μ →
    μ.frame = .call (.get r timeout) → (∃ a, μ.result = .ok a) →
    ∃ s₁, s'.step client t = some s₁ ∧ s₁.Next client t fun s₁ s₂ => s₂.store = s₁.store ∧
      s₂.Next client t fun s₂ s₃ => s₃.store = s₂.store ∧
        s₃.threads[t]? = some ⟨.ok (.outcome o), μ.below⟩
  /-- Readers who came before are answered with nothing else. -/
  answers : ∀ h s' timeout deadline early t base o' s₁, Run client Call.Fair s h s' →
    Answered client r timeout deadline early t base s' o' s₁ → o' = o

section

variable {client : Client V κ σ} {s s₁ : System V κ σ} {h : List (Moment V κ σ)} {t : Nat}
  {base : List (Frame V κ)} {f : FutureId} {r : ResultId} {future : Future} {x : Result V κ}

theorem System.Waking.polling {μ : Moment V κ σ} {e : Effect V κ σ} {calls : List (Call V κ)}
    {frames : List (Frame V κ)} (waking : s.Waking) (there : s.store.futures[f]? = some future)
    (found : s.store.results[future.result]? = some x) (own : x.isForeign = false)
    (moment : s.moment? t = some μ)
    (polling : Polling s.store f future.result μ.result (μ.frame :: frames))
    (yields : μ.Yields client e calls) :
    Polling e.store f future.result e.result (e.frames ++ frames) := by
  have effect := polling.resumed yields
  rw [(moment?_eq_some moment).1] at effect
  exact polling.step waking.store there found own effect

theorem Run.honest_fair (run : Run client (fun s c => c.Honest s) s h s₁) :
    Run client Call.Fair s h s₁ := run.mono fun _ _ => And.left

/-- A future is still there after a run, and reads the same result. -/
theorem Run.grows {rule : Store V κ σ → Call V κ → Prop} (run : Run client rule s h s₁) :
    s.store.Grows s₁.store := by
  refine ⟨run.store_later, ?_⟩
  induction run with
  | start => exact fun f future there => ⟨future, there, rfl⟩
  | step _ found step _ ih =>
    obtain ⟨μ, e, calls, moment, yields, rfl⟩ := System.step_yields step
    intro f future there
    obtain ⟨future₁, there₁, same⟩ := ih f future there
    have rephases := yields.rephases
    rw [(System.moment?_eq_some moment).1] at rephases
    obtain ⟨phase, there₂, -⟩ := rephases.there f future₁ there₁
    exact ⟨_, there₂, same⟩
  | begin _ _ _ ih => exact ih
  | pass _ _ _ ih => exact ih

/-- A thread that polls goes through the stages of the poll, whatever other threads do. -/
theorem Run.polling (run : Run client (fun s c => c.Honest s) s h s₁) (sound : s.Sound)
    (orderly : s.Orderly) (waking : s.Waking) (there : s.store.futures[f]? = some future)
    (found : s.store.results[future.result]? = some x) (own : x.isForeign = false)
    {result : Return V} {frames : List (Frame V κ)}
    (here : s.threads[t]? = some ⟨result, frames ++ base⟩)
    (polling : Polling s.store f future.result result frames)
    (inside : ∀ μ ∈ h, μ.thread = t → base.length ≤ μ.below.length) :
    ∃ result frames, s₁.threads[t]? = some ⟨result, frames ++ base⟩ ∧
      Polling s₁.store f future.result result frames := by
  induction run with
  | start => exact ⟨result, frames, here, polling⟩
  | @step h s₁ s₂ t' μ run found' step honest ih =>
    obtain ⟨result, frames, here, polling⟩ := ih fun ν member => inside ν (by simp [member])
    obtain ⟨future₁, there₁, same⟩ := run.grows.futures f future there
    obtain ⟨x₁, found₁, later⟩ := run.store_later _ x found
    have waking := run.waking sound orderly waking
    obtain ⟨store, thread, selected⟩ := System.moment?_eq_some found'
    obtain ⟨μ', e, calls, moment, yields, rfl⟩ := System.step_yields step
    cases found'.symm.trans moment
    by_cases own' : t' = t
    · subst own'
      cases frames with
      | nil =>
        -- the poll has returned, and the thread does nothing below
        have frames : base = μ.frame :: μ.below :=
          congrArg Thread.frames (Option.some.inj (here.symm.trans selected))
        have lower := inside μ (by simp) thread
        rw [frames, List.length_cons] at lower
        omega
      | cons frame frames =>
        have self := System.after_self moment e calls
        obtain ⟨store', t', result', frame', below⟩ := μ
        cases here.symm.trans selected
        rw [← same] at found₁ polling ⊢
        refine ⟨e.result, e.frames ++ frames, by rw [self, List.append_assoc]; rfl, ?_⟩
        exact waking.polling there₁ found₁ (later.isForeign.trans own) moment polling yields
    · have touches := yields.touches
      rw [store] at touches
      exact ⟨result, frames, System.after_other here own' μ.below e calls,
        polling.later touches.later⟩
  | begin c _ _ ih =>
    obtain ⟨result, frames, here, polling⟩ := ih inside
    exact ⟨result, frames, System.begin_other here c, polling⟩
  | pass now _ _ ih =>
    obtain ⟨result, frames, here, polling⟩ := ih inside
    exact ⟨result, frames, here, polling.later (Store.later_of_results rfl)⟩

/-- All readers of a result that has ended get its outcome. -/
theorem System.Orderly.agreed {o : Outcome V} (orderly : s.Orderly) (sound : s.Sound)
    (found : s.store.results[r]? = some x) (own : x.isForeign = false)
    (outcome : x.cell.state.outcome? = some o) : Agreed client r o s := by
  have ended := State.ended_of_outcome outcome
  have kept (h : List (Moment V κ σ)) (s' : System V κ σ) (run : Run client Call.Fair s h s') :
      ∃ x', s'.store.results[r]? = some x' ∧ x'.isForeign = false ∧
        x'.cell.state.outcome? = some o := by
    obtain ⟨x', found', later⟩ := run.store_later r x found
    exact ⟨x', found', later.isForeign.trans own, by rw [later.state ended]; exact outcome⟩
  refine ⟨fun h s' run => ?_, ?_, ?_⟩
  · obtain ⟨x', found', -, outcome'⟩ := kept h s' run
    exact ⟨x', found', outcome'⟩
  · intro h s' t μ timeout run moment gets goes
    obtain ⟨x', found', own', outcome'⟩ := kept h s' run
    obtain ⟨a, goes⟩ := goes
    have selected := (System.moment?_eq_some moment).2.2
    rw [gets, goes] at selected
    obtain ⟨s₁, step, -, reads⟩ := System.get_steps found' own' selected
    refine ⟨s₁, step, fun h₁ s₁ next others => ?_⟩
    have reads := next.returned reads fun ν member same => absurd same (others ν member)
    have here := (run.step moment step (by simp [Moment.call?, gets])).trans next
    obtain ⟨x₁, found₁, -, outcome₁⟩ := kept _ s₁ here
    have ended₁ := State.ended_of_outcome outcome₁
    have free₁ := ((here.orderly sound orderly).readable found₁ ended₁).1
    obtain ⟨s₂, step, still, waits⟩ := System.read_steps found₁ free₁ reads
    rw [ended₁] at waits
    refine ⟨s₂, step, still, fun h₂ s₂ next others => ?_⟩
    have waits := next.returned waits fun ν member same => absurd same (others ν member)
    have there := (here.step (System.moment?_there reads) step (by simp [Moment.call?])).trans next
    obtain ⟨x₂, found₂, -, outcome₂⟩ := kept _ s₂ there
    have free₂ := ((there.orderly sound orderly).readable found₂ (State.ended_of_outcome outcome₂)).1
    obtain ⟨s₃, answered⟩ := System.wait_steps waits found₂ free₂ (.ended outcome₂ (.inl rfl))
    exact ⟨s₃, answered.steps, answered.still, answered.returns⟩
  · intro h s' timeout deadline early t base o' s₁ run answered
    obtain ⟨x', found', -, outcome'⟩ := kept h s' run
    obtain ⟨x₀, found₀, releases⟩ := answered.releases
    cases found'.symm.trans found₀
    cases releases with
    | ended outcome₀ => exact Option.some.inj (outcome₀.symm.trans outcome')
    | expired pending => cases pending.symm.trans (State.ended_of_outcome outcome')

end

/-- How a future stands to the result of the library that it reads. -/
structure Awaitable (client : Client V κ σ) (f : FutureId) (future : Future) (x : Result V κ)
    (s : System V κ σ) : Prop where
  /-- It was woken by the end of its result. -/
  woken : future.phase = .sent → x.cell.state ≠ .pending
  /-- It lost its callback to the cancellation of its result. -/
  lost : future.phase = .dropped → x.cell.state = .cancelled
  /-- A poll that returns has nothing to answer yet, or answers what all readers get. -/
  polled : ∀ t μ s' h s₁ result, s.moment? t = some μ → μ.frame = .call (.poll f) →
    (∃ a, μ.result = .ok a) → s.step client t = some s' →
    Run client (fun s c => c.Honest s) s' h s₁ →
    (∀ ν ∈ h, ν.thread = t → μ.below.length ≤ ν.below.length) →
    s₁.threads[t]? = some ⟨result, μ.below⟩ →
    result = .ok .pending ∨
      ∃ o, result = .ok (.outcome o) ∧ Agreed client future.result o s₁

section

variable {client : Client V κ σ} {s s' : System V κ σ} {h : List (Moment V κ σ)} {t : Nat}
  {f : FutureId} {future : Future} {x : Result V κ} {μ : Moment V κ σ}

/-- The first step of a poll. -/
theorem System.begins_polling (there : s.store.futures[f]? = some future)
    (moment : s.moment? t = some μ) (polls : μ.frame = .call (.poll f))
    (goes : ∃ a, μ.result = .ok a) (step : s.step client t = some s') :
    ∃ result frames, s'.threads[t]? = some ⟨result, frames ++ μ.below⟩ ∧
      Polling s'.store f future.result result frames := by
  obtain ⟨a, goes⟩ := goes
  have selected := (moment?_eq_some moment).2.2
  rw [polls, goes] at selected
  have effect : ∃ e, s.store.enter client (.poll f) = some e ∧ e.result = .ok .unit ∧
      Polling e.store f future.result e.result e.frames := by
    simp only [Store.enter, there]
    split
    · exact ⟨_, rfl, rfl, .registers⟩
    · exact ⟨_, rfl, rfl, .checks⟩
  obtain ⟨e, effect, -, polling⟩ := effect
  have resumes : s.store.resume client (.ok a) (.call (.poll f)) = some e := effect
  cases step.symm.trans (step_of_resume selected resumes)
  exact ⟨e.result, e.frames, after_self moment e [], polling⟩

/-- Awaiting a result of the library agrees with reading it, whatever panics. -/
theorem awaiting_agrees_with_reading {memory : σ}
    (run : Run client (fun s c => c.Honest s) ⟨.empty memory, []⟩ h s)
    (there : s.store.futures[f]? = some future)
    (found : s.store.results[future.result]? = some x) (own : x.isForeign = false) :
    Awaitable client f future x s := by
  have sound := run.honest_fair.sound (System.sound_empty memory)
  have orderly := run.honest_fair.orderly (System.sound_empty memory) (System.orderly_empty memory)
  have waking := run.waking (System.sound_empty memory) (System.orderly_empty memory)
    (System.waking_empty memory)
  have apart := Store.not_foreign found own
  constructor
  · intro sent
    obtain ⟨x', found', ended⟩ := (waking.store.woken f future there sent).resolve_left apart
    cases found.symm.trans found'
    exact (State.isPending_eq_false_iff _).mp ended
  · intro dropped
    obtain ⟨x', found', -, cancelled⟩ :=
      ((waking.store.lost f future there dropped).resolve_left apart).terminal
    cases found.symm.trans found'
    exact cancelled
  · intro t μ s' h' s₁ result moment polls goes step rest inside returned
    have silent : ∀ c, μ.call? client = some c → c.Honest μ.store := by
      simp [Moment.call?, polls]
    have first : Run client (fun s c => c.Honest s) s ([] ++ [μ]) s' :=
      .step .start moment step silent
    obtain ⟨result₀, frames₀, here, polling⟩ := System.begins_polling there moment polls goes step
    obtain ⟨future', there', same⟩ := first.grows.futures f future there
    obtain ⟨x', found', later⟩ := first.store_later _ x found
    have own' := later.isForeign.trans own
    rw [← same] at found' polling
    have sound' := first.honest_fair.sound sound
    have orderly' := first.honest_fair.orderly sound orderly
    obtain ⟨result₁, frames, here', polling⟩ := rest.polling sound' orderly'
      (first.waking sound orderly waking) there' found' own' here polling inside
    have top := Option.some.inj (returned.symm.trans here')
    obtain rfl : result = result₁ := congrArg Thread.result top
    -- nothing of the poll is left above the frames below it
    obtain rfl : frames = [] := List.self_eq_append_left.mp (congrArg Thread.frames top)
    cases polling with
    | pends => exact .inl rfl
    | @resolves x₁ o found₁ outcome =>
      obtain ⟨x₂, found₂, later₂⟩ := rest.store_later _ x' found'
      cases found₁.symm.trans found₂
      rw [← same]
      have agreed : Agreed client future'.result o s₁ :=
        (rest.honest_fair.orderly sound' orderly').agreed (rest.honest_fair.sound sound') found₁
          (later₂.isForeign.trans own') outcome
      exact .inr ⟨o, rfl, agreed⟩

end

namespace Unwound

def client : Client Unit Unit Unit := .panicking Unit "boom"

/-- A merge of one source. A callback of the source panics, a future awaits the merge, and the merge
is cancelled. Then the future is to be polled again. -/
def cancelled : List (Moment Unit Unit Unit) × System Unit Unit Unit :=
  (System.mk (.empty ()) []).perform client [(.create .settable, 1),
    (.build (.plain fun _ => .ok (.ok ())) [0], 4), (.register 0 ⟨.client (), .inline⟩, 1),
    (.await 1, 1), (.poll 0, 3), (.cancel 1, 15), (.poll 0, 0)]

def polled : List (Moment Unit Unit Unit) × System Unit Unit Unit := cancelled.2.drive client [6, 6]

theorem resolves_as_cancelled :
    Run client (fun s c => c.Honest s) ⟨.empty (), []⟩ cancelled.1 cancelled.2 ∧
      cancelled.2.threads[5]? = some ⟨.error "boom", []⟩ ∧
      cancelled.2.store.futures[0]? = some ⟨1, .dropped⟩ ∧
      (∃ x, cancelled.2.store.results[1]? = some x ∧ x.isForeign = false ∧
        Awaitable client 0 ⟨1, .dropped⟩ x cancelled.2 ∧ x.cell.state = .cancelled) ∧
      polled.2.threads[6]? = some ⟨.ok (.outcome (.error .cancelled)), []⟩ ∧
      Agreed client 1 (.error .cancelled) polled.2 := by
  have run : Run client (fun s c => c.Honest s) ⟨.empty (), []⟩ cancelled.1 cancelled.2 := by
    refine Run.perform_honest Client.panicking_honest _ ?_
    simp [Call.Discreet, Task.Wakes]
  have there : cancelled.2.store.futures[0]? = some ⟨1, .dropped⟩ := rfl
  obtain ⟨x, found⟩ : ∃ x, cancelled.2.store.results[1]? = some x := ⟨_, rfl⟩
  have kind : (cancelled.2.store.results[1]?.map fun x => x.isForeign) = some false := rfl
  rw [found] at kind
  have own : x.isForeign = false := Option.some.inj kind
  have awaitable := awaiting_agrees_with_reading run there found own
  have next : Run client (fun s c => c.Honest s) (cancelled.2.drive client [6]).2
      ((cancelled.2.drive client [6]).2.drive client [6]).1 polled.2 :=
    Run.drive Client.panicking_honest _ _
  have answer : polled.2.threads[6]? = some ⟨.ok (.outcome (.error .cancelled)), []⟩ := rfl
  refine ⟨run, rfl, there, ⟨x, found, own, awaitable, awaitable.lost rfl⟩, answer, ?_⟩
  have agrees := awaitable.polled 6 ⟨cancelled.2.store, 6, .ok .unit, .call (.poll 0), []⟩ _ _ _ _
    rfl rfl ⟨.unit, rfl⟩ rfl next (fun _ _ _ => Nat.zero_le _) answer
  rcases agrees with pends | ⟨o, same, agreed⟩
  · cases pends
  · cases same
    exact agreed

end Unwound

end Quorate
