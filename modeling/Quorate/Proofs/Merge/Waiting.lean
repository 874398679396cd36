import Mathlib.Algebra.Group.Nat.Defs
import Quorate.Proofs.Merge.Account
import Quorate.Proofs.System.Completion

/-! Readers that wait for a result. One that came before it ended is answered when all callbacks
are dispatched, or at its deadline; one that came later is answered at once. The deadline is known
before the result is locked. What a reader gets is the outcome of the one state that the result ends
in, or its own timeout, and no reader changes anything. -/

set_option autoImplicit false

namespace Quorate

variable {V κ σ : Type}

/-- What a reader may take from a cell at an instant. The error of a failed state is an outcome like
any other, whatever it says. -/
inductive Cell.Releases {T : Type} (c : Cell V T) (timeout : Option Duration)
    (deadline : Option Nat) (terminalOnEntry : Bool) (now : Nat) : Outcome V → Prop where
  | ended {o : Outcome V} : c.state.outcome? = some o →
      terminalOnEntry = true ∨ c.notified = true ∨
        (∃ limit d, timeout = some limit ∧ deadline = some d ∧ d ≤ now) →
      Releases c timeout deadline terminalOnEntry now o
  | expired {limit : Duration} {d : Nat} : c.state.isPending = true → timeout = some limit →
      deadline = some d → d ≤ now →
      Releases c timeout deadline terminalOnEntry now (.error (.timeout limit))

/-- How long a read waits that comes in at the instant `now`: as long as it takes, or until the
timeout is over, if the clock ever gets there. -/
inductive Lasts (now : Nat) : Option Duration → Option Nat → Prop where
  | forever : Lasts now none none
  | timed {limit : Duration} : now + limit.nanoseconds < 2 ^ 63 * 10 ^ 9 →
      Lasts now (some limit) (some (now + limit.nanoseconds))
  | endless {limit : Duration} : 2 ^ 63 * 10 ^ 9 ≤ now + limit.nanoseconds →
      Lasts now (some limit) none

/-- A deadline needs a timeout. -/
theorem Lasts.timeout {now d : Nat} {timeout : Option Duration} {deadline : Option Nat}
    (lasts : Lasts now timeout deadline) (until' : deadline = some d) :
    ∃ limit, timeout = some limit := by
  cases lasts with
  | timed => exact ⟨_, rfl⟩
  | forever | endless => cases until'

section

variable {client : Client V κ σ} {s : Store V κ σ} {a : Answer V} {r : ResultId}
  {timeout : Option Duration} {deadline : Option Nat} {terminalOnEntry : Bool} {e : Effect V κ σ}

theorem Store.deadline_lasts (s : Store V κ σ) (timeout : Option Duration) :
    Lasts s.now timeout (s.deadline timeout) := by
  cases timeout with
  | none => exact .forever
  | some limit =>
    unfold deadline
    simp only [Option.bind_some]
    split
    next small => exact .timed small
    next large => exact .endless (Nat.not_lt.mp large)

/-- A reader goes on when its result is not locked and may be read, and changes nothing. -/
theorem Store.wait_goes : s.proceed client a (.wait r timeout deadline terminalOnEntry) = some e ↔
    ∃ x o, s.results[r]? = some x ∧ x.isHeld = false ∧
      x.cell.Releases timeout deadline terminalOnEntry s.now o ∧
        e = ⟨s, .ok (.outcome o), []⟩ := by
  constructor
  · intro effect
    have inside := locking_eq_some effect
    clear effect
    obtain ⟨x, found, free, effect⟩ := inside
    split at effect
    next o released =>
      cases effect
      unfold Cell.release? at released
      split at released
      next early =>
        rw [Bool.or_eq_true] at early
        exact ⟨x, o, found, free, .ended released (early.imp_right .inl), rfl⟩
      next => cases released
    next limit d _ =>
      split at effect
      next past =>
        cases effect
        cases outcome : x.cell.state.outcome? with
        | some o =>
          exact ⟨x, o, found, free, .ended outcome (.inr (.inr ⟨limit, d, rfl, rfl, past⟩)), rfl⟩
        | none =>
          have pending := (State.outcome?_eq_none_iff _).mp outcome
          exact ⟨x, _, found, free, .expired pending rfl rfl past, rfl⟩
      next => cases effect
    next => cases effect
  · rintro ⟨x, o, found, free, releases, rfl⟩
    simp only [proceed, locking, found, free, Bool.false_eq_true, if_false, Cell.release?]
    cases releases with
    | ended outcome early =>
      cases now : terminalOnEntry || x.cell.notified with
      | true => simp [outcome, answering]
      | false =>
        rw [Bool.or_eq_false_iff] at now
        rcases early with early | early | ⟨limit, d, rfl, rfl, past⟩
        · simp [now.1] at early
        · simp [now.2] at early
        · simp [outcome, past, answering]
    | expired pending some until' past =>
      have none := (State.outcome?_eq_none_iff _).mpr pending
      subst some until'
      simp [none, past, answering]

/-- A call that reads a result of the library comes in at once, whoever holds the lock. -/
theorem Store.get_enters {x : Result V κ} (found : s.results[r]? = some x)
    (own : x.isForeign = false) :
    s.resume client (.ok a) (.call (.get r timeout)) =
      some ⟨s, .ok .unit, [.read r timeout (s.deadline timeout)]⟩ := by
  simp [resume, proceed, enter, found, own, continuing]

/-- A reader finds its result when that is not locked, and changes nothing. -/
theorem Store.read_enters {x : Result V κ} (found : s.results[r]? = some x)
    (free : x.isHeld = false) :
    s.resume client (.ok a) (.read r timeout deadline) =
      some ⟨s, .ok .unit, [.wait r timeout deadline !x.cell.state.isPending]⟩ := by
  simp [resume, proceed, locking, found, free, continuing]

end

/-- The step in which a reader on thread `t` is answered. -/
structure Answered (client : Client V κ σ) (r : ResultId) (timeout : Option Duration)
    (deadline : Option Nat) (terminalOnEntry : Bool) (t : Nat) (base : List (Frame V κ))
    (s : System V κ σ) (o : Outcome V) (s' : System V κ σ) : Prop where
  steps : s.step client t = some s'
  still : s'.store = s.store
  releases : ∃ x, s.store.results[r]? = some x ∧
    x.cell.Releases timeout deadline terminalOnEntry s.store.now o
  returns : s'.threads[t]? = some ⟨.ok (.outcome o), base⟩

/-- How a reader on thread `t` stands some time after it came in: it still waits, or it took a
single step, which answered it. -/
inductive Awaits (client : Client V κ σ) (r : ResultId) (timeout : Option Duration)
    (deadline : Option Nat) (terminalOnEntry : Bool) (t : Nat) (base : List (Frame V κ))
    (s : System V κ σ) : List (Moment V κ σ) → System V κ σ → Prop where
  | waits {h : List (Moment V κ σ)} {s₁ : System V κ σ} : (∀ μ ∈ h, μ.thread ≠ t) →
      s₁.threads[t]? = some ⟨.ok .unit, .wait r timeout deadline terminalOnEntry :: base⟩ →
      Awaits client r timeout deadline terminalOnEntry t base s h s₁
  | answered {before later : List (Moment V κ σ)} {μ : Moment V κ σ} {s₁ s₂ s₃ : System V κ σ}
      {o : Outcome V} : (∀ ν ∈ before ++ later, ν.thread ≠ t) →
      Run client Call.Fair s before s₂ → s₂.moment? t = some μ →
      Answered client r timeout deadline terminalOnEntry t base s₂ o s₃ →
      Run client Call.Fair s₃ later s₁ → s₁.threads[t]? = some ⟨.ok (.outcome o), base⟩ →
      Awaits client r timeout deadline terminalOnEntry t base s (before ++ μ :: later) s₁

section

variable {client : Client V κ σ} {s s₁ s₂ : System V κ σ} {t : Nat} {base : List (Frame V κ)}
  {r : ResultId} {timeout : Option Duration} {deadline : Option Nat} {terminalOnEntry : Bool}
  {h : List (Moment V κ σ)}

/-- A call that reads a result of the library comes in. -/
theorem System.get_steps {x : Result V κ} {a : Answer V} (found : s.store.results[r]? = some x)
    (own : x.isForeign = false)
    (here : s.threads[t]? = some ⟨.ok a, .call (.get r timeout) :: base⟩) :
    ∃ s', s.step client t = some s' ∧ s'.store = s.store ∧
      s'.threads[t]? =
        some ⟨.ok .unit, .read r timeout (s.store.deadline timeout) :: base⟩ :=
  ⟨_, step_of_resume here (Store.get_enters found own), rfl, after_there here _ _⟩

/-- A reader finds its result. -/
theorem System.read_steps {x : Result V κ} {a : Answer V} (found : s.store.results[r]? = some x)
    (free : x.isHeld = false)
    (here : s.threads[t]? = some ⟨.ok a, .read r timeout deadline :: base⟩) :
    ∃ s', s.step client t = some s' ∧ s'.store = s.store ∧
      s'.threads[t]? =
        some ⟨.ok .unit, .wait r timeout deadline (!x.cell.state.isPending) :: base⟩ :=
  ⟨_, step_of_resume here (Store.read_enters found free), rfl, after_there here _ _⟩

/-- What the step of a waiting reader does. -/
theorem System.step_wait
    (waits : s.threads[t]? = some ⟨.ok .unit, .wait r timeout deadline terminalOnEntry :: base⟩)
    (step : s.step client t = some s₁) :
    ∃ o, Answered client r timeout deadline terminalOnEntry t base s o s₁ := by
  obtain ⟨μ, e, calls, found, yields, rfl⟩ := System.step_yields step
  obtain ⟨store, -, selected⟩ := moment?_eq_some found
  have self := after_self found e calls
  obtain ⟨store', t', result, frame, below⟩ := μ
  cases waits.symm.trans selected
  cases store
  cases yields with
  | resumed effect =>
    have effect : s.store.proceed client .unit
        (.wait r timeout deadline terminalOnEntry) = some e := effect
    obtain ⟨x, o, there, -, releases, rfl⟩ := Store.wait_goes.mp effect
    exact ⟨o, step, rfl, ⟨x, there, releases⟩, self⟩
  | forked _ _ frame => cases frame
  | joined _ _ frame => cases frame

/-- A reader whose result is not locked and may be read is not held up. -/
theorem System.wait_steps {x : Result V κ} {o : Outcome V}
    (waits : s.threads[t]? = some ⟨.ok .unit, .wait r timeout deadline terminalOnEntry :: base⟩)
    (there : s.store.results[r]? = some x) (free : x.isHeld = false)
    (releases : x.cell.Releases timeout deadline terminalOnEntry s.store.now o) :
    ∃ s', Answered client r timeout deadline terminalOnEntry t base s o s' := by
  have effect : s.store.proceed client .unit (.wait r timeout deadline terminalOnEntry) =
      some ⟨s.store, .ok (.outcome o), []⟩ :=
    Store.wait_goes.mpr ⟨x, o, there, free, releases, rfl⟩
  have bound := (List.getElem?_eq_some_iff.mp waits).1
  exact ⟨_, step_of_resume waits effect, rfl, ⟨x, there, releases⟩, by simp [after, bound]⟩

/-- A reader through a run in which its thread does nothing below the read. -/
theorem Run.awaits (run : Run client Call.Fair s h s₁)
    (waits : s.threads[t]? = some ⟨.ok .unit, .wait r timeout deadline terminalOnEntry :: base⟩)
    (inside : ∀ μ ∈ h, μ.thread = t → base.length ≤ μ.below.length) :
    Awaits client r timeout deadline terminalOnEntry t base s h s₁ := by
  induction run with
  | start => exact .waits nofun waits
  | @step h s₁ s₂ t' μ run found step fair ih =>
    have reads := ih fun ν member => inside ν (by simp [member])
    obtain ⟨-, thread, selected⟩ := System.moment?_eq_some found
    obtain ⟨μ', e, calls, moment, -, after⟩ := System.step_yields step
    cases found.symm.trans moment
    cases reads with
    | waits idle here =>
      by_cases same : t' = t
      · subst same
        obtain ⟨o, answers⟩ := System.step_wait here step
        exact .answered (by simpa using idle) run found answers .start answers.returns
      · subst after
        refine .waits (fun ν member => ?_) (System.after_other here same μ.below e calls)
        rcases List.mem_append.mp member with member | member
        · exact idle ν member
        · rw [List.mem_singleton.mp member, thread]
          exact same
    | @answered before later ν _ s₂ s₃ o idle before' moved answers rest here =>
      -- an answered reader has no more steps above its frames
      have same : t' ≠ t := by
        rintro rfl
        have frames : base = μ.frame :: μ.below :=
          congrArg Thread.frames (Option.some.inj (here.symm.trans selected))
        have lower := inside μ (by simp) thread
        rw [frames, List.length_cons] at lower
        omega
      have rest' := rest.step found step fair
      subst after
      rw [List.append_assoc, List.cons_append]
      refine .answered (fun ω member => ?_) before' moved answers rest'
        (System.after_other here same μ.below e calls)
      rw [← List.append_assoc] at member
      rcases List.mem_append.mp member with member | member
      · exact idle ω member
      · rw [List.mem_singleton.mp member, thread]
        exact same
  | begin c _ fair ih =>
    cases ih inside with
    | waits idle here => exact .waits idle (System.begin_other here c)
    | answered idle before moved answers rest here =>
      exact .answered idle before moved answers (rest.begin c fair) (System.begin_other here c)
  | pass now _ past ih =>
    cases ih inside with
    | waits idle here => exact .waits idle here
    | answered idle before moved answers rest here =>
      exact .answered idle before moved answers (rest.pass now past) here

/-- A result of the library whose readers are told has delivered its callbacks, and all of them are
dispatched. -/
theorem Account.ended {x : Result V κ} (account : Account r h s x) (orderly : s.Orderly)
    (there : s.store.results[r]? = some x) (told : s.store.Told r) :
    delivered r h = queued r h ∧ Dispatched r h := by
  have nobody := orderly.told_idle told
  have notified : x.cell.notified = true := by
    obtain ⟨x', there', notified⟩ := told
    cases there.symm.trans there'
    exact notified
  cases account with
  | waiting pending =>
    have untold := ((orderly.there r x there).waiting pending).2.1
    cases notified.symm.trans untold
  | sweeping _ _ here =>
    exfalso
    have enough := System.load_le (w := Frame.delivers r) here
    simp only [load_append, load_cons, Frame.delivers, if_true] at enough
    omega
  | delivering _ here higher delivery =>
    have enough := System.load_le (w := Frame.delivers r) here
    rcases delivery.working with ⟨-, works⟩ | ⟨-, -, result, rfl, -⟩
    · omega
    · exact absurd higher (Nat.lt_irrefl _)
  | told _ all _ dispatched => exact ⟨all, dispatched⟩
  | untold _ untold =>
    obtain ⟨⟨x', there', -, untold⟩, -⟩ := untold
    cases there.symm.trans there'
    cases notified.symm.trans untold

/-- How thread `t` waits for the result `r` above the frames `base`. It found the result as `x` in
the store `s₀`, after the history `h₀` of a run from `start` that ends with the lock, and left the
system as `s`. -/
structure Awaited (client : Client V κ σ) (timeout : Option Duration) (deadline : Option Nat)
    (r : ResultId) (start : System V κ σ) (h₀ : List (Moment V κ σ)) (x : Result V κ)
    (s₀ : Store V κ σ) (t : Nat) (base : List (Frame V κ)) (s : System V κ σ) : Prop where
  /-- Finding the result changes nothing. -/
  enters : s.store = s₀ ∧
    s.threads[t]? = some ⟨.ok .unit, .wait r timeout deadline (!x.cell.state.isPending) :: base⟩
  /-- From then on it waits until it is answered; that changes nothing either. -/
  awaits : ∀ h s₁, Run client Call.Fair s h s₁ →
    (∀ μ ∈ h, μ.thread = t → base.length ≤ μ.below.length) →
    Awaits client r timeout deadline (!x.cell.state.isPending) t base s h s₁
  /-- It is answered that its timeout is over, at the deadline while the result is pending, or with
  the outcome of the one state that the result has from then on. -/
  answer : ∀ h s₁ o s₂, Run client Call.Fair s h s₁ →
    Answered client r timeout deadline (!x.cell.state.isPending) t base s₁ o s₂ →
    (∃ limit d x₁, timeout = some limit ∧ o = .error (.timeout limit) ∧
      deadline = some d ∧ d ≤ s₁.store.now ∧ s₁.store.results[r]? = some x₁ ∧
      x₁.cell.state = .pending) ∨
    ∀ h' s', Run client Call.Fair s₂ h' s' →
      ∃ x', s'.store.results[r]? = some x' ∧ x'.cell.state.outcome? = some o
  /-- Nothing holds it up that came after the end, that was told, or whose time is over, unless a
  merger runs under the lock. -/
  prompt : ∀ h s₁, Run client Call.Fair s h s₁ →
    s₁.threads[t]? =
      some ⟨.ok .unit, .wait r timeout deadline (!x.cell.state.isPending) :: base⟩ →
    x.cell.state ≠ .pending ∨ s₁.store.Told r ∨ (∃ d x₁, deadline = some d ∧
      d ≤ s₁.store.now ∧ s₁.store.results[r]? = some x₁ ∧ x₁.isHeld = false) →
    ∃ o s₂, Answered client r timeout deadline (!x.cell.state.isPending) t base s₁ o s₂
  /-- One that came before the end and whose time is not over is answered after all callbacks were
  handed over in order, to run where their executors have them run, and the thread that did so has
  left each of them behind, and the readers were told. -/
  last : x.cell.state = .pending → ∀ h s₁ o s₂, Run client Call.Fair s h s₁ →
    Answered client r timeout deadline (!x.cell.state.isPending) t base s₁ o s₂ →
    (∀ d, deadline = some d → s₁.store.now < d) →
    s₁.store.Told r ∧ delivered r (h₀ ++ h) = queued r (h₀ ++ h) ∧
      Performs client r start (h₀ ++ h) s₁ ∧ Dispatched r (h₀ ++ h)

/-- How thread `t` comes in to read the result `r` above the frames `base`, in the step from `s` to
`s'` that ends the history `h` of a run from `start`. -/
structure Arrives (client : Client V κ σ) (timeout : Option Duration) (deadline : Option Nat)
    (r : ResultId) (start : System V κ σ) (h : List (Moment V κ σ)) (s : System V κ σ) (t : Nat)
    (base : List (Frame V κ)) (s' : System V κ σ) : Prop where
  /-- It changes nothing, and fixes how long it waits. -/
  enters : s'.store = s.store ∧
    s'.threads[t]? = some ⟨.ok .unit, .read r timeout deadline :: base⟩
  lasts : Lasts s.store.now timeout deadline
  /-- With its next step it finds the result and starts to wait, unless a merger runs under the lock
  at that time. -/
  locks : ∀ h₁ s₁, Run client Call.Fair s' h₁ s₁ → (∀ ν ∈ h₁, ν.thread ≠ t) →
    ∃ x, s₁.store.results[r]? = some x ∧
      (x.isHeld = true ∧ x.cell.state = .pending ∧ s₁.step client t = none ∨
        ∃ ν s₂, s₁.moment? t = some ν ∧ s₁.step client t = some s₂ ∧
          Awaited client timeout deadline r start (h ++ h₁ ++ [ν]) x s₁.store t base s₂)

/-- A reader gets its own timeout while the result is pending, or else the outcome that the result
has from then on. -/
theorem Answered.answer {o : Outcome V}
    (answered : Answered client r timeout deadline terminalOnEntry t base s o s₁) :
    (∃ limit d x, timeout = some limit ∧ o = .error (.timeout limit) ∧ deadline = some d ∧
      d ≤ s.store.now ∧ s.store.results[r]? = some x ∧ x.cell.state = .pending) ∨
    ∀ h' s', Run client Call.Fair s₁ h' s' →
      ∃ x', s'.store.results[r]? = some x' ∧ x'.cell.state.outcome? = some o := by
  obtain ⟨x, there, releases⟩ := answered.releases
  cases releases with
  | expired pending some until' past =>
    exact .inl ⟨_, _, x, some, rfl, until', past, there, (State.isPending_iff _).mp pending⟩
  | ended outcome =>
    right
    intro h' s' rest
    obtain ⟨x', there', later⟩ := rest.store_later r x (by rw [answered.still]; exact there)
    refine ⟨x', there', ?_⟩
    rw [later.state_of_ne (by intro pending; simp [pending, State.outcome?] at outcome)]
    exact outcome

/-- A reader that came before the end is answered before its deadline only when it was told. -/
theorem Answered.told {o : Outcome V}
    (answered : Answered client r timeout deadline false t base s o s₁)
    (ahead : ∀ d, deadline = some d → s.store.now < d) : s.store.Told r := by
  obtain ⟨x, there, releases⟩ := answered.releases
  cases releases with
  | expired _ _ until' past => exact absurd past (Nat.not_le.mpr (ahead _ until'))
  | ended _ early =>
    rcases early with early | told | ⟨_, d, -, until', past⟩
    · cases early
    · exact ⟨x, there, told⟩
    · exact absurd past (Nat.not_le.mpr (ahead d until'))

/-- Nobody holds the lock of a result that has ended, and it has an outcome. -/
theorem System.Orderly.readable {x : Result V κ} (orderly : s.Orderly)
    (there : s.store.results[r]? = some x) (ended : x.cell.state.isPending = false) :
    x.isHeld = false ∧ ∃ o, x.cell.state.outcome? = some o := by
  constructor
  · cases held : x.isHeld with
    | false => rfl
    | true =>
      have pending := (orderly.there r x there).held held
      cases pending.symm.trans ended
  · exact State.exists_outcome ended

theorem System.Orderly.told_ended {x : Result V κ} (orderly : s.Orderly)
    (there : s.store.results[r]? = some x) (told : x.cell.notified = true) :
    x.cell.state.isPending = false := by
  cases pending : x.cell.state.isPending with
  | false => rfl
  | true =>
    have untold := ((orderly.there r x there).waiting pending).2.1
    cases told.symm.trans untold

/-- A waiting reader is not held up once the result has ended, if that is why it was let in or it
was told, nor at its deadline. -/
theorem System.Orderly.prompt {x : Result V κ} (orderly : s.Orderly)
    (waits : s.threads[t]? = some ⟨.ok .unit, .wait r timeout deadline terminalOnEntry :: base⟩)
    (there : s.store.results[r]? = some x) (timed : ∀ d, deadline = some d → ∃ l, timeout = some l)
    (cause : terminalOnEntry = true ∧ x.cell.state.isPending = false ∨ x.cell.notified = true ∨
      ∃ d, deadline = some d ∧ d ≤ s.store.now ∧ x.isHeld = false) :
    ∃ o s', Answered client r timeout deadline terminalOnEntry t base s o s' := by
  rcases cause with ⟨early, ended⟩ | told | ⟨d, until', past, free⟩
  · obtain ⟨free, o, outcome⟩ := orderly.readable there ended
    exact ⟨o, System.wait_steps waits there free (.ended outcome (.inl early))⟩
  · obtain ⟨free, o, outcome⟩ := orderly.readable there (orderly.told_ended there told)
    exact ⟨o, System.wait_steps waits there free (.ended outcome (.inr (.inl told)))⟩
  · obtain ⟨limit, some⟩ := timed d until'
    cases outcome : x.cell.state.outcome? with
    | none =>
      have pending := (State.outcome?_eq_none_iff _).mp outcome
      exact ⟨_, System.wait_steps waits there free (.expired pending some until' past)⟩
    | some o =>
      refine ⟨o, System.wait_steps waits there free (.ended outcome ?_)⟩
      exact .inr (.inr ⟨limit, d, some, until', past⟩)

section

variable {memory : σ} {x : Result V κ} {μ : Moment V κ σ}

/-- A reader that has found a result of the library waits for it. -/
theorem Run.awaited (run : Run client Call.Fair ⟨.empty memory, []⟩ h s)
    (there : s.store.results[r]? = some x) (own : x.isForeign = false) (free : x.isHeld = false)
    (timed : ∀ d, deadline = some d → ∃ limit, timeout = some limit)
    (reads : s.threads[t]? = some ⟨.ok .unit, .read r timeout deadline :: base⟩) :
    ∃ ν s', s.moment? t = some ν ∧ s.step client t = some s' ∧
      Awaited client timeout deadline r ⟨.empty memory, []⟩ (h ++ [ν]) x s.store t base s' := by
  have sound₀ := System.sound_empty (V := V) (κ := κ) memory
  have orderly₀ := System.orderly_empty (V := V) (κ := κ) memory
  obtain ⟨s', step, still, waits⟩ := System.read_steps there free reads
  obtain ⟨ν, found, frame⟩ : ∃ ν, s.moment? t = some ν ∧ ν.frame = .read r timeout deadline :=
    ⟨_, System.moment?_there reads, rfl⟩
  have entered := run.step found step (by simp [Moment.call?, frame])
  -- the result some time later
  have later (h₁ : List (Moment V κ σ)) (s₁ : System V κ σ)
      (next : Run client Call.Fair s' h₁ s₁) : ∃ x₁, s₁.store.results[r]? = some x₁ ∧
        x.Later x₁ ∧ s₁.Orderly ∧ Account r (h ++ [ν] ++ h₁) s₁ x₁ := by
    have whole := entered.trans next
    obtain ⟨x₁, there₁, later⟩ := next.store_later r x (by rw [still]; exact there)
    exact ⟨x₁, there₁, later, whole.orderly sound₀ orderly₀,
      whole.accounted there₁ (by rw [later.isForeign]; exact own)⟩
  refine ⟨_, s', found, step, ⟨still, waits⟩, fun h₁ s₁ next inside => next.awaits waits inside,
    fun _ _ _ _ _ answered => answered.answer, ?_, ?_⟩
  · intro h₁ s₁ next here cause
    obtain ⟨x₁, there₁, later, orderly, -⟩ := later h₁ s₁ next
    refine orderly.prompt here there₁ timed ?_
    rcases cause with ended | ⟨x', there', told⟩ | ⟨d, x', until', past, there', free⟩
    · have ended' := (State.isPending_eq_false_iff _).mpr ended
      rw [later.state ended', ended']
      exact .inl ⟨rfl, rfl⟩
    · cases there₁.symm.trans there'
      exact .inr (.inl told)
    · cases there₁.symm.trans there'
      exact .inr (.inr ⟨d, until', past, free⟩)
  · intro pending h₁ s₁ o s₂ next answered ahead
    obtain ⟨x₁, there₁, -, orderly, account⟩ := later h₁ s₁ next
    rw [pending] at answered
    have told := answered.told ahead
    obtain ⟨all, dispatched⟩ := account.ended orderly there₁ told
    exact ⟨told, all, (entered.trans next).performs r, dispatched⟩

/-- Reading a result of the library: a reader that came before the end of the result is answered
after its callbacks are dispatched or at its own deadline, and one that came later at once. -/
theorem callbacks_before_readers (run : Run client Call.Fair ⟨.empty memory, []⟩ h s)
    (there : s.store.results[r]? = some x) (own : x.isForeign = false)
    (found : s.moment? t = some μ) (gets : μ.frame = .call (.get r timeout))
    (goes : ∃ a, μ.result = .ok a) :
    ∃ s' deadline, s.step client t = some s' ∧
      Arrives client timeout deadline r ⟨.empty memory, []⟩ (h ++ [μ]) s t μ.below s' := by
  obtain ⟨a, goes⟩ := goes
  obtain ⟨-, -, selected⟩ := System.moment?_eq_some found
  rw [gets, goes] at selected
  obtain ⟨s', step, same, reads⟩ := System.get_steps there own selected
  have entered := run.step found step (by simp [Moment.call?, gets])
  have lasts := s.store.deadline_lasts timeout
  refine ⟨s', _, step, ⟨same, reads⟩, lasts, fun h₁ s₁ next others => ?_⟩
  have still := next.returned reads fun ν member same => absurd same (others ν member)
  have whole := entered.trans next
  obtain ⟨x₁, there₁, later⟩ := next.store_later r x (by rw [same]; exact there)
  refine ⟨x₁, there₁, ?_⟩
  cases held : x₁.isHeld with
  | false =>
    exact .inr (whole.awaited there₁ (later.isForeign.trans own) held
      (fun d => lasts.timeout) still)
  | true =>
    have orderly := whole.orderly (System.sound_empty memory) (System.orderly_empty memory)
    refine .inl ⟨rfl, (State.isPending_iff _).mp ((orderly.there r x₁ there₁).held held), ?_⟩
    simp [System.step, still, Store.resume, Store.proceed, Store.locking, there₁, held]

end

end

namespace Panicked

def limit : Duration := ⟨2000000000⟩

/-- A result with a callback that panics. -/
def made : List (Moment Unit Unit Unit) × System Unit Unit Unit :=
  (System.mk (.empty ()) []).perform client [(.create .settable, 1),
    (.register 0 ⟨.client (), .inline⟩, 1)]

/-- A call that is about to read it. -/
def asked : System Unit Unit Unit := (made.2.pass 5).begin (.get 0 (some limit))

def entering : Moment Unit Unit Unit :=
  ⟨asked.store, 2, .ok .unit, .call (.get 0 (some limit)), []⟩

/-- Time passes between the step in which the call comes in and the one in which it finds the
result. -/
def arrived : System Unit Unit Unit := (asked.drive client [2]).2

def finding : Moment Unit Unit Unit :=
  ⟨(arrived.pass 9).store, 2, .ok .unit, .read 0 (some limit) (some 2000000005), []⟩

def reading : System Unit Unit Unit := ((arrived.pass 9).drive client [2]).2

/-- The result succeeds, and its callback panics, but the readers are not told so far. -/
def interrupted : List (Moment Unit Unit Unit) × System Unit Unit Unit :=
  reading.perform client [(.complete 0 (.succeeded ()), 6)]

def released : List (Moment Unit Unit Unit) × System Unit Unit Unit :=
  interrupted.2.drive client [3]

theorem reader_answered_last :
    Run client Call.Fair ⟨.empty (), []⟩ made.1 asked ∧
      (∃ x, asked.store.results[0]? = some x ∧ x.isForeign = false) ∧
      asked.moment? 2 = some entering ∧ asked.step client 2 = some arrived ∧
      Arrives client (some limit) (some 2000000005) 0 ⟨.empty (), []⟩ (made.1 ++ [entering])
        asked 2 [] arrived ∧
      (∃ x, x.cell.state = .pending ∧
        Awaited client (some limit) (some 2000000005) 0 ⟨.empty (), []⟩
          (made.1 ++ [entering] ++ [finding]) x (arrived.pass 9).store 2 [] reading) ∧
      -- it waits for the callback, and for the readers to be told
      interrupted.2.store.results[0]?.map (fun x => x.cell.state) = some (.succeeded ()) ∧
      interrupted.2.step client 2 = none ∧
      (∃ s', Answered client 0 (some limit) (some 2000000005) false 2 [] released.2 (.ok ()) s') ∧
      delivered 0 (made.1 ++ [entering] ++ [finding] ++ (interrupted.1 ++ released.1)) =
        [⟨.client (), .inline⟩] ∧
      Dispatched 0 (made.1 ++ [entering] ++ [finding] ++ (interrupted.1 ++ released.1)) ∧
      -- had the result stayed pending, its time would be over two seconds after it came in
      ∃ s', Answered client 0 (some limit) (some 2000000005) false 2 [] (reading.pass 2000000005)
        (.error (.timeout limit)) s' := by
  have run : Run client Call.Fair ⟨.empty (), []⟩ made.1 asked :=
    .begin _ (.pass 5 (Run.perform Client.panicking_fair _ _) (by decide)) trivial
  have there : asked.store.results[0]? =
      some ⟨⟨.pending, [⟨.client (), .inline⟩], false, false⟩, .settable⟩ := rfl
  have found : asked.moment? 2 = some entering := rfl
  have step : asked.step client 2 = some arrived := rfl
  obtain ⟨s', deadline, step', arrives⟩ := callbacks_before_readers run there rfl found rfl ⟨_, rfl⟩
  cases step.symm.trans step'
  obtain rfl : deadline = some 2000000005 := by
    cases arrives.lasts with
    | timed => rfl
    | endless far => exact absurd far (by decide)
  obtain ⟨x, there', held | ⟨ν, s₂, found', locks, awaited⟩⟩ :=
    arrives.locks [] (arrived.pass 9) (.pass 9 .start (by decide)) nofun
  · cases there'
    cases held.1
  have locked : (arrived.pass 9).step client 2 = some reading := rfl
  have here : (arrived.pass 9).moment? 2 = some finding := rfl
  cases here.symm.trans found'
  cases locked.symm.trans locks
  cases there'
  have next : Run client Call.Fair reading (interrupted.1 ++ released.1) released.2 :=
    (Run.perform Client.panicking_fair _ _).trans (Run.drive Client.panicking_fair _ _)
  have told : released.2.store.Told 0 := ⟨_, rfl, rfl⟩
  obtain ⟨o, s₂, answered⟩ := awaited.prompt _ _ next rfl (.inr (.inl told))
  have all := (awaited.last rfl _ _ _ _ next answered (by rintro d ⟨⟩; decide)).2
  have queue : queued 0 (made.1 ++ [entering] ++ [finding] ++ (interrupted.1 ++ released.1)) =
      [⟨.client (), .inline⟩] := rfl
  have outcome : o = .ok () := by
    obtain ⟨x, here, releases⟩ := answered.releases
    cases here
    cases releases with
    | ended outcome => exact (Option.some.inj outcome).symm
    | expired pending => cases pending
  rw [outcome] at answered
  have late : Run client Call.Fair reading [] (reading.pass 2000000005) := .pass _ .start (by decide)
  obtain ⟨o', s₃, expired⟩ := awaited.prompt _ _ late rfl
    (.inr (.inr ⟨_, _, rfl, Nat.le_refl _, rfl, rfl⟩))
  have outcome' : o' = .error (.timeout limit) := by
    obtain ⟨x, here, releases⟩ := expired.releases
    cases here
    cases releases with
    | ended outcome => cases outcome
    | expired _ same => cases same; rfl
  rw [outcome'] at expired
  exact ⟨run, ⟨_, there, rfl⟩, found, step, arrives, ⟨_, rfl, awaited⟩, rfl, rfl, ⟨s₂, answered⟩,
    all.1.trans queue, all.2.2, ⟨s₃, expired⟩⟩

/-- The client code that a step runs. -/
def code? (μ : Moment Unit Unit Unit) : Option Unit :=
  match μ.frame with
  | .client code => some code
  | _ => none

/-- A result with a callback that gets a thread of its own and one that no executor takes. A reader
waits for it, and it succeeds. -/
def overtaken : List (Moment Unit Unit Unit) × System Unit Unit Unit :=
  (System.mk (.empty ()) []).perform client [(.create .settable, 1),
    (.register 0 ⟨.client (), .spawn⟩, 1), (.register 0 ⟨.client (), .refuse "full"⟩, 1),
    (.get 0 none, 2), (.complete 0 (.succeeded ()), 9)]

def answered : List (Moment Unit Unit Unit) × System Unit Unit Unit :=
  overtaken.2.drive client [3]

/-- A reader that came while a result was pending can be answered before any of its callbacks has
begun. -/
theorem reader_overtakes_callbacks :
    Run client Call.Fair ⟨.empty (), []⟩ (overtaken.1 ++ answered.1) answered.2 ∧
      (∃ before μ later, overtaken.1 = before ++ μ :: later ∧ μ.thread = 3 ∧
        μ.frame = .read 0 none none ∧
        μ.store.results[0]?.map (fun x => x.cell.state) = some .pending) ∧
      queued 0 overtaken.1 = [⟨.client (), .spawn⟩, ⟨.client (), .refuse "full"⟩] ∧
      answered.2.threads[3]? = some ⟨.ok (.outcome (.ok ())), []⟩ ∧
      answered.2.threads[5]? = some ⟨.ok .unit, [.call (.perform ⟨.client (), .inline⟩)]⟩ ∧
      (overtaken.1 ++ answered.1).filterMap code? = [] := by
  have run : Run client Call.Fair ⟨.empty (), []⟩ (overtaken.1 ++ answered.1) answered.2 :=
    (Run.perform Client.panicking_fair _ _).trans (Run.drive Client.panicking_fair _ _)
  exact ⟨run, ⟨overtaken.1.take 4, _, overtaken.1.drop 5, rfl, rfl, rfl, rfl⟩, rfl, rfl, rfl, rfl⟩

end Panicked

end Quorate
