import Quorate.Proofs.System.Schedule

/-! Calls that run alone, one after the other. As long as no other thread is at work, the results
that are there determine what a call does to them, and what it answers. -/

set_option autoImplicit false

namespace Quorate

variable {V κ σ : Type}

/-- What a step of `frame`, which is none of client code, does to the results `rs`, whatever else
the store holds. -/
structure Frame.Does (client : Client V κ σ) (rs : List (Result V κ)) (result : Return V)
    (frame : Frame V κ) (rs' : List (Result V κ)) (result' : Return V) (frames : List (Frame V κ)) :
    Prop where
  own : ∀ code, frame ≠ .client code
  effect : ∀ s : Store V κ σ, s.results = rs →
    ∃ s', s.resume client result frame = some ⟨s', result', frames⟩ ∧ s'.results = rs'

/-- A thread alone takes its frames from the results `rs` to the results `rs'` and ends with an
answer. What `look` sees in its steps is `seen`. -/
inductive Executes {A : Type} (client : Client V κ σ) (look : Moment V κ σ → Option A) :
    List (Result V κ) → Return V → List (Frame V κ) → List A → List (Result V κ) → Return V →
      Prop where
  | done {rs : List (Result V κ)} {result : Return V} :
      Executes client look rs result [] [] rs result
  | step {rs rs₁ rs' : List (Result V κ)} {result result₁ answer : Return V} {frame : Frame V κ}
      {frames below : List (Frame V κ)} {sight : Option A} {seen : List A} :
      frame.Does client rs result rs₁ result₁ frames →
      (∀ μ : Moment V κ σ, μ.store.results = rs → μ.result = result → μ.frame = frame →
        look μ = sight) →
      Executes client look rs₁ result₁ (frames ++ below) seen rs' answer →
      Executes client look rs result (frame :: below) (sight.toList ++ seen) rs' answer

/-- The calls are made in turns: each of them begins when all threads have ended, and runs alone
until it has. -/
inductive InTurn (client : Client V κ σ) : System V κ σ → List (Call V κ) → List (Return V) →
    List (Moment V κ σ) → System V κ σ → Prop where
  | start {s : System V κ σ} : InTurn client s [] [] [] s
  | turn {s s₁ s₂ : System V κ σ} {c : Call V κ} {calls : List (Call V κ)} {answer : Return V}
      {answers : List (Return V)} {h h' : List (Moment V κ σ)} :
      Run client (fun _ _ => False) (s.begin c) h s₁ → s₁.Quiet →
      s₁.answer? s.threads.length = some answer → InTurn client s₁ calls answers h' s₂ →
      InTurn client s (c :: calls) (answer :: answers) (h ++ h') s₂

/-- Make calls in turns, with at most `count` steps for each. -/
def System.turns (client : Client V κ σ) (count : Nat) (s : System V κ σ) :
    List (Call V κ) → Option (List (Return V) × List (Moment V κ σ) × System V κ σ)
  | [] => some ([], [], s)
  | c :: calls =>
    let turn := s.call client c count
    if turn.2.threads.all fun thread => thread.frames.isEmpty then
      (turn.2.answer? s.threads.length).bind fun answer =>
        (turn.2.turns client count calls).map fun (answers, h, s') =>
          (answer :: answers, turn.1 ++ h, s')
    else none

theorem InTurn.of_turns {client : Client V κ σ} (silent : ∀ μ, Moment.call? client μ = none)
    {count : Nat} {s s' : System V κ σ} {calls : List (Call V κ)} {answers : List (Return V)}
    {h : List (Moment V κ σ)} (turns : s.turns client count calls = some (answers, h, s')) :
    InTurn client s calls answers h s' := by
  induction calls generalizing s answers h with
  | nil =>
    cases turns
    exact .start
  | cons c calls ih =>
    rw [System.turns] at turns
    split at turns
    next ended =>
      obtain ⟨answer, answered, rest⟩ := Option.bind_eq_some_iff.mp turns
      obtain ⟨⟨answers', h', s₂⟩, rest, same⟩ := Option.map_eq_some_iff.mp rest
      cases same
      have run : Run client (fun _ _ => False) (s.begin c) (s.call client c count).1
          (s.call client c count).2 :=
        Run.drive (fun μ c made => by rw [silent μ] at made; cases made) _ _
      exact .turn run (System.quiet_of_all ended) answered (ih rest)
    next => cases turns

/-- What calls do that are made in turns. -/
inductive Series {A : Type} (client : Client V κ σ) (look : Moment V κ σ → Option A) :
    List (Result V κ) → List (Call V κ) → List (Return V) → List A → List (Result V κ) → Prop where
  | done {rs : List (Result V κ)} : Series client look rs [] [] [] rs
  | call {rs rs₁ rs' : List (Result V κ)} {c : Call V κ} {calls : List (Call V κ)}
      {answer : Return V} {answers : List (Return V)} {seen seen' : List A} :
      Executes client look rs (.ok .unit) [.call c] seen rs₁ answer →
      Series client look rs₁ calls answers seen' rs' →
      Series client look rs (c :: calls) (answer :: answers) (seen ++ seen') rs'

section

variable {A : Type} {client : Client V κ σ} {look : Moment V κ σ → Option A}
  {rs rs₁ rs' : List (Result V κ)} {result answer : Return V} {frames below : List (Frame V κ)}
  {seen seen' : List A}

namespace Executes

/-- A step that is not looked at. -/
theorem silent {result₁ : Return V} {frame : Frame V κ}
    (does : frame.Does client rs result rs₁ result₁ frames)
    (unseen : ∀ μ : Moment V κ σ, μ.store.results = rs → μ.result = result → μ.frame = frame →
      look μ = none)
    (rest : Executes client look rs₁ result₁ (frames ++ below) seen rs' answer) :
    Executes client look rs result (frame :: below) seen rs' answer :=
  .step does unseen rest

/-- What stands below goes on when what stands above has ended. -/
theorem append (above : Executes client look rs result frames seen rs₁ answer)
    {answer' : Return V} (rest : Executes client look rs₁ answer below seen' rs' answer') :
    Executes client look rs result (frames ++ below) (seen ++ seen') rs' answer' := by
  induction above with
  | done => exact rest
  | step does sees _ ih =>
    have ih := ih rest
    rw [List.append_assoc] at ih
    rw [List.append_assoc, List.cons_append]
    exact .step does sees ih

end Executes

theorem Series.append {calls calls' : List (Call V κ)} {answers answers' : List (Return V)}
    (first : Series client look rs calls answers seen rs₁)
    (next : Series client look rs₁ calls' answers' seen' rs') :
    Series client look rs (calls ++ calls') (answers ++ answers') (seen ++ seen') rs' := by
  induction first with
  | done => exact next
  | call executes _ ih =>
    rw [List.append_assoc]
    exact .call executes (ih next)

/-- A frame that does something takes a step of its own. -/
theorem Moment.Yields.does {μ : Moment V κ σ} {e : Effect V κ σ} {calls : List (Call V κ)}
    {result' : Return V} (yields : μ.Yields client e calls)
    (does : μ.frame.Does client μ.store.results μ.result rs' result' frames) :
    calls = [] ∧ e.store.results = rs' ∧ e.result = result' ∧ e.frames = frames := by
  obtain ⟨s', effect, results⟩ := does.effect μ.store rfl
  cases yields with
  | resumed effect' =>
    cases effect.symm.trans effect'
    exact ⟨rfl, results, rfl, rfl⟩
  | forked t answered frame =>
    rw [answered, frame] at effect
    cases effect
  | joined b answered frame =>
    rw [answered, frame] at effect
    cases effect

/-- How a system stands in which one thread, the last one, is at work. -/
structure Alone (client : Client V κ σ) (look : Moment V κ σ → Option A)
    (ended : List (Thread V κ)) (s : System V κ σ) (seen : List A) (rs' : List (Result V κ))
    (answer : Return V) : Prop where
  intro ::
  stands : ∃ result frames, s.threads = ended ++ [⟨result, frames⟩] ∧
    Executes client look s.store.results result frames seen rs' answer

/-- Only the last thread steps, as it must. -/
theorem Alone.step {ended : List (Thread V κ)} {s s₁ : System V κ σ} {t : Nat} {μ : Moment V κ σ}
    (alone : Alone client look ended s seen rs' answer)
    (idle : ∀ thread ∈ ended, thread.frames = []) (found : s.moment? t = some μ)
    (step : s.step client t = some s₁) :
    ∃ seen', seen = (look μ).toList ++ seen' ∧ Alone client look ended s₁ seen' rs' answer := by
  obtain ⟨result, frames, threads, executes⟩ := alone.stands
  obtain ⟨μ', e, calls, moment, yields, rfl⟩ := System.step_yields step
  cases found.symm.trans moment
  obtain ⟨store, -, selected⟩ := System.moment?_eq_some found
  -- a thread that has ended has no step to take
  have last : t = ended.length := by
    have bound := (List.getElem?_eq_some_iff.mp selected).1
    rw [threads, List.length_append, List.length_singleton] at bound
    rcases Nat.lt_or_eq_of_le (Nat.le_of_lt_succ bound) with before | last
    · rw [threads, List.getElem?_append_left before] at selected
      cases idle _ (List.mem_of_getElem? selected)
    · exact last
  subst last
  rw [threads, List.getElem?_concat_length] at selected
  cases selected
  rw [← store] at executes
  cases executes with
  | @step _ rs₁ _ _ result₁ _ _ frames₁ _ sight seen' does sees rest =>
    obtain ⟨rfl, results, rfl, rfl⟩ := yields.does does
    refine ⟨seen', by rw [sees μ rfl rfl rfl], ⟨e.result, e.frames ++ μ.below, ?_, ?_⟩⟩
    · simp [System.after, threads]
    · show Executes client look e.store.results _ _ _ _ _
      rw [results]
      exact rest

/-- A call that runs alone does what it must. -/
theorem Run.solitary {s s₁ : System V κ σ} {h : List (Moment V κ σ)} {ended : List (Thread V κ)}
    (run : Run client (fun _ _ => False) s h s₁) (idle : ∀ thread ∈ ended, thread.frames = [])
    (alone : Alone client look ended s seen rs' answer) :
    ∃ seen', seen = h.filterMap look ++ seen' ∧ Alone client look ended s₁ seen' rs' answer := by
  induction run with
  | start => exact ⟨seen, rfl, alone⟩
  | step _ found step _ ih =>
    obtain ⟨seen₁, rfl, before⟩ := ih
    obtain ⟨seen₂, rfl, after⟩ := before.step idle found step
    exact ⟨seen₂, by rw [filterMap_concat, List.append_assoc], after⟩
  | begin _ _ obeyed => exact obeyed.elim
  | pass now _ _ ih =>
    obtain ⟨seen₁, rfl, ⟨stands⟩⟩ := ih
    exact ⟨seen₁, rfl, ⟨stands⟩⟩

/-- A thread that is alone can go on until it has ended. -/
theorem Executes.ends (executes : Executes client look rs result frames seen rs' answer)
    {ended : List (Thread V κ)} {s : System V κ σ}
    (threads : s.threads = ended ++ [⟨result, frames⟩]) (same : s.store.results = rs) :
    ∃ h s₁, Run client (fun _ _ => False) s h s₁ ∧ s₁.threads = ended ++ [⟨answer, []⟩] := by
  induction executes generalizing s with
  | done => exact ⟨[], s, .start, threads⟩
  | @step rs rs₁ _ result result₁ _ frame frames₁ below _ _ does _ _ ih =>
    obtain ⟨store, effect, results⟩ := does.effect s.store same
    have here : s.threads[ended.length]? = some ⟨result, frame :: below⟩ := by
      rw [threads, List.getElem?_concat_length]
    have found : s.moment? ended.length =
        some ⟨s.store, ended.length, result, frame, below⟩ := by
      simp [System.moment?, here]
    have silent : Moment.call? client ⟨s.store, ended.length, result, frame, below⟩ = none := by
      unfold Moment.call?
      split
      next client' => exact absurd client' (does.own _)
      next => rfl
    have first : Run client (fun _ _ => False) s _ _ :=
      Run.start.step found (System.step_of_resume here effect) (by simp [silent])
    obtain ⟨h, s₁, rest, idle⟩ := ih (s := s.after ended.length below ⟨store, result₁, frames₁⟩ [])
      (by simp [System.after, threads]) results
    exact ⟨_, s₁, first.trans rest, idle⟩

/-- What a call has done that ran alone. -/
theorem Executes.ran {s s₁ : System V κ σ} {c : Call V κ} {h : List (Moment V κ σ)}
    (executes : Executes client look s.store.results (.ok .unit) [.call c] seen rs' answer)
    (quiet : s.Quiet) (run : Run client (fun _ _ => False) (s.begin c) h s₁) (idle : s₁.Quiet) :
    h.filterMap look = seen ∧ s₁.store.results = rs' ∧
      s₁.answer? s.threads.length = some answer := by
  obtain ⟨rest, all, ⟨result, frames, threads, left⟩⟩ := run.solitary quiet ⟨_, _, rfl, executes⟩
  obtain rfl : frames = [] := idle ⟨result, frames⟩ (by simp [threads])
  generalize results : s₁.store.results = rs₁ at left
  cases left
  exact ⟨by simpa using all.symm, rfl, System.answer?_eq_some_iff.mpr (by simp [threads])⟩

/-- Calls that are made in turns do what they must. -/
theorem InTurn.ran {s s₁ : System V κ σ} {calls : List (Call V κ)}
    {answers answers' : List (Return V)} {h : List (Moment V κ σ)}
    (turns : InTurn client s calls answers' h s₁) (quiet : s.Quiet)
    (series : Series client look s.store.results calls answers seen rs') :
    answers' = answers ∧ h.filterMap look = seen ∧ s₁.store.results = rs' ∧ s₁.Quiet := by
  induction turns generalizing answers seen with
  | start =>
    cases series
    exact ⟨rfl, rfl, rfl, quiet⟩
  | turn run idle answered _ ih =>
    cases series with
    | call executes rest =>
      obtain ⟨sees, results, answer⟩ := executes.ran quiet run idle
      rw [← results] at rest
      obtain ⟨rfl, sees', results', quiet'⟩ := ih idle rest
      cases answered.symm.trans answer
      exact ⟨rfl, by rw [List.filterMap_append, sees, sees'], results', quiet'⟩

/-- Calls can be made in turns whose course is known. -/
theorem Series.runs {calls : List (Call V κ)} {answers : List (Return V)}
    (series : Series client look rs calls answers seen rs') {s : System V κ σ} (quiet : s.Quiet)
    (same : s.store.results = rs) : ∃ h s₁, InTurn client s calls answers h s₁ := by
  induction series generalizing s with
  | done => exact ⟨[], s, .start⟩
  | @call _ _ _ c _ answer _ _ _ executes _ ih =>
    subst same
    obtain ⟨h, s₁, run, threads⟩ := executes.ends (s := s.begin c) rfl rfl
    have idle : s₁.Quiet := by
      intro thread member
      rw [threads] at member
      rcases List.mem_append.mp member with member | member
      · exact quiet thread member
      · rw [List.mem_singleton.mp member]
    obtain ⟨-, results, answered⟩ := executes.ran quiet run idle
    obtain ⟨h', s₂, rest⟩ := ih idle results
    exact ⟨_, s₂, .turn run idle answered rest⟩

end

end Quorate
