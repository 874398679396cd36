import Quorate.Proofs.Read.Waiting

/-! The phases of a reader that waits for the merge, from the first replica that it starts to the
answer that it ends with, whatever the order of the steps. -/

set_option autoImplicit false

namespace Quorate.Replica

variable {V : Type} {merge : List (Option V) → Outcome (Option V)} {members : List (Member V)}
  {cancels : Nat → Prop} {patience : Duration} {t left : Nat} {b s s' : Reading V}
  {h h' : List (Moment (Option V) (Work V) Unit)} {μ : Moment (Option V) (Work V) Unit}
  {e : Effect (Option V) (Work V) Unit} {thread : Thread (Option V) (Work V)}
  {answer : Return (Option V)}

/-- What a reader ends with. -/
inductive Concludes (merge : List (Option V) → Outcome (Option V)) (members : List (Member V))
    (patience : Duration) (h : List (Moment (Option V) (Work V) Unit)) :
    Answer (Option V) → Prop where
  | outcome {o : Outcome (Option V)} : ComesTo merge members o →
      Concludes merge members patience h (.outcome o)
  | pending : GivesUp members.length patience h → Concludes merge members patience h .pending

theorem Concludes.concat {a : Answer (Option V)} (concludes : Concludes merge members patience h a) :
    Concludes merge members patience (h ++ [μ]) a := by
  cases concludes with
  | outcome comes => exact .outcome comes
  | pending givesUp => exact .pending givesUp.concat

/-- How the reader of `s` stands beside `b`. The number bounds what is left for it to do beyond
what is left in `b`. -/
inductive Phase (merge : List (Option V) → Outcome (Option V)) (members : List (Member V))
    (patience : Duration) (h : List (Moment (Option V) (Work V) Unit)) (b s : Reading V) :
    (Nat → Prop) → Nat → Thread (Option V) (Work V) → Prop where
  | gathers {result : Return (Option V)} {above : List (Frame (Option V) (Work V))}
      {f f' : Frame (Option V) (Work V)} : b.threads.length = s.threads.length →
      b.threads[0]? = some ⟨result, above ++ [f]⟩ → Resumes merge members patience f f' →
      Phase merge members patience h b s (fun _ => False) 8 ⟨result, above ++ [f']⟩
  | turns {answer : Return (Option V)} : b.answer? 0 = some answer →
      Phase merge members patience h b s (fun _ => False) 8
        ⟨.ok .unit, [.call (.within members.length patience), .client (.judge members.length)]⟩
  | polls {answer : Return (Option V)} {start : Nat} : b.answer? 0 = some answer →
      start ∈ h.filterMap (awaits? members.length) →
      Phase merge members patience h b s (fun _ => False) 7
        ⟨.ok .unit, [.polling members.length (start + patience.nanoseconds),
          .client (.judge members.length)]⟩
  | judges {answer : Return (Option V)} {a : Answer (Option V)} : b.answer? 0 = some answer →
      Concludes merge members patience h a → Phase merge members patience h b s (fun _ => False) 6
        ⟨.ok a, [.client (.judge members.length)]⟩
  | withdraws {answer : Return (Option V)} {w : Nat} {a : Answer (Option V)}
      {above : List (Frame (Option V) (Work V))} : b.answer? 0 = some answer →
      members.length < w → s.threads.length ≤ w → b.threads[w]? = some ⟨.ok a, above⟩ →
      (∀ f ∈ above, Waitless f) → GivesUp members.length patience h →
      Phase merge members patience h b s (· = w) 1 ⟨.ok a, above ++ [.client .abandon]⟩
  | ended {cancels : Nat → Prop} {a : Answer (Option V)} : Concludes merge members patience h a →
      Phase merge members patience h b s cancels 0 ⟨.ok a, []⟩

/-- How a reading stands after the steps `h`; it goes on for at most `rest` steps. -/
structure Shadows (merge : List (Option V) → Outcome (Option V)) (members : List (Member V))
    (patience : Duration) (rest : Nat) (h : List (Moment (Option V) (Work V) Unit))
    (s : Reading V) : Prop where
  stands : ∃ b h' cancels left thread, Beside merge members cancels h' b s ∧
    s.threads[0]? = some thread ∧ Phase merge members patience h b s cancels left thread ∧
    b.toil Work.price + left ≤ rest

/-- Another thread leaves the reader where it is. -/
theorem Phase.other (phase : Phase merge members patience h b s cancels left thread)
    (other : t ≠ 0) (inside : t < s.threads.length) :
    Phase merge members patience (h ++ [μ]) (b.after t μ.below e []) (s.after t μ.below e [])
      cancels left thread := by
  have length (s : Reading V) :
      (s.after t μ.below e []).threads.length = s.threads.length := by simp [System.after]
  have still {answer : Return (Option V)} (finished : b.answer? 0 = some answer) :
      (b.after t μ.below e []).answer? 0 = some answer := by
    rw [System.answer?_eq_some_iff] at finished ⊢
    exact System.after_other finished other _ _ _
  cases phase with
  | gathers count reader resumes =>
    refine .gathers (by rw [length, length, count]) ?_ resumes
    exact System.after_other reader other _ _ _
  | turns finished => exact .turns (still finished)
  | polls finished awaits => exact .polls (still finished) (awaits_concat awaits)
  | judges finished concludes => exact .judges (still finished) concludes.concat
  | @withdraws _ w _ _ finished beyond outside there waitless givesUp =>
    refine .withdraws (still finished) beyond (by rwa [length]) ?_ waitless givesUp.concat
    exact System.after_other there (by omega) _ _ _
  | ended concludes => exact .ended concludes.concat

theorem Phase.pass (phase : Phase merge members patience h b s cancels left thread) (now : Nat) :
    Phase merge members patience h (b.pass now) (s.pass now) cancels left thread := by
  cases phase with
  | gathers count reader resumes => exact .gathers count reader resumes
  | turns finished => exact .turns finished
  | polls finished awaits => exact .polls finished awaits
  | judges finished concludes => exact .judges finished concludes
  | withdraws finished beyond outside there waitless givesUp =>
    exact .withdraws finished beyond outside there waitless givesUp
  | ended concludes => exact .ended concludes

section

variable {below : List (Frame (Option V) (Work V))} {rest : Nat}

/-- A step that only this reader takes brings it to a later phase. -/
theorem Beside.advance (beside : Beside merge members cancels h' b s)
    {result result' : Return (Option V)} {frame : Frame (Option V) (Work V)}
    {frames : List (Frame (Option V) (Work V))} {left' : Nat} (less : left' < left)
    (here : s.threads[0]? = some ⟨result, frame :: below⟩)
    (phase : Phase merge members patience h b (s.after 0 below ⟨s.store, result', frames⟩ [])
      cancels left' ⟨result', frames ++ below⟩) :
    ∃ rest < b.toil Work.price + left,
      Shadows merge members patience rest h (s.after 0 below ⟨s.store, result', frames⟩ []) :=
  ⟨b.toil Work.price + left', Nat.add_lt_add_left less _, ⟨_, _, _, _, _, beside.alone _ _ _,
    System.after_there here _ _, phase, Nat.le_refl _⟩⟩

/-- A reader at work on the replicas goes on, or turns to the merge. -/
theorem Beside.gather (beside : Beside merge members (fun _ => False) h' b s)
    (count : b.threads.length = s.threads.length) {result : Return (Option V)}
    {above : List (Frame (Option V) (Work V))} {f f' : Frame (Option V) (Work V)}
    (here : s.threads[0]? = some ⟨result, above ++ [f']⟩)
    (there : b.threads[0]? = some ⟨result, above ++ [f]⟩)
    (resumes : Resumes merge members patience f f') (step : s.step client 0 = some s') :
    ∃ rest < b.toil Work.price + 8, Shadows merge members patience rest h s' := by
  cases above with
  | cons frame above =>
    have here : s.threads[0]? = some ⟨result, frame :: (above ++ [f'])⟩ := here
    have there : b.threads[0]? = some ⟨result, frame :: (above ++ [f])⟩ := there
    obtain ⟨e, calls, rfl, step'⟩ := beside.same count here there step
    obtain ⟨beside', count', pays⟩ :=
      beside.both count (System.moment?_there there) e step' rfl
    have here' := System.after_there here e calls
    have there' := System.after_there there e calls
    rw [← List.append_assoc] at here' there'
    exact ⟨_, Nat.add_lt_add_right pays 8, ⟨_, _, _, _, _, beside', here',
      .gathers count' there' resumes, Nat.le_refl _⟩⟩
  | nil =>
    rcases resumes.step result s.store with
      ⟨result', above, g, g', effect', effect, resumes'⟩ | ⟨result', effect', turns⟩
    · cases (System.step_of_resume here effect).symm.trans step
      rw [beside.store] at effect'
      have step' := System.step_of_resume there effect'
      have here' := System.after_there here ⟨s.store, result', above ++ [g']⟩ []
      have there' := System.after_there there ⟨b.store, result', above ++ [g]⟩ []
      rw [List.append_nil] at here' there'
      obtain ⟨beside', count', pays⟩ :=
        beside.both count (System.moment?_there there) ⟨s.store, result', above ++ [g']⟩ step'
          beside.store
      exact ⟨_, Nat.add_lt_add_right pays 8, ⟨_, _, _, _, _, beside', here',
        .gathers count' there' resumes', Nat.le_refl _⟩⟩
    · -- in the other reading the reader is over, and so it has made the merge
      rw [beside.store] at effect'
      have step' := System.step_of_resume there effect'
      have found := System.moment?_there there
      have finished : (b.after 0 [] ⟨b.store, result', []⟩ []).answer? 0 = some result' :=
        System.answer?_eq_some_iff.mpr (System.after_there there ⟨b.store, result', []⟩ [])
      obtain ⟨rfl, -⟩ := (beside.unfolds.step found step').over finished
      obtain ⟨rfl, rfl, effect⟩ := turns _ rfl
      cases (System.step_of_resume here effect).symm.trans step
      have here' := System.after_there here ⟨s.store, .ok .unit,
        [.call (.within members.length patience), .client (.judge members.length)]⟩ []
      obtain ⟨beside', count', pays⟩ := beside.both count found ⟨s.store, .ok .unit,
        [.call (.within members.length patience), .client (.judge members.length)]⟩ step'
        beside.store
      exact ⟨_, Nat.add_lt_add_right pays 8, ⟨_, _, _, _, _, beside', here',
        .turns finished, Nat.le_refl _⟩⟩

/-- The reader begins to poll for the outcome of the merge. -/
theorem Beside.turn (beside : Beside merge members (fun _ => False) h' b s)
    (finished : b.answer? 0 = some answer) (here : s.threads[0]? = some ⟨.ok .unit,
      [.call (.within members.length patience), .client (.judge members.length)]⟩)
    (found : s.moment? 0 = some μ) (step : s.step client 0 = some s') :
    ∃ rest < b.toil Work.price + 8, Shadows merge members patience rest (h ++ [μ]) s' := by
  have effect : s.store.resume client (.ok .unit) (.call (.within members.length patience)) =
    some ⟨s.store, .ok .unit,
      [.polling members.length (s.store.now + patience.nanoseconds)]⟩ := rfl
  cases (System.step_of_resume here effect).symm.trans step
  cases (System.moment?_there here).symm.trans found
  refine beside.advance (by decide) here (.polls finished ?_)
  simp [awaits?]

/-- A reader that polls takes the outcome, or gives up. -/
theorem Beside.poll (beside : Beside merge members (fun _ => False) h' b s)
    (finished : b.answer? 0 = some answer) (some : members ≠ []) {start : Nat}
    (awaits : start ∈ h.filterMap (awaits? members.length))
    (here : s.threads[0]? = Option.some ⟨.ok .unit,
      [.polling members.length (start + patience.nanoseconds), .client (.judge members.length)]⟩)
    (found : s.moment? 0 = Option.some μ) (step : s.step client 0 = Option.some s') :
    ∃ rest < b.toil Work.price + 7, Shadows merge members patience rest (h ++ [μ]) s' := by
  obtain ⟨e, effect, rfl⟩ := System.step_resumes here (by simp) (by simp) step
  cases (System.moment?_there here).symm.trans found
  have effect : s.store.proceed client .unit
    (.polling members.length (start + patience.nanoseconds)) = _ := effect
  obtain ⟨x, there, ⟨o, outcome, rfl⟩ | ⟨pending, up, rfl⟩⟩ := Store.proceed_polling_eq_some effect
  · have state := Store.state?_there (beside.store ▸ there)
    have comes := beside.unfolds.comesTo finished some state outcome
    exact beside.advance (by decide) here (.judges finished (.outcome comes))
  · have state := Store.state?_there there
    rw [(State.isPending_iff _).mp ((State.outcome?_eq_none_iff _).mp pending)] at state
    have givesUp : GivesUp members.length patience (h ++ [⟨s.store, 0, .ok .unit,
        .polling members.length (start + patience.nanoseconds),
        [.client (.judge members.length)]⟩]) :=
      ⟨start, awaits_concat awaits, _, List.mem_append_right _ List.mem_cons_self, rfl, up, state⟩
    exact beside.advance (by decide) here (.judges finished (.pending givesUp))

/-- A reader that judges what it has got ends with it, or cancels the merge. -/
theorem Beside.judge (beside : Beside merge members (fun _ => False) h' b s)
    (finished : b.answer? 0 = some answer) (some : members ≠ []) {a : Answer (Option V)}
    (concludes : Concludes merge members patience h a)
    (here : s.threads[0]? = Option.some ⟨.ok a, [.client (.judge members.length)]⟩)
    (step : s.step client 0 = Option.some s') :
    ∃ rest < b.toil Work.price + 6, Shadows merge members patience rest (h ++ [μ]) s' := by
  cases concludes with
  | @outcome o comes =>
    have effect : s.store.resume client (.ok (.outcome o)) (.client (.judge members.length)) =
      Option.some ⟨s.store, .ok (.outcome o), []⟩ := rfl
    cases (System.step_of_resume here effect).symm.trans step
    exact beside.advance (by decide) here (.ended (.outcome comes))
  | pending givesUp =>
    have effect : s.store.resume client (.ok .pending) (.client (.judge members.length)) =
      Option.some ⟨s.store, .ok .unit, [.call (.cancel members.length), .client .abandon]⟩ := rfl
    cases (System.step_of_resume here effect).symm.trans step
    have paid : (b.begin (.cancel members.length)).toil Work.price = b.toil Work.price + 4 := by
      simp [System.toil, System.begin, Thread.toil, Thread.ofCall, Frame.toil, Call.toil,
        Frame.cost, panicCost]
      omega
    have cancel : ∀ f ∈ [(.call (.cancel members.length) : Frame (Option V) (Work V))],
        Waitless f := by simp [Waitless]
    refine ⟨b.toil Work.price + 5, by omega, ⟨b.begin (.cancel members.length), _, _, _, _,
      ⟨beside.unfolds.withdraw finished some, beside.store, fun t other inside => ?_, ?_⟩,
      System.after_there here _ _, .withdraws (System.answer?_begin finished _)
        (beside.unfolds.over finished).2.2.2 ?_ (System.begin_self b _) cancel givesUp.concat,
      by omega⟩⟩
    · rw [System.after_nil (Ne.symm other), System.begin, List.getElem?_append_left]
      · exact beside.others t other (by simpa [System.after] using inside)
      · exact Nat.lt_of_lt_of_le (by simpa [System.after] using inside) beside.length
    · have length := beside.length
      simp only [System.after, System.begin, List.map_nil, List.append_nil, List.length_set,
        List.length_append, List.length_singleton]
      omega
    · simpa [System.after] using beside.length

/-- A reader that has given up cancels the merge and then ends. -/
theorem Beside.withdraw {w : Nat} (beside : Beside merge members (· = w) h' b s)
    (finished : b.answer? 0 = some answer) (beyond : members.length < w)
    (outside : s.threads.length ≤ w) {a : Answer (Option V)}
    {above : List (Frame (Option V) (Work V))} (there : b.threads[w]? = some ⟨.ok a, above⟩)
    (waitless : ∀ f ∈ above, Waitless f) (givesUp : GivesUp members.length patience h)
    (here : s.threads[0]? = some ⟨.ok a, above ++ [.client .abandon]⟩)
    (step : s.step client 0 = some s') :
    ∃ rest < b.toil Work.price + 1, Shadows merge members patience rest (h ++ [μ]) s' := by
  cases above with
  | nil =>
    have effect : s.store.resume client (.ok a) (.client .abandon) =
      some ⟨s.store, .ok .pending, []⟩ := rfl
    cases (System.step_of_resume here effect).symm.trans step
    exact beside.advance (by decide) here (.ended (.pending givesUp.concat))
  | cons frame above =>
    have here : s.threads[0]? = some ⟨.ok a, frame :: (above ++ [.client .abandon])⟩ := here
    obtain ⟨e, h'', rfl, effect, beside', pays⟩ := beside.apart outside here there step
    have there' := System.after_there there e []
    have here' := System.after_there here e []
    have other : w ≠ 0 := Nat.ne_of_gt (Nat.zero_lt_of_lt beyond)
    have finished' : (b.after w above e []).answer? 0 = some answer :=
      System.answer?_eq_some_iff.mpr
        (System.after_other (System.answer?_eq_some_iff.mp finished) other _ _ _)
    obtain ⟨⟨a', answered⟩, -⟩ := (beside'.unfolds.full finished').others w _ beyond there'
    have waitless' : ∀ f ∈ e.frames ++ above, Waitless f := by
      have withdraws := ((beside.unfolds.full finished).others w _ beyond there).2 frame
        List.mem_cons_self
      have looksOn := beside.unfolds.looksOn (System.moment?_there there) (.resumed effect)
      intro f member
      rcases List.mem_append.mp member with member | member
      · exact withdraws.waitless (waitless frame List.mem_cons_self) rfl effect looksOn
          (fun r x => beside.unfolds.layered.store.own) f member
      · exact waitless f (List.mem_cons_of_mem _ member)
    have answered : e.result = .ok a' := answered
    rw [answered] at there' here'
    rw [← List.append_assoc] at here'
    refine ⟨_, Nat.add_lt_add_right pays 1, ⟨_, _, _, _, _, beside', here',
      .withdraws finished' beyond (by simpa [System.after] using outside) there' waitless'
        givesUp.concat, Nat.le_refl _⟩⟩

/-- A step brings a reading from one phase to another, and there are fewer to come. -/
theorem Shadows.step (shadows : Shadows merge members patience rest h s) (some : members ≠ [])
    (found : s.moment? t = Option.some μ) (step : s.step client t = Option.some s') :
    ∃ rest' < rest, Shadows merge members patience rest' (h ++ [μ]) s' := by
  obtain ⟨b, h', cancels, left, thread, beside, here, phase, few⟩ := shadows
  have fewer : (∃ rest' < b.toil Work.price + left,
      Shadows merge members patience rest' (h ++ [μ]) s') →
      ∃ rest' < rest, Shadows merge members patience rest' (h ++ [μ]) s' :=
    fun ⟨rest', less, shadows⟩ => ⟨rest', Nat.lt_of_lt_of_le less few, shadows⟩
  apply fewer
  by_cases reader : t = 0
  · subst reader
    cases phase with
    | gathers count there resumes => exact beside.gather count here there resumes step
    | turns finished => exact beside.turn finished here found step
    | polls finished awaits => exact beside.poll finished some awaits here found step
    | judges finished concludes => exact beside.judge finished some concludes here step
    | withdraws finished beyond outside there waitless givesUp =>
      exact beside.withdraw finished beyond outside there waitless givesUp here step
    | ended =>
      have busy := here.symm.trans (System.moment?_eq_some found).2.2
      simp at busy
  · obtain ⟨e, yields, rfl, beside', pays⟩ := beside.step reader found step
    have inside := (List.getElem?_eq_some_iff.mp (System.moment?_eq_some found).2.2).1
    exact ⟨_, Nat.add_lt_add_right pays left, ⟨_, _, _, _, _, beside',
      System.after_other here reader _ _ _, phase.other reader inside, Nat.le_refl _⟩⟩

end

theorem Shadows.pass {rest : Nat} (shadows : Shadows merge members patience rest h s) {now : Nat}
    (past : s.store.now ≤ now) : Shadows merge members patience rest h (s.pass now) := by
  obtain ⟨b, h', cancels, left, thread, beside, here, phase, few⟩ := shadows
  exact ⟨_, _, _, _, _, beside.pass past, here, phase.pass now, few⟩

theorem Shadows.start (merge : List (Option V) → Outcome (Option V)) (members : List (Member V))
    (patience : Duration) : Shadows merge members patience (28 * members.length + 23) []
      (reading ⟨merge, .read patience⟩ members) := by
  have beside : Beside merge members (fun _ => False) [] (reading (plan merge) members)
      (reading ⟨merge, .read patience⟩ members) := by
    refine ⟨.start merge members, rfl, fun t other inside => ?_, Nat.le_refl _⟩
    cases t with
    | zero => exact absurd rfl other
    | succ t => rfl
  have begins : Phase merge members patience [] (reading (plan merge) members)
      (reading ⟨merge, .read patience⟩ members) (fun _ => False) 8
      ⟨.ok .unit, [] ++ [.call (.run (.gather ⟨merge, .read patience⟩ members []))]⟩ :=
    .gathers rfl rfl .begins
  refine ⟨_, _, _, _, _, beside, rfl, begins, ?_⟩
  simp [System.toil, reading, System.start, Store.empty, Thread.toil, Thread.ofCall, Frame.toil,
    Call.toil, Work.price, panicCost]
  omega

/-- Whatever the schedule, a reading to wait for goes through its phases. -/
theorem shadows_of_schedule (some : members ≠ []) (schedule : Schedule client Call.Never
    (reading ⟨merge, .read patience⟩ members) h s) :
    ∃ rest, h.length + rest ≤ 28 * members.length + 23 ∧
      Shadows merge members patience rest h s := by
  induction schedule with
  | start => exact ⟨_, by simp, .start merge members patience⟩
  | step before found step ih =>
    obtain ⟨rest, few, shadows⟩ := ih
    obtain ⟨rest', less, shadows'⟩ := shadows.step some found step
    refine ⟨rest', ?_, shadows'⟩
    rw [List.length_append, List.length_singleton]
    omega
  | begin c _ obeyed => exact obeyed.elim
  | pass now _ past ih =>
    obtain ⟨rest, few, shadows⟩ := ih
    exact ⟨rest, few, shadows.pass past⟩

/-- What a reader ends with. -/
theorem Shadows.ended {rest : Nat} (shadows : Shadows merge members patience rest h s)
    (ended : s.answer? 0 = some answer) :
    ∃ a, answer = .ok a ∧ Concludes merge members patience h a := by
  obtain ⟨b, h', cancels, left, thread, beside, here, phase, few⟩ := shadows
  cases here.symm.trans (System.answer?_eq_some_iff.mp ended)
  generalize same : Thread.mk answer [] = thread at phase
  cases phase with
  | ended concludes => cases same; exact ⟨_, rfl, concludes⟩
  | gathers | withdraws => simp at same
  | turns | polls | judges => cases same

theorem client_resumes (store : Records V) (result : Return (Option V)) (work : Work V) :
    ∃ e, store.resume client result (.client work) = some e := by
  cases result with
  | error p => exact ⟨_, rfl⟩
  | ok a =>
    simp only [Store.resume, Store.proceed]
    split <;> exact ⟨_, rfl⟩

/-- A reader that polls goes on when its time is up, if not before. -/
theorem Beside.polls (beside : Beside merge members cancels h' b s)
    (finished : b.answer? 0 = some answer) {a : Answer (Option V)} {deadline : Nat}
    {below : List (Frame (Option V) (Work V))}
    (here : s.threads[0]? = some ⟨.ok a, .polling members.length deadline :: below⟩) :
    s.Moves client 0 := by
  have made : members.length < (s.pass (max s.store.now deadline)).store.results.length := by
    show members.length < s.store.results.length
    rw [beside.store, (beside.unfolds.over finished).2.1]
    exact Nat.lt_succ_self _
  have here' : (s.pass (max s.store.now deadline)).threads[0]? = _ := here
  have up : deadline ≤ (s.pass (max s.store.now deadline)).store.now := Nat.le_max_right _ _
  obtain ⟨e, effect⟩ : ∃ e, (s.pass (max s.store.now deadline)).store.resume client (.ok a)
      (.polling members.length deadline) = some e := by
    simp only [Store.resume, Store.proceed, List.getElem?_eq_getElem made, up, if_true]
    split <;> exact ⟨_, rfl⟩
  exact ⟨_, _, Nat.le_max_left _ _, System.step_of_resume here' effect⟩

/-- The reader goes on until it has ended. -/
theorem Shadows.moves {rest : Nat} (shadows : Shadows merge members patience rest h s)
    (busy : s.answer? 0 = none) : s.Moves client 0 := by
  obtain ⟨b, h', cancels, left, thread, beside, here, phase, few⟩ := shadows
  cases phase with
  | @gathers result above f f' count there resumes =>
    cases above with
    | nil =>
      refine System.moves_of_resume here ?_
      cases resumes with
      | begins => cases result <;> exact ⟨_, rfl⟩
      | _ => exact client_resumes _ _ _
    | cons frame above =>
      refine beside.moves here there (beside.unfolds.moves ?_ (Nat.zero_le _) ?_)
      · exact (List.getElem?_eq_some_iff.mp there).1
      · simp [System.answer?, there]
  | turns => exact System.moves_of_resume here ⟨_, rfl⟩
  | polls finished => exact beside.polls finished here
  | judges => exact System.moves_of_resume here (client_resumes _ _ _)
  | @withdraws _ w a above finished beyond outside there waitless givesUp =>
    cases above with
    | nil => exact System.moves_of_resume here (client_resumes _ _ _)
    | cons frame above =>
      refine beside.moves here there
        (beside.unfolds.layered.moves (System.moment?_there there) fun r timeout entry waits => ?_)
      exact absurd waits ((waitless frame List.mem_cons_self).2.2 _ _ _ _)
  | ended => cases busy.symm.trans (System.answer?_eq_some_iff.mpr here)

end Quorate.Replica
