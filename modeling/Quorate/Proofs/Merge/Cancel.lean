import Quorate.Proofs.Merge.Simulation
import Quorate.Proofs.Merge.Sweep

/-! What a cancel of a merge has done when it is over. If none of the sources panics, all of them
were asked, every callback of the merge was performed, and its readers are told. A panic of a
source goes through instead: the sources behind it are not asked, and nobody is ever told. -/

set_option autoImplicit false

namespace Quorate

variable {V κ σ : Type}

namespace Result

variable {x : Result V κ}

theorem complete_notified (state : State V) :
    (x.complete state).cell.notified = x.cell.notified := by
  unfold complete
  split
  next => rfl
  next cell tasks same =>
    obtain ⟨-, rfl, -⟩ := (Cell.transition_eq_some_iff _ _ _ _).mp same
    rfl

theorem merged_notified {cell : Cell V (Task κ)} {kind : Kind V κ} {m : Merge V κ} {o : Outcome V} :
    ((Result.mk cell kind).merged m o).cell.notified = cell.notified := by
  unfold merged
  split
  next => rfl
  next cell' tasks same =>
    obtain ⟨-, rfl, -⟩ := (Cell.transition_eq_some_iff _ _ _ _).mp same
    rfl

theorem commit_notified {index : Nat} {o : Outcome V} :
    (x.commit index o).cell.notified = x.cell.notified := by
  obtain ⟨cell, kind⟩ := x
  cases kind with
  | merge m =>
    simp only [commit]
    split
    next => rfl
    next => rfl
    next => rfl
    next => rfl
    next cell' gathering tasks arrival =>
      obtain ⟨e, -, rfl, -⟩ := Gathering.arrive_failed arrival
      rfl
    next values gathering arrival =>
      split
      next =>
        split
        next => rfl
        next => exact merged_notified
      next => rfl
  | _ => rfl

/-- Readers are told by the end of a delivery only. -/
theorem touch_notified {result : Return V} {frame : Frame V κ}
    (apart : ∀ r first reply, frame ≠ .deliver r [] first reply) :
    (x.touch result frame).cell.notified = x.cell.notified := by
  unfold touch
  split
  next => exact complete_notified _
  next =>
    obtain ⟨cell, kind⟩ := x
    cases kind with
    | latch latch =>
      simp only [countDown]
      split
      next => rfl
      next => rfl
      next ack =>
        obtain ⟨-, v, rfl, -⟩ := Latch.acknowledge_last ack
        rfl
    | _ => rfl
  next =>
    obtain ⟨cell, kind⟩ := x
    cases kind with
    | settable => exact complete_notified _
    | merge m =>
      simp only [cancel]
      split
      next => rfl
      next cell' tasks same =>
        obtain ⟨-, rfl, -⟩ := (Cell.transition_eq_some_iff _ _ _ _).mp same
        rfl
    | _ => rfl
  next =>
    unfold register
    split
    next => rfl
    next =>
      split
      next => rfl
      next cell same =>
        obtain ⟨-, rfl⟩ := (Cell.enqueue_eq_some_iff _ _ _).mp same
        rfl
  next =>
    unfold claim
    split <;> rfl
  next => exact absurd rfl (apart _ _ _)
  next => exact commit_notified
  next result _ _ =>
    obtain ⟨cell, kind⟩ := x
    unfold mergerEnded
    split
    next =>
      cases kind with
      | merge m => exact merged_notified
      | _ => rfl
    next => rfl
    next => cases kind <;> rfl
  next => rfl

end Result

/-- A result has ended, its readers are not told, and nobody is left to tell them. -/
def System.Untold (m : ResultId) (s : System V κ σ) : Prop :=
  (∃ x, s.store.results[m]? = some x ∧ x.cell.state.isPending = false ∧ x.cell.notified = false) ∧
    s.weight (Frame.delivers m) = 0

theorem Emits.untold {client : Client V κ σ} {s : Store V κ σ} {result result' : Return V}
    {frame : Frame V κ} {frames : List (Frame V κ)} {r : ResultId} {x : Result V κ}
    (emits : Emits client s result frame result' frames) (found : s.results[r]? = some x)
    (terminal : x.cell.state.isPending = false) (idle : frame.delivers r = 0) :
    load (Frame.delivers r) frames = 0 := by
  have other {r' : ResultId} {x' : Result V κ} (found' : s.results[r']? = some x')
      (pending : x'.cell.state.isPending = true) : ¬ r' = r := by
    rintro rfl
    cases found.symm.trans found'
    exact absurd pending (by simp [terminal])
  cases emits with
  | passive _ passives => exact load_passive (fun f p => p.delivers r) passives
  | settles _ found' settles _ _ => simp [Frame.delivers, other found' settles.pending]
  | sweeps found' pending => simp [Frame.delivers, other found' pending]
  | opens form =>
    rcases form with ⟨f, p, -, -, -, rfl⟩ | ⟨f, o, -, -, -, rfl⟩ | ⟨f, -, -, rfl⟩ <;>
      simp [Frame.delivers]
  | asks => simpa [Frame.delivers] using idle
  | swept => simpa [Frame.delivers] using idle
  | delivers => simpa [Frame.delivers] using idle
  | survives => simpa [Frame.delivers] using idle
  | _ => simp [Frame.delivers]

theorem System.Untold.step {client : Client V κ σ} {s : System V κ σ} {t : Nat} {μ : Moment V κ σ}
    {e : Effect V κ σ} {calls : List (Call V κ)} {m : ResultId} (untold : s.Untold m)
    (found : s.moment? t = some μ) (yields : μ.Yields client e calls) :
    (s.after t μ.below e calls).Untold m := by
  obtain ⟨⟨x, there, terminal, quiet⟩, none⟩ := untold
  have store := (moment?_eq_some found).1
  have touches := yields.touches
  rw [store] at touches
  have moved := weight_after (Frame.delivers m) e calls found
  have enough := weight_le (w := Frame.delivers m) found
  have begun := load_calls (Frame.delivers m) (fun _ => rfl) calls
  -- no frame delivers `m`, the one that steps included
  have idle : μ.frame.delivers m = 0 := by omega
  have apart : μ.frame.subject? = some m →
      ∀ r first reply, μ.frame ≠ .deliver r [] first reply := by
    intro about r first reply same
    rw [same] at about idle
    cases about
    simp [Frame.delivers] at idle
  refine ⟨⟨_, touches.there m x there, ?_, ?_⟩, ?_⟩
  · split
    · rw [(Result.touch_later μ.result μ.frame).state terminal]
      exact terminal
    · exact terminal
  · split
    next about => rw [Result.touch_notified (apart about)]; exact quiet
    next => exact quiet
  · rcases yields.emits with ⟨-, emits⟩ | ⟨a, b, c, -, -, -, none, -⟩
    · rw [store] at emits
      have := emits.untold there terminal idle
      omega
    · rw [none] at moved
      simp only [load_nil] at moved
      omega

theorem System.Untold.begin {s : System V κ σ} {m : ResultId} (untold : s.Untold m) (c : Call V κ) :
    (s.begin c).Untold m :=
  ⟨untold.1, by simpa [Frame.delivers] using untold.2⟩

theorem Run.untold {client : Client V κ σ} {rule : Store V κ σ → Call V κ → Prop}
    {s s₁ : System V κ σ} {h : List (Moment V κ σ)} {m : ResultId} (run : Run client rule s h s₁)
    (untold : s.Untold m) : s₁.Untold m := by
  induction run with
  | start => exact untold
  | step run found step fair ih =>
    obtain ⟨μ, e, calls, moment, yields, rfl⟩ := System.step_yields step
    exact ih.step moment yields
  | begin c _ _ ih => exact ih.begin c
  | pass now _ _ ih => exact ih

/-- Thread `t` begins to cancel `m` on top of the frames `base`, and the system runs on, but the
thread does nothing below the cancel. -/
inductive Cancels (client : Client V κ σ) (m : ResultId) (s : System V κ σ) (t : Nat)
    (base : List (Frame V κ)) (h : List (Moment V κ σ)) (s₁ : System V κ σ) : Prop where
  | intro {store : Store V κ σ} {a : Answer V} {s' : System V κ σ} :
      s.moment? t = some ⟨store, t, .ok a, .call (.cancel m), base⟩ → s.step client t = some s' →
      Run client Call.Fair s' h s₁ → (∀ μ ∈ h, μ.thread = t → base.length ≤ μ.below.length) →
      Cancels client m s t base h s₁

section

variable {client : Client V κ σ} {m : ResultId} {s s₁ : System V κ σ} {t : Nat}
  {base : List (Frame V κ)} {h : List (Moment V κ σ)} {cell : Cell V (Task κ)} {merge : Merge V κ}

/-- The first step of a cancel takes the callbacks and the sources out. -/
theorem cancel_begins {s' : System V κ σ} {store : Store V κ σ} {a : Answer V}
    (found : s.moment? t = some ⟨store, t, .ok a, .call (.cancel m), base⟩)
    (step : s.step client t = some s')
    (there : s.store.results[m]? = some ⟨cell, .merge merge⟩) (pending : cell.state = .pending) :
    s'.threads[t]? =
        some ⟨.ok (.flag true), .sweep m merge.gathering.sources true cell.queue :: base⟩ ∧
      s'.store.results[m]? = some ⟨⟨.cancelled, [], true, cell.notified⟩,
        .merge { merge with gathering := merge.gathering.release }⟩ := by
  obtain ⟨μ, e, calls, moment, yields, rfl⟩ := System.step_yields step
  cases found.symm.trans moment
  have same := (System.moment?_eq_some found).1
  simp only at same
  subst same
  have self := System.after_self found e calls
  cases yields with
  | resumed effect =>
    obtain ⟨x, found', free, effect⟩ := Store.locking_eq_some effect
    cases there.symm.trans found'
    have bound := (List.getElem?_eq_some_iff.mp there).1
    simp only [Cell.transition, pending, State.isPending, if_true] at effect
    cases effect
    exact ⟨self, by simp [System.after, bound]⟩
  | forked _ _ frame => cases frame
  | joined _ _ frame => cases frame

theorem Cancels.course (cancels : Cancels client m s t base h s₁)
    (there : s.store.results[m]? = some ⟨cell, .merge merge⟩) (pending : cell.state = .pending) :
    ∃ thread, s₁.threads[t]? = some thread ∧
      Course s₁.store m merge.gathering.sources cell.queue base (swept t base.length h) thread := by
  obtain ⟨found, step, run, inside⟩ := cancels
  exact run.course (cancel_begins found step there pending).1 inside

theorem Cancels.cancelled (cancels : Cancels client m s t base h s₁)
    (there : s.store.results[m]? = some ⟨cell, .merge merge⟩) (pending : cell.state = .pending) :
    ∃ x, s₁.store.results[m]? = some x ∧ x.cell.state = .cancelled := by
  obtain ⟨found, step, run, -⟩ := cancels
  obtain ⟨x, found', later⟩ := run.store_later m _ (cancel_begins found step there pending).2
  exact ⟨x, found', later.state rfl⟩

/-- How a cancel can end: with everything done, or with the panic of a source. -/
theorem Course.finished {store : Store V κ σ} {sources : List ResultId} {queue : List (Task κ)}
    {w : Swept κ} {result : Return V}
    (course : Course store m sources queue base w ⟨result, base⟩) :
    (w.unwound = [] ∧ w.asked.map Prod.fst = sources ∧ w.performed = queue ∧ store.Told m ∧
      ∃ all, Answers w.asked all ∧
        result = match w.failed.head? with | some p => .error p | none => .ok (.flag all)) ∨
    ∃ p, w.unwound = [p] ∧ w.asked.map Prod.fst <+: sources ∧ w.asked ≠ [] ∧ w.performed = [] ∧
      w.failed = [] ∧ result = .error p := by
  generalize same : Thread.mk result base = thread at course
  have longer (above : List (Frame V κ)) (frame : Frame V κ) :
      base ≠ above ++ frame :: base := by
    intro same
    have length := congrArg List.length same
    simp at length
    omega
  cases course with
  | sweeping => exact absurd (congrArg Thread.frames same) (longer [] _)
  | asking => exact absurd (congrArg Thread.frames same) (longer [_] _)
  | asked => exact absurd (congrArg Thread.frames same) (longer _ _)
  | delivering => exact absurd (congrArg Thread.frames same) (longer [] _)
  | performing => exact absurd (congrArg Thread.frames same) (longer [_] _)
  | performed => exact absurd (congrArg Thread.frames same) (longer _ _)
  | ended asked performed unwound answers told =>
    cases same
    exact .inl ⟨unwound, asked, performed, told, _, answers, rfl⟩
  | dropped asked some performed unwound failed =>
    cases same
    exact .inr ⟨_, unwound, ⟨_, asked⟩, some, performed, failed, rfl⟩

theorem Course.top_sweep {store : Store V κ σ} {sources rest : List ResultId}
    {queue drained : List (Task κ)} {w : Swept κ} {result : Return V} {m' : ResultId} {all : Bool}
    {below : List (Frame V κ)}
    (course : Course store m sources queue base w ⟨result, .sweep m' rest all drained :: below⟩)
    (length : below.length = base.length) : m' = m := by
  generalize same : Thread.mk result (.sweep m' rest all drained :: below) = thread at course
  have frames := congrArg Thread.frames same
  -- the height of the stack tells the frame of the cancel from those above it
  have lengths := congrArg List.length frames
  cases course with
  | sweeping => cases same; rfl
  | asking => cases same
  | @asked _ _ _ above _ _ _ _ _ _ higher =>
    simp only [List.length_cons, List.length_append] at lengths
    exact absurd (List.eq_nil_of_length_eq_zero (by omega)) higher
  | delivering => cases same
  | performing => cases same
  | @performed _ _ _ above _ _ _ _ higher =>
    simp only [List.length_cons, List.length_append] at lengths
    exact absurd (List.eq_nil_of_length_eq_zero (by omega)) higher
  | ended =>
    simp only [List.length_cons] at lengths
    omega
  | dropped =>
    simp only [List.length_cons] at lengths
    omega

theorem Moment.unwound?_ne_none {depth : Nat} {μ : Moment V κ σ}
    (some : μ.unwound? t depth ≠ none) :
    ∃ p merge rest all drained, μ.result = .error p ∧ μ.frame = .sweep merge rest all drained ∧
      μ.thread = t ∧ μ.below.length = depth := by
  unfold unwound? at some
  split at some
  next p merge rest all drained result frame =>
    split at some
    next here =>
      simp only [at?, Bool.and_eq_true, decide_eq_true_eq] at here
      exact ⟨p, merge, rest, all, drained, result, frame, here.1, here.2⟩
    next => exact absurd rfl some
  next => exact absurd rfl some

theorem Emits.unwound_sweep {store : Store V κ σ} {p : Panic} {merge : ResultId}
    {rest : List ResultId} {all : Bool} {drained : List (Task κ)} {result : Return V}
    {frames : List (Frame V κ)}
    (emits : Emits client store (.error p) (.sweep merge rest all drained) result frames) :
    frames = [] := by
  cases emits with
  | settles about => cases about
  | drops => rfl
  | catches form => rcases form with form | form <;> cases form
  | unwinds through => exact through.elim

/-- Once a source's panic has gone through a cancel, nobody is left to tell the readers. -/
theorem Run.dropped_untold (run : Run client Call.Fair s h s₁) (sound : s.Sound)
    (orderly : s.Orderly) {sources : List ResultId} {queue : List (Task κ)}
    (start : s.threads[t]? = some ⟨.ok (.flag true), .sweep m sources true queue :: base⟩)
    (inside : ∀ μ ∈ h, μ.thread = t → base.length ≤ μ.below.length)
    (terminal : ∃ x, s.store.results[m]? = some x ∧ x.cell.state.isPending = false) :
    (swept t base.length h : Swept κ).unwound ≠ [] → s₁.Untold m := by
  induction run with
  | start => exact fun some => absurd rfl some
  | @step h s₁ s₂ t' μ run found step fair ih =>
    have inside' : ∀ μ ∈ h, μ.thread = t → base.length ≤ μ.below.length :=
      fun μ member => inside μ (by simp [member])
    obtain ⟨μ', e, calls, moment, yields, rfl⟩ := System.step_yields step
    cases found.symm.trans moment
    rw [swept_concat]
    intro some
    by_cases before : (swept t base.length h : Swept κ).unwound = []
    · -- this is the step that unwinds the sweep
      have unwinds : μ.unwound? t base.length ≠ none := fun none => by
        simp [Swept.add, before, none] at some
      obtain ⟨p, m', rest, all, drained, result, frame, thread, length⟩ :=
        Moment.unwound?_ne_none unwinds
      obtain ⟨store, moved, selected⟩ := System.moment?_eq_some found
      obtain ⟨thread', there, course⟩ := run.course start inside'
      rw [thread] at moved
      subst moved
      cases selected.symm.trans there
      rw [frame] at course
      have same : m' = m := course.top_sweep length
      subst same
      obtain ⟨x₀, there₀, terminal₀⟩ := terminal
      obtain ⟨x, there, later⟩ := run.store_later m' x₀ there₀
      have terminal : x.cell.state.isPending = false := by
        rw [later.state terminal₀]
        exact terminal₀
      have ordered := (run.orderly sound orderly).there m' x there
      have one : μ.frame.delivers m' = 1 := by simp [frame, Frame.delivers]
      have enough := System.weight_le (w := Frame.delivers m') found
      have weighed := System.weight_after (Frame.delivers m') e calls found
      have touches := yields.touches
      rw [store] at touches
      -- this sweep is the one frame that would have told the readers, and it leaves nothing
      obtain ⟨-, -, once⟩ := ordered.ended terminal
      rcases yields.emits with ⟨none, emits⟩ | ⟨_, _, _, _, fork, -⟩
      · rw [result, frame] at emits
        subst none
        rw [emits.unwound_sweep] at weighed
        simp only [List.map_nil, load_nil] at weighed
        refine ⟨⟨x, ?_, terminal, ?_⟩, by omega⟩
        · show e.store.results[m']? = Option.some x
          simpa [frame, Frame.subject?] using touches.there m' x there
        · cases told : x.cell.notified with
          | false => rfl
          | true =>
            rw [told, if_pos rfl] at once
            omega
      · rw [frame] at fork
        cases fork
    · -- the panic has gone through before, and nothing changes that
      exact (ih inside' before).step found yields
  | begin c run fair ih => exact fun some => (ih inside some).begin c
  | pass now run past ih => exact fun some => ih inside some

theorem Cancels.unlocked (cancels : Cancels client m s t base h s₁)
    (there : s.store.results[m]? = some ⟨cell, .merge merge⟩) : merge.lock ≠ .held := by
  obtain ⟨found, step, -, -⟩ := cancels
  obtain ⟨μ, e, calls, moment, yields, rfl⟩ := System.step_yields step
  cases found.symm.trans moment
  have same := (System.moment?_eq_some found).1
  simp only at same
  subst same
  cases yields with
  | resumed effect =>
    obtain ⟨x, found', free, -⟩ := Store.locking_eq_some effect
    cases there.symm.trans found'
    simpa [Result.isHeld] using free
  | forked _ _ frame => cases frame
  | joined _ _ frame => cases frame

theorem Cancels.dropped_untold (cancels : Cancels client m s t base h s₁) (sound : s.Sound)
    (orderly : s.Orderly) (there : s.store.results[m]? = some ⟨cell, .merge merge⟩)
    (pending : cell.state = .pending) (dropped : (swept t base.length h).unwound ≠ []) :
    s₁.Untold m := by
  obtain ⟨found, step, run, inside⟩ := cancels
  obtain ⟨start, cancelled⟩ := cancel_begins found step there pending
  obtain ⟨μ, e, calls, moment, yields, rfl⟩ := System.step_yields step
  cases found.symm.trans moment
  exact run.dropped_untold (sound.step found (by simp [Moment.call?]) yields)
    (orderly.step sound found yields) start inside ⟨_, cancelled, rfl⟩ dropped

section

variable {merger : Merger V κ} {sources : List ResultId} {p : Progress V}

/-- A merge holds all of its sources or none. -/
theorem Progress.Shows.all_or_none (shows : p.Shows merger sources ⟨cell, .merge merge⟩) :
    merge.gathering.sources = sources ∨ merge.gathering.sources = [] := by
  cases shows with
  | opening _ released => exact .inr released
  | gathering => exact .inl rfl
  | merging _ released => exact .inr released
  | broken _ released => exact .inr released
  | decided _ _ released => exact .inr released

theorem Progress.Shows.owned (shows : p.Shows merger sources ⟨cell, .merge merge⟩)
    (unlocked : merge.lock ≠ .held) (some : sources ≠ []) :
    merge.gathering.sources = sources ↔ cell.state = .pending ∧ merge.lock ≠ .poisoned := by
  cases shows with
  | gathering pending => exact ⟨fun _ => ⟨pending, nofun⟩, fun _ => rfl⟩
  | opening _ _ none => exact absurd none some
  | merging => exact absurd rfl unlocked
  | broken pending released =>
    refine ⟨fun all => ?_, fun sane => absurd rfl sane.2⟩
    exact absurd (all.symm.trans released) some
  | decided decided terminal released =>
    refine ⟨fun all => absurd (all.symm.trans released) some, fun live => ?_⟩
    rw [← decided, live.1] at terminal
    cases terminal

end

/-- Whether readers that came to the merge before it ended get the answer of its cancel. -/
def Store.Released (s : Store V κ σ) (m : ResultId) : Prop :=
  ∃ x, s.results[m]? = some x ∧ x.cell.release? false = some (.error .cancelled)

theorem System.Untold.released (untold : s.Untold m) : ¬ s.store.Released m := by
  rintro ⟨x, there, released⟩
  obtain ⟨⟨x', there', -, quiet⟩, -⟩ := untold
  cases there.symm.trans there'
  simp [Cell.release?, quiet] at released

/-- The panic of a source goes through the cancel of a merge: no source behind it is asked, no
callback of the merge is performed, and readers that wait for the merge are never told. If no
source panics, all of that is done, and a panic of the merge's own callbacks is resumed after it.
A merge whose merger panicked has no sources left to ask. -/
theorem cancel_done_unless_source_panics {merger : Merger V κ} {sources : List ResultId}
    {s₀ : System V κ σ} {h₀ : List (Moment V κ σ)} {result : Return V}
    (built : Built client Call.Fair merger sources m s₀) (run : Run client Call.Fair s₀ h₀ s)
    (there : s.store.results[m]? = some ⟨cell, .merge merge⟩) (pending : cell.state = .pending)
    (cancels : Cancels client m s t base h s₁) (finished : s₁.threads[t]? = some ⟨result, base⟩) :
    (merge.gathering.sources = sources ∨
        merge.lock = .poisoned ∧ merge.gathering.sources = []) ∧
      ((swept t base.length h).unwound = [] ∧
          (swept t base.length h).asked.map Prod.fst = merge.gathering.sources ∧
          (swept t base.length h).performed = cell.queue ∧ s₁.store.Released m ∧
          ((swept t base.length h).failed = [] ∧ (∃ all, result = .ok (.flag all)) ∨
            ∃ p, (swept t base.length h).failed.head? = some p ∧ result = .error p) ∨
        ∃ p, (swept t base.length h).unwound = [p] ∧
          (swept t base.length h).asked.map Prod.fst <+: merge.gathering.sources ∧
          (swept t base.length h).performed = [] ∧ result = .error p ∧
          ∀ h' s₂, Run client Call.Fair s₁ h' s₂ → ¬ s₂.store.Released m) := by
  have sound := run.sound built.sound
  have orderly := run.orderly built.sound built.orderly
  constructor
  · obtain ⟨x, there', shows⟩ := run.shows built.sound built.orderly built.shows
    cases there.symm.trans there'
    rcases shows.all_or_none with all | none
    · exact .inl all
    · by_cases poisoned : merge.lock = .poisoned
      · exact .inr ⟨poisoned, none⟩
      · by_cases some : sources = []
        · exact .inl (none.trans some.symm)
        · exact .inl ((shows.owned (cancels.unlocked there) some).mpr ⟨pending, poisoned⟩)
  · obtain ⟨thread, there', course⟩ := cancels.course there pending
    cases finished.symm.trans there'
    obtain ⟨y, ended, cancelled⟩ := cancels.cancelled there pending
    rcases course.finished with
      ⟨unwound, asked, performed, told, all, -, answer⟩ |
        ⟨p, unwound, asked, some, performed, failed, answer⟩
    · refine .inl ⟨unwound, asked, performed, ?_, ?_⟩
      · obtain ⟨x, found, told⟩ := told
        cases ended.symm.trans found
        exact ⟨y, found, by simp [Cell.release?, told, cancelled, State.outcome?]⟩
      · cases failed : (swept t base.length h).failed with
        | nil =>
          rw [failed] at answer
          exact .inl ⟨rfl, all, answer⟩
        | cons p rest =>
          rw [failed] at answer
          exact .inr ⟨p, rfl, answer⟩
    · refine .inr ⟨p, unwound, asked, performed, answer, fun h' s₂ later => ?_⟩
      have untold := cancels.dropped_untold sound orderly there pending (by simp [unwound])
      exact (later.untold untold).released

end

namespace Dropped

def client : Client Unit Unit Unit := .panicking Unit "boom"

/-- Two results, and a call that merges them. -/
def before : System Unit Unit Unit :=
  ((System.mk (.empty ()) []).perform client [(.create .settable, 1), (.create .settable, 1),
    (.build (.plain fun _ => .ok (.ok ())) [0, 1], 0)]).2

def made : System Unit Unit Unit := (before.drive client [2]).2

/-- The first source and the merge have a callback that panics; now the merge is to be
cancelled. -/
def after : System Unit Unit Unit :=
  ((made.drive client (List.replicate 5 2)).2.perform client
    [(.register 0 ⟨.client (), .inline⟩, 1), (.register 2 ⟨.client (), .inline⟩, 1),
      (.cancel 2, 0)]).2

def cancelled : List (Moment Unit Unit Unit) × System Unit Unit Unit :=
  (after.drive client [5]).2.drive client (List.replicate 13 5)

theorem second_source_not_asked :
    Built client Call.Fair (.plain fun _ => .ok (.ok ())) [0, 1] 2 made ∧
      (∃ h, Run client Call.Fair made h after) ∧
      (∃ cell merge, after.store.results[2]? = some ⟨cell, .merge merge⟩ ∧
        cell.state = .pending) ∧
      Cancels client 2 after 5 [] cancelled.1 cancelled.2 ∧
      cancelled.2.threads[5]? = some ⟨.error "boom", []⟩ ∧
      (swept 5 0 cancelled.1).asked.map Prod.fst = [0] ∧ (swept 5 0 cancelled.1).performed = [] ∧
      ∀ h s, Run client Call.Fair cancelled.2 h s → ¬ s.store.Released 2 := by
  have reached : Run client Call.Fair ⟨.empty (), []⟩ _ before :=
    Run.perform Client.panicking_fair _ _
  have built : Built client Call.Fair (.plain fun _ => .ok (.ok ())) [0, 1] 2 made :=
    .intro reached (t := 2) rfl rfl rfl rfl rfl
  have run := (Run.drive Client.panicking_fair made (List.replicate 5 2)).trans
    (Run.perform Client.panicking_fair (made.drive client (List.replicate 5 2)).2
      [(.register 0 ⟨.client (), .inline⟩, 1), (.register 2 ⟨.client (), .inline⟩, 1),
        (.cancel 2, 0)])
  obtain ⟨x, there, shows⟩ := run.shows built.sound built.orderly built.shows
  obtain ⟨cell, gathering, lock, rfl⟩ := shows.isMerge
  have state : (after.store.results[2]?.map fun x => x.cell.state) = some .pending := rfl
  have same : after.store.results[2]? = some ⟨cell, .merge ⟨_, _, gathering, lock⟩⟩ := there
  rw [same] at state
  have pending : cell.state = .pending := Option.some.inj state
  have cancels : Cancels client 2 after 5 [] cancelled.1 cancelled.2 :=
    .intro rfl rfl (Run.drive Client.panicking_fair _ _) (by simp)
  have finished : cancelled.2.threads[5]? = some ⟨.error "boom", []⟩ := rfl
  have unwound : (swept 5 0 cancelled.1).unwound = ["boom"] := rfl
  have asked : (swept 5 0 cancelled.1).asked.map Prod.fst = [0] := rfl
  rcases (cancel_done_unless_source_panics built run same pending cancels finished).2 with
    ⟨done, -⟩ | ⟨p, -, -, performed, -, untold⟩
  · cases unwound.symm.trans done
  · exact ⟨built, ⟨_, run⟩, ⟨_, _, same, pending⟩, cancels, finished, asked, performed, untold⟩

end Dropped

end Quorate
