import Quorate.Proofs.Merge.OneShot
import Quorate.Proofs.System.Panics
import Quorate.Proofs.System.Performing

/-! A result that is completed tells all of its callbacks, whatever becomes of them. Panics do not
keep the merges among them from hearing how it ended, and reach the caller only when everybody else
has been told. -/

set_option autoImplicit false

namespace Quorate

variable {V κ σ : Type}

/-- A frame that is to tell the merge `m` how its source `r` at position `i` ended. -/
inductive Frame.Consults (m : ResultId) (i : Nat) (r : ResultId) : Return V → Frame V κ → Prop where
  | performs {a : Answer V} : Consults m i r (.ok a) (.call (.perform ⟨.observe m i, .inline⟩))
  | starts {a : Answer V} : Consults m i r (.ok a) (.start (.observe m i))
  | looks {a : Answer V} : Consults m i r (.ok a) (.lookup m i)
  | asks {a : Answer V} : Consults m i r (.ok a) (.query m i r)
  | tells {o : Outcome V} : Consults m i r (.ok (.outcome o)) (.commit m i)

/-- The merge `m` holds its sources, or has let go of them. -/
def Store.Holds (m : ResultId) (sources : List ResultId) (s : Store V κ σ) : Prop :=
  ∃ cell merge, s.results[m]? = some ⟨cell, .merge merge⟩ ∧
    (merge.gathering.sources = sources ∨ merge.gathering.sources = [])

/-- The merge `m` has let go of its sources. -/
def Store.Sourceless (m : ResultId) (s : Store V κ σ) : Prop :=
  ∃ cell merge, s.results[m]? = some ⟨cell, .merge merge⟩ ∧ merge.gathering.sources = []

/-- The merge `m` was told of position `i`, or needs no more to be told, or its source `r` has
nothing to tell. -/
def Store.Heard (m : ResultId) (i : Nat) (r : ResultId) (events : List (Event V))
    (s : Store V κ σ) : Prop :=
  (∃ o, .arrived i o ∈ events) ∨ s.Sourceless m ∨ s.IsCancelled r

/-- The merge `m` was made over `sources`, of which the one at position `i` has ended. -/
structure Store.Concerns (m : ResultId) (sources : List ResultId) (i : Nat) (r : ResultId)
    (s : Store V κ σ) : Prop where
  position : sources[i]? = some r
  merge : s.Holds m sources
  ended : ∃ x, s.results[r]? = some x ∧ x.isForeign = false ∧ x.cell.state.isPending = false

namespace Store.Later

variable {s s' : Store V κ σ} (later : s.Later s') {m r : ResultId} {i : Nat}
  {sources : List ResultId}
include later

theorem holds (holds : s.Holds m sources) : s'.Holds m sources := by
  obtain ⟨cell, merge, there, held⟩ := holds
  obtain ⟨⟨cell', kind'⟩, there', ⟨kinds, -, -⟩⟩ := later m _ there
  cases kind' with
  | merge merge' =>
    obtain ⟨-, -, same | none⟩ := kinds
    · exact ⟨cell', merge', there', same ▸ held⟩
    · exact ⟨cell', merge', there', .inr none⟩
  | _ => exact kinds.elim

theorem sourceless (sourceless : s.Sourceless m) : s'.Sourceless m := by
  obtain ⟨cell, merge, there, none⟩ := sourceless
  obtain ⟨cell', merge', there', held⟩ := later.holds ⟨cell, merge, there, .inr none⟩
  exact ⟨cell', merge', there', held.elim id id⟩

theorem heard {events events' : List (Event V)} (heard : s.Heard m i r events)
    (more : events ⊆ events') : s'.Heard m i r events' := by
  rcases heard with ⟨o, arrived⟩ | sourceless | cancelled
  · exact .inl ⟨o, more arrived⟩
  · exact .inr (.inl (later.sourceless sourceless))
  · exact .inr (.inr (later.isCancelled cancelled))

theorem concerns (concerns : s.Concerns m sources i r) : s'.Concerns m sources i r := by
  obtain ⟨position, merge, x, found, own, terminal⟩ := concerns
  obtain ⟨x', found', later'⟩ := later r x found
  exact ⟨position, later.holds merge, x', found', later'.isForeign.trans own,
    by rw [later'.state terminal, terminal]⟩

end Store.Later

/-- The step lemma: the frame goes on to the next stage, or the merge has heard. -/
theorem Emits.consults {client : Client V κ σ} {s : Store V κ σ} {result result' : Return V}
    {frame : Frame V κ} {frames : List (Frame V κ)} {m r : ResultId} {i : Nat}
    {sources : List ResultId} (emits : Emits client s result frame result' frames)
    (consults : frame.Consults m i r result) (concerns : s.Concerns m sources i r) :
    (∃ f, frames = [f] ∧ f.Consults m i r result') ∨
      s.Heard m i r (frame.event? m result).toList := by
  obtain ⟨position, ⟨cell, merge, there, held⟩, x, found, own, terminal⟩ := concerns
  cases consults with
  | performs =>
    cases emits with
    | inline => exact .inl ⟨_, rfl, .starts⟩
    | passive passive => exact passive.elim
    | keeps ending => exact ending.elim
    | settles about => cases about
    | serves form => rcases form with none | ⟨task, none⟩ <;> cases none
  | starts =>
    cases emits with
    | observes => exact .inl ⟨_, rfl, .looks⟩
    | passive passive => exact passive.elim
    | keeps ending => exact ending.elim
    | settles about => cases about
  | looks =>
    cases emits with
    | misses there' missing =>
      cases there.symm.trans there'
      rcases held with all | none
      · rw [all, position] at missing
        cases missing
      · exact .inr (.inr (.inl ⟨cell, merge, there, none⟩))
    | finds there' selected =>
      cases there.symm.trans there'
      rcases held with all | none
      · rw [all, position] at selected
        cases selected
        exact .inl ⟨_, rfl, .asks⟩
      · rw [none] at selected
        cases selected
    | passive passive => exact passive.elim
    | keeps ending => exact ending.elim
    | settles about => cases about
  | asks =>
    cases emits with
    | early found' undone =>
      cases found.symm.trans found'
      rw [Result.isDone_eq own, terminal] at undone
      cases undone
    | skips found' cancelled =>
      cases found.symm.trans found'
      exact .inr (.inr (.inr ⟨x, found, own, cancelled⟩))
    | inquires found' foreign =>
      cases found.symm.trans found'
      cases own.symm.trans foreign
    | reads => exact .inl ⟨_, rfl, .tells⟩
    | passive passive => exact passive.elim
    | keeps ending => exact ending.elim
    | settles about => cases about
  | @tells o =>
    right; left
    exact ⟨o, by simp [Frame.event?]⟩

section

variable {client : Client V κ σ} {rule : Store V κ σ → Call V κ → Prop} {s s₁ : System V κ σ}
  {h : List (Moment V κ σ)} {m r : ResultId} {i t : Nat} {sources : List ResultId}

/-- The run lemma: the thread is still at it, or the merge has heard. -/
theorem Run.heard {base : List (Frame V κ)} {result : Return V} {frame : Frame V κ}
    (run : Run client rule s h s₁)
    (start : s.threads[t]? = some ⟨result, frame :: base⟩) (consults : frame.Consults m i r result)
    (concerns : s.store.Concerns m sources i r) :
    (∃ result f, s₁.threads[t]? = some ⟨result, f :: base⟩ ∧ f.Consults m i r result) ∨
      s₁.store.Heard m i r (h.filterMap (Moment.event? m)) := by
  induction run with
  | start => exact .inl ⟨result, frame, start, consults⟩
  | @step h s₁ s₂ t' μ run found step _ ih =>
    obtain ⟨μ', e, calls, moment, yields, rfl⟩ := System.step_yields step
    cases found.symm.trans moment
    obtain ⟨store, -, selected⟩ := System.moment?_eq_some found
    have later := yields.touches.later
    have concerns := run.store_later.concerns concerns
    rw [← store] at concerns ih
    rw [filterMap_concat]
    rcases ih with ⟨result, f, there, consults⟩ | heard
    · by_cases same : t' = t
      · subst same
        cases there.symm.trans selected
        rcases yields.emits with ⟨-, emits⟩ | ⟨a, b, c, -, fork, -⟩
        · rcases emits.consults consults concerns with ⟨f, frames, next⟩ | heard
          · exact .inl ⟨_, f, by rw [System.after_self found e calls, frames]; rfl, next⟩
          · exact .inr (later.heard heard (List.subset_append_right _ _))
        · generalize μ.result = result at consults
          rw [fork] at consults
          cases consults
      · exact .inl ⟨result, f, System.after_other there same _ e calls, consults⟩
    · exact .inr (later.heard heard (List.subset_append_left _ _))
  | begin c _ _ ih =>
    rcases ih with ⟨result, f, there, consults⟩ | heard
    · exact .inl ⟨result, f, System.begin_other there c, consults⟩
    · exact .inr heard
  | pass now _ _ ih => exact ih

/-- A callback that was delivered has told its merge when the delivery is over. -/
theorem Run.told_merge {base : List (Frame V κ)} {result : Return V}
    (run : Run client rule s h s₁) (alone : ∀ μ ∈ h, μ.thread ≠ t → μ.delivered? r = none)
    (inside : ∀ μ ∈ h, μ.thread = t → base.length ≤ μ.below.length)
    (returned : s₁.threads[t]? = some ⟨result, base⟩)
    (delivers : ⟨.observe m i, .inline⟩ ∈ delivered r h)
    (concerns : s.store.Concerns m sources i r) :
    s₁.store.Heard m i r (h.filterMap (Moment.event? m)) := by
  obtain ⟨μ, member, hands⟩ := List.mem_filterMap.mp delivers
  obtain ⟨⟨a, answered⟩, frame⟩ := Moment.delivered?_eq_some hands
  have moved : μ.thread = t := by
    apply Classical.byContradiction
    intro other
    cases (alone μ member other).symm.trans hands
  have higher := inside μ member moved
  obtain ⟨before, later, rfl⟩ := List.append_of_mem member
  obtain ⟨s₂, t', s₃, first, found, step, rest⟩ := run.split
  obtain ⟨-, moved', selected⟩ := System.moment?_eq_some found
  cases moved'.symm.trans moved
  have next : Run client (fun _ _ => True) s₂ ([μ] ++ later) s₁ :=
    (Run.step .start found step fun _ _ => trivial).trans (rest.mono fun _ _ _ => trivial)
  have consults : μ.frame.Consults m i r μ.result := by
    rw [answered, frame]
    exact .performs
  rcases next.heard selected consults (first.store_later.concerns concerns) with
    ⟨result', f, there, -⟩ | heard
  · -- nothing is left above the frames where the delivery began
    cases returned.symm.trans there
    exact absurd higher (Nat.lt_irrefl _)
  · apply (Store.Later.refl _).heard heard
    intro event member
    rw [List.filterMap_append]
    exact List.mem_append_right _ member

/-- A merge that has heard of a source has its outcome, or it had ended before. -/
theorem System.Follows.informed {merger : Merger V κ} {h' : List (Moment V κ σ)} {p : Progress V}
    (follows : s.Follows m merger sources h' p) (position : sources[i]? = some r)
    (heard : s.store.Heard m i r (h.filterMap (Moment.event? m)))
    (part : h.filterMap (Moment.event? m) ⊆ h'.filterMap (Moment.event? m)) {o : Outcome V}
    (gives : s.store.Gives r o) :
    .arrived i o ∈ h'.filterMap (Moment.event? m) ∨
      ∃ x, s.store.results[m]? = some x ∧ x.cell.state ≠ .pending := by
  have spoken {o' : Outcome V} (arrived : .arrived i o' ∈ h'.filterMap (Moment.event? m)) :
      .arrived i o ∈ h'.filterMap (Moment.event? m) := by
    obtain ⟨r', position', gives'⟩ := follows.spoken i o' arrived
    cases position.symm.trans position'
    rw [gives.unique gives']
    exact arrived
  rcases heard with ⟨o', arrived⟩ | ⟨cell, merge, there, none⟩ | cancelled
  · exact .inl (spoken (part arrived))
  · obtain ⟨x, there', shows⟩ := follows.shows
    cases there.symm.trans there'
    have verdict := follows.verdict
    generalize h'.filterMap (Moment.merged? m) = calls at verdict
    cases verdict with
    | «open» gathers =>
      -- a merge that gathers holds its sources
      cases shows with
      | gathering =>
        rw [show sources = [] from none] at position
        cases position
    | @ended before after event state values split gathers called =>
      refine .inr ⟨_, there, ?_⟩
      cases shows with
      | decided same terminal =>
        rw [same]
        rintro rfl
        cases terminal
    | @full before after index v earlier values split gathers length arrived =>
      have bound : i < values.length := by
        rw [length]
        exact (List.getElem?_eq_some_iff.mp position).1
      have member := arrived i _ (List.getElem?_eq_getElem bound)
      left
      apply spoken
      rw [split]
      rcases List.mem_append.mp member with member | member
      · exact List.mem_append_left _ member
      · cases List.mem_singleton.mp member
        exact List.mem_append_right _ List.mem_cons_self
  · exact (gives.not_awaited (.inl cancelled)).elim

/-- What comes of a call that ends the result `r`. -/
structure Isolated (client : Client V κ σ) (c : Call V κ) (r : ResultId) (x : Result V κ)
    (s : System V κ σ) (t : Nat) (base : List (Frame V κ)) (s' : System V κ σ)
    (h : List (Moment V κ σ)) (s₁ : System V κ σ) : Prop where
  /-- Its first step gives the result the state that it calls for, for good. -/
  applied : ∃ state, c.Applies x state ∧ ∀ h' s₂, Run client Call.Fair s' h' s₂ →
    ∃ x', s₂.store.results[r]? = some x' ∧ x'.cell.state = state
  /-- It runs callbacks in the order of their registration, and nobody else runs any. -/
  ordered : (ran r h).map Prod.fst <+: x.cell.queue
  alone : ∀ μ ∈ h, μ.thread ≠ t → μ.delivered? r = none
  /-- Each of them is entered, or its executor refuses it. -/
  runs : Performs client r s' h s₁
  /-- It never waits but for a callback that runs. -/
  goes : ∀ result f, s₁.threads[t]? = some ⟨result, f :: base⟩ → s₁.step client t ≠ none
  /-- Readers are not told before it returns. -/
  untold : ∀ thread, s₁.threads[t]? = some thread → s₁.store.Told r → thread.frames = base
  /-- When it returns, all callbacks have run, each of them once, and come down to it, and the
  readers are told. It panics as the first callback did that panicked, and answers that it ended the
  result otherwise. -/
  returned : ∀ result, s₁.threads[t]? = some ⟨result, base⟩ →
    (ran r h).map Prod.fst = x.cell.queue ∧ AllEnded (ran r h) ∧ s₁.store.Told r ∧
      (∀ p, result = .error p ↔ (ran r h).findSome? panic? = some p) ∧
      (result = .ok (.flag true) ↔ ∀ outcome ∈ ran r h, ∃ a, outcome.2 = some (.ok a))
  /-- Every merge that was to be called back has then heard what became of the result, unless
  something else had ended it before. -/
  heard : ∀ merger sources m i s₀ h₀, Built client (Call.Blind m) merger sources m s₀ →
    (∀ r ∈ sources, ∃ x, s₀.store.results[r]? = some x ∧ x.isForeign = false) →
    Run client (Call.Blind m) s₀ h₀ s → Run client (Call.Blind m) s' h s₁ →
    sources[i]? = some r → (∃ task ∈ x.cell.queue, task.callback = .observe m i) →
    (∃ result, s₁.threads[t]? = some ⟨result, base⟩) → ∀ o, s₁.store.Gives r o →
      .arrived i o ∈ (h₀ ++ h).filterMap (Moment.event? m) ∨
        ∃ x', s₁.store.results[m]? = some x' ∧ x'.cell.state ≠ .pending

/-- A call that could end a result tells no merge anything by itself. -/
theorem Call.Ends.event? {c : Call V κ} {result : Return V} (ends : c.Ends r) (other : r ≠ m) :
    (Frame.call c).event? m result = none := by
  cases result with
  | error p => rfl
  | ok a =>
    cases c with
    | complete r' state => cases ends; exact if_neg other
    | cancel r' => cases ends; exact if_neg other
    | countDown r' => rfl
    | _ => exact ends.elim

/-- When the call that ends a result is over, every merge among its callbacks has heard of it. -/
theorem Spans.informs {merger : Merger V κ} {s₀ s' : System V κ σ} {h₀ : List (Moment V κ σ)}
    {c : Call V κ} {base : List (Frame V κ)} {x : Result V κ} {result : Return V} {o : Outcome V}
    (built : Built client (Call.Blind m) merger sources m s₀)
    (own : ∀ r ∈ sources, ∃ x, s₀.store.results[r]? = some x ∧ x.isForeign = false)
    (before : Run client (Call.Blind m) s₀ h₀ s) (blind : Run client (Call.Blind m) s' h s₁)
    (position : sources[i]? = some r) (waits : ∃ task ∈ x.cell.queue, task.callback = .observe m i)
    (spans : Spans client c s t base s' h s₁) (ends : c.Ends r)
    (there : s.store.results[r]? = some x) (direct : x.Direct)
    (ended : ∃ x', s'.store.results[r]? = some x' ∧ x'.cell.state.isPending = false)
    (alone : ∀ μ ∈ h, μ.thread ≠ t → μ.delivered? r = none)
    (all : delivered r h = x.cell.queue) (returned : s₁.threads[t]? = some ⟨result, base⟩)
    (gives : s₁.store.Gives r o) :
    .arrived i o ∈ (h₀ ++ h).filterMap (Moment.event? m) ∨
      ∃ x', s₁.store.results[m]? = some x' ∧ x'.cell.state ≠ .pending := by
  have some : sources ≠ [] := by
    rintro rfl
    cases position
  obtain ⟨found, first, -, inside⟩ := spans
  obtain ⟨p₀, follows₀⟩ := built.follows some own before
  obtain ⟨cell, merge, record, -, held⟩ := follows₀.watched.hosts.record
  have other : r ≠ m := by
    rintro rfl
    cases there.symm.trans record
    exact direct
  obtain ⟨task, member, callback⟩ := waits
  have inline := (follows₀.watched.hosts.queued r x there task member i callback).1
  have queued : ⟨.observe m i, .inline⟩ ∈ delivered r h := by
    rw [all, ← callback, ← inline]
    exact member
  have step : Run client (Call.Blind m) s [_] s' :=
    .step .start found first (by simp [Moment.call?])
  have later := step.store_later
  have concerns : s'.store.Concerns m sources i r := by
    obtain ⟨x', there', terminal⟩ := ended
    obtain ⟨x'', there'', kept⟩ := later r x there
    cases there'.symm.trans there''
    exact ⟨position, later.holds ⟨cell, merge, record, held⟩, x', there',
      kept.isForeign.trans direct.own, terminal⟩
  have heard := blind.told_merge alone inside returned queued concerns
  obtain ⟨p, follows⟩ := built.follows some own ((before.trans step).trans blind)
  have part {h' : List (Moment V κ σ)} :
      h.filterMap (Moment.event? m) ⊆ (h' ++ h).filterMap (Moment.event? m) := by
    rw [List.filterMap_append]
    exact List.subset_append_right _ _
  rcases follows.informed position heard part gives with arrived | gone
  · left
    simpa [Moment.event?, ends.event? other] using arrived
  · exact .inr gone

/-- The call that ends a result isolates it from the panics of its callbacks. -/
theorem panics_isolated {memory : σ} {h₀ : List (Moment V κ σ)} {c : Call V κ}
    {s' : System V κ σ} {base : List (Frame V κ)} {x : Result V κ}
    (run : Run client Call.Fair ⟨.empty memory, []⟩ h₀ s) (there : s.store.results[r]? = some x)
    (direct : x.Direct) (pending : x.cell.state = .pending) (ends : c.Ends r)
    (spans : Spans client c s t base s' h s₁)
    (ended : ∃ x', s'.store.results[r]? = some x' ∧ x'.cell.state ≠ .pending) :
    Isolated client c r x s t base s' h s₁ := by
  have sound := run.sound (System.sound_empty memory)
  have orderly := run.orderly (System.sound_empty memory) (System.orderly_empty memory)
  obtain ⟨x', after, ended⟩ := ended
  have live : x.cell.state.isPending = true := by rw [pending]; rfl
  have terminal : x'.cell.state.isPending = false := (State.isPending_eq_false_iff _).mpr ended
  cases after.symm.trans (spans.touched there ends)
  have applies := ends.applies direct live terminal
  have start := spans.delivers ends sound orderly there direct live terminal
  obtain ⟨-, sound', orderly'⟩ := spans.ordered sound orderly
  have whole := spans
  obtain ⟨found, first, next, inside⟩ := spans
  obtain ⟨⟨thread, at', delivery⟩, alone⟩ := next.delivering sound' orderly' start inside
  obtain ⟨⟨thread', at'', reported⟩, -⟩ := next.reported sound' orderly' start inside
  cases at'.symm.trans at''
  constructor
  · refine ⟨_, applies, fun h' s₂ later => ?_⟩
    obtain ⟨x', there', later⟩ := later.store_later r _ after
    exact ⟨x', there', later.state terminal⟩
  · rw [map_ran]
    exact delivery.isPrefix
  · exact alone
  · exact next.performs r
  · intro result f here
    cases here.symm.trans at'
    obtain ⟨rest, first, rfl⟩ := reported.between_callbacks
    obtain ⟨x', there', later⟩ := next.store_later r _ after
    exact System.deliver_goes there' (direct.free ((x.touch_later _ _).trans later)) here
  · intro thread here told
    cases here.symm.trans at'
    rcases delivery.working with ⟨-, works⟩ | ⟨-, -, result, rfl, -⟩
    · have none := (next.orderly sound' orderly').told_idle told
      have few := System.load_le (w := Frame.delivers r) at'
      omega
    · rfl
  · intro result here
    cases here.symm.trans at'
    obtain ⟨ended, all, rfl⟩ := reported.returned
    rcases delivery.working with ⟨higher, -⟩ | ⟨-, told, -⟩
    · exact absurd higher (Nat.lt_irrefl _)
    · exact ⟨all, ended, told, concluded_eq_error_iff, concluded_eq_ok_iff ended⟩
  · intro merger sources m i s₀ h₀ built own before blind position waits returned o gives
    obtain ⟨result, here⟩ := returned
    cases here.symm.trans at'
    obtain ⟨-, all, -⟩ := reported.returned
    rw [map_ran] at all
    exact whole.informs built own before blind position waits ends there direct
      ⟨_, after, terminal⟩ alone all here gives

end

namespace Bystander

def client : Client Unit Unit Unit := .panicking Unit "boom"

/-- A settable result with two merges over it, of which the merger of the first one panics, and a
callback between them that panics as well. -/
def attached : List (Moment Unit Unit Unit) × System Unit Unit Unit :=
  (System.mk (.empty ()) []).perform client [(.create .settable, 1),
    (.build (.plain fun _ => .error "broken") [0], 4), (.register 0 ⟨.client (), .inline⟩, 1),
    (.build (.plain fun _ => .ok (.ok ())) [0], 4)]

def called : System Unit Unit Unit := attached.2.begin (.complete 0 (.succeeded ()))

def completed : System Unit Unit Unit := (called.drive client [4]).2

def told : List (Moment Unit Unit Unit) × System Unit Unit Unit :=
  completed.drive client (List.replicate 20 4)

theorem second_merge_succeeds :
    Run client Call.Fair ⟨.empty (), []⟩ attached.1 called ∧
      (∃ x, called.store.results[0]? = some x ∧ x.Direct ∧ x.cell.state = .pending ∧
        Call.Ends 0 (.complete 0 (.succeeded ()) : Call Unit Unit) ∧
        Spans client (.complete 0 (.succeeded ())) called 4 [] completed told.1 told.2 ∧
        (∃ x', completed.store.results[0]? = some x' ∧ x'.cell.state ≠ .pending) ∧
        Isolated client (.complete 0 (.succeeded ())) 0 x called 4 [] completed told.1 told.2) ∧
      -- the code of the second callback is entered, and panics
      (∃ s s₁ s₂ below, Run client Call.Fair completed (told.1.take 9) s ∧
        s.step client 4 = some s₁ ∧ s₁.threads[4]? = some ⟨.ok .unit, .client () :: below⟩ ∧
        s₁.step client 4 = some s₂ ∧ s₂.threads[4]? = some ⟨.error "boom", below⟩) ∧
      (ran 0 told.1).map Prod.snd = [some (.error "broken"), some (.error "boom"), some (.ok .unit)] ∧
      told.2.threads[4]? = some ⟨.error "broken", []⟩ ∧
      told.2.store.results[2]?.map (fun x => x.cell.state) = some (.succeeded ()) := by
  have first : Run client Call.Fair ⟨.empty (), []⟩ attached.1 attached.2 :=
    Run.perform Client.panicking_fair _ _
  have run : Run client Call.Fair ⟨.empty (), []⟩ attached.1 called :=
    first.begin _ ((Call.isFair_iff _ _).mp rfl)
  have next : Run client Call.Fair completed told.1 told.2 :=
    Run.drive Client.panicking_fair completed _
  have spans : Spans client (.complete 0 (.succeeded ())) called 4 [] completed told.1 told.2 :=
    .intro (a := .unit) rfl rfl next fun _ _ _ => Nat.zero_le _
  have there : called.store.results[0]? = some ⟨⟨.pending, [⟨.observe 1 0, .inline⟩,
      ⟨.client (), .inline⟩, ⟨.observe 2 0, .inline⟩], false, false⟩, .settable⟩ := rfl
  have ended : ∃ x', completed.store.results[0]? = some x' ∧ x'.cell.state ≠ .pending :=
    ⟨_, rfl, nofun⟩
  have ends : Call.Ends 0 (.complete 0 (.succeeded ()) : Call Unit Unit) := rfl
  have isolated := panics_isolated run there trivial rfl ends spans ended
  refine ⟨run, ⟨_, there, trivial, rfl, ends, spans, ended, isolated⟩, ?_, rfl, ?_, rfl⟩
  · obtain ⟨s, s₁, before, found, step, performed, -⟩ :=
      isolated.runs (told.1.take 8) _ (told.1.drop 9) ⟨.client (), .inline⟩ rfl rfl
    cases performed with
    | inline _ _ runs =>
      obtain ⟨s₂, enters, -, entered, panics⟩ := runs [] s₁ .start nofun
      obtain ⟨s₃, leaves, -, left⟩ := panics [] s₂ .start nofun
      exact ⟨s₁, s₂, s₃, _, before.step found step nofun, enters, entered, leaves, left⟩
  · -- it panics as the first of the callbacks did
    obtain ⟨result, here⟩ : ∃ result, told.2.threads[4]? = some ⟨result, []⟩ := ⟨_, rfl⟩
    rw [here, ((isolated.returned result here).2.2.2.1 "broken").mpr rfl]

end Bystander

end Quorate
