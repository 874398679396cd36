import Mathlib.Data.List.Forall2
import Quorate.Proofs.Merge.Verdict
import Quorate.Proofs.Merge.Watched

/-! A merge is decided once, by the first verdict that reaches it or by its merger. In every run
what its sources tell it is what they ended with, and what is read off the history decides its
state. -/

set_option autoImplicit false

namespace Quorate

variable {V κ σ : Type}

/-- The values that a step calls the merger of `m` with. -/
def Moment.merged? (m : ResultId) (μ : Moment V κ σ) : Option (List V) :=
  match μ.result, μ.frame, μ.store.results[m]? with
  | .ok (.outcome o), .commit r index, some ⟨cell, .merge merge⟩ =>
    if r = m then
      match Gathering.arrive cell merge.gathering merge.size index o with
      | .complete values _ => some values
      | _ => none
    else none
  | _, _, _ => none

section

variable {merger : Merger V κ} {sources : List ResultId} {p : Progress V}

/-- A merge calls its merger when its progress does. -/
theorem Progress.Shows.merged {cell : Cell V (Task κ)} {merge : Merge V κ}
    (shows : p.Shows merger sources ⟨cell, .merge merge⟩) (free : merge.lock ≠ .held) {index : Nat}
    (bound : index < sources.length) (o : Outcome V) :
    (match Gathering.arrive cell merge.gathering merge.size index o with
      | .complete values _ => some values
      | _ => none) = p.invokes (.arrived index o) := by
  cases shows with
  | opening _ _ none =>
    subst none
    exact absurd bound (Nat.not_lt_zero index)
  | @gathering values _ completed pending holds length missing =>
    have live : cell.state.isPending = true := by rw [pending]; rfl
    cases o with
    | error e =>
      rw [Gathering.arrive_error live]
      rfl
    | ok v =>
      have inside : index < values.length := by rw [length]; exact bound
      cases slot : values[index] with
      | none =>
        have missing : values[index]? = some none := by simp [inside, slot]
        obtain ⟨completed', -, arrival⟩ := arrive_missing pending holds length missing v
        rw [arrival]
        simp only [invokes, missing]
        by_cases all : (values.set index (some v)).all Option.isSome = true
        · simp only [all, if_true]
        · simp only [all, Bool.false_eq_true, if_false]
      | some w =>
        have there : values[index]? = some (some w) := by simp [inside, slot]
        rw [arrive_again pending holds there sources.length v]
        simp only [invokes, there]
  | merging => exact absurd rfl free
  | @broken _ gathering pending _ _ holds =>
    have live : cell.state.isPending = true := by rw [pending]; rfl
    cases o with
    | error e =>
      rw [Gathering.arrive_error live]
      rfl
    | ok v =>
      have again : gathering.completed.insert? index = some (false, gathering.completed) :=
        BitSet.insert?_again holds (by simpa using bound) (by simp)
      rw [Gathering.arrive_ok live]
      simp only [again]
      rfl
  | @decided state _ gathering lock decided terminal =>
    rw [Gathering.arrive_late (by rw [decided]; exact terminal)]
    cases o <;> rfl

end

section

variable {client : Client V κ σ} {s s₁ : System V κ σ} {m : ResultId} {merger : Merger V κ}
  {sources : List ResultId} {p : Progress V} {t : Nat} {μ : Moment V κ σ} {e : Effect V κ σ}
  {calls : List (Call V κ)} {h : List (Moment V κ σ)}

theorem System.merged?_eq (sound : s.Sound) (found : s.moment? t = some μ)
    (yields : μ.Yields client e calls) (shows : s.store.Shows m merger sources p) :
    μ.merged? m = (μ.event? m).bind p.invokes := by
  obtain ⟨x, there, shows⟩ := shows
  have store := (moment?_eq_some found).1
  have touches := yields.touches
  rw [store] at touches
  by_cases commits : ∃ index o, μ.event? m = some (.arrived index o)
  · obtain ⟨index, o, event⟩ := commits
    obtain ⟨answered, frame⟩ := Moment.event?_arrived event
    obtain ⟨cell, gathering, lock, rfl⟩ := shows.isMerge
    have about : μ.frame.subject? = some m := by rw [frame]; rfl
    have free : lock ≠ .held := by
      rintro rfl
      cases frame.symm.trans (touches.locked m _ _ answered about there rfl)
    obtain ⟨size, ⟨cell', merge', found', size'⟩, bound⟩ : ∃ size, s.store.IsMerge m size ∧
        index < size := by
      have here := (sound.frames.moment found).1
      rw [frame] at here
      exact here
    cases there.symm.trans found'
    rw [← size'] at bound
    simp only [Moment.merged?, answered, frame, store, there, if_true, event, Option.bind_some]
    exact shows.merged free bound o
  · -- only a value can be the last one
    have silent : (μ.event? m).bind p.invokes = none := by
      cases event : μ.event? m with
      | none => rfl
      | some event' =>
        cases event' with
        | arrived index o => exact absurd ⟨index, o, event⟩ commits
        | _ => cases p <;> rfl
    rw [silent]
    unfold Moment.merged?
    split
    next o r index cell merge answered frame _ =>
      split
      next same =>
        refine absurd ⟨index, o, ?_⟩ commits
        simp [Moment.event?, Frame.event?, answered, frame, same]
      next => rfl
    next => rfl

/-- In every run the events of a merge decide where it stands and what its merger is called with. -/
theorem Run.verdict (run : Run client Call.Fair s h s₁) (some : sources ≠ []) (sound : s.Sound)
    (orderly : s.Orderly) (shows : s.store.Shows m merger sources (.start sources.length)) :
    Progress.Verdict merger sources.length (h.filterMap (Moment.event? m))
      ((Progress.start sources.length).run merger (h.filterMap (Moment.event? m)))
      (h.filterMap (Moment.merged? m)) := by
  induction run with
  | start =>
    have positive : 0 < sources.length := List.length_pos_iff.mpr some
    rw [Progress.start, if_neg (Nat.ne_of_gt positive)]
    exact .open (.start sources.length positive)
  | @step h s₁ s₂ t μ run found step fair ih =>
    obtain ⟨μ', e, calls, moment, yields, rfl⟩ := System.step_yields step
    cases found.symm.trans moment
    have merged := System.merged?_eq (run.sound sound) found yields (run.shows sound orderly shows)
    rw [filterMap_concat, filterMap_concat, merged]
    cases event : μ.event? m with
    | none => simpa [event] using ih
    | some event' =>
      have next := ih.step event'
      rw [Progress.run_append]
      exact next
  | begin c _ _ ih => exact ih
  | pass now _ _ ih => exact ih

/-- What has reached a merge from its sources is what they ended with. -/
theorem Run.spoken (run : Run client (Call.Blind m) s h s₁) (some : sources ≠ []) (sound : s.Sound)
    (orderly : s.Orderly) (shows : s.store.Shows m merger sources p)
    (watched : s.Watched m sources p) {i : Nat} {o : Outcome V}
    (event : .arrived i o ∈ h.filterMap (Moment.event? m)) :
    ∃ r, sources[i]? = Option.some r ∧ s₁.store.Gives r o := by
  induction run with
  | start => simp at event
  | @step h s₁ s₂ t μ run found step blind ih =>
    obtain ⟨μ', e, calls, moment, yields, rfl⟩ := System.step_yields step
    cases found.symm.trans moment
    have later := yields.touches.later
    rw [(System.moment?_eq_some found).1] at later
    rw [List.filterMap_append] at event
    rcases List.mem_append.mp event with event | event
    · obtain ⟨r, position, gives⟩ := ih event
      exact ⟨r, position, later.gives gives⟩
    · obtain ⟨μ', member, event⟩ := List.mem_filterMap.mp event
      rw [List.mem_singleton.mp member] at event
      obtain ⟨answered, frame⟩ := Moment.event?_arrived event
      have selected := List.mem_of_getElem? (System.moment?_eq_some found).2.2
      have speaks := (run.watched some sound orderly shows watched).speaks _ selected
      obtain ⟨r, position, gives⟩ := speaks i o μ.below (by rw [frame]) answered
      exact ⟨r, position, later.gives gives⟩
  | begin c _ _ ih => exact ih event
  | pass now _ _ ih =>
    obtain ⟨r, position, gives⟩ := ih event
    exact ⟨r, position, (Store.later_of_results rfl).gives gives⟩

/-- No thread is at work for the merge `m`: none has a callback of it or runs its merger. -/
def System.Idle (m : ResultId) (s : System V κ σ) : Prop :=
  s.Each fun frame => (∀ i, frame.watches m i = 0) ∧ frame.merges m = 0

theorem System.Quiet.idle (quiet : s.Quiet) (m : ResultId) : s.Idle m := by
  intro thread member frame included
  rw [quiet thread member] at included
  cases included

theorem System.Idle.unwatched (idle : s.Idle m) (i : Nat) : s.weight (Frame.watches m i) = 0 :=
  weight_eq_zero_iff.mpr fun thread member frame included => (idle thread member frame included).1 i

/-- Once no thread has the callback of a position, a merge does not wait there for a source that has
ended, unless the source was cancelled. -/
theorem System.Watched.awaits {values : List (Option V)}
    (watched : s.Watched m sources (.gathering values)) (orderly : s.Orderly) {i : Nat}
    (none : s.weight (Frame.watches m i) = 0) {r : ResultId} (position : sources[i]? = some r)
    (missing : values[i]? = some Option.none) :
    s.store.IsCancelled r ∨ ∃ x, s.store.results[r]? = some x ∧ x.cell.state = .pending := by
  rcases (watched.counted values rfl i r position).2 with cancelled | one
  · exact .inl cancelled
  · right
    have queued : 0 < s.store.watches m i := by
      simp only [arrived, missing, Option.join_some, Option.isSome_none, Bool.false_eq_true,
        if_false, Nat.add_zero, System.watches, none, Nat.zero_add] at one
      omega
    -- no thread carries the callback, so it is queued, and at its own source
    obtain ⟨r', x, there, task, member, watches⟩ : ∃ (r' : ResultId) (x : Result V κ),
        s.store.results[r']? = some x ∧ ∃ task ∈ x.cell.queue, 0 < task.watches m i := by
      by_contra nobody
      refine absurd queued (Nat.not_lt_of_le (Nat.le_of_eq ?_))
      apply List.sum_eq_zero_iff_forall_eq_nat.mpr
      intro n member
      obtain ⟨x, included, rfl⟩ := List.mem_map.mp member
      obtain ⟨r', there⟩ := List.mem_iff_getElem?.mp included
      by_contra some
      exact nobody ⟨r', x, there, watching_pos (Nat.pos_of_ne_zero some)⟩
    have here := (watched.hosts.queued r' x there task member i (Task.watches_pos watches)).2
    cases position.symm.trans here
    refine ⟨x, there, ?_⟩
    cases state : x.cell.state with
    | pending => rfl
    | _ =>
      have ended := (orderly.there r x there).ended (by rw [state]; rfl)
      rw [ended.2.1] at member
      cases member

theorem Store.Gives.unique {store : Store V κ σ} {r : ResultId} {o o' : Outcome V}
    (gives : store.Gives r o) (gives' : store.Gives r o') : o = o' := by
  obtain ⟨x, there, -, -, outcome⟩ := gives
  obtain ⟨x', there', -, -, outcome'⟩ := gives'
  cases there.symm.trans there'
  exact Option.some.inj (outcome.symm.trans outcome')

/-- A source that a merge may wait for when idle gives nothing. -/
theorem Store.Gives.not_awaited {store : Store V κ σ} {r : ResultId} {o : Outcome V}
    (gives : store.Gives r o)
    (waits : store.IsCancelled r ∨ ∃ x, store.results[r]? = some x ∧ x.cell.state = .pending) :
    False := by
  obtain ⟨x, there, -, kept, outcome⟩ := gives
  rcases waits with ⟨x', there', -, cancelled⟩ | ⟨x', there', pending⟩
  · cases there.symm.trans there'
    cases kept.symm.trans cancelled
  · cases there.symm.trans there'
    rw [pending] at outcome
    cases outcome

/-- While a thread runs the merger of `m`, the system is not idle. -/
theorem System.Idle.not_merging (idle : s.Idle m) (orderly : s.Orderly) {values : List V} :
    ¬ s.store.Shows m merger sources (.merging values) := by
  rintro ⟨x, there, shows⟩
  have none : s.weight (Frame.merges m) = 0 :=
    weight_eq_zero_iff.mpr fun thread member frame included => (idle thread member frame included).2
  have lock := (orderly.there m x there).lock
  cases shows with
  | merging => simp [Result.isHeld, none] at lock

/-- Where a run has led a merge over `sources`. -/
structure System.Follows (m : ResultId) (merger : Merger V κ) (sources : List ResultId)
    (h : List (Moment V κ σ)) (s : System V κ σ) (p : Progress V) : Prop where
  shows : s.store.Shows m merger sources p
  orderly : s.Orderly
  watched : s.Watched m sources p
  verdict : Progress.Verdict merger sources.length (h.filterMap (Moment.event? m)) p
    (h.filterMap (Moment.merged? m))
  spoken : ∀ i o, .arrived i o ∈ h.filterMap (Moment.event? m) →
    ∃ r, sources[i]? = some r ∧ s.store.Gives r o

/-- A merge over results of the library is followed by its progress through every run. -/
theorem Built.follows (built : Built client (Call.Blind m) merger sources m s)
    (some : sources ≠ [])
    (own : ∀ r ∈ sources, ∃ x, s.store.results[r]? = Option.some x ∧ x.isForeign = false)
    (run : Run client (Call.Blind m) s h s₁) : ∃ p, s₁.Follows m merger sources h p := by
  have fair : Run client Call.Fair s h s₁ := run.mono fun _ _ => And.left
  have before : Built client Call.Fair merger sources m s := built.mono fun _ _ => And.left
  have watched := built.watched some own
  exact ⟨_, fair.shows before.sound before.orderly before.shows,
    fair.orderly before.sound before.orderly,
    run.watched some before.sound before.orderly before.shows watched,
    fair.verdict some before.sound before.orderly before.shows,
    fun _ _ => run.spoken some before.sound before.orderly before.shows watched⟩

namespace System.Follows

variable (follows : s.Follows m merger sources h p)
include follows

/-- The merger gets the values of the sources by position. -/
theorem given {values : List V} (member : values ∈ h.filterMap (Moment.merged? m)) :
    List.Forall₂ (fun r v => s.store.Gives r (.ok v)) sources values := by
  obtain ⟨length, arrived⟩ := follows.verdict.values member
  refine List.forall₂_iff_get.mpr ⟨length.symm, fun i bound bound' => ?_⟩
  obtain ⟨r, position, gives⟩ := follows.spoken i _ (arrived i _ (List.getElem?_eq_getElem bound'))
  rw [List.getElem?_eq_getElem bound] at position
  cases position
  exact gives

/-- A merge that gathers or has ended takes a source for new, or for too late. -/
theorem accepts (found : s.moment? t = some μ) {i : Nat} (frame : μ.frame = .commit m i)
    {cell : Cell V (Task κ)} {record : Merge V κ}
    (there : s.store.results[m]? = some ⟨cell, .merge record⟩)
    (stands : p.Gathers ∨ p.state.isPending = false) (o : Outcome V) :
    Gathering.arrive cell record.gathering record.size i o ≠ .outside ∧
      Gathering.arrive cell record.gathering record.size i o ≠ .twice := by
  obtain ⟨x, there', shows⟩ := follows.shows
  cases there.symm.trans there'
  rcases stands with ⟨values, rfl⟩ | ended
  · have missing := (follows.watched.fresh found follows.shows frame).2
    cases shows with
    | gathering pending holds length =>
      cases o with
      | error e =>
        rw [Gathering.arrive_error (by rw [pending]; rfl)]
        exact ⟨nofun, nofun⟩
      | ok v =>
        obtain ⟨completed, -, arrival⟩ :=
          Progress.Shows.arrive_missing pending holds length missing v
        rw [arrival]
        split <;> exact ⟨nofun, nofun⟩
  · rw [Gathering.arrive_late (by rw [← ended, shows.state])]
    exact ⟨nofun, nofun⟩

/-- A merge that still gathers has the value of every source that has ended and whose callback no
thread has. -/
theorem gathered {i : Nat} (unwatched : s.weight (Frame.watches m i) = 0)
    {values : List (Option V)} (same : p = .gathering values)
    (gathers : Progress.Open sources.length (h.filterMap (Moment.event? m)) values) {r : ResultId}
    {o : Outcome V} (position : sources[i]? = some r) (gives : s.store.Gives r o) :
    ∃ v, values[i]? = some (some v) ∧ o = .ok v := by
  subst same
  have bound : i < values.length := by
    rw [gathers.collected.length]
    exact (List.getElem?_eq_some_iff.mp position).1
  cases slot : values[i] with
  | none =>
    have missing : values[i]? = some none := by simp [bound, slot]
    have awaits := follows.watched.awaits follows.orderly unwatched position missing
    exact (gives.not_awaited awaits).elim
  | some v =>
    have arrived : values[i]? = some (some v) := by simp [bound, slot]
    obtain ⟨r', position', gives'⟩ :=
      follows.spoken i (.ok v) (gathers.collected.arrived i v arrived)
    cases position.symm.trans position'
    exact ⟨v, arrived, gives.unique gives'⟩

/-- In an idle system a failure or a cancel has decided the merge. -/
theorem ends (idle : s.Idle m) (returns : merger.Returns (h.filterMap (Moment.event? m)))
    (cause : (∃ r ∈ sources, ∃ e, s.store.Gives r (.error e)) ∨
      .cancelled ∈ h.filterMap (Moment.event? m)) : p.state ≠ .pending := by
  rcases follows.verdict.settles returns with
    ⟨values, same, gathers⟩ | ⟨values, same⟩ | ⟨state, same, ended, -⟩
  · rcases cause with ⟨r, member, e, gives⟩ | cancelled
    · obtain ⟨i, position⟩ := List.mem_iff_getElem?.mp member
      obtain ⟨v, -, same⟩ := follows.gathered (idle.unwatched i) same gathers position gives
      cases same
    · cases gathers.no_verdict _ cancelled
  · exact (idle.not_merging follows.orderly (same ▸ follows.shows)).elim
  · subst same
    intro pending
    rw [show state = .pending from pending] at ended
    cases ended

/-- In an idle system the success of all sources has decided the merge, unless a verdict came. -/
theorem succeeds (idle : s.Idle m) (returns : merger.Returns (h.filterMap (Moment.event? m)))
    (all : ∀ r ∈ sources, ∃ v, s.store.Gives r (.ok v))
    (calm : ∀ event ∈ h.filterMap (Moment.event? m), event.verdict? = none) :
    ∃ values o, h.filterMap (Moment.merged? m) = [values] ∧
      merger.Answers (h.filterMap (Moment.event? m)) values o ∧ p.state = .ofOutcome o := by
  rcases follows.verdict.settles returns with
    ⟨values, same, gathers⟩ | ⟨values, same⟩ | ⟨state, same, ended, cause⟩
  · -- every source has given its value, but one is missing
    obtain ⟨i, missing⟩ := List.mem_iff_getElem?.mp gathers.some_missing
    have bound : i < sources.length := by
      rw [← gathers.collected.length]
      exact (List.getElem?_eq_some_iff.mp missing).1
    obtain ⟨v, gives⟩ := all sources[i] (List.getElem_mem bound)
    obtain ⟨w, arrived, -⟩ :=
      follows.gathered (idle.unwatched i) same gathers (List.getElem?_eq_getElem bound) gives
    cases missing.symm.trans arrived
  · exact (idle.not_merging follows.orderly (same ▸ follows.shows)).elim
  · rcases cause with ⟨event, member, called⟩ | ⟨values, o, once, answers, outcome⟩
    · cases (calm event member).symm.trans called
    · exact ⟨values, o, once, answers, by rw [same]; exact outcome⟩

end System.Follows

/-- How the merge `m` over `sources` stands in the system `s`, after the steps `h` since it was made:
its record is `x`, and `p` is how far it has come. -/
structure DecidedOnce (client : Client V κ σ) (merger : Merger V κ) (sources : List ResultId)
    (m : ResultId) (h : List (Moment V κ σ)) (s : System V κ σ) (x : Result V κ) (p : Progress V) :
    Prop where
  /-- It is decided by the first verdict to reach it, or by its merger once it has all values. -/
  state : x.cell.state = p.state
  verdict : Progress.Verdict merger sources.length (h.filterMap (Moment.event? m)) p
    (h.filterMap (Moment.merged? m))
  /-- What it hears of a source is what the source has ended with. -/
  spoken : ∀ i o, .arrived i o ∈ h.filterMap (Moment.event? m) →
    ∃ r, sources[i]? = some r ∧ s.store.Gives r o
  /-- The merger is called at most once, with the values of the sources by position. -/
  once : (h.filterMap (Moment.merged? m)).length ≤ 1
  given : ∀ values ∈ h.filterMap (Moment.merged? m),
    List.Forall₂ (fun r v => s.store.Gives r (.ok v)) sources values
  /-- What is decided stays. -/
  kept : x.cell.state ≠ .pending → ∀ h' s', Run client (Call.Blind m) s h' s' →
    ∃ x', s'.store.results[m]? = some x' ∧ x'.cell.state = x.cell.state
  /-- With a cancelled source and no verdict nothing happens. -/
  waits : (∃ r ∈ sources, s.store.IsCancelled r) →
    (∀ event ∈ h.filterMap (Moment.event? m), event.verdict? = none) →
    x.cell.state = .pending ∧ h.filterMap (Moment.merged? m) = []
  /-- Once no thread is at work for the merge, a failure or a cancel has decided it. -/
  ends : s.Idle m → merger.Returns (h.filterMap (Moment.event? m)) →
    (∃ r ∈ sources, ∃ e, s.store.Gives r (.error e)) ∨
      .cancelled ∈ h.filterMap (Moment.event? m) → x.cell.state ≠ .pending
  /-- So has the success of all sources, through one call of the merger. -/
  succeeds : s.Idle m → merger.Returns (h.filterMap (Moment.event? m)) →
    (∀ r ∈ sources, ∃ v, s.store.Gives r (.ok v)) →
    (∀ event ∈ h.filterMap (Moment.event? m), event.verdict? = none) →
    ∃ values o, h.filterMap (Moment.merged? m) = [values] ∧
      merger.Answers (h.filterMap (Moment.event? m)) values o ∧ x.cell.state = .ofOutcome o

/-- A merge over results of the library is decided once, by the first verdict to reach it or by its
merger, which is called at most once. -/
theorem merge_decided_once (built : Built client (Call.Blind m) merger sources m s)
    (some : sources ≠ [])
    (own : ∀ r ∈ sources, ∃ x, s.store.results[r]? = Option.some x ∧ x.isForeign = false)
    (run : Run client (Call.Blind m) s h s₁) :
    ∃ x p, s₁.store.results[m]? = Option.some x ∧
      DecidedOnce client merger sources m h s₁ x p := by
  obtain ⟨p, follows⟩ := built.follows some own run
  obtain ⟨x, there, shows⟩ := follows.shows
  refine ⟨x, p, there, shows.state, follows.verdict, follows.spoken, follows.verdict.once,
    fun values => follows.given, ?_, ?_, ?_, ?_⟩
  · intro decided h' s₂ next
    obtain ⟨x', there', later⟩ := next.store_later m x there
    exact ⟨x', there', later.state_of_ne decided⟩
  · rintro ⟨r, member, cancelled⟩ calm
    obtain ⟨i, position⟩ := List.mem_iff_getElem?.mp member
    rw [shows.state]
    refine follows.verdict.waits calm (List.getElem?_eq_some_iff.mp position).1 fun v event => ?_
    obtain ⟨r', position', gives⟩ := follows.spoken i (.ok v) event
    cases position.symm.trans position'
    exact gives.not_awaited (.inl cancelled)
  · rw [shows.state]
    exact follows.ends
  · rw [shows.state]
    exact follows.succeeds

end

namespace Ordered

def client : Client Nat Unit Unit := .panicking Nat "unused"

/-- The values as the digits of a number. -/
def digits : Merger Nat Unit := .plain fun values => .ok (.ok (values.foldl (10 * · + ·) 0))

def created : System Nat Unit Unit :=
  ((System.mk (.empty ()) []).perform client [(.create .settable, 1), (.create .settable, 1)]).2

def before : System Nat Unit Unit := created.begin (.build digits [0, 1])

def made : System Nat Unit Unit := (before.drive client [2]).2

def attached : List (Moment Nat Unit Unit) × System Nat Unit Unit :=
  made.drive client (List.replicate 5 2)

/-- The second source succeeds first. -/
def half : List (Moment Nat Unit Unit) × System Nat Unit Unit :=
  attached.2.call client (.complete 1 (.succeeded 2)) 8

def whole : List (Moment Nat Unit Unit) × System Nat Unit Unit :=
  half.2.call client (.complete 0 (.succeeded 1)) 9

theorem merged_by_position :
    Built client (Call.Blind 2) digits [0, 1] 2 made ∧ ([0, 1] : List ResultId) ≠ [] ∧
      (∀ r ∈ [0, 1], ∃ x, made.store.results[r]? = some x ∧ x.isForeign = false) ∧
      Run client (Call.Blind 2) made (attached.1 ++ half.1 ++ whole.1) whole.2 ∧
      whole.2.Idle 2 ∧ (∀ events, digits.Returns events) ∧
      ∃ x, whole.2.store.results[2]? = some x ∧ x.cell.state = .succeeded 12 := by
  have silent (μ : Moment Nat Unit Unit) (c : Call Nat Unit) (made : μ.call? client = some c) :
      c.Blind 2 μ.store := by
    rw [client, Client.panicking_call?] at made
    cases made
  have create (s : System Nat Unit Unit) :=
    Run.call silent s (c := .create .settable) ⟨trivial, fun _ => rfl⟩ 1
  have reached : Run client (Call.Blind 2) ⟨.empty (), []⟩ _ before :=
    ((create _).trans (create _)).begin _ ⟨trivial, fun _ => rfl⟩
  have built : Built client (Call.Blind 2) digits [0, 1] 2 made :=
    .intro reached (t := 2) rfl rfl rfl rfl rfl
  have own : ∀ r ∈ [0, 1], ∃ x, made.store.results[r]? = some x ∧ x.isForeign = false := by
    intro r member
    simp only [List.mem_cons, List.not_mem_nil, or_false] at member
    rcases member with rfl | rfl <;> exact ⟨_, rfl, rfl⟩
  have run : Run client (Call.Blind 2) made (attached.1 ++ half.1 ++ whole.1) whole.2 :=
    ((Run.drive silent made _).trans
      (Run.call silent attached.2 ⟨(Call.isFair_iff _ _).mp rfl, fun _ => rfl⟩ 8)).trans
      (Run.call silent half.2 ⟨(Call.isFair_iff _ _).mp rfl, fun _ => rfl⟩ 9)
  have quiet : whole.2.Quiet := by
    have ended : (whole.2.threads.all fun thread => thread.frames.isEmpty) = true := rfl
    exact fun thread member => List.isEmpty_iff.mp (List.all_eq_true.mp ended thread member)
  have returns (events : List (Event Nat)) : digits.Returns events := fun _ _ => nofun
  obtain ⟨x, p, there, decided⟩ := merge_decided_once built (by simp) own run
  refine ⟨built, by simp, own, run, quiet.idle 2, returns, x, there, ?_⟩
  have calm : ∀ event ∈ (attached.1 ++ half.1 ++ whole.1).filterMap (Moment.event? 2),
      event.verdict? = none := by
    have events : (attached.1 ++ half.1 ++ whole.1).filterMap (Moment.event? 2) =
        [.arrived 1 (.ok 2), .arrived 0 (.ok 1)] := rfl
    rw [events]
    simp [Event.verdict?]
  have all : ∀ r ∈ [0, 1], ∃ v, whole.2.store.Gives r (.ok v) := by
    intro r member
    simp only [List.mem_cons, List.not_mem_nil, or_false] at member
    rcases member with rfl | rfl
    · exact ⟨1, _, rfl, rfl, rfl, rfl⟩
    · exact ⟨2, _, rfl, rfl, rfl, rfl⟩
  obtain ⟨values, o, once, answers, state⟩ :=
    decided.succeeds (quiet.idle 2) (returns _) all calm
  have merged : (attached.1 ++ half.1 ++ whole.1).filterMap (Moment.merged? 2) = [[1, 2]] := rfl
  cases merged.symm.trans once
  cases answers
  exact state

end Ordered

end Quorate
