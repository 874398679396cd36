import Quorate.Proofs.Merge.BitSet
import Quorate.Proofs.Merge.Progress
import Quorate.Proofs.System.Orderly

/-! A merge stands as its progress says, in every run. Steps that reach the merge are events of its
progress, and all other steps leave it where it was. -/

set_option autoImplicit false

namespace Quorate

variable {V κ σ : Type}

/-- What a step tells the merge `m`. -/
def Frame.event? (m : ResultId) (result : Return V) (frame : Frame V κ) : Option (Event V) :=
  match result, frame with
  | .ok _, .call (.cancel r) => if r = m then some .cancelled else none
  | .ok _, .call (.complete r state) => if r = m then state.outcome?.map .answered else none
  | .ok (.outcome o), .commit r index => if r = m then some (.arrived index o) else none
  | .ok (.outcome o), .merging r => if r = m then some (.answered o) else none
  | .error _, .merging r => if r = m then some .panicked else none
  | _, _ => none

def Moment.event? (m : ResultId) (μ : Moment V κ σ) : Option (Event V) :=
  μ.frame.event? m μ.result

/-- A merge over `sources` stands as its progress says. -/
inductive Progress.Shows (merger : Merger V κ) (sources : List ResultId) :
    Progress V → Result V κ → Prop where
  | opening {cell : Cell V (Task κ)} {gathering : Gathering V} :
      cell.state = .pending → gathering.sources = [] → sources = [] →
      Shows merger sources .opening ⟨cell, .merge ⟨merger, sources.length, gathering, .free⟩⟩
  | gathering {values : List (Option V)} {cell : Cell V (Task κ)} {completed : BitSet} :
      cell.state = .pending → completed.Holds (values.map Option.isSome) →
      values.length = sources.length → none ∈ values →
      Shows merger sources (.gathering values)
        ⟨cell, .merge ⟨merger, sources.length, ⟨completed, values, sources⟩, .free⟩⟩
  | merging {values : List V} {cell : Cell V (Task κ)} {gathering : Gathering V} :
      cell.state = .pending → gathering.sources = [] → sources ≠ [] →
      gathering.completed.Holds (List.replicate sources.length true) →
      Shows merger sources (.merging values)
        ⟨cell, .merge ⟨merger, sources.length, gathering, .held⟩⟩
  | broken {cell : Cell V (Task κ)} {gathering : Gathering V} :
      cell.state = .pending → gathering.sources = [] → sources ≠ [] →
      gathering.completed.Holds (List.replicate sources.length true) →
      Shows merger sources .broken
        ⟨cell, .merge ⟨merger, sources.length, gathering, .poisoned⟩⟩
  | decided {state : State V} {cell : Cell V (Task κ)} {gathering : Gathering V} {lock : Lock} :
      cell.state = state → state.isPending = false → gathering.sources = [] → lock ≠ .held →
      Shows merger sources (.decided state)
        ⟨cell, .merge ⟨merger, sources.length, gathering, lock⟩⟩

namespace Progress.Shows

variable {merger : Merger V κ} {sources : List ResultId} {p : Progress V} {x : Result V κ}

theorem state (shows : p.Shows merger sources x) : x.cell.state = p.state := by
  cases shows <;> assumption

/-- A new merge stands at the start. -/
theorem start (merger : Merger V κ) (sources : List ResultId) :
    (Progress.start sources.length).Shows merger sources
      ⟨.fresh, .merge ⟨merger, sources.length, .start sources, .free⟩⟩ := by
  unfold Progress.start
  split
  next none =>
    have none : sources = [] := by simpa using none
    subst none
    exact .opening rfl rfl rfl
  next some =>
    refine .gathering rfl ?_ (by simp) (by simpa using some)
    simpa using BitSet.holds_empty sources.length

/-- The cell may change in whatever its state does not depend on. -/
theorem cell {cell : Cell V (Task κ)} {kind : Kind V κ}
    (shows : p.Shows merger sources ⟨cell, kind⟩) {cell' : Cell V (Task κ)}
    (same : cell'.state = cell.state) :
    p.Shows merger sources ⟨cell', kind⟩ := by
  cases shows with
  | gathering pending holds length missing =>
    exact .gathering (same.trans pending) holds length missing
  | opening pending released none => exact .opening (same.trans pending) released none
  | merging pending released some holds => exact .merging (same.trans pending) released some holds
  | broken pending released some holds => exact .broken (same.trans pending) released some holds
  | decided decided terminal released lock =>
    exact .decided (same.trans decided) terminal released lock

/-- The count of a bit set tells whether a flag is missing. -/
theorem cardinality_eq {completed : BitSet} {values : List (Option V)}
    (holds : completed.Holds (values.map Option.isSome)) :
    completed.cardinality = values.length ↔ values.all Option.isSome = true := by
  have length : (values.map Option.isSome).length = values.length := List.length_map _
  rw [holds.cardinality, ← length, List.count_eq_length]
  simp

/-- The first value of a source is recorded, and if it was the last one, all values are merged. -/
theorem arrive_missing {cell : Cell V (Task κ)} {completed : BitSet} {values : List (Option V)}
    {index : Nat} (pending : cell.state = .pending)
    (holds : completed.Holds (values.map Option.isSome)) (length : values.length = sources.length)
    (missing : values[index]? = some none) (v : V) :
    ∃ completed' : BitSet, completed'.Holds ((values.set index (some v)).map Option.isSome) ∧
      Gathering.arrive cell ⟨completed, values, sources⟩ sources.length index (.ok v) =
        if (values.set index (some v)).all Option.isSome = true then
          .complete ((values.set index (some v)).filterMap id)
            (Gathering.record ⟨completed, values, sources⟩ completed' index v).take.2
        else .recorded (Gathering.record ⟨completed, values, sources⟩ completed' index v) := by
  obtain ⟨bound, unset⟩ := List.getElem?_eq_some_iff.mp missing
  have inside : index < (values.map Option.isSome).length := by simpa using bound
  obtain ⟨completed', inserted, holds'⟩ := BitSet.insert?_new holds inside (by simp [unset])
  have flags : (values.map Option.isSome).set index true =
      (values.set index (some v)).map Option.isSome := by simp [List.map_set]
  rw [flags] at holds'
  have full := cardinality_eq holds'
  rw [List.length_set, length] at full
  refine ⟨completed', holds', ?_⟩
  rw [Gathering.arrive_ok (by rw [pending]; rfl)]
  simp only [inserted, full]
  rfl

theorem arrive_again {cell : Cell V (Task κ)} {completed : BitSet} {values : List (Option V)}
    {index : Nat} {w : V} (pending : cell.state = .pending)
    (holds : completed.Holds (values.map Option.isSome))
    (there : values[index]? = some (some w)) (size : Nat) (v : V) :
    Gathering.arrive cell ⟨completed, values, sources⟩ size index (.ok v) = .twice := by
  obtain ⟨bound, set⟩ := List.getElem?_eq_some_iff.mp there
  have again : completed.insert? index = some (false, completed) :=
    BitSet.insert?_again holds (by simpa using bound) (by simp [set])
  rw [Gathering.arrive_ok (by rw [pending]; rfl)]
  simp only [again]

theorem commit_value {cell : Cell V (Task κ)} {completed : BitSet} {values : List (Option V)}
    {index : Nat} {v : V} (pending : cell.state = .pending)
    (holds : completed.Holds (values.map Option.isSome)) (length : values.length = sources.length)
    (missing : values[index]? = some none) :
    (gathered merger (values.set index (some v))).Shows merger sources
      (Result.commit ⟨cell, .merge ⟨merger, sources.length, ⟨completed, values, sources⟩, .free⟩⟩
        index (.ok v)) := by
  have bound := (List.getElem?_eq_some_iff.mp missing).1
  obtain ⟨completed', holds', arrival⟩ := arrive_missing pending holds length missing v
  unfold gathered
  split
  next all =>
    rw [if_pos all] at arrival
    -- no flag is left unset, so every later value counts as given twice
    have ones : (values.set index (some v)).map Option.isSome =
        List.replicate sources.length true := by
      refine List.eq_replicate_iff.mpr ⟨by simp [length], fun flag member => ?_⟩
      obtain ⟨slot, included, rfl⟩ := List.mem_map.mp member
      exact List.all_eq_true.mp all slot included
    have nonempty : sources ≠ [] := by
      rintro rfl
      rw [length] at bound
      exact Nat.not_lt_zero index bound
    rw [ones] at holds'
    cases merger with
    | plain f =>
      cases merged : f ((values.set index (some v)).filterMap id) with
      | ok o =>
        simp only [Result.commit, arrival, Result.merged, Cell.transition, pending,
          State.isPending, if_true, handed, merged]
        exact .decided rfl (State.isPending_ofOutcome o) rfl (by simp)
      | error p =>
        simp only [Result.commit, arrival, handed, merged]
        exact .broken pending rfl nonempty holds'
    | code f =>
      simp only [Result.commit, arrival]
      exact .merging pending rfl nonempty holds'
  next part =>
    rw [if_neg part] at arrival
    simp only [Result.commit, arrival]
    refine .gathering pending holds' (by simp [length]) ?_
    obtain ⟨slot, member, none⟩ : ∃ slot ∈ values.set index (some v), slot.isSome = false := by
      simpa using part
    cases slot with
    | none => exact member
    | some w => cases none

/-- Progress made by the outcome of a source. -/
theorem commit (shows : p.Shows merger sources x) (free : x.isHeld = false) {index : Nat}
    (bound : index < sources.length) (o : Outcome V) :
    (next merger p (.arrived index o)).Shows merger sources (x.commit index o) := by
  cases shows with
  | @gathering values cell completed pending holds length missing =>
    have live : cell.state.isPending = true := by rw [pending]; rfl
    cases o with
    | error e =>
      simp only [Result.commit, Gathering.arrive_error live]
      exact .decided rfl rfl rfl (by simp)
    | ok v =>
      have inside : index < values.length := by rw [length]; exact bound
      cases slot : values[index] with
      | none =>
        have missing : values[index]? = some none := by simp [inside, slot]
        simp only [next, missing]
        exact commit_value pending holds length missing
      | some w =>
        have there : values[index]? = some (some w) := by simp [inside, slot]
        simp only [next, there, Result.commit, arrive_again pending holds there]
        exact .gathering pending holds length missing
  | opening pending released none =>
    subst none
    exact absurd bound (Nat.not_lt_zero index)
  | merging => cases free
  | @broken cell gathering pending released nonempty holds =>
    -- the slots are gone, but all flags are set
    have live : cell.state.isPending = true := by rw [pending]; rfl
    cases o with
    | error e =>
      simp only [Result.commit, Gathering.arrive_error live]
      exact .decided rfl rfl rfl (by simp)
    | ok v =>
      have again : gathering.completed.insert? index = some (false, gathering.completed) :=
        BitSet.insert?_again holds (by simpa using bound) (by simp)
      simp only [next, Result.commit, Gathering.arrive_ok live, again]
      exact .broken pending released nonempty holds
  | @decided state cell gathering lock decided terminal released unlocked =>
    have late : cell.state.isPending = false := by rw [decided]; exact terminal
    simp only [Result.commit, Gathering.arrive_late late]
    have still : next merger (.decided state) (.arrived index o) = .decided state := by
      cases o <;> rfl
    rw [still]
    exact .decided decided terminal released unlocked

theorem cancel (shows : p.Shows merger sources x) (free : x.isHeld = false) :
    (next merger p .cancelled).Shows merger sources x.cancel := by
  cases shows with
  | @gathering values cell completed pending holds length missing =>
    simp only [Result.cancel, Cell.transition, pending, State.isPending, if_true]
    exact .decided rfl rfl rfl (by simp)
  | opening pending released none =>
    simp only [Result.cancel, Cell.transition, pending, State.isPending, if_true]
    exact .decided rfl rfl rfl (by simp)
  | merging => cases free
  | @broken cell gathering pending released some holds =>
    simp only [Result.cancel, Cell.transition, pending, State.isPending, if_true]
    exact .decided rfl rfl rfl (by simp)
  | @decided state cell gathering lock decided terminal released unlocked =>
    have same : cell.transition .cancelled = none :=
      (Cell.transition_eq_none_iff _ _).mpr (by rw [decided]; exact terminal)
    simp only [Result.cancel, same]
    exact .decided decided terminal released unlocked

/-- A merger that ran under the lock has ended. -/
theorem mergerEnded (shows : p.Shows merger sources x) (held : x.isHeld = true) :
    (∀ o, (next merger p (.answered o)).Shows merger sources (x.mergerEnded (.ok (.outcome o)))) ∧
      ∀ q, (next merger p .panicked).Shows merger sources (x.mergerEnded (.error q)) := by
  cases shows with
  | merging pending released some holds =>
    refine ⟨fun o => ?_, fun q => ?_⟩
    · simp only [Result.mergerEnded, Result.merged, Cell.transition, pending, State.isPending,
        if_true]
      exact .decided rfl (State.isPending_ofOutcome o) released (by simp)
    · exact .broken pending released some holds
  | decided _ _ _ unlocked => exact absurd (by simpa [Result.isHeld] using held) unlocked
  | _ => cases held

/-- The construction of a merge without sources completes it. -/
theorem complete (shows : p.Shows merger [] x) (o : Outcome V) :
    (next merger p (.answered o)).Shows merger [] (x.complete (.ofOutcome o)) := by
  cases shows with
  | gathering _ _ length missing =>
    rw [List.eq_nil_of_length_eq_zero length] at missing
    simp at missing
  | opening pending released none =>
    simp only [Result.complete, Cell.transition, pending, State.isPending, if_true]
    exact .decided rfl (State.isPending_ofOutcome o) released (by simp)
  | merging _ _ some _ => exact absurd rfl some
  | broken _ _ some _ => exact absurd rfl some
  | @decided state cell gathering lock decided terminal released unlocked =>
    have same : cell.transition (.ofOutcome o) = none :=
      (Cell.transition_eq_none_iff _ _).mpr (by rw [decided]; exact terminal)
    simp only [Result.complete, same]
    exact .decided decided terminal released unlocked

theorem isMerge (shows : p.Shows merger sources x) :
    ∃ cell gathering lock, x = ⟨cell, .merge ⟨merger, sources.length, gathering, lock⟩⟩ := by
  cases shows <;> exact ⟨_, _, _, rfl⟩

/-- Progress made by a step that is about the merge. -/
theorem touch {s : Store V κ σ} {m : ResultId} {result : Return V} {frame : Frame V κ}
    (shows : p.Shows merger sources x) (found : s.results[m]? = some x) (sound : frame.Sound s)
    (about : frame.subject? = some m)
    (free : ∀ a, result = .ok a → x.isHeld = true → frame = .merging m)
    (held : frame = .merging m → x.isHeld = true)
    (answers : ∀ a, result = .ok a → frame = .merging m → ∃ o, a = .outcome o) :
    (run merger p (frame.event? m result).toList).Shows merger sources (x.touch result frame) := by
  obtain ⟨cell, gathering, lock, same⟩ := shows.isMerge
  cases frame with
  | merging m' =>
    cases about
    have ended := shows.mergerEnded (held rfl)
    cases result with
    | error q => simpa [Frame.event?, Result.touch] using ended.2 q
    | ok a =>
      obtain ⟨o, rfl⟩ := answers a rfl rfl
      simpa [Frame.event?, Result.touch] using ended.1 o
  | commit m' index =>
    cases about
    cases result with
    | error q => exact shows
    | ok a =>
      have unlocked : x.isHeld = false := by
        cases locked : x.isHeld with
        | false => rfl
        | true => cases free a rfl locked
      obtain ⟨size, ⟨cell', m', found', size'⟩, bound⟩ := sound
      cases a with
      | outcome o =>
        cases found.symm.trans found'
        cases same
        rw [← size'] at bound
        simpa [Frame.event?, Result.touch] using shows.commit unlocked bound o
      | _ => exact shows
  | deliver r tasks first reply =>
    cases tasks with
    | nil =>
      subst same
      cases result with
      | error q => exact shows
      | ok a => exact shows.cell rfl
    | cons task tasks => cases about
  | call c =>
    cases result with
    | error q =>
      rw [Result.touch_error fun merge => by simp]
      simpa [Frame.event?] using shows
    | ok a =>
      have unlocked : x.isHeld = false := by
        cases locked : x.isHeld with
        | false => rfl
        | true => cases free a rfl locked
      cases c with
      | complete r state =>
        cases about
        -- only its own construction completes a merge
        rcases sound with ⟨x', found', takes⟩ | ⟨⟨cell', m', found', none⟩, o, rfl⟩
        · cases found.symm.trans found'
          subst same
          exact takes.elim
        · cases found.symm.trans found'
          cases same
          have none : sources = [] := List.eq_nil_of_length_eq_zero none
          subst none
          simpa [Frame.event?, Result.touch] using shows.complete o
      | countDown r => subst same; exact shows
      | cancel r => cases about; simpa [Frame.event?, Result.touch] using shows.cancel unlocked
      | register r task =>
        subst same
        simp only [Frame.event?, Option.toList_none, run_nil, Result.touch, Result.register,
          Result.isForeign, Bool.false_eq_true, if_false]
        split
        next => exact shows
        next cell' enqueued =>
          obtain ⟨-, rfl⟩ := (Cell.enqueue_eq_some_iff _ _ _).mp enqueued
          exact shows.cell rfl
      | claim r done cancelled => subst same; exact shows
      | _ => cases about
  | _ => cases about

end Progress.Shows

/-- The record of a merge in a store. -/
def Store.Shows (s : Store V κ σ) (m : ResultId) (merger : Merger V κ) (sources : List ResultId)
    (p : Progress V) : Prop :=
  ∃ x, s.results[m]? = some x ∧ p.Shows merger sources x

section

variable {client : Client V κ σ} {s s₁ : System V κ σ} {m : ResultId} {merger : Merger V κ}
  {sources : List ResultId} {p : Progress V}

/-- A frame that is about another result tells a merge nothing. -/
theorem Frame.event?_other {frame : Frame V κ} {result : Return V}
    (apart : frame.subject? ≠ some m) : frame.event? m result = none := by
  unfold Frame.event?
  split
  next r => exact if_neg fun same => apart (congrArg some same)
  next r state => exact if_neg fun same => apart (congrArg some same)
  next r index => exact if_neg fun same => apart (congrArg some same)
  next r => exact if_neg fun same => apart (congrArg some same)
  next r => exact if_neg fun same => apart (congrArg some same)
  next => rfl

theorem System.shows_step {t : Nat} {μ : Moment V κ σ} {e : Effect V κ σ} {calls : List (Call V κ)}
    (sound : s.Sound) (orderly : s.Orderly) (found : s.moment? t = some μ)
    (yields : μ.Yields client e calls) (shows : s.store.Shows m merger sources p) :
    e.store.Shows m merger sources (p.run merger (μ.event? m).toList) := by
  obtain ⟨x, there, shows⟩ := shows
  have store := (moment?_eq_some found).1
  have here := (sound.frames.moment found).1
  have touches := yields.touches
  rw [store] at touches
  refine ⟨_, touches.there m x there, ?_⟩
  unfold Moment.event?
  split
  next about =>
    refine shows.touch there here about
      (fun a answered held => touches.locked m x a answered about there held) ?_ ?_
    · intro merging
      -- the frame that runs the merger is the one that holds the lock
      have running := weight_le (w := Frame.merges m) found
      rw [(orderly.there m x there).lock, merging] at running
      cases held : x.isHeld with
      | true => rfl
      | false => simp [held, Frame.merges] at running
    · intro a answered merging
      cases yields with
      | resumed effect =>
        rw [answered, merging] at effect
        cases a <;> first | exact ⟨_, rfl⟩ | cases effect
      | forked _ _ frame => rw [merging] at frame; cases frame
      | joined _ _ frame => rw [merging] at frame; cases frame
  next apart =>
    rw [Frame.event?_other apart]
    exact shows

theorem Run.shows {h : List (Moment V κ σ)} (run : Run client Call.Fair s h s₁) (sound : s.Sound)
    (orderly : s.Orderly) (shows : s.store.Shows m merger sources p) :
    s₁.store.Shows m merger sources (p.run merger (h.filterMap (Moment.event? m))) := by
  induction run with
  | start => exact shows
  | @step h _ _ _ μ run found step fair ih =>
    obtain ⟨μ, e, calls, moment, yields, rfl⟩ := System.step_yields step
    cases found.symm.trans moment
    rw [filterMap_concat, Progress.run_append]
    exact System.shows_step (run.sound sound) (run.orderly sound orderly) found yields ih
  | begin c _ _ ih => exact ih
  | pass now _ _ ih => exact ih

/-- The merge `m` has just been made, in a system that was reached from nothing under a rule. -/
inductive Built (client : Client V κ σ) (rule : Store V κ σ → Call V κ → Prop)
    (merger : Merger V κ) (sources : List ResultId) (m : ResultId) (s : System V κ σ) : Prop where
  | intro {memory : σ} {h : List (Moment V κ σ)} {s₀ : System V κ σ} {t : Nat} {μ : Moment V κ σ}
      {a : Answer V} :
      Run client rule ⟨.empty memory, []⟩ h s₀ → s₀.moment? t = some μ → μ.result = .ok a →
      μ.frame = .call (.build merger sources) → s₀.step client t = some s →
      m = s₀.store.results.length → Built client rule merger sources m s

namespace Built

theorem mono {rule rule' : Store V κ σ → Call V κ → Prop} (weaker : ∀ s c, rule s c → rule' s c)
    (built : Built client rule merger sources m s) : Built client rule' merger sources m s := by
  obtain ⟨run, found, answered, frame, step, last⟩ := built
  exact .intro (run.mono weaker) found answered frame step last

variable (built : Built client Call.Fair merger sources m s)
include built

theorem sound : s.Sound := by
  obtain ⟨run, found, answered, frame, step, -⟩ := built
  obtain ⟨μ, e, calls, moment, yields, rfl⟩ := System.step_yields step
  cases found.symm.trans moment
  exact (run.sound (System.sound_empty _)).step found (by simp [Moment.call?, answered, frame])
    yields

theorem orderly : s.Orderly := by
  obtain ⟨run, found, answered, frame, step, -⟩ := built
  obtain ⟨μ, e, calls, moment, yields, rfl⟩ := System.step_yields step
  cases found.symm.trans moment
  have sound := run.sound (System.sound_empty _)
  exact (run.orderly (System.sound_empty _) (System.orderly_empty _)).step sound found yields

theorem shows : s.store.Shows m merger sources (Progress.start sources.length) := by
  obtain ⟨run, found, answered, frame, step, rfl⟩ := built
  obtain ⟨μ, e, calls, moment, yields, rfl⟩ := System.step_yields step
  cases found.symm.trans moment
  have touches := yields.touches
  rw [(System.moment?_eq_some found).1, answered, frame] at touches
  exact ⟨_, touches.made, Progress.Shows.start merger sources⟩

end Built

end

end Quorate
