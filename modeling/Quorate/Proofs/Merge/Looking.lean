import Quorate.Proofs.Merge.Cascade

/-! A merge over the results that were made before it, as it looks at one of them. The frames that
do so follow one another without a panic, and when none is left for a source that has ended, the
merge has heard of it. -/

set_option autoImplicit false

namespace Quorate

variable {V κ σ : Type}

/-- A frame by which the merge `m` looks at its source at position `i`, which is the result `i`. -/
def Frame.Looks (m i : ResultId) : Frame V κ → Prop
  | .call (.register r task) => i < m ∧ r = i ∧ task = ⟨.observe m i, .inline⟩
  | .call (.perform task) => i < m ∧ task = ⟨.observe m i, .inline⟩
  | .start callback => i < m ∧ callback = .observe m i
  | .lookup merge index | .commit merge index => i < m ∧ merge = m ∧ index = i
  | .query merge index source => i < m ∧ merge = m ∧ index = i ∧ source = i
  | .deliver _ tasks first _ =>
    first = none ∧ ∀ task ∈ tasks, i < m ∧ task = ⟨.observe m i, .inline⟩
  | _ => False

theorem Frame.Looks.watches {m i j : ResultId} {frame : Frame V κ} (looks : frame.Looks m i)
    (other : i ≠ j) : frame.watches m j = 0 := by
  have none : Task.watches m j (⟨.observe m i, .inline⟩ : Task κ) = 0 := by
    simp [Task.watches, Callback.watches, other]
  cases frame with
  | call c =>
    cases c with
    | register r task => obtain ⟨-, -, rfl⟩ := looks; exact none
    | perform task => obtain ⟨-, rfl⟩ := looks; exact none
    | _ => exact looks.elim
  | start callback => obtain ⟨-, rfl⟩ := looks; exact none
  | lookup merge index => obtain ⟨-, -, rfl⟩ := looks; simp [Frame.watches, other]
  | commit merge index => obtain ⟨-, -, rfl⟩ := looks; simp [Frame.watches, other]
  | query merge index source => obtain ⟨-, -, rfl, -⟩ := looks; simp [Frame.watches, other]
  | deliver r tasks first reply =>
    simp only [Frame.watches, watching, List.sum_eq_zero_iff_forall_eq_nat, List.mem_map,
      forall_exists_index, and_imp, forall_apply_eq_imp_iff₂]
    intro task member
    rw [(looks.2 task member).2]
    exact none
  | _ => exact looks.elim

theorem Moment.event?_cancelled {m : ResultId} {μ : Moment V κ σ}
    (event : μ.event? m = some .cancelled) : μ.frame = .call (.cancel m) := by
  unfold Moment.event? Frame.event? at event
  split at event
  next a r _ frame =>
    split at event
    next same => rw [frame, same]
    next => cases event
  next =>
    split at event
    next =>
      obtain ⟨o, -, other⟩ := Option.map_eq_some_iff.mp event
      cases other
    next => cases event
  next => split at event <;> cases event
  next => split at event <;> cases event
  next => split at event <;> cases event
  next => cases event

section

variable {client : Client V κ σ} {s : System V κ σ} {m : ResultId} {merge : List V → Outcome V}
  {h : List (Moment V κ σ)} {p : Progress V} {t i : Nat} {μ : Moment V κ σ} {e : Effect V κ σ}
  {a : Answer V}

/-- A merge whose merger returns gathers, or a verdict has decided it, or the merger has. -/
theorem System.Follows.settles {sources : List ResultId}
    (follows : s.Follows m (.plain fun values => .ok (merge values)) sources h p) :
    (∃ values, p = .gathering values ∧
        Progress.Open sources.length (h.filterMap (Moment.event? m)) values) ∨
      (∃ event ∈ h.filterMap (Moment.event? m), ∃ state, event.verdict? = some state ∧
        p = .decided state) ∨
      ∃ values, s.store.Votes sources values ∧ p = .decided (.ofOutcome (merge values)) ∧
        h.filterMap (Moment.merged? m) = [values] := by
  have verdict := follows.verdict
  generalize same : h.filterMap (Moment.merged? m) = calls at verdict
  cases verdict with
  | «open» gathers => exact .inl ⟨_, rfl, gathers⟩
  | @ended before after event state values split gathers called =>
    refine .inr (.inl ⟨event, ?_, state, called, rfl⟩)
    rw [split]
    exact List.mem_append_right _ List.mem_cons_self
  | @full before after index v earlier values =>
    have given : s.store.Votes sources values :=
      follows.given (by rw [same]; exact List.mem_cons_self)
    exact .inr (.inr ⟨values, given, by simp only [Progress.handed, Progress.run_decided], rfl⟩)

theorem Event.verdict_terminal {event : Event V} {state : State V}
    (called : event.verdict? = some state) : state.isPending = false := by
  unfold verdict? at called
  split at called <;> cases called <;> rfl

/-- A merge whose merger returns takes in the outcome of a source without a panic. -/
theorem System.Follows.commits {sources : List ResultId}
    (follows : s.Follows m (.plain fun values => .ok (merge values)) sources h p)
    (found : s.moment? t = some μ) (frame : μ.frame = .commit m i) {cell : Cell V (Task κ)}
    {record : Merge V κ} (there : s.store.results[m]? = some ⟨cell, .merge record⟩)
    (o : Outcome V) :
    Gathering.arrive cell record.gathering record.size i o ≠ .outside ∧
      Gathering.arrive cell record.gathering record.size i o ≠ .twice := by
  refine follows.accepts found frame there ?_ o
  rcases follows.settles with
    ⟨values, same, -⟩ | ⟨event, -, state, called, rfl⟩ | ⟨values, -, rfl, -⟩
  · exact .inl ⟨values, same⟩
  · exact .inr (Event.verdict_terminal called)
  · exact .inr (State.isPending_ofOutcome _)

/-- A frame that looks at a source goes on without a panic. -/
theorem System.Follows.looks
    (follows : s.Follows m (.plain fun values => .ok (merge values)) (List.range m) h p)
    (found : s.moment? t = some μ) (answered : μ.result = .ok a) (looks : μ.frame.Looks m i)
    (empty : ∀ x, s.store.results[m]? = some x → x.cell.queue = [])
    (effect : s.store.resume client μ.result μ.frame = some e) :
    (∃ b, e.result = .ok b) ∧ ∀ f ∈ e.frames, f.Looks m i := by
  have placed := (follows.watched.moment found).1
  have commits := fun (frame : μ.frame = .commit m i) {cell : Cell V (Task κ)}
    {record : Merge V κ} (there : s.store.results[m]? = some ⟨cell, .merge record⟩) =>
    follows.commits found frame there
  obtain ⟨_, _, result, frame, below⟩ := μ
  dsimp only at answered looks effect placed commits
  subst answered
  obtain ⟨cell, record, there, -, held⟩ := follows.watched.hosts.record
  have own (bound : i < m) : ∃ x, s.store.results[i]? = some x ∧ x.isForeign = false :=
    follows.watched.hosts.own i (List.mem_range.mpr bound)
  cases frame with
  | call c =>
    cases c with
    | register r task =>
      obtain ⟨bound, rfl, rfl⟩ := looks
      obtain ⟨x, found, own⟩ := own bound
      obtain ⟨x', found', -, effect⟩ := Store.locking_eq_some effect
      cases found.symm.trans found'
      rw [own] at effect
      simp only [Bool.false_eq_true, if_false] at effect
      split at effect <;> cases effect
      · exact ⟨⟨_, rfl⟩, by simpa [Frame.Looks] using bound⟩
      · exact ⟨⟨_, rfl⟩, by simp⟩
    | perform task =>
      obtain ⟨bound, rfl⟩ := looks
      cases effect
      exact ⟨⟨_, rfl⟩, by simpa [Frame.Looks] using bound⟩
    | _ => exact looks.elim
  | start callback =>
    obtain ⟨bound, rfl⟩ := looks
    cases effect
    exact ⟨⟨_, rfl⟩, by simpa [Frame.Looks] using bound⟩
  | lookup merge index =>
    obtain ⟨bound, rfl, rfl⟩ := looks
    obtain ⟨x, there', -, effect⟩ := Store.locking_eq_some effect
    cases there.symm.trans there'
    simp only at effect
    split at effect
    next => cases effect; exact ⟨⟨_, rfl⟩, by simp⟩
    next source position =>
      cases effect
      refine ⟨⟨_, rfl⟩, ?_⟩
      rcases held with all | none
      · rw [all, List.getElem?_range bound] at position
        cases position
        simpa [Frame.Looks] using bound
      · rw [none] at position
        cases position
  | query merge index source =>
    obtain ⟨bound, rfl, rfl, rfl⟩ := looks
    -- the source has ended, so it cannot be found not done
    obtain ⟨⟨r, x, position, found, -, terminal⟩, position'⟩ := placed rfl
    cases position.symm.trans position'
    obtain ⟨x', found', -, effect⟩ := Store.locking_eq_some effect
    cases found.symm.trans found'
    obtain ⟨x', found', own⟩ := own bound
    cases found.symm.trans found'
    rw [Result.isDone_eq own, terminal, own] at effect
    simp only [Bool.not_false, Bool.not_true, Bool.false_eq_true, if_false] at effect
    split at effect
    next => cases effect; exact ⟨⟨_, rfl⟩, by simp⟩
    next =>
      split at effect <;> cases effect
      exact ⟨⟨_, rfl⟩, by simpa [Frame.Looks] using bound⟩
  | commit merge index =>
    obtain ⟨bound, rfl, rfl⟩ := looks
    have emits := Store.resume_emits effect
    generalize e.result = result' at emits ⊢
    generalize e.frames = frames at emits ⊢
    -- a source is taken in once and within bounds, and the merger returns at once
    cases emits with
    | settles about found =>
      cases about
      refine ⟨⟨_, rfl⟩, fun f member => ?_⟩
      rw [List.mem_singleton.mp member, empty _ found]
      exact ⟨rfl, by simp⟩
    | records => exact ⟨⟨_, rfl⟩, by simp⟩
    | rejects found arrival =>
      rcases arrival with outside | twice
      · exact absurd outside (commits rfl found _).1
      · exact absurd twice (commits rfl found _).2
    | breaks found _ merger panics =>
      obtain ⟨x, there', shows⟩ := follows.shows
      obtain ⟨cell', gathering, lock, rfl⟩ := shows.isMerge
      cases found.symm.trans there'
      cases merger
      cases panics
    | merges found _ _ code =>
      obtain ⟨x, there', shows⟩ := follows.shows
      obtain ⟨cell', gathering, lock, rfl⟩ := shows.isMerge
      cases found.symm.trans there'
      cases code
    | passive passive => exact passive.elim
    | keeps ending => exact ending.elim
  | deliver r tasks first reply =>
    obtain ⟨rfl, all⟩ := looks
    cases tasks with
    | nil =>
      simp only [Store.resume, Store.proceed] at effect
      split at effect
      next => cases effect
      next => split at effect <;> cases effect; exact ⟨⟨_, rfl⟩, by simp⟩
    | cons task tasks =>
      cases effect
      refine ⟨⟨_, rfl⟩, fun f member => ?_⟩
      simp only [List.mem_cons, List.not_mem_nil, or_false] at member
      rcases member with rfl | rfl
      · exact all task List.mem_cons_self
      · exact ⟨rfl, fun task member => all task (List.mem_cons_of_mem _ member)⟩
  | _ => exact looks.elim

end

end Quorate
