import Quorate.Proofs.Merge.Gather

/-! The callbacks of a merge from its construction on, through every run. Once no thread is at work
for the merge, a source that has given it no value is pending or cancelled. -/

set_option autoImplicit false

namespace Quorate

variable {V κ σ : Type}

section

variable {client : Client V κ σ} {s s₁ : System V κ σ} {m : ResultId} {sources : List ResultId}
  {h : List (Moment V κ σ)}

theorem System.unwatched_frame {i : Nat} (none : s.watches m i = 0) {thread : Thread V κ}
    (member : thread ∈ s.threads) {frame : Frame V κ} (included : frame ∈ thread.frames) :
    frame.watches m i = 0 :=
  weight_eq_zero_iff.mp (Nat.eq_zero_of_add_eq_zero_right none) thread member frame included

/-- Tasks that carry no callback of a merge have none to place. -/
theorem Task.at_of_watching {tasks : List (Task κ)} (none : ∀ i, watching m i tasks = 0)
    {P : Nat → Prop} {task : Task κ} (member : task ∈ tasks) : task.At m P := by
  apply Task.at_of_watches
  intro i
  have none := none i
  simp only [watching, List.sum_eq_zero_iff_forall_eq_nat, List.mem_map, forall_exists_index,
    and_imp, forall_apply_eq_imp_iff₂] at none
  exact none task member

theorem Frame.placed {store : Store V κ σ} {frame : Frame V κ}
    (none : ∀ i, frame.watches m i = 0) : frame.Placed m sources store := by
  cases frame with
  | call c => exact Call.placed none
  | start callback =>
    cases callback with
    | observe merge i =>
      rintro rfl
      exact absurd (none i) (by simp [watches, Callback.watches])
    | _ => trivial
  | lookup merge i =>
    rintro rfl
    exact absurd (none i) (by simp [watches])
  | query merge i r =>
    rintro rfl
    exact absurd (none i) (by simp [watches])
  | commit merge i =>
    rintro rfl
    exact absurd (none i) (by simp [watches])
  | deliver r tasks first reply => exact fun task member => Task.at_of_watching none member
  | sweep r rest all tasks => exact fun task member => Task.at_of_watching none member
  | attach merge rest index =>
    rintro rfl left
    exact absurd (none index) (by simp [watches, List.length_pos_iff.mpr left])
  | _ => trivial

/-- Before a merge is made, no thread is about to hand its callbacks on. -/
theorem Run.tidy (run : Run client (Call.Blind m) s h s₁) (before : s₁.store.results.length ≤ m)
    (none : ∀ i, s.watches m i = 0) (tidy : ∀ thread ∈ s.threads, thread.Tidy m False) :
    ∀ thread ∈ s₁.threads, thread.Tidy m False := by
  induction run with
  | start => exact tidy
  | @step h s₁ s₂ t μ run found step blind ih =>
    obtain ⟨μ', e, calls, moment, yields, rfl⟩ := System.step_yields step
    cases found.symm.trans moment
    have length := yields.touches.length
    rw [(System.moment?_eq_some moment).1] at length
    have within : e.store.results.length ≤ m := before
    have before : s₁.store.results.length ≤ m := by omega
    have ih := ih before
    have selected := List.mem_of_getElem? (System.moment?_eq_some moment).2.2
    have unwatched (i : Nat) : μ.frame.watches m i = 0 :=
      System.unwatched_frame (run.unwatched before i (none i)) selected (by simp)
    refine System.threads_after ?_ ih fun c _ => Thread.tidy_ofCall c
    rcases yields.emits with ⟨-, emits⟩ | ⟨a, b, c, -, -, answered, nothing, -⟩
    · obtain ⟨top, calm⟩ := emits.tidy (m := m) fun index source x frame _ => by
        have zero := unwatched index
        rw [frame] at zero
        simp [Frame.watches] at zero
      exact (ih _ selected).step top calm False.elim False.elim
    · exact (ih _ selected).step (by simp [nothing]) (by simp [nothing]) False.elim False.elim
  | begin c _ _ ih => exact System.threads_begin (ih before) (Thread.tidy_ofCall c)
  | pass now _ _ ih => exact ih before

theorem Emits.build {store : Store V κ σ} {a : Answer V} {merger : Merger V κ} {result : Return V}
    {frames : List (Frame V κ)}
    (emits : Emits client store (.ok a) (.call (.build merger sources)) result frames)
    (some : sources ≠ []) :
    result = .ok .unit ∧ frames = [.attach store.results.length sources 0] := by
  cases emits with
  | builds => exact ⟨rfl, rfl⟩
  | opens => exact absurd rfl some
  | passive passive => exact passive.elim
  | keeps ending => exact ending.elim
  | settles about => cases about
  | serves form => rcases form with none | ⟨task, none⟩ <;> cases none

/-- A merge that has just been made is about to attach itself, and has no callbacks yet. -/
theorem Built.watched {merger : Merger V κ}
    (built : Built client (Call.Blind m) merger sources m s) (some : sources ≠ [])
    (own : ∀ r ∈ sources, ∃ x, s.store.results[r]? = Option.some x ∧ x.isForeign = false) :
    s.Watched m sources (.start sources.length) := by
  obtain ⟨run, found, answered, frame, step, last⟩ := built
  rename_i memory h₀ s₀ t μ a
  obtain ⟨μ', e, calls, moment, yields, rfl⟩ := System.step_yields step
  cases found.symm.trans moment
  have unwatched (i : Nat) : s₀.watches m i = 0 := run.unwatched (Nat.le_of_eq last.symm) i rfl
  have tidy := run.tidy (Nat.le_of_eq last.symm) (fun _ => rfl) (fun _ member => by cases member)
  have zero {thread : Thread V κ} (member : thread ∈ s₀.threads) {f : Frame V κ}
      (included : f ∈ thread.frames) (i : Nat) : f.watches m i = 0 :=
    System.unwatched_frame (unwatched i) member included
  have selected := List.mem_of_getElem? (System.moment?_eq_some found).2.2
  have below {f : Frame V κ} (included : f ∈ μ.below) (i : Nat) : f.watches m i = 0 :=
    zero selected (List.mem_cons_of_mem _ included) i
  have touches := yields.touches
  rw [(System.moment?_eq_some found).1, answered, frame] at touches
  obtain ⟨rfl, result, frames⟩ : calls = [] ∧ e.result = .ok .unit ∧
      e.frames = [.attach m sources 0] := by
    rcases yields.emits with ⟨none, emits⟩ | ⟨a', b, c, -, forks, -⟩
    · rw [answered, frame, (System.moment?_eq_some found).1] at emits
      rw [last]
      exact ⟨none, emits.build some⟩
    · cases frame.symm.trans forks
  -- a frame that attaches the merge would carry callbacks, and no old frame does
  have attaching {rest : List ResultId} {index : Nat} (left : rest ≠ []) :
      0 < Frame.watches m index (.attach m rest index : Frame V κ) := by
    simp [Frame.watches, List.length_pos_iff.mpr left]
  refine ⟨⟨?_, own, ?_⟩, ?_, ?_, ?_, ?_⟩
  · refine ⟨_, _, last ▸ touches.made, rfl, .inl rfl⟩
  · intro r x there task member
    refine Task.at_of_watching (fun i => ?_) member
    have stored := touches.watches m i
    simp only [Store.subject?, Frame.subject?, Option.bind_none, Option.elim_none,
      Nat.add_zero] at stored
    have none : e.store.watches m i = 0 := by
      rw [stored]
      exact Nat.eq_zero_of_add_eq_zero_left (unwatched i)
    simp only [Store.watches, List.sum_eq_zero_iff_forall_eq_nat, List.mem_map,
      forall_exists_index, and_imp, forall_apply_eq_imp_iff₂] at none
    exact none x (List.mem_of_getElem? there)
  · refine System.Each.after (fun thread member f included => ?_) found ?_ (by simp)
    · exact Frame.placed (zero member included)
    · intro f included
      rw [frames, List.mem_singleton] at included
      subst included
      exact fun _ _ => rfl
  · refine System.threads_after ?_ ?_ fun c _ => Thread.tidy_ofCall c
    · refine ⟨?_, ?_, ?_⟩
      · rw [frames]
        exact (tidy _ selected).tail
      · intro p panicked
        cases result.symm.trans panicked
      · intro _ above rest index below' left same
        rw [frames] at same
        cases above with
        | nil => exact ⟨⟨_, result⟩, .inl rfl⟩
        | cons f above =>
          have included : .attach m rest index ∈ μ.below := by
            have tail : μ.below = above ++ .attach m rest index :: below' := (List.cons.inj same).2
            simp [tail]
          exact absurd (below included index) (Nat.ne_of_gt (attaching left))
    · intro thread member
      refine ⟨(tidy thread member).tail, (tidy thread member).answered, ?_⟩
      intro _ above rest index below' left same
      exact absurd (zero member (by simp [same]) index) (Nat.ne_of_gt (attaching left))
  · refine System.threads_after ?_ ?_ fun c _ i o below' same => by cases same
    · intro i o below' same
      rw [frames] at same
      cases same
    · intro thread member i o below' same
      exact absurd (zero member (f := .commit m i) (by simp [same]) i) (by simp [Frame.watches])
  · intro values same i r position
    have bound := (List.getElem?_eq_some_iff.mp position).1
    have initial : values = List.replicate sources.length none := by
      rw [Progress.start, if_neg (by simpa using some)] at same
      exact (Progress.gathering.inj same).symm
    have weighed := System.weight_after (Frame.watches m i) e [] found
    have stored := touches.watches m i
    have before := unwatched i
    have one : Frame.watches m i (.attach m sources 0 : Frame V κ) = 1 := by
      simp [Frame.watches, bound]
    have carried : Frame.watches m i μ.frame = 0 := by rw [frame]; rfl
    simp only [Store.subject?, Frame.subject?, Option.bind_none, Option.elim_none,
      Nat.add_zero] at stored
    rw [frames, carried] at weighed
    simp only [load_cons, load_nil, one, List.map_nil] at weighed
    have nothing : arrived values i = 0 := by simp [arrived, initial, bound]
    simp only [System.watches] at before ⊢
    have same : (s₀.after t μ.below e []).store = e.store := rfl
    rw [nothing, same]
    exact ⟨by omega, .inr (by omega)⟩

theorem Run.watched {merger : Merger V κ} {p : Progress V}
    (run : Run client (Call.Blind m) s h s₁) (some : sources ≠ []) (sound : s.Sound)
    (orderly : s.Orderly) (shows : s.store.Shows m merger sources p)
    (watched : s.Watched m sources p) :
    s₁.Watched m sources (p.run merger (h.filterMap (Moment.event? m))) := by
  induction run with
  | start => exact watched
  | @step h s₁ s₂ t μ run found step blind ih =>
    obtain ⟨μ', e, calls, moment, yields, rfl⟩ := System.step_yields step
    cases found.symm.trans moment
    have fair : Run client Call.Fair s h s₁ := run.mono fun _ _ => And.left
    rw [filterMap_concat, Progress.run_append]
    exact ih.step some (fair.sound sound) (fair.orderly sound orderly) found yields blind
      (fair.shows sound orderly shows)
  | @begin h s₁ c _ blind ih =>
    refine ⟨ih.hosts, ih.placed.begin (Call.placed blind.2),
      System.threads_begin ih.tidy (Thread.tidy_ofCall c),
      System.threads_begin ih.speaks (fun i o below same => by cases same), ?_⟩
    intro values same i r position
    have counted := ih.counted values same i r position
    have none : Frame.watches m i (.call c : Frame V κ) = 0 := blind.2 i
    simp only [System.watches, System.weight_begin, none, Nat.add_zero]
    exact counted
  | @pass h s₁ now _ _ ih =>
    have later : s₁.store.Later (s₁.pass now).store := Store.later_of_results rfl
    refine ⟨⟨ih.hosts.record, ih.hosts.own, ih.hosts.queued⟩,
      ih.placed.mono fun _ => later.placed, ih.tidy, ?_, ih.counted⟩
    intro thread member i o below same answered
    obtain ⟨r, position, gives⟩ := ih.speaks thread member i o below same answered
    exact ⟨r, position, later.gives gives⟩

end

end Quorate
