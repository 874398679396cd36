import Quorate.Proofs.System.Completion

/-! What a latch has counted. In every run the acknowledgements that it got and the failure that it
was given, if any, decide how it stands. -/

set_option autoImplicit false

namespace Quorate

variable {V κ σ : Type}

namespace Moment

/-- Whether a pending result gets an acknowledgement in this step. -/
def acknowledges (r : ResultId) (μ : Moment V κ σ) : Bool :=
  match μ.result, μ.frame with
  | .ok _, .call (.countDown r') =>
    r' = r && (μ.store.results[r]?).any fun x => x.cell.state.isPending
  | _, _ => false

/-- The failure that a pending result is given in this step. -/
def fails? (r : ResultId) (μ : Moment V κ σ) : Option Error :=
  match μ.result, μ.frame with
  | .ok _, .call (.complete r' (.failed e)) =>
    if r' = r ∧ (μ.store.results[r]?).any fun x => x.cell.state.isPending then some e else none
  | _, _ => none

/-- Whether a latch for `count` acknowledgements is made in this step. -/
def Starts (r : ResultId) (count : Nat) (value : V) (μ : Moment V κ σ) : Prop :=
  (∃ a, μ.result = .ok a) ∧ μ.frame = .call (.create (.latch count value)) ∧
    μ.store.results.length = r

variable {r : ResultId} {μ : Moment V κ σ}

theorem starts_last {h : List (Moment V κ σ)} {count : Nat} {value : V}
    (made : ∃ μ' ∈ h ++ [μ], μ'.Starts r count value)
    (earlier : ¬ ∃ μ' ∈ h, μ'.Starts r count value) : μ.Starts r count value := by
  simp only [List.mem_append, List.mem_singleton, or_and_right, exists_or, exists_eq_left] at made
  exact made.resolve_left earlier

theorem acknowledges_missing (missing : μ.store.results[r]? = none) : μ.acknowledges r = false := by
  unfold acknowledges
  split <;> simp [missing]

theorem fails?_missing (missing : μ.store.results[r]? = none) : μ.fails? r = none := by
  unfold fails?
  split <;> simp [missing]

theorem acknowledges_iff {x : Result V κ} (there : μ.store.results[r]? = some x) :
    μ.acknowledges r = true ↔ (∃ a, μ.result = .ok a) ∧ μ.frame = .call (.countDown r) ∧
      x.cell.state.isPending = true := by
  unfold acknowledges
  split
  next a r' result frame =>
    simp only [result, frame, there, Option.any_some, Bool.and_eq_true, decide_eq_true_eq,
      Except.ok.injEq, exists_eq', true_and, Frame.call.injEq, Call.countDown.injEq]
  next other =>
    simp only [Bool.false_eq_true, false_iff]
    rintro ⟨⟨a, result⟩, frame, -⟩
    exact other a r result frame

/-- Only calls that can end a result count for it. -/
theorem acknowledges_other (other : ∀ a, μ.result = .ok a → ¬ μ.frame.Ending r) :
    μ.acknowledges r = false := by
  unfold acknowledges
  split
  next a r' result frame =>
    have apart := other a result
    rw [frame] at apart
    have other : ¬ r' = r := apart
    simp [other]
  next => rfl

theorem fails?_other (other : ∀ a, μ.result = .ok a → ¬ μ.frame.Ending r) : μ.fails? r = none := by
  unfold fails?
  split
  next a r' e result frame =>
    have apart := other a result
    rw [frame] at apart
    have other : ¬ r' = r := apart
    simp [other]
  next => rfl

end Moment

/-- The number of acknowledgements that a result got while it was pending. -/
def acknowledged (r : ResultId) (h : List (Moment V κ σ)) : Nat := h.countP (Moment.acknowledges r)

/-- The failures that a result was given while it was pending. -/
def failures (r : ResultId) (h : List (Moment V κ σ)) : List Error :=
  h.filterMap (Moment.fails? r)

theorem acknowledged_concat (r : ResultId) (h : List (Moment V κ σ)) (μ : Moment V κ σ) :
    acknowledged r (h ++ [μ]) = acknowledged r h + if μ.acknowledges r then 1 else 0 := by
  simp [acknowledged, List.countP_singleton]

theorem failures_concat (r : ResultId) (h : List (Moment V κ σ)) (μ : Moment V κ σ) :
    failures r (h ++ [μ]) = failures r h ++ (μ.fails? r).toList :=
  filterMap_concat _ h μ

theorem acknowledged_append (r : ResultId) (h h' : List (Moment V κ σ)) :
    acknowledged r (h ++ h') = acknowledged r h + acknowledged r h' :=
  List.countP_append

theorem failures_append (r : ResultId) (h h' : List (Moment V κ σ)) :
    failures r (h ++ h') = failures r h ++ failures r h' :=
  List.filterMap_append

namespace Latch

variable {T : Type} {c : Cell V T}

theorem acknowledge_late (l : Latch V) (terminal : c.state.isPending = false) :
    l.acknowledge c = .late := by
  simp [acknowledge, terminal]

theorem acknowledge_counted {missing : Nat} {value : Option V} (pending : c.state.isPending = true)
    (more : 1 < missing) :
    (Latch.mk missing value).acknowledge c = .counted ⟨missing - 1, value⟩ := by
  have left : 0 < missing - 1 := by omega
  simp [acknowledge, pending, left]

theorem acknowledge_full {missing : Nat} {v : V} (pending : c.state.isPending = true)
    (last : missing ≤ 1) :
    (Latch.mk missing (some v)).acknowledge c =
      .last ⟨.succeeded v, [], true, c.notified⟩ ⟨0, none⟩ c.queue := by
  have none : missing - 1 = 0 := by omega
  simp [acknowledge, pending, none, Cell.transition]

/-- A latch without a value never ends. -/
theorem acknowledge_empty {missing : Nat} (pending : c.state.isPending = true) :
    (Latch.mk missing (none : Option V)).acknowledge c = .counted ⟨missing - 1, none⟩ := by
  simp only [acknowledge, pending, if_true]
  split <;> rfl

end Latch

/-- How a latch stands that was made for `count` acknowledgements, by the number of those it got
and the failures it was given. -/
inductive Result.Tally (count : Nat) (value : V) : Nat → List Error → Result V κ → Prop where
  | waiting {k missing : Nat} {cell : Cell V (Task κ)} : cell.state = .pending → missing ≠ 0 →
      k + missing = count → Tally count value k [] ⟨cell, .latch ⟨missing, some value⟩⟩
  | full {cell : Cell V (Task κ)} : cell.state = .succeeded value →
      Tally count value count [] ⟨cell, .latch ⟨0, none⟩⟩
  /-- It keeps its value, and never gives it away. -/
  | failed {k missing : Nat} {e : Error} {cell : Cell V (Task κ)} : cell.state = .failed e →
      missing ≠ 0 → k + missing = count →
      Tally count value k [e] ⟨cell, .latch ⟨missing, some value⟩⟩

/-- Of the steps that are about a result of a producer, only calls that can end it change its state
or what it counts. -/
theorem Result.Direct.touch_other {x : Result V κ} {result : Return V} {frame : Frame V κ}
    {r : ResultId} (direct : x.Direct) (about : frame.subject? = some r)
    (other : ∀ a, result = .ok a → ¬ frame.Ending r) :
    (x.touch result frame).kind = x.kind ∧ (x.touch result frame).cell.state = x.cell.state := by
  obtain ⟨cell, kind⟩ := x
  have own := direct.own
  unfold touch
  split
  next => cases about; exact absurd rfl (other _ rfl)
  next => cases about; exact absurd rfl (other _ rfl)
  next => cases about; exact absurd rfl (other _ rfl)
  next =>
    unfold register
    split
    next => exact ⟨rfl, rfl⟩
    next =>
      split
      next => exact ⟨rfl, rfl⟩
      next cell' queued =>
        obtain ⟨-, rfl⟩ := (Cell.enqueue_eq_some_iff _ _ _).mp queued
        exact ⟨rfl, rfl⟩
  next => simp [claim, own]
  next => exact ⟨rfl, rfl⟩
  next => cases kind <;> first | exact ⟨rfl, rfl⟩ | exact direct.elim
  next result _ =>
    unfold mergerEnded
    cases kind <;> first | exact direct.elim | skip
    all_goals split <;> exact ⟨rfl, rfl⟩
  next => exact ⟨rfl, rfl⟩

namespace Result.Tally

variable {count k : Nat} {value : V} {es : List Error} {x : Result V κ}

theorem start (count : Nat) (value : V) :
    (Seed.result (.latch count value) : Result V κ).Tally count value 0 [] := by
  by_cases none : count = 0
  · subst none
    exact .full rfl
  · simp only [Seed.result, Latch.start, none, if_false]
    exact .waiting rfl none (Nat.zero_add count)

/-- A latch stands as before if its cell keeps its state. -/
theorem of_state (tally : x.Tally count value k es) {x' : Result V κ} (kind : x'.kind = x.kind)
    (state : x'.cell.state = x.cell.state) : x'.Tally count value k es := by
  obtain ⟨cell', kind'⟩ := x'
  cases tally with
  | waiting pending some sum => cases kind; exact .waiting (state.trans pending) some sum
  | full succeeded => cases kind; exact .full (state.trans succeeded)
  | failed failed some sum => cases kind; exact .failed (state.trans failed) some sum

theorem countDown (tally : x.Tally count value k es) :
    x.countDown.Tally count value (k + if x.cell.state.isPending then 1 else 0) es := by
  cases tally with
  | @waiting k missing cell pending some sum =>
    have live : cell.state.isPending = true := by rw [pending]; rfl
    simp only [live, if_true]
    rcases Nat.lt_or_ge 1 missing with more | last
    · simp only [Result.countDown, Latch.acknowledge_counted live more]
      exact .waiting pending (by omega) (by omega)
    · obtain rfl : missing = 1 := by omega
      subst sum
      simp only [Result.countDown, Latch.acknowledge_full live (Nat.le_refl 1)]
      exact .full rfl
  | @full cell succeeded =>
    have ended : cell.state.isPending = false := by rw [succeeded]; rfl
    simp only [Result.countDown, Latch.acknowledge_late _ ended, ended]
    exact .full succeeded
  | @failed k missing e cell failed some sum =>
    have ended : cell.state.isPending = false := by rw [failed]; rfl
    simp only [Result.countDown, Latch.acknowledge_late _ ended, ended]
    exact .failed failed some sum

theorem fail (tally : x.Tally count value k es) (e : Error) :
    (x.complete (.failed e)).Tally count value k
      (es ++ if x.cell.state.isPending then [e] else []) := by
  cases tally with
  | @waiting k missing cell pending some sum =>
    have live : cell.state.isPending = true := by rw [pending]; rfl
    simp only [Result.complete, Cell.transition, live, if_true]
    exact .failed rfl some sum
  | @full cell succeeded =>
    have ended : cell.state.isPending = false := by rw [succeeded]; rfl
    simp only [Result.complete, Cell.transition, ended]
    exact .full succeeded
  | @failed k missing e cell failed some sum =>
    have ended : cell.state.isPending = false := by rw [failed]; rfl
    simp only [Result.complete, Cell.transition, ended]
    exact .failed failed some sum

/-- What a latch was told decides how it stands. -/
theorem unique {x' : Result V κ} (tally : x.Tally count value k es)
    (tally' : x'.Tally count value k es) :
    x'.kind = x.kind ∧ x'.cell.state = x.cell.state := by
  cases tally with
  | waiting pending some sum =>
    cases tally' with
    | waiting pending' some' sum' =>
      obtain rfl := Nat.add_left_cancel (sum'.trans sum.symm)
      exact ⟨rfl, pending'.trans pending.symm⟩
    | full => omega
  | full succeeded =>
    cases tally' with
    | waiting _ some sum => omega
    | full succeeded' => exact ⟨rfl, succeeded'.trans succeeded.symm⟩
  | failed failed some sum =>
    cases tally' with
    | failed failed' some' sum' =>
      obtain rfl := Nat.add_left_cancel (sum'.trans sum.symm)
      exact ⟨rfl, failed'.trans failed.symm⟩

theorem kind (tally : x.Tally count value k es) : ∃ l, x.kind = .latch l := by
  cases tally <;> exact ⟨_, rfl⟩

theorem direct (tally : x.Tally count value k es) : x.Direct := by
  cases tally <;> trivial

/-- An account in terms of the number of acknowledgements that are missing. -/
theorem stands (tally : x.Tally count value k es) :
    ∃ missing, x.remaining? = some missing ∧ missing + k = count ∧
      (x.cell.state = .pending ∧ 1 ≤ missing ∧ es = [] ∨
        x.cell.state = .succeeded value ∧ missing = 0 ∧ es = [] ∨
        ∃ e, x.cell.state = .failed e ∧ 1 ≤ missing ∧ es = [e]) := by
  cases tally with
  | @waiting k missing _ pending some sum =>
    exact ⟨missing, rfl, by omega, .inl ⟨pending, by omega, rfl⟩⟩
  | full succeeded => exact ⟨0, rfl, Nat.zero_add count, .inr (.inl ⟨succeeded, rfl, rfl⟩)⟩
  | @failed k missing e _ failed some sum =>
    exact ⟨missing, rfl, by omega, .inr (.inr ⟨e, failed, by omega, rfl⟩)⟩

theorem full_iff (tally : x.Tally count value k es) :
    x.cell.state = .succeeded value ↔ k = count := by
  obtain ⟨missing, -, sum, stands⟩ := tally.stands
  rcases stands with ⟨state, some, -⟩ | ⟨state, none, -⟩ | ⟨e, state, some, -⟩
  · simp only [state, reduceCtorEq, false_iff]
    omega
  · simp only [state, true_iff]
    omega
  · simp only [state, reduceCtorEq, false_iff]
    omega

/-- A step of a producer is counted; every other step leaves the account of a latch alone. -/
theorem touch {μ : Moment V κ σ} {r : ResultId} (tally : x.Tally count value k es)
    (about : μ.frame.subject? = some r) (there : μ.store.results[r]? = some x)
    (sound : μ.frame.Sound μ.store) :
    (x.touch μ.result μ.frame).Tally count value (k + if μ.acknowledges r then 1 else 0)
      (es ++ (μ.fails? r).toList) := by
  obtain ⟨store, t, result, frame, below⟩ := μ
  have still (other : ∀ a, result = .ok a → ¬ frame.Ending r) :
      (x.touch result frame).Tally count value
        (k + if Moment.acknowledges r ⟨store, t, result, frame, below⟩ then 1 else 0)
        (es ++ (Moment.fails? r ⟨store, t, result, frame, below⟩).toList) := by
    obtain ⟨kind, state⟩ := tally.direct.touch_other about other
    rw [Moment.acknowledges_other other, Moment.fails?_other other]
    simpa using tally.of_state kind state
  cases result with
  | error p => exact still nofun
  | ok a =>
    by_cases ending : frame.Ending r
    · obtain ⟨l, kind⟩ := tally.kind
      unfold Frame.Ending at ending
      split at ending
      next r' state =>
        subst ending
        -- a latch is completed by nothing but a failure
        obtain ⟨e, rfl⟩ : ∃ e, state = .failed e := by
          rcases sound with ⟨x', found, takes⟩ | ⟨⟨cell, m, found, -⟩, -⟩
          · cases there.symm.trans found
            simpa [Result.Takes, kind] using takes
          · cases there.symm.trans found
            cases kind
        have failed := tally.fail e
        cases pending : x.cell.state.isPending <;>
          simpa [Result.touch, Moment.acknowledges, Moment.fails?, there, pending] using failed
      next r' =>
        subst ending
        simpa [Result.touch, Moment.acknowledges, Moment.fails?, there] using tally.countDown
      next r' =>
        have same : x.cancel = x := by simp [Result.cancel, kind]
        simpa [Result.touch, same, Moment.acknowledges, Moment.fails?] using tally
      next => exact ending.elim
    · exact still fun _ _ => ending

end Result.Tally

section

variable {client : Client V κ σ} {rule : Store V κ σ → Call V κ → Prop} {memory : σ}
  {s s₁ : System V κ σ} {h : List (Moment V κ σ)} {r : ResultId} {x : Result V κ} {count : Nat}
  {value : V}

/-- Nothing was counted for a result before it was there. -/
theorem Run.unheard (run : Run client rule s h s₁) (missing : s₁.store.results[r]? = none) :
    acknowledged r h = 0 ∧ failures r h = [] := by
  have absent (μ : Moment V κ σ) (member : μ ∈ h) : μ.store.results[r]? = none := by
    cases found : μ.store.results[r]? with
    | none => rfl
    | some x =>
      obtain ⟨x', there, -⟩ := run.moment_later member r x found
      cases missing.symm.trans there
  constructor
  · exact List.countP_eq_zero.mpr fun μ member => by
      simp [Moment.acknowledges_missing (absent μ member)]
  · exact List.filterMap_eq_nil_iff.mpr fun μ member => Moment.fails?_missing (absent μ member)

/-- Nothing is counted for a result that has ended. -/
theorem Run.unaccepted (run : Run client rule s h s₁) (there : s.store.results[r]? = some x)
    (terminal : x.cell.state.isPending = false) : acknowledged r h = 0 ∧ failures r h = [] := by
  have ended (μ : Moment V κ σ) (member : μ ∈ h) :
      ((μ.store.results[r]?).any fun x => x.cell.state.isPending) = false := by
    obtain ⟨before, later, rfl⟩ := List.append_of_mem member
    obtain ⟨s₂, t, s₃, run, found, -, -⟩ := run.split
    obtain ⟨x', there', later⟩ := run.store_later r x there
    rw [(System.moment?_eq_some found).1, there', Option.any_some, later.state terminal, terminal]
  constructor
  · refine List.countP_eq_zero.mpr fun μ member => ?_
    unfold Moment.acknowledges
    split <;> simp [ended μ member]
  · refine List.filterMap_eq_nil_iff.mpr fun μ member => ?_
    unfold Moment.fails?
    split <;> simp [ended μ member]

/-- The run lemma: a latch stands as its producers' calls have left it. -/
theorem Run.tallied (run : Run client Call.Fair ⟨.empty memory, []⟩ h s)
    (made : ∃ μ ∈ h, μ.Starts r count value) :
    ∃ x, s.store.results[r]? = some x ∧
      x.Tally count value (acknowledged r h) (failures r h) := by
  induction run with
  | start => simp at made
  | @step h s₁ s₂ t μ run found step fair ih =>
    obtain ⟨μ', e, calls, moment, yields, rfl⟩ := System.step_yields step
    cases found.symm.trans moment
    have store := (System.moment?_eq_some found).1
    have touches := yields.touches
    rw [acknowledged_concat, failures_concat]
    by_cases earlier : ∃ μ ∈ h, μ.Starts r count value
    · obtain ⟨x, there, tally⟩ := ih earlier
      rw [← store] at there
      refine ⟨_, touches.there r x there, ?_⟩
      have sound := run.sound (System.sound_empty memory)
      by_cases about : μ.frame.subject? = some r
      · rw [if_pos about]
        exact tally.touch about there (store ▸ (sound.frames.moment found).1)
      · rw [if_neg about]
        have other (a : Answer V) (_ : μ.result = .ok a) : ¬ μ.frame.Ending r :=
          fun ending => about ending.subject
        rw [Moment.acknowledges_other other, Moment.fails?_other other]
        simpa using tally
    · -- the latch is made in this very step
      obtain ⟨⟨a, result⟩, frame, rfl⟩ := Moment.starts_last made earlier
      have missing : s₁.store.results[μ.store.results.length]? = none := by
        rw [store]
        exact List.getElem?_eq_none (Nat.le_refl _)
      obtain ⟨unheard, unfailed⟩ := run.unheard missing
      have there := touches.made
      rw [result, frame] at there
      rw [← store] at missing
      rw [unheard, unfailed, Moment.acknowledges_missing missing, Moment.fails?_missing missing]
      exact ⟨_, there, .start count value⟩
  | begin c _ _ ih => exact ih made
  | pass now _ _ ih => exact ih made

/-- Whoever brought a latch to its value was the last one that it waited for. -/
theorem Run.completed (run : Run client Call.Fair ⟨.empty memory, []⟩ h s)
    (made : ∃ μ ∈ h, μ.Starts r count value) (there : s.store.results[r]? = some x)
    (succeeded : x.cell.state = .succeeded value) (positive : 1 ≤ count) :
    ∃ before μ later, h = before ++ μ :: later ∧ μ.acknowledges r = true ∧
      acknowledged r before + 1 = count ∧ μ.settled? r = some (.succeeded value) := by
  induction run generalizing x with
  | start => simp at made
  | @step h s₁ s₂ t μ run found step fair ih =>
    have next := (run.step found step fair).tallied made
    obtain ⟨μ', e, calls, moment, yields, rfl⟩ := System.step_yields step
    cases found.symm.trans moment
    have store := (System.moment?_eq_some found).1
    have touches := yields.touches
    by_cases earlier : ∃ μ ∈ h, μ.Starts r count value
    · obtain ⟨x₁, there₁, tally₁⟩ := run.tallied earlier
      by_cases before : x₁.cell.state = .succeeded value
      · obtain ⟨first, ν, later, rfl, rest⟩ := ih earlier there₁ before
        exact ⟨first, ν, later ++ [μ], by simp, rest⟩
      · -- the latch was still open, so this step ends it
        obtain ⟨x', there', tally⟩ := next
        cases there.symm.trans there'
        rw [acknowledged_concat] at tally
        have all := tally.full_iff.mp succeeded
        have few := mt tally₁.full_iff.mpr before
        have heard : μ.acknowledges r = true := by
          apply Classical.byContradiction
          intro unheard
          simp [unheard] at all
          exact few all
        rw [if_pos heard] at all
        refine ⟨h, μ, [], rfl, heard, all, ?_⟩
        rw [← store] at there₁
        obtain ⟨-, frame, pending⟩ := (Moment.acknowledges_iff there₁).mp heard
        have about : μ.frame.subject? = some r := by rw [frame]; rfl
        have moved := touches.there r x₁ there₁
        rw [if_pos about] at moved
        cases there.symm.trans moved
        rw [Moment.settled?_about about there₁, succeeded, pending]
        rfl
    · -- a latch that waits for something is pending when it is made
      obtain ⟨⟨a, result⟩, frame, rfl⟩ := Moment.starts_last made earlier
      have new := touches.made
      rw [result, frame] at new
      cases there.symm.trans new
      have full := (Result.Tally.start (κ := κ) count value).full_iff.mp succeeded
      omega
  | begin c _ _ ih => exact ih made there succeeded
  | pass now _ _ ih => exact ih made there succeeded

end

end Quorate
