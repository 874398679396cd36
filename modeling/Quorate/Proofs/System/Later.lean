import Quorate.Proofs.Merge.Arrival
import Quorate.Proofs.System.Touch

/-! What no step undoes. A result keeps its kind, a terminal state is never left, a merge keeps its
size and its merger, and it holds either the sources it had or none. -/

set_option autoImplicit false

namespace Quorate

variable {V κ σ : Type}

theorem Latch.acknowledge_last {T : Type} {c cell : Cell V T} {l latch : Latch V} {tasks : List T}
    (ack : l.acknowledge c = .last cell latch tasks) :
    c.state.isPending = true ∧ ∃ v, cell = ⟨.succeeded v, [], true, c.notified⟩ ∧
      tasks = c.queue := by
  unfold acknowledge at ack
  split at ack
  next pending =>
    refine ⟨pending, ?_⟩
    simp only at ack
    split at ack
    next => cases ack
    next =>
      split at ack
      next => cases ack
      next v _ =>
        split at ack
        next => cases ack
        next cell' tasks' some =>
          obtain ⟨-, rfl, rfl⟩ := (Cell.transition_eq_some_iff _ _ _ _).mp some
          cases ack
          exact ⟨v, rfl, rfl⟩
  next => cases ack

/-- What a kind can turn into. -/
def Kind.Later : Kind V κ → Kind V κ → Prop
  | .settable, .settable => True
  | .latch _, .latch _ => True
  | .merge m, .merge m' => m'.size = m.size ∧ m'.merger = m.merger ∧
      (m'.gathering.sources = m.gathering.sources ∨ m'.gathering.sources = [])
  | .foreign _ _, .foreign _ _ => True
  | _, _ => False

theorem Kind.Later.refl (k : Kind V κ) : k.Later k := by
  cases k <;> simp [Later]

theorem Kind.Later.trans {k k₁ k₂ : Kind V κ} (first : k.Later k₁) (next : k₁.Later k₂) :
    k.Later k₂ := by
  cases k <;> cases k₁ <;> cases k₂ <;> simp only [Later] at first next ⊢
  obtain ⟨size, merger, sources⟩ := first
  obtain ⟨size', merger', sources'⟩ := next
  refine ⟨size'.trans size, merger'.trans merger, ?_⟩
  rcases sources' with same | released
  · rw [same]; exact sources
  · exact .inr released

structure Result.Later (x x' : Result V κ) : Prop where
  kind : x.kind.Later x'.kind
  state : x.cell.state.isPending = false → x'.cell.state = x.cell.state
  told : x.cell.notified = true → x'.cell.notified = true

namespace Result

variable {x : Result V κ}

theorem Later.refl (x : Result V κ) : x.Later x := ⟨.refl _, fun _ => rfl, id⟩

theorem Later.trans {x₁ x₂ : Result V κ} (first : x.Later x₁) (next : x₁.Later x₂) :
    x.Later x₂ := by
  refine ⟨first.kind.trans next.kind, fun terminal => ?_, next.told ∘ first.told⟩
  rw [next.state (by rw [first.state terminal]; exact terminal), first.state terminal]

theorem later_of_transition {x' : Result V κ} {state : State V} {tasks : List (Task κ)}
    (transition : x.cell.transition state = some (x'.cell, tasks)) (kind : x.kind.Later x'.kind) :
    x.Later x' := by
  obtain ⟨pending, same, -⟩ := (Cell.transition_eq_some_iff _ _ _ _).mp transition
  exact ⟨kind, by simp [pending], by simp [same]⟩

theorem complete_later (state : State V) : x.Later (x.complete state) := by
  unfold complete
  split
  next => exact .refl x
  next cell tasks same =>
    exact later_of_transition same (.refl _)

theorem merged_later {cell : Cell V (Task κ)} {m m' : Merge V κ} (o : Outcome V)
    (kind : (Kind.merge m).Later (.merge m')) :
    (Result.mk cell (.merge m)).Later ((Result.mk cell (.merge m)).merged m' o) := by
  unfold merged
  split
  next => exact .refl _
  next cell' tasks same =>
    exact later_of_transition same kind

theorem countDown_later : x.Later x.countDown := by
  obtain ⟨cell, kind⟩ := x
  cases kind with
  | latch latch =>
    simp only [countDown]
    split
    next => exact .refl _
    next latch' ack => exact ⟨trivial, fun _ => rfl, id⟩
    next cell' latch' tasks ack =>
      obtain ⟨pending, v, rfl, rfl⟩ := Latch.acknowledge_last ack
      exact ⟨trivial, by simp [pending], id⟩
  | _ => exact .refl _

theorem cancel_later : x.Later x.cancel := by
  obtain ⟨cell, kind⟩ := x
  cases kind with
  | settable => exact complete_later _
  | merge m =>
    simp only [cancel]
    split
    next => exact .refl _
    next cell' tasks same =>
      exact later_of_transition same ⟨rfl, rfl, .inr rfl⟩
  | _ => exact .refl _

theorem register_later (task : Task κ) : x.Later (x.register task) := by
  unfold register
  split
  next => exact .refl x
  next =>
    split
    next => exact .refl x
    next cell same =>
      obtain ⟨-, rfl⟩ := (Cell.enqueue_eq_some_iff _ _ _).mp same
      exact ⟨.refl _, fun _ => rfl, id⟩

theorem claim_later (done cancelled : Bool) : x.Later (x.claim done cancelled) := by
  obtain ⟨cell, kind⟩ := x
  cases kind with
  | foreign d c => exact ⟨trivial, fun _ => rfl, id⟩
  | _ => exact .refl _

theorem commit_later (index : Nat) (o : Outcome V) : x.Later (x.commit index o) := by
  obtain ⟨cell, kind⟩ := x
  cases kind with
  | merge m =>
    simp only [commit]
    split
    next => exact .refl _
    next => exact .refl _
    next => exact .refl _
    next gathering arrival =>
      obtain ⟨v, completed, -, -, -, rfl⟩ := Gathering.arrive_recorded arrival
      exact ⟨⟨rfl, rfl, .inl rfl⟩, fun _ => rfl, id⟩
    next cell' gathering tasks arrival =>
      have pending : cell.state.isPending = true := Gathering.pending_of_arrive arrival (by simp)
      obtain ⟨e, -, rfl, rfl, -⟩ := Gathering.arrive_failed arrival
      exact ⟨⟨rfl, rfl, .inr rfl⟩, by simp [pending], id⟩
    next values gathering arrival =>
      obtain ⟨v, completed, -, -, -, -, rfl⟩ := Gathering.arrive_complete arrival
      split
      next f merger =>
        split
        next => exact ⟨⟨rfl, rfl, .inr rfl⟩, fun _ => rfl, id⟩
        next o' _ => exact merged_later o' ⟨rfl, rfl, .inr rfl⟩
      next => exact ⟨⟨rfl, rfl, .inr rfl⟩, fun _ => rfl, id⟩
  | _ => exact .refl _

theorem mergerEnded_later (result : Return V) : x.Later (x.mergerEnded result) := by
  obtain ⟨cell, kind⟩ := x
  cases result with
  | ok a =>
    cases a with
    | outcome o =>
      cases kind with
      | merge m => exact merged_later o (.refl _)
      | _ => exact .refl _
    | _ => exact .refl _
  | error p =>
    cases kind with
    | merge m => exact ⟨⟨rfl, rfl, .inl rfl⟩, fun _ => rfl, id⟩
    | _ => exact .refl _

theorem touch_later (result : Return V) (frame : Frame V κ) : x.Later (x.touch result frame) := by
  unfold touch
  split
  next => exact complete_later _
  next => exact countDown_later
  next => exact cancel_later
  next => exact register_later _
  next => exact claim_later _ _
  next => exact ⟨.refl _, fun _ => rfl, fun _ => rfl⟩
  next => exact commit_later _ _
  next => exact mergerEnded_later _
  next => exact .refl x

theorem Later.isForeign {x' : Result V κ} (later : x.Later x') : x'.isForeign = x.isForeign := by
  obtain ⟨cell, kind⟩ := x
  obtain ⟨cell', kind'⟩ := x'
  have kinds := later.kind
  cases kind <;> cases kind' <;> first | rfl | exact kinds.elim

theorem Later.state_of_ne {x' : Result V κ} (later : x.Later x') (ended : x.cell.state ≠ .pending) :
    x'.cell.state = x.cell.state :=
  later.state ((State.isPending_eq_false_iff _).mpr ended)

/-- A result of the library is done when it is not pending. -/
theorem isDone_eq (own : x.isForeign = false) : x.isDone = !x.cell.state.isPending := by
  obtain ⟨cell, kind⟩ := x
  cases kind <;> first | rfl | cases own

end Result

/-- Every result is still there, at most later than it was. -/
def Store.Later (s s' : Store V κ σ) : Prop :=
  ∀ (r : ResultId) (x : Result V κ), s.results[r]? = some x →
    ∃ x', s'.results[r]? = some x' ∧ x.Later x'

namespace Store

variable {client : Client V κ σ} {s s₁ s₂ : Store V κ σ} {e : Effect V κ σ}

theorem Later.refl (s : Store V κ σ) : s.Later s := fun _ x found => ⟨x, found, .refl x⟩

theorem later_of_results (same : s₁.results = s.results) : s.Later s₁ := by
  intro r x found
  exact ⟨x, same ▸ found, .refl x⟩

theorem Later.trans (first : s.Later s₁) (next : s₁.Later s₂) : s.Later s₂ := by
  intro r x found
  obtain ⟨x₁, found₁, later₁⟩ := first r x found
  obtain ⟨x₂, found₂, later₂⟩ := next r x₁ found₁
  exact ⟨x₂, found₂, later₁.trans later₂⟩

theorem Touches.later {result : Return V} {frame : Frame V κ} (touches : s.Touches result frame e) :
    s.Later e.store := by
  intro r x found
  refine ⟨_, touches.there r x found, ?_⟩
  split
  · exact Result.touch_later _ _
  · exact .refl x

end Store

theorem Moment.Yields.touches {client : Client V κ σ} {μ : Moment V κ σ} {e : Effect V κ σ}
    {calls : List (Call V κ)} (yields : μ.Yields client e calls) :
    μ.store.Touches μ.result μ.frame e := by
  cases yields with
  | resumed effect => exact Store.resume_touches effect
  | forked t answered frame => rw [answered, frame]; exact Store.touches_nothing rfl rfl
  | joined b answered frame => rw [answered, frame]; exact Store.touches_nothing rfl rfl

theorem Run.store_later {client : Client V κ σ} {rule : Store V κ σ → Call V κ → Prop}
    {s s₁ : System V κ σ} {h : List (Moment V κ σ)} (run : Run client rule s h s₁) :
    s.store.Later s₁.store := by
  induction run with
  | start => exact .refl _
  | step _ found step _ ih =>
    obtain ⟨μ, e, calls, moment, yields, rfl⟩ := System.step_yields step
    have touches := yields.touches
    rw [(System.moment?_eq_some moment).1] at touches
    exact ih.trans touches.later
  | begin _ _ _ ih => exact ih
  | pass _ _ _ ih => exact ih

/-- What was there at a moment of a run is still there, at most later. -/
theorem Run.moment_later {client : Client V κ σ} {rule : Store V κ σ → Call V κ → Prop}
    {s s₁ : System V κ σ} {h : List (Moment V κ σ)} {μ : Moment V κ σ}
    (run : Run client rule s h s₁) (member : μ ∈ h) : μ.store.Later s₁.store := by
  obtain ⟨before, later, rfl⟩ := List.append_of_mem member
  obtain ⟨s₂, t, s₃, -, found, step, rest⟩ := run.split
  obtain ⟨μ', e, calls, moment, yields, rfl⟩ := System.step_yields step
  cases found.symm.trans moment
  exact yields.touches.later.trans rest.store_later

end Quorate
