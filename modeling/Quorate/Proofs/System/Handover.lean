import Quorate.Proofs.System.Weight

/-! Handing a task to its executor. The call that does it leaves one frame of its own on the stack,
and whatever comes of it stays above the frames below. -/

set_option autoImplicit false

namespace Quorate

variable {V κ σ : Type}

namespace Moment

/-- A step of thread `t` on top of `depth` frames. -/
def at? (t depth : Nat) (μ : Moment V κ σ) : Bool := μ.thread = t && μ.below.length = depth

/-- The task that a step hands over. -/
def hands? (μ : Moment V κ σ) : Option (Task κ) :=
  match μ.result, μ.frame with
  | .ok _, .call (.perform task) => some task
  | _, _ => none

end Moment

/-- A frame that hands over to a result; no frame leaves one at the bottom of what it emits, unless
a callback is performed where it was to be registered. -/
def Frame.Handing : Frame V κ → Prop
  | .call (.cancel _) | .call (.perform _) | .call (.register _ _) => True
  | _ => False

theorem Emits.last {client : Client V κ σ} {s : Store V κ σ} {result result' : Return V}
    {frame : Frame V κ} {frames : List (Frame V κ)}
    (emits : Emits client s result frame result' frames)
    (apart : ∀ r task, frame ≠ .call (.register r task)) :
    ∀ f, frames.getLast? = some f → ¬ f.Handing := by
  intro f last
  have member : f ∈ frames := List.mem_of_getLast? last
  cases emits with
  | passive passive passives =>
    have passive := passives f member
    intro handing
    unfold Frame.Passive at passive
    unfold Frame.Handing at handing
    split at handing <;> simp_all
  | performs => exact absurd rfl (apart _ _)
  | opens form =>
    rcases form with ⟨g, p, -, -, -, rfl⟩ | ⟨g, o, -, -, -, rfl⟩ | ⟨g, -, -, rfl⟩
    · cases last
    · cases last; exact id
    · cases last; exact id
  | _ => first | cases last; exact id | cases last

theorem Moment.Yields.last {client : Client V κ σ} {μ : Moment V κ σ} {e : Effect V κ σ}
    {calls : List (Call V κ)} (yields : μ.Yields client e calls)
    (apart : ∀ r task, μ.frame ≠ .call (.register r task)) :
    ∀ f, e.frames.getLast? = some f → ¬ f.Handing := by
  rcases yields.emits with ⟨-, emits⟩ | ⟨a, b, c, -, -, -, none, -⟩
  · exact emits.last apart
  · simp [none]

/-- What stands above a frame after a step further up. -/
theorem last_above {client : Client V κ σ} {μ : Moment V κ σ} {e : Effect V κ σ}
    {calls : List (Call V κ)} {above : List (Frame V κ)} (yields : μ.Yields client e calls)
    (last : ∀ f, (μ.frame :: above).getLast? = some f → ¬ f.Handing) :
    ∀ f, (e.frames ++ above).getLast? = some f → ¬ f.Handing := by
  cases above with
  | nil =>
    rw [List.append_nil]
    refine yields.last fun r task frame => last μ.frame rfl ?_
    rw [frame]
    trivial
  | cons f' above =>
    intro f found
    apply last f
    simpa [List.getLast?_append, List.getLast?_cons] using found

/-- How a thread stands that has a task to hand over above the frames `base`. -/
inductive Handover (task : Task κ) (base : List (Frame V κ)) :
    (done : Bool) → Thread V κ → Prop where
  | ready : Handover task base false ⟨.ok .unit, .call (.perform task) :: base⟩
  | passed {result : Return V} {above : List (Frame V κ)} :
      (∀ f, above.getLast? = some f → ¬ f.Handing) →
      Handover task base true ⟨result, above ++ base⟩

theorem Handover.frames {task : Task κ} {base : List (Frame V κ)} {done : Bool}
    {thread : Thread V κ} (handover : Handover task base done thread) :
    ∃ above, thread.frames = above ++ base := by
  cases handover with
  | ready => exact ⟨[_], rfl⟩
  | passed => exact ⟨_, rfl⟩

/-- The first step above `base` hands the task over, and no later one hands over right there. -/
theorem Handover.step {client : Client V κ σ} {task : Task κ} {base : List (Frame V κ)}
    {done : Bool} {μ : Moment V κ σ} {e : Effect V κ σ} {calls : List (Call V κ)}
    (handover : Handover task base done ⟨μ.result, μ.frame :: μ.below⟩)
    (inside : base.length ≤ μ.below.length) (yields : μ.Yields client e calls) :
    Handover task base true ⟨e.result, e.frames ++ μ.below⟩ ∧
      (done = false ∧ μ.below = base ∧ μ.hands? = some task ∨
        done = true ∧ ∃ above, μ.below = above ++ base ∧ (above = [] → μ.hands? = none)) := by
  obtain ⟨store, t, result, frame, below⟩ := μ
  generalize same : Thread.mk result (frame :: below) = thread at handover
  cases handover with
  | ready =>
    cases same
    exact ⟨.passed (yields.last fun r task => by simp), .inl ⟨rfl, rfl, rfl⟩⟩
  | @passed _ above last =>
    cases above with
    | nil =>
      -- nothing is left above, and no step below was to be taken
      cases same
      exact absurd inside (by simp)
    | cons f above =>
      cases same
      refine ⟨?_, .inr ⟨rfl, above, rfl, fun none => ?_⟩⟩
      · show Handover task base true ⟨e.result, e.frames ++ (above ++ base)⟩
        rw [← List.append_assoc]
        exact .passed (last_above yields last)
      · subst none
        have idle : ¬ frame.Handing := last frame rfl
        unfold Moment.hands?
        split
        next _ task _ perform =>
          have perform : frame = .call (.perform task) := perform
          rw [perform] at idle
          exact absurd trivial idle
        next => rfl

namespace Moment

/-- The task that a step of thread `t` hands over right on top of `depth` frames. -/
def handed? (t depth : Nat) (μ : Moment V κ σ) : Option (Task κ) :=
  if μ.at? t depth then μ.hands? else none

end Moment

/-- What thread `t` hands over right on top of `depth` frames. -/
def handed (t depth : Nat) (h : List (Moment V κ σ)) : List (Task κ) :=
  h.filterMap (Moment.handed? t depth)

/-- A handover through a run in which its thread does nothing below it. -/
theorem Run.handover {client : Client V κ σ} {rule : Store V κ σ → Call V κ → Prop}
    {s s₁ : System V κ σ} {h : List (Moment V κ σ)} {task : Task κ} {t : Nat}
    {base : List (Frame V κ)} (run : Run client rule s h s₁)
    (start : s.threads[t]? = some ⟨.ok .unit, .call (.perform task) :: base⟩)
    (inside : ∀ μ ∈ h, μ.thread = t → base.length ≤ μ.below.length) :
    ∃ thread done, s₁.threads[t]? = some thread ∧ Handover task base done thread ∧
      handed t base.length h = if done then [task] else [] := by
  induction run with
  | start => exact ⟨_, _, start, .ready, rfl⟩
  | @step h s₁ s₂ t' μ run found step fair ih =>
    obtain ⟨μ', e, calls, moment, yields, rfl⟩ := System.step_yields step
    cases found.symm.trans moment
    obtain ⟨thread, done, there, handover, hands⟩ := ih fun μ member => inside μ (by simp [member])
    obtain ⟨store, moved, selected⟩ := System.moment?_eq_some found
    have more : handed t base.length (h ++ [μ]) =
        handed t base.length h ++ (μ.handed? t base.length).toList := filterMap_concat _ h μ
    rw [more, hands]
    by_cases same : t' = t
    · subst same
      cases there.symm.trans selected
      obtain ⟨after, once⟩ := handover.step (inside μ (by simp) moved) yields
      refine ⟨_, true, System.after_self found e calls, after, ?_⟩
      rcases once with ⟨rfl, below, one⟩ | ⟨rfl, above, below, idle⟩
      · simp [Moment.handed?, Moment.at?, moved, below, one]
      · have none : μ.handed? t' base.length = none := by
          unfold Moment.handed?
          split
          next here =>
            -- at this height nothing stands above the frames below
            simp only [Moment.at?, below, List.length_append, Bool.and_eq_true,
              decide_eq_true_eq] at here
            exact idle (List.eq_nil_of_length_eq_zero (by omega))
          next => rfl
        simp [none]
    · refine ⟨thread, done, System.after_other there same _ e calls, handover, ?_⟩
      have away : μ.thread ≠ t := by rw [moved]; exact same
      simp [Moment.handed?, Moment.at?, away]
  | begin c _ _ ih =>
    obtain ⟨thread, done, there, handover, hands⟩ := ih inside
    exact ⟨thread, done, System.begin_other there c, handover, hands⟩
  | pass now _ _ ih => exact ih inside

end Quorate
