import Quorate.Proofs.System.Delivery

/-! The course of a cancel on a merge. The sources are asked one after the other, then the
callbacks of the merge are performed in order and its readers are told. What happens in between,
above the frame of the cancel or on other threads, is arbitrary. -/

set_option autoImplicit false

namespace Quorate

variable {V κ σ : Type}

/-- Whether a cancel ends the pending state of a result, or is up to the client. -/
def Result.cancellable (x : Result V κ) : Bool :=
  x.isForeign || x.cell.state.isPending && x.cancel.cell.state.isCancelled

/-- A cancel leaves the cell as it is, or cancels it. -/
theorem Result.cancel_cell (x : Result V κ) :
    x.cancel.cell = x.cell ∨ x.cancel.cell.state = .cancelled := by
  obtain ⟨cell, kind⟩ := x
  cases kind with
  | settable =>
    simp only [cancel, complete]
    split
    next => exact .inl rfl
    next cell' tasks same =>
      obtain ⟨-, rfl, -⟩ := (Cell.transition_eq_some_iff _ _ _ _).mp same
      exact .inr rfl
  | merge m =>
    simp only [cancel]
    split
    next => exact .inl rfl
    next cell' tasks same =>
      obtain ⟨-, rfl, -⟩ := (Cell.transition_eq_some_iff _ _ _ _).mp same
      exact .inr rfl
  | _ => exact .inl rfl

/-- What a cancel has done so far. -/
structure Swept (κ : Type) where
  /-- The sources it asked to cancel, and whether they were cancellable then. -/
  asked : List (ResultId × Bool)
  /-- The callbacks it handed to their executors. -/
  performed : List (Task κ)
  /-- Panics of the cancels it asked for. -/
  unwound : List Panic
  /-- Panics of the callbacks it performed. -/
  failed : List Panic

namespace Moment

def asked? (t depth : Nat) (μ : Moment V κ σ) : Option (ResultId × Bool) :=
  match μ.result, μ.frame with
  | .ok _, .call (.cancel r) =>
    if μ.at? t (depth + 1) then some (r, (μ.store.results[r]?).any Result.cancellable) else none
  | _, _ => none

def performed? (t depth : Nat) (μ : Moment V κ σ) : Option (Task κ) :=
  match μ.result, μ.frame with
  | .ok _, .call (.perform task) => if μ.at? t (depth + 1) then some task else none
  | _, _ => none

def unwound? (t depth : Nat) (μ : Moment V κ σ) : Option Panic :=
  match μ.result, μ.frame with
  | .error p, .sweep _ _ _ _ => if μ.at? t depth then some p else none
  | _, _ => none

def failed? (t depth : Nat) (μ : Moment V κ σ) : Option Panic :=
  match μ.result, μ.frame with
  | .error p, .deliver _ _ _ _ => if μ.at? t depth then some p else none
  | _, _ => none

end Moment

/-- What a cancel that runs on thread `t` on top of `depth` frames does in a run. -/
def swept (t depth : Nat) (h : List (Moment V κ σ)) : Swept κ :=
  ⟨h.filterMap (Moment.asked? t depth), h.filterMap (Moment.performed? t depth),
    h.filterMap (Moment.unwound? t depth), h.filterMap (Moment.failed? t depth)⟩

/-- The answer of a cancel tells whether every source that was asked was cancellable. -/
structure Answers (asked : List (ResultId × Bool)) (all : Bool) : Prop where
  granted : all = true → ∀ ask ∈ asked, ask.2 = true
  nobody : asked = [] → all = true

/-- How a thread stands that cancels the merge `m`, above the frames `base`. -/
inductive Course (s : Store V κ σ) (m : ResultId) (sources : List ResultId) (queue : List (Task κ))
    (base : List (Frame V κ)) : Swept κ → Thread V κ → Prop where
  | sweeping {w : Swept κ} {rest : List ResultId} {all : Bool} {result : Return V} :
      w.asked.map Prod.fst ++ rest = sources → w.performed = [] → w.unwound = [] → w.failed = [] →
      (∀ b, result = .ok (.flag b) → Answers w.asked (all && b)) →
      (∀ p, result = .error p → w.asked ≠ []) →
      Course s m sources queue base w ⟨result, .sweep m rest all queue :: base⟩
  | asking {w : Swept κ} {source : ResultId} {rest : List ResultId} {all : Bool} :
      w.asked.map Prod.fst ++ source :: rest = sources → w.performed = [] → w.unwound = [] →
      w.failed = [] → Answers w.asked all →
      Course s m sources queue base w
        ⟨.ok .unit, .call (.cancel source) :: .sweep m rest all queue :: base⟩
  | asked {w : Swept κ} {rest : List ResultId} {all : Bool} {result : Return V}
      {above : List (Frame V κ)} :
      w.asked.map Prod.fst ++ rest = sources → w.asked ≠ [] → w.performed = [] → w.unwound = [] →
      w.failed = [] → Answers w.asked all → above ≠ [] →
      (∀ f, above.getLast? = some f → ¬ f.Handing) →
      Course s m sources queue base w ⟨result, above ++ .sweep m rest all queue :: base⟩
  | delivering {w : Swept κ} {rest : List (Task κ)} {all : Bool} {result : Return V} :
      w.asked.map Prod.fst = sources → w.performed ++ rest = queue → w.unwound = [] →
      Answers w.asked all →
      Course s m sources queue base w
        ⟨result, .deliver m rest w.failed.head? (.flag all) :: base⟩
  | performing {w : Swept κ} {task : Task κ} {rest : List (Task κ)} {all : Bool} :
      w.asked.map Prod.fst = sources → w.performed ++ task :: rest = queue → w.unwound = [] →
      Answers w.asked all →
      Course s m sources queue base w
        ⟨.ok .unit, .call (.perform task) :: .deliver m rest w.failed.head? (.flag all) :: base⟩
  | performed {w : Swept κ} {rest : List (Task κ)} {all : Bool} {result : Return V}
      {above : List (Frame V κ)} :
      w.asked.map Prod.fst = sources → w.performed ++ rest = queue → w.unwound = [] →
      Answers w.asked all → above ≠ [] →
      (∀ f, above.getLast? = some f → ¬ f.Handing) →
      Course s m sources queue base w
        ⟨result, above ++ .deliver m rest w.failed.head? (.flag all) :: base⟩
  /-- The cancel is over. -/
  | ended {w : Swept κ} {all : Bool} :
      w.asked.map Prod.fst = sources → w.performed = queue → w.unwound = [] →
      Answers w.asked all → s.Told m →
      Course s m sources queue base w
        ⟨match w.failed.head? with | some p => .error p | none => .ok (.flag all), base⟩
  /-- A source's cancel panicked, and the panic went through. -/
  | dropped {w : Swept κ} {rest : List ResultId} {p : Panic} :
      w.asked.map Prod.fst ++ rest = sources → w.asked ≠ [] → w.performed = [] →
      w.unwound = [p] → w.failed = [] →
      Course s m sources queue base w ⟨.error p, base⟩

namespace Course

variable {client : Client V κ σ} {s : Store V κ σ} {m : ResultId} {sources : List ResultId}
  {queue : List (Task κ)} {base : List (Frame V κ)} {w : Swept κ} {thread : Thread V κ}

theorem later {s' : Store V κ σ} (course : Course s m sources queue base w thread)
    (later : s.Later s') : Course s' m sources queue base w thread := by
  cases course with
  | sweeping asked performed unwound failed granted some =>
    exact .sweeping asked performed unwound failed granted some
  | asking asked performed unwound failed granted =>
    exact .asking asked performed unwound failed granted
  | asked asked some performed unwound failed granted above last =>
    exact .asked asked some performed unwound failed granted above last
  | delivering asked performed unwound granted => exact .delivering asked performed unwound granted
  | performing asked performed unwound granted => exact .performing asked performed unwound granted
  | performed asked performed unwound granted above last =>
    exact .performed asked performed unwound granted above last
  | ended asked performed unwound granted told =>
    obtain ⟨x, found, told⟩ := told
    obtain ⟨x', found', later⟩ := later m x found
    exact .ended asked performed unwound granted ⟨x', found', later.told told⟩
  | dropped asked some performed unwound failed =>
    exact .dropped asked some performed unwound failed

end Course

/-- What a cancel has done after one more step. -/
def Swept.add (w : Swept κ) (t depth : Nat) (μ : Moment V κ σ) : Swept κ :=
  ⟨w.asked ++ (μ.asked? t depth).toList, w.performed ++ (μ.performed? t depth).toList,
    w.unwound ++ (μ.unwound? t depth).toList, w.failed ++ (μ.failed? t depth).toList⟩

theorem swept_concat (t depth : Nat) (h : List (Moment V κ σ)) (μ : Moment V κ σ) :
    (swept t depth (h ++ [μ]) : Swept κ) = (swept t depth h).add t depth μ := by
  have last {β : Type} (f : Moment V κ σ → Option β) : [μ].filterMap f = (f μ).toList := by
    cases same : f μ <;> simp [same]
  simp [swept, Swept.add, List.filterMap_append, last]

/-- A step of another thread is none of the cancel's. -/
theorem Swept.add_other {t depth : Nat} {μ : Moment V κ σ} (other : μ.thread ≠ t) (w : Swept κ) :
    w.add t depth μ = w := by
  have away (d : Nat) : μ.at? t d = false := by simp [Moment.at?, other]
  have asked : μ.asked? t depth = none := by
    unfold Moment.asked?
    split <;> simp [away]
  have performed : μ.performed? t depth = none := by
    unfold Moment.performed?
    split <;> simp [away]
  have unwound : μ.unwound? t depth = none := by
    unfold Moment.unwound?
    split <;> simp [away]
  have failed : μ.failed? t depth = none := by
    unfold Moment.failed?
    split <;> simp [away]
  simp [Swept.add, asked, performed, unwound, failed]

/-- Neither is a step further up the stack. -/
theorem Swept.add_above {t : Nat} {μ : Moment V κ σ} {above base : List (Frame V κ)}
    {bottom : Frame V κ} (below : μ.below = above ++ bottom :: base)
    (last : above = [] → ¬ μ.frame.Handing) (w : Swept κ) : w.add t base.length μ = w := by
  have length : μ.below.length = above.length + 1 + base.length := by
    rw [below, List.length_append, List.length_cons]
    omega
  have higher : μ.at? t base.length = false := by
    have different : μ.below.length ≠ base.length := by omega
    simp [Moment.at?, different]
  have handing : μ.at? t (base.length + 1) = true → ¬ μ.frame.Handing := by
    intro here
    refine last (List.eq_nil_of_length_eq_zero ?_)
    have same : μ.below.length = base.length + 1 := by
      simp only [Moment.at?, Bool.and_eq_true, decide_eq_true_eq] at here
      exact here.2
    omega
  have asked : μ.asked? t base.length = none := by
    unfold Moment.asked?
    split
    next _ r _ frame => exact if_neg fun here => handing here (by rw [frame]; trivial)
    next => rfl
  have performed : μ.performed? t base.length = none := by
    unfold Moment.performed?
    split
    next _ task _ frame => exact if_neg fun here => handing here (by rw [frame]; trivial)
    next => rfl
  have unwound : μ.unwound? t base.length = none := by
    unfold Moment.unwound?
    split <;> simp [higher]
  have failed : μ.failed? t base.length = none := by
    unfold Moment.failed?
    split <;> simp [higher]
  simp [Swept.add, asked, performed, unwound, failed]

namespace Course

variable {client : Client V κ σ} {m : ResultId} {sources : List ResultId}
  {queue : List (Task κ)} {base : List (Frame V κ)} {w : Swept κ} {t : Nat} {μ : Moment V κ σ}
  {e : Effect V κ σ} {calls : List (Call V κ)}

theorem step_above {above : List (Frame V κ)} {bottom : Frame V κ}
    (below : μ.below = above ++ bottom :: base)
    (last : ∀ f, (μ.frame :: above).getLast? = some f → ¬ f.Handing) :
    w.add t base.length μ = w := by
  refine Swept.add_above below (fun none => ?_) w
  subst none
  exact last μ.frame rfl

theorem step_sweeping {store : Store V κ σ} {result : Return V} {rest : List ResultId} {all : Bool}
    (asked : w.asked.map Prod.fst ++ rest = sources) (performed : w.performed = [])
    (unwound : w.unwound = []) (failed : w.failed = [])
    (granted : ∀ b, result = .ok (.flag b) → Answers w.asked (all && b))
    (some : ∀ p, result = .error p → w.asked ≠ [])
    (yields : Moment.Yields client ⟨store, t, result, .sweep m rest all queue, base⟩ e calls) :
    Course e.store m sources queue base
      (w.add t base.length ⟨store, t, result, .sweep m rest all queue, base⟩)
      ⟨e.result, e.frames ++ base⟩ := by
  have still (a : Answer V) (answered : result = .ok a) :
      w.add t base.length ⟨store, t, result, .sweep m rest all queue, base⟩ = w := by
    subst answered
    simp [Swept.add, Moment.asked?, Moment.performed?, Moment.unwound?, Moment.failed?]
  rcases yields.emits with ⟨-, emits⟩ | ⟨a, b, c, -, fork, -⟩
  · generalize there : e.result = result' at emits
    generalize up : e.frames = frames at emits
    cases emits with
    | passive passive _ => exact passive.elim
    | keeps ending _ _ _ => exact ending.elim
    | settles about _ _ _ _ => cases about
    | @asks b _ _ source rest =>
      rw [still _ rfl]
      exact .asking asked performed unwound failed (granted b rfl)
    | @swept b =>
      rw [still _ rfl]
      have course : Course e.store m sources queue base w
          ⟨.ok .unit, .deliver m queue w.failed.head? (.flag (all && b)) :: base⟩ :=
        .delivering (by simpa using asked) (by simp [performed]) unwound (granted b rfl)
      simpa [failed] using course
    | @drops p =>
      have unwound' : w.add t base.length ⟨store, t, .error p, .sweep m rest all queue, base⟩ =
          { w with unwound := [p] } := by
        simp [Swept.add, Moment.asked?, Moment.performed?, Moment.unwound?, Moment.failed?,
          Moment.at?, unwound]
      rw [unwound']
      exact .dropped asked (some p rfl) performed rfl failed
    | catches form => rcases form with form | form <;> cases form
    | unwinds through => exact through.elim
  · cases fork

theorem step_asking {store : Store V κ σ} {source : ResultId} {rest : List ResultId} {all : Bool}
    (asked : w.asked.map Prod.fst ++ source :: rest = sources) (performed : w.performed = [])
    (unwound : w.unwound = []) (failed : w.failed = []) (granted : Answers w.asked all)
    (yields : Moment.Yields client
      ⟨store, t, .ok .unit, .call (.cancel source), .sweep m rest all queue :: base⟩ e calls) :
    Course e.store m sources queue base
      (w.add t base.length
        ⟨store, t, .ok .unit, .call (.cancel source), .sweep m rest all queue :: base⟩)
      ⟨e.result, e.frames ++ .sweep m rest all queue :: base⟩ := by
  have one : w.add t base.length
      ⟨store, t, .ok .unit, .call (.cancel source), .sweep m rest all queue :: base⟩ =
        { w with
          asked := w.asked ++ [(source, (store.results[source]?).any Result.cancellable)] } := by
    simp [Swept.add, Moment.asked?, Moment.performed?, Moment.unwound?, Moment.failed?, Moment.at?]
  have asked' : (w.asked ++ [(source, (store.results[source]?).any Result.cancellable)]).map
      Prod.fst ++ rest = sources := by simpa using asked
  have granted' (open' : (store.results[source]?).any Result.cancellable = true)
      (yes : all = true) :
      ∀ ask ∈ w.asked ++ [(source, (store.results[source]?).any Result.cancellable)],
        ask.2 = true := by
    intro ask member
    rcases List.mem_append.mp member with member | member
    · exact granted.granted yes ask member
    · rw [List.mem_singleton.mp member]
      exact open'
  rw [one]
  have last := yields.last (fun r task => by simp)
  rcases yields.emits with ⟨-, emits⟩ | ⟨a, b, c, -, fork, -⟩
  · -- a source answers no at once, or it was cancellable and has work to do first
    have up : e.frames = [] ∧ e.result = .ok (.flag false) ∨
        e.frames ≠ [] ∧ (store.results[source]?).any Result.cancellable = true := by
      generalize there : e.result = result' at emits
      generalize up : e.frames = frames at emits
      cases emits with
      | passive passive _ => exact passive.elim
      | @keeps _ _ b _ _ _ _ _ counted =>
        cases b with
        | false => exact .inl ⟨rfl, rfl⟩
        | true => cases counted rfl
      | @settles _ _ r x state reply about found settles terminal form =>
        cases about
        refine .inr ⟨by simp, ?_⟩
        have terminal : state.isPending = false := terminal.resolve_right (by simp)
        have cell : x.cancel.cell = ⟨state, [], true, x.cell.notified⟩ := settles.cell
        rcases x.cancel_cell with same | cancelled
        · have pending := settles.pending
          rw [← same, cell] at pending
          exact absurd pending (by simp [terminal])
        · simp [found, Result.cancellable, settles.pending, cancelled, State.isCancelled]
      | @sweeps _ _ cell mm found pending =>
        refine .inr ⟨by simp, ?_⟩
        simp [found, Result.cancellable, Result.cancel, Cell.transition, pending, State.isCancelled]
      | @serves _ _ _ r x form found foreign =>
        rcases form with same | ⟨task, same⟩
        · cases same
          exact .inr ⟨by simp, by simp [found, Result.cancellable, foreign]⟩
        · cases same
    rcases up with ⟨none, answer⟩ | ⟨some, open'⟩
    · rw [none, answer]
      refine .sweeping asked' performed unwound failed (fun b same => ?_) (by simp)
      cases same
      exact ⟨fun yes => by simp at yes, fun none => by simp at none⟩
    · exact .asked asked' (by simp) performed unwound failed
        ⟨granted' open', fun none => by simp at none⟩ some last
  · cases fork

theorem step_delivering {store : Store V κ σ} {result : Return V} {rest : List (Task κ)}
    {all : Bool}
    (asked : w.asked.map Prod.fst = sources) (performed : w.performed ++ rest = queue)
    (unwound : w.unwound = []) (granted : Answers w.asked all)
    (yields : Moment.Yields client
      ⟨store, t, result, .deliver m rest w.failed.head? (.flag all), base⟩ e calls) :
    Course e.store m sources queue base
      (w.add t base.length ⟨store, t, result, .deliver m rest w.failed.head? (.flag all), base⟩)
      ⟨e.result, e.frames ++ base⟩ := by
  have still (a : Answer V) (answered : result = .ok a) :
      w.add t base.length ⟨store, t, result, .deliver m rest w.failed.head? (.flag all), base⟩ =
        w := by
    subst answered
    simp [Swept.add, Moment.asked?, Moment.performed?, Moment.unwound?, Moment.failed?]
  have handsOn := yields.handsOn
  generalize e.result = result' at handsOn ⊢
  generalize e.frames = frames at handsOn ⊢
  cases handsOn with
  | @next a task rest =>
    rw [still a rfl]
    exact .performing asked performed unwound granted
  | @tells a told =>
    rw [still a rfl]
    exact .ended asked (by simpa using performed) unwound granted told
  | @notes p =>
    have one : w.add t base.length
        ⟨store, t, .error p, .deliver m rest w.failed.head? (.flag all), base⟩ =
          { w with failed := w.failed ++ [p] } := by
      simp [Swept.add, Moment.asked?, Moment.performed?, Moment.unwound?, Moment.failed?,
        Moment.at?]
    have head : some (w.failed.head?.getD p) = (w.failed ++ [p]).head? := by
      cases w.failed <;> rfl
    rw [one, head]
    exact .delivering (w := { w with failed := w.failed ++ [p] }) asked performed unwound granted

theorem step_performing {store : Store V κ σ} {task : Task κ} {rest : List (Task κ)} {all : Bool}
    (asked : w.asked.map Prod.fst = sources) (performed : w.performed ++ task :: rest = queue)
    (unwound : w.unwound = []) (granted : Answers w.asked all)
    (yields : Moment.Yields client ⟨store, t, .ok .unit, .call (.perform task),
      .deliver m rest w.failed.head? (.flag all) :: base⟩ e calls) :
    Course e.store m sources queue base
      (w.add t base.length ⟨store, t, .ok .unit, .call (.perform task),
        .deliver m rest w.failed.head? (.flag all) :: base⟩)
      ⟨e.result, e.frames ++ .deliver m rest w.failed.head? (.flag all) :: base⟩ := by
  have one : w.add t base.length ⟨store, t, .ok .unit, .call (.perform task),
      .deliver m rest w.failed.head? (.flag all) :: base⟩ =
        { w with performed := w.performed ++ [task] } := by
    simp [Swept.add, Moment.asked?, Moment.performed?, Moment.unwound?, Moment.failed?, Moment.at?]
  have performed' : w.performed ++ [task] ++ rest = queue := by simpa using performed
  rw [one]
  cases up : e.frames with
  | nil => exact .delivering (w := { w with performed := _ }) asked performed' unwound granted
  | cons f above =>
    have last := yields.last (fun r task => by simp)
    rw [up] at last
    exact .performed (w := { w with performed := _ }) asked performed' unwound granted (by simp)
      last

theorem step (course : Course μ.store m sources queue base w ⟨μ.result, μ.frame :: μ.below⟩)
    (thread : μ.thread = t) (inside : base.length ≤ μ.below.length)
    (yields : μ.Yields client e calls) :
    Course e.store m sources queue base (w.add t base.length μ)
      ⟨e.result, e.frames ++ μ.below⟩ := by
  have later := yields.touches.later
  obtain ⟨store, _, result, frame, below⟩ := μ
  subst thread
  generalize same : Thread.mk result (frame :: below) = thread at course
  cases course with
  | sweeping asked performed unwound failed granted some =>
    cases same
    exact step_sweeping asked performed unwound failed granted some yields
  | asking asked performed unwound failed granted =>
    cases same
    exact step_asking asked performed unwound failed granted yields
  | @asked rest all result' above asked some performed unwound failed granted higher last =>
    cases above with
    | nil => exact absurd rfl higher
    | cons f above =>
      cases same
      -- the frame of the cancel goes on once nothing is left above it
      rw [step_above rfl last]
      have last := last_above yields last
      show Course _ _ _ _ _ _
        ⟨e.result, e.frames ++ (above ++ .sweep m rest all queue :: base)⟩
      rw [← List.append_assoc]
      cases up : e.frames ++ above with
      | nil =>
        refine .sweeping asked performed unwound failed (fun b _ => ⟨fun yes => ?_, fun none => ?_⟩)
          fun _ _ => some
        · exact granted.granted (Bool.and_eq_true _ _ ▸ yes).1
        · exact absurd none some
      | cons f' above' =>
        rw [up] at last
        exact .asked asked some performed unwound failed granted (by simp) last
  | delivering asked performed unwound granted =>
    cases same
    exact step_delivering asked performed unwound granted yields
  | performing asked performed unwound granted =>
    cases same
    exact step_performing asked performed unwound granted yields
  | @performed rest all result' above asked performed unwound granted higher last =>
    cases above with
    | nil => exact absurd rfl higher
    | cons f above =>
      cases same
      rw [step_above rfl last]
      have last := last_above yields last
      show Course _ _ _ _ _ _
        ⟨e.result, e.frames ++ (above ++ .deliver m rest w.failed.head? (.flag all) :: base)⟩
      rw [← List.append_assoc]
      cases up : e.frames ++ above with
      | nil => exact .delivering asked performed unwound granted
      | cons f' above' =>
        rw [up] at last
        exact .performed asked performed unwound granted (by simp) last
  -- the cancel is over, and no step below it was to be taken
  | ended =>
    cases same
    exact absurd inside (by simp)
  | dropped =>
    cases same
    exact absurd inside (by simp)

end Course

/-- The course of a cancel through a run in which its thread does nothing else. -/
theorem Run.course {client : Client V κ σ} {rule : Store V κ σ → Call V κ → Prop}
    {s s₁ : System V κ σ} {h : List (Moment V κ σ)} {m : ResultId} {sources : List ResultId}
    {queue : List (Task κ)} {base : List (Frame V κ)} {t : Nat}
    (run : Run client rule s h s₁)
    (start : s.threads[t]? = some ⟨.ok (.flag true), .sweep m sources true queue :: base⟩)
    (inside : ∀ μ ∈ h, μ.thread = t → base.length ≤ μ.below.length) :
    ∃ thread, s₁.threads[t]? = some thread ∧
      Course s₁.store m sources queue base (swept t base.length h) thread := by
  induction run with
  | start =>
    refine ⟨_, start, .sweeping rfl rfl rfl rfl (fun b same => ?_) nofun⟩
    cases same
    exact ⟨fun _ _ member => absurd member (by simp [swept]), fun _ => rfl⟩
  | @step h s₁ s₂ t' μ run found step fair ih =>
    obtain ⟨μ', e, calls, moment, yields, rfl⟩ := System.step_yields step
    cases found.symm.trans moment
    obtain ⟨thread, there, course⟩ := ih fun μ member => inside μ (by simp [member])
    obtain ⟨store, moved, selected⟩ := System.moment?_eq_some found
    rw [← store] at course
    rw [swept_concat]
    -- another thread leaves the course as it is, though not the store
    by_cases same : t' = t
    · subst same
      cases there.symm.trans selected
      exact ⟨_, System.after_self found e calls,
        course.step moved (inside μ (by simp) moved) yields⟩
    · refine ⟨thread, System.after_other there same _ e calls, ?_⟩
      · rw [Swept.add_other (by rw [moved]; exact same)]
        exact course.later yields.touches.later
  | begin c _ _ ih =>
    obtain ⟨thread, there, course⟩ := ih inside
    exact ⟨thread, System.begin_other there c, course⟩
  | pass now _ _ ih =>
    obtain ⟨thread, there, course⟩ := ih inside
    exact ⟨thread, there, course.later (Store.later_of_results rfl)⟩

end Quorate
