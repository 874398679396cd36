import Quorate.Proofs.System.Handover
import Quorate.Proofs.System.Orderly

/-! How the callbacks of a result are delivered. The frame that took them out hands them over in
order, one after the other, and tells the readers when none is left. What the callbacks do in
between, on this thread or on others, is arbitrary. -/

set_option autoImplicit false

namespace Quorate

variable {V κ σ : Type}

namespace Moment

/-- The callback that the delivery of a result hands over in this step. -/
def delivered? (r : ResultId) (μ : Moment V κ σ) : Option (Task κ) :=
  match μ.below with
  | .deliver r' _ _ _ :: _ => if r' = r then μ.hands? else none
  | _ => none

/-- Only right above a delivery of a result its callbacks are handed over. -/
theorem delivered?_eq_none {r : ResultId} {μ : Moment V κ σ}
    (idle : ∀ f, μ.below.head? = some f → f.delivers r = 0) : μ.delivered? r = none := by
  unfold delivered?
  split
  next r' _ _ _ rest below =>
    have other := idle _ (by rw [below]; rfl)
    rw [if_neg]
    rintro rfl
    simp [Frame.delivers] at other
  next => rfl

theorem delivered?_idle {r : ResultId} {μ : Moment V κ σ}
    (idle : load (Frame.delivers r) μ.below = 0) : μ.delivered? r = none := by
  apply delivered?_eq_none
  intro f first
  cases below : μ.below with
  | nil => simp [below] at first
  | cons f' rest =>
    rw [below, load_cons] at idle
    rw [below] at first
    cases first
    omega

theorem delivered?_eq_some {r : ResultId} {μ : Moment V κ σ} {task : Task κ}
    (handed : μ.delivered? r = some task) :
    (∃ a, μ.result = .ok a) ∧ μ.frame = .call (.perform task) := by
  unfold Moment.delivered? Moment.hands? at handed
  split at handed
  · split at handed
    · split at handed
      next a task' result frame =>
        cases handed
        exact ⟨⟨a, result⟩, frame⟩
      next => cases handed
    · cases handed
  · cases handed

/-- What the thread of a step comes down below it with, in the steps that follow, once it does. -/
def ending? (μ : Moment V κ σ) (later : List (Moment V κ σ)) : Option (Return V) :=
  (later.find? fun ν => ν.thread = μ.thread && ν.below.length < μ.below.length).map Moment.result

theorem ending?_concat (μ ν : Moment V κ σ) (later : List (Moment V κ σ)) :
    μ.ending? (later ++ [ν]) = (μ.ending? later).or
      (if ν.thread = μ.thread ∧ ν.below.length < μ.below.length then some ν.result else none) := by
  unfold ending?
  rw [List.find?_append, Option.map_or, List.find?_singleton]
  congr 1
  by_cases below : ν.thread = μ.thread ∧ ν.below.length < μ.below.length
  · rw [if_pos below, if_pos (by simpa using below)]
    rfl
  · rw [if_neg below, if_neg (by simpa using below)]
    rfl

end Moment

/-- The callbacks that were handed over by deliveries of a result. -/
def delivered (r : ResultId) (h : List (Moment V κ σ)) : List (Task κ) :=
  h.filterMap (Moment.delivered? r)

theorem delivered_concat (r : ResultId) (h : List (Moment V κ σ)) (μ : Moment V κ σ) :
    delivered r (h ++ [μ]) = delivered r h ++ (μ.delivered? r).toList :=
  filterMap_concat _ h μ

/-- Readers that came to `m` before it ended are told. -/
def Store.Told (s : Store V κ σ) (m : ResultId) : Prop :=
  ∃ x, s.results[m]? = some x ∧ x.cell.notified = true

theorem Store.Told.later {s s' : Store V κ σ} {r : ResultId} (told : s.Told r)
    (later : s.Later s') : s'.Told r := by
  obtain ⟨x, found, told⟩ := told
  obtain ⟨x', found', later⟩ := later r x found
  exact ⟨x', found', later.told told⟩

/-- What a delivery leaves when its own frame goes on: it hands over the next callback, or it has told
the readers, or it takes note of the panic that its last callback ended in. -/
inductive HandsOn (s : Store V κ σ) (r : ResultId) (first : Option Panic) (reply : Answer V) :
    Return V → List (Task κ) → Return V → List (Frame V κ) → Prop where
  | next {a : Answer V} {task : Task κ} {tasks : List (Task κ)} :
      HandsOn s r first reply (.ok a) (task :: tasks) (.ok .unit)
        [.call (.perform task), .deliver r tasks first reply]
  | tells {a : Answer V} : s.Told r →
      HandsOn s r first reply (.ok a) []
        (match first with | some p => .error p | none => .ok reply) []
  | notes {p : Panic} {tasks : List (Task κ)} :
      HandsOn s r first reply (.error p) tasks (.ok .unit)
        [.deliver r tasks (some (first.getD p)) reply]

theorem Moment.Yields.handsOn {client : Client V κ σ} {s : Store V κ σ} {t : Nat}
    {result : Return V} {r : ResultId} {tasks : List (Task κ)} {first : Option Panic}
    {reply : Answer V} {base : List (Frame V κ)} {e : Effect V κ σ} {calls : List (Call V κ)}
    (yields : Moment.Yields client ⟨s, t, result, .deliver r tasks first reply, base⟩ e calls) :
    HandsOn e.store r first reply result tasks e.result e.frames := by
  have touches := yields.touches
  rcases yields.emits with ⟨-, emits⟩ | ⟨a, b, c, -, fork, -⟩
  · generalize e.result = result' at emits ⊢
    generalize e.frames = frames at emits ⊢
    cases emits with
    | passive passive _ => exact passive.elim
    | keeps ending _ _ _ => exact ending.elim
    | settles about _ _ _ form =>
      rcases form with ending | ⟨index, o, frame, -⟩ | frame
      · exact ending.elim
      · cases frame
      · cases frame
    | delivers => exact .next
    | @notifies a _ _ _ x found =>
      refine .tells ⟨_, touches.there r x found, ?_⟩
      simp [Frame.subject?, Result.touch, Result.notify, Cell.notify]
    | survives => exact .notes
    | catches form => rcases form with form | form <;> cases form
    | unwinds through => exact through.elim
  · cases fork

/-- How a thread stands that delivers the callbacks `queue` of `r` above the frames `base`, of which
`done` are handed over. -/
inductive Delivery (s : Store V κ σ) (r : ResultId) (queue : List (Task κ)) (reply : Answer V)
    (base : List (Frame V κ)) : (done : List (Task κ)) → Thread V κ → Prop where
  | between {done rest : List (Task κ)} {first : Option Panic} {result : Return V} :
      done ++ rest = queue →
      Delivery s r queue reply base done ⟨result, .deliver r rest first reply :: base⟩
  | handing {done rest : List (Task κ)} {task : Task κ} {first : Option Panic}
      {thread : Thread V κ} :
      done ++ task :: rest = queue →
      Handover task (.deliver r rest first reply :: base) false thread →
      Delivery s r queue reply base done thread
  | handed {done rest : List (Task κ)} {task : Task κ} {first : Option Panic}
      {thread : Thread V κ} :
      done ++ rest = queue → Handover task (.deliver r rest first reply :: base) true thread →
      Delivery s r queue reply base done thread
  /-- The delivery is over. -/
  | ended {result : Return V} :
      s.Told r → (result = .ok reply ∨ ∃ p, result = .error p) →
      Delivery s r queue reply base queue ⟨result, base⟩

namespace Delivery

variable {client : Client V κ σ} {s : Store V κ σ} {r : ResultId} {queue done : List (Task κ)}
  {reply : Answer V} {base : List (Frame V κ)} {thread : Thread V κ} {μ : Moment V κ σ}
  {e : Effect V κ σ} {calls : List (Call V κ)}

theorem later {s' : Store V κ σ} (delivery : Delivery s r queue reply base done thread)
    (later : s.Later s') : Delivery s' r queue reply base done thread := by
  cases delivery with
  | between all => exact .between all
  | handing all handover => exact .handing all handover
  | handed all handover => exact .handed all handover
  | ended told answer => exact .ended (told.later later) answer

/-- The thread still delivers, or the delivery is over. -/
theorem working (delivery : Delivery s r queue reply base done thread) :
    base.length < thread.frames.length ∧ 1 ≤ load (Frame.delivers r) thread.frames ∨
      done = queue ∧ s.Told r ∧ ∃ result, thread = ⟨result, base⟩ ∧
        (result = .ok reply ∨ ∃ p, result = .error p) := by
  have above {task : Task κ} {rest : List (Task κ)} {first : Option Panic} {gone : Bool}
      (handover : Handover task (.deliver r rest first reply :: base) gone thread) :
      base.length < thread.frames.length ∧ 1 ≤ load (Frame.delivers r) thread.frames := by
    obtain ⟨above, frames⟩ := handover.frames
    rw [frames, List.length_append, load_append]
    simp only [List.length_cons, load_cons, Frame.delivers, if_true]
    omega
  cases delivery with
  | between => exact .inl (by simp [Frame.delivers])
  | handing _ handover => exact .inl (above handover)
  | handed _ handover => exact .inl (above handover)
  | ended told answer => exact .inr ⟨rfl, told, _, rfl, answer⟩

/-- Callbacks are handed over in order, none of them twice. -/
theorem isPrefix (delivery : Delivery s r queue reply base done thread) : done <+: queue := by
  cases delivery with
  | between all => exact ⟨_, all⟩
  | handing all => exact ⟨_, all⟩
  | handed all => exact ⟨_, all⟩
  | ended => exact List.prefix_rfl

theorem step_between {store : Store V κ σ} {t : Nat} {rest : List (Task κ)} {first : Option Panic}
    {result : Return V} (all : done ++ rest = queue)
    (yields : Moment.Yields client ⟨store, t, result, .deliver r rest first reply, base⟩ e calls) :
    Delivery e.store r queue reply base done ⟨e.result, e.frames ++ base⟩ := by
  have handsOn := yields.handsOn
  generalize e.result = result' at handsOn ⊢
  generalize e.frames = frames at handsOn ⊢
  cases handsOn with
  | next => exact .handing all .ready
  | tells told =>
    obtain rfl : done = queue := by simpa using all
    refine .ended told ?_
    cases first with
    | none => exact .inl rfl
    | some p => exact .inr ⟨p, rfl⟩
  | notes => exact .between all

/-- A delivery hands over what it takes next, and nothing else on its thread does. -/
theorem step_above {task : Task κ} {rest : List (Task κ)} {first : Option Panic} {gone : Bool}
    (handover : Handover task (.deliver r rest first reply :: base) gone
      ⟨μ.result, μ.frame :: μ.below⟩)
    (inside : base.length + 1 ≤ μ.below.length)
    (single : load (Frame.delivers r) (μ.frame :: μ.below) ≤ 1) (yields : μ.Yields client e calls) :
    Handover task (.deliver r rest first reply :: base) true ⟨e.result, e.frames ++ μ.below⟩ ∧
      (μ.delivered? r).toList = if gone then [] else [task] := by
  obtain ⟨after, once⟩ := handover.step inside yields
  refine ⟨after, ?_⟩
  rcases once with ⟨rfl, below, hands⟩ | ⟨rfl, above, below, still⟩
  · simp [Moment.delivered?, below, hands]
  · have none : μ.delivered? r = none := by
      cases above with
      | nil => simp [Moment.delivered?, below, still rfl]
      | cons f above =>
        -- a second delivery further up would be one too many
        apply Moment.delivered?_eq_none
        intro f' top
        have one : Frame.delivers r (.deliver (V := V) r rest first reply) = 1 := by
          simp [Frame.delivers]
        rw [below] at top single
        cases top
        simp only [List.cons_append, load_cons, load_append, one] at single
        omega
    simp [none]

theorem step (delivery : Delivery μ.store r queue reply base done ⟨μ.result, μ.frame :: μ.below⟩)
    (inside : base.length ≤ μ.below.length)
    (single : load (Frame.delivers r) (μ.frame :: μ.below) ≤ 1) (yields : μ.Yields client e calls) :
    Delivery e.store r queue reply base (done ++ (μ.delivered? r).toList)
      ⟨e.result, e.frames ++ μ.below⟩ := by
  -- the delivery's own frame goes on once nothing is left above it
  have own {rest : List (Task κ)} {first : Option Panic} (all : done ++ rest = queue)
      (frame : μ.frame = .deliver r rest first reply) (below : μ.below = base) :
      Delivery e.store r queue reply base (done ++ (μ.delivered? r).toList)
        ⟨e.result, e.frames ++ μ.below⟩ := by
    have idle : μ.delivered? r = none := by
      apply Moment.delivered?_idle
      simp only [frame, load_cons, Frame.delivers, if_true] at single
      omega
    obtain ⟨store, t, result, frame', below'⟩ := μ
    subst frame below
    rw [idle]
    simpa using step_between all yields
  generalize same : Thread.mk μ.result (μ.frame :: μ.below) = thread at delivery
  cases delivery with
  | between all =>
    obtain ⟨frame, below⟩ := List.cons.inj (congrArg Thread.frames same)
    exact own all frame below
  | @handing _ _ task _ _ all handover =>
    subst same
    have higher : base.length + 1 ≤ μ.below.length := by
      generalize same : Thread.mk μ.result (μ.frame :: μ.below) = thread at handover
      cases handover with
      | ready =>
        obtain ⟨-, below⟩ := List.cons.inj (congrArg Thread.frames same)
        simp [below]
    obtain ⟨after, hands⟩ := step_above handover higher single yields
    rw [hands]
    exact .handed (by simpa using all) after
  | handed all handover =>
    subst same
    by_cases higher : base.length + 1 ≤ μ.below.length
    · obtain ⟨after, hands⟩ := step_above handover higher single yields
      rw [hands]
      exact .handed (by simpa using all) after
    · obtain ⟨above, frames⟩ := handover.frames
      cases above with
      | nil =>
        obtain ⟨frame, below⟩ := List.cons.inj frames
        exact own all frame below
      | cons f above =>
        have below : μ.below = above ++ .deliver r _ _ reply :: base := (List.cons.inj frames).2
        rw [below, List.length_append, List.length_cons] at higher
        omega
  | ended _ _ =>
    have lengths := congrArg (fun thread => thread.frames.length) same
    simp only [List.length_cons] at lengths
    omega

end Delivery

namespace System

variable {client : Client V κ σ} {s : System V κ σ} {r : ResultId} {queue done : List (Task κ)}
  {reply : Answer V} {t : Nat} {base : List (Frame V κ)}

/-- No two frames deliver the callbacks of one result. -/
theorem Orderly.delivers_le (orderly : s.Orderly) (r : ResultId) :
    s.weight (Frame.delivers r) ≤ 1 := by
  cases found : s.store.results[r]? with
  | none =>
    rw [(orderly.beyond r found).2]
    exact Nat.zero_le 1
  | some x =>
    have ordered := orderly.there r x found
    cases state : x.cell.state.isPending with
    | true =>
      have := (ordered.waiting state).2.2
      omega
    | false =>
      have := (ordered.ended state).2.2
      omega

/-- Once the readers are told, nobody delivers. -/
theorem Orderly.told_idle (orderly : s.Orderly) (told : s.store.Told r) :
    s.weight (Frame.delivers r) = 0 := by
  obtain ⟨x, found, told⟩ := told
  have ordered := orderly.there r x found
  cases state : x.cell.state.isPending with
  | true => exact (ordered.waiting state).2.2
  | false =>
    have := (ordered.ended state).2.2
    rw [told, if_pos rfl] at this
    omega

theorem idle_delivered? {μ : Moment V κ σ} (idle : s.weight (Frame.delivers r) = 0)
    {t' : Nat} (found : s.moment? t' = some μ) : μ.delivered? r = none := by
  apply Moment.delivered?_idle
  have := weight_le (w := Frame.delivers r) found
  omega

/-- Thread `t` delivers the callbacks `queue` of `r` above the frames `base`, or has done so. -/
def Delivering (s : System V κ σ) (r : ResultId) (queue : List (Task κ)) (reply : Answer V)
    (t : Nat) (base : List (Frame V κ)) (done : List (Task κ)) : Prop :=
  ∃ thread, s.threads[t]? = some thread ∧ Delivery s.store r queue reply base done thread

/-- The other threads have none of the callbacks to hand over. -/
theorem Delivering.alone {t' : Nat} {μ : Moment V κ σ}
    (delivering : s.Delivering r queue reply t base done) (orderly : s.Orderly)
    (found : s.moment? t' = some μ) (other : t' ≠ t) : μ.delivered? r = none := by
  obtain ⟨thread, there, delivery⟩ := delivering
  rcases delivery.working with ⟨-, works⟩ | ⟨-, told, -⟩
  · have selected := (moment?_eq_some found).2.2
    have both := weight_pair (w := Frame.delivers r) there selected other.symm
    have one := orderly.delivers_le r
    apply Moment.delivered?_idle
    rw [load_cons] at both
    omega
  · exact idle_delivered? (orderly.told_idle told) found

theorem Delivering.step {t' : Nat} {μ : Moment V κ σ} {e : Effect V κ σ} {calls : List (Call V κ)}
    (delivering : s.Delivering r queue reply t base done) (orderly : s.Orderly)
    (found : s.moment? t' = some μ) (inside : t' = t → base.length ≤ μ.below.length)
    (yields : μ.Yields client e calls) :
    (s.after t' μ.below e calls).Delivering r queue reply t base
      (done ++ (μ.delivered? r).toList) := by
  have alone := delivering.alone orderly found
  obtain ⟨thread, there, delivery⟩ := delivering
  obtain ⟨store, -, selected⟩ := moment?_eq_some found
  by_cases same : t' = t
  · subst same
    cases there.symm.trans selected
    have single : load (Frame.delivers r) (μ.frame :: μ.below) ≤ 1 :=
      Nat.le_trans (load_le selected) (orderly.delivers_le r)
    rw [← store] at delivery
    exact ⟨_, after_self found e calls, delivery.step (inside rfl) single yields⟩
  · have later := yields.touches.later
    rw [store] at later
    rw [alone same, Option.toList_none, List.append_nil]
    exact ⟨thread, after_other there same _ e calls, delivery.later later⟩

theorem Delivering.begin (delivering : s.Delivering r queue reply t base done) (c : Call V κ) :
    (s.begin c).Delivering r queue reply t base done := by
  obtain ⟨thread, there, delivery⟩ := delivering
  exact ⟨thread, begin_other there c, delivery⟩

theorem Delivering.pass (delivering : s.Delivering r queue reply t base done) (now : Nat) :
    (s.pass now).Delivering r queue reply t base done := by
  obtain ⟨thread, there, delivery⟩ := delivering
  exact ⟨thread, there, delivery.later (Store.later_of_results rfl)⟩

end System

/-- A delivery through a run in which its thread does nothing else. -/
theorem Run.delivering {client : Client V κ σ} {s s₁ : System V κ σ} {h : List (Moment V κ σ)}
    {r : ResultId} {queue : List (Task κ)} {reply : Answer V} {t : Nat} {base : List (Frame V κ)}
    (run : Run client Call.Fair s h s₁) (sound : s.Sound) (orderly : s.Orderly)
    (start : s.threads[t]? = some ⟨.ok .unit, .deliver r queue none reply :: base⟩)
    (inside : ∀ μ ∈ h, μ.thread = t → base.length ≤ μ.below.length) :
    s₁.Delivering r queue reply t base (delivered r h) ∧
      ∀ μ ∈ h, μ.thread ≠ t → μ.delivered? r = none := by
  induction run with
  | start => exact ⟨⟨_, start, .between rfl⟩, by simp⟩
  | @step h s₁ s₂ t' μ run found step fair ih =>
    obtain ⟨μ', e, calls, moment, yields, rfl⟩ := System.step_yields step
    cases found.symm.trans moment
    obtain ⟨delivering, alone⟩ := ih fun μ member => inside μ (by simp [member])
    have orderly := run.orderly sound orderly
    have thread := (System.moment?_eq_some found).2.1
    constructor
    · rw [delivered_concat]
      apply delivering.step orderly found _ yields
      intro same
      exact inside μ (by simp) (thread.trans same)
    · intro μ' member other
      rcases List.mem_append.mp member with member | member
      · exact alone μ' member other
      · cases List.mem_singleton.mp member
        exact delivering.alone orderly found fun same => other (thread.trans same)
  | begin c _ _ ih =>
    obtain ⟨delivering, alone⟩ := ih inside
    exact ⟨delivering.begin c, alone⟩
  | pass now _ _ ih =>
    obtain ⟨delivering, alone⟩ := ih inside
    exact ⟨delivering.pass now, alone⟩

end Quorate
