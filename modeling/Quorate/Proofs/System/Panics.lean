import Mathlib.Data.List.Induction
import Quorate.Proofs.System.Tally

/-! Panics among the callbacks of a result. A callback that panics keeps none of the later ones from
running, nor the readers from being told; once all of that is done, the delivery resumes the first
panic among them. -/

set_option autoImplicit false

namespace Quorate

variable {V κ σ : Type}

/-- The callbacks that deliveries of a result have handed over, each with what its thread has come
down to the delivery with, once it has: its answer or its panic, if it runs in place. -/
def ran (r : ResultId) : List (Moment V κ σ) → List (Task κ × Option (Return V))
  | [] => []
  | μ :: later =>
    match μ.delivered? r with
    | some task => (task, μ.ending? later) :: ran r later
    | none => ran r later

/-- The panic that a callback has ended in. -/
def panic? (outcome : Task κ × Option (Return V)) : Option Panic :=
  match outcome.2 with
  | some (.error p) => some p
  | _ => none

/-- The first panic among some callbacks. -/
def firstPanic (outcomes : List (Task κ × Option (Return V))) : Option Panic :=
  outcomes.findSome? panic?

/-- What a call goes on with after callbacks that ended in these ways. -/
def concluded (reply : Answer V) (outcomes : List (Task κ × Option (Return V))) : Return V :=
  match firstPanic outcomes with
  | some p => .error p
  | none => .ok reply

/-- Every callback among some has ended. -/
def AllEnded (outcomes : List (Task κ × Option (Return V))) : Prop :=
  ∀ outcome ∈ outcomes, outcome.2 ≠ none

/-- What a step of the thread that delivers above `depth` frames adds to what is known of the
callbacks. -/
def noted (r : ResultId) (depth : Nat) (outcomes : List (Task κ × Option (Return V)))
    (μ : Moment V κ σ) : List (Task κ × Option (Return V)) :=
  match μ.delivered? r with
  | some task => outcomes ++ [(task, none)]
  | none =>
    if μ.below.length ≤ depth then
      outcomes.map fun outcome => (outcome.1, outcome.2.or (some μ.result))
    else outcomes

section

variable {r : ResultId} {h : List (Moment V κ σ)} {μ : Moment V κ σ} {t depth : Nat}
  {outcomes : List (Task κ × Option (Return V))}

/-- The callbacks that ran are those that were delivered. -/
theorem map_ran (r : ResultId) (h : List (Moment V κ σ)) :
    (ran r h).map Prod.fst = delivered r h := by
  induction h with
  | nil => rfl
  | cons μ h ih => cases handed : μ.delivered? r <;> simp_all [ran, delivered]

/-- What is known of callbacks that were all handed over by thread `t` above `depth` frames and one
more grows with the steps of that thread. -/
theorem ran_concat
    (placed : ∀ μ ∈ h, μ.delivered? r ≠ none → μ.thread = t ∧ μ.below.length = depth + 1)
    (own : μ.thread = t) (here : μ.delivered? r ≠ none → μ.below.length = depth + 1) :
    ran r (h ++ [μ]) = noted r depth (ran r h) μ := by
  induction h with
  | nil => cases handed : μ.delivered? r <;> simp [ran, noted, handed, Moment.ending?]
  | cons ν h ih =>
    have ih := ih fun μ member => placed μ (List.mem_cons_of_mem ν member)
    cases hands : ν.delivered? r with
    | none => simpa only [List.cons_append, ran, hands] using ih
    | some task =>
      obtain ⟨thread, height⟩ := placed ν List.mem_cons_self (by simp [hands])
      simp only [List.cons_append, ran, hands, ih, Moment.ending?_concat, own, thread, height,
        true_and]
      unfold noted
      cases handed : μ.delivered? r with
      | some task =>
        have height := here (by simp [handed])
        rw [if_neg (by omega), Option.or_none]
        rfl
      | none =>
        by_cases low : μ.below.length ≤ depth
        · rw [if_pos (by omega), if_pos low, if_pos low]
          rfl
        · rw [if_neg (by omega), if_neg low, if_neg low, Option.or_none]

/-- A step of another thread adds nothing. -/
theorem ran_concat_other (placed : ∀ μ ∈ h, μ.delivered? r ≠ none → μ.thread = t)
    (other : μ.thread ≠ t) (idle : μ.delivered? r = none) : ran r (h ++ [μ]) = ran r h := by
  induction h with
  | nil => simp [ran, idle]
  | cons ν h ih =>
    have ih := ih fun μ member => placed μ (List.mem_cons_of_mem ν member)
    cases hands : ν.delivered? r with
    | none => simpa only [List.cons_append, ran, hands] using ih
    | some task =>
      have thread := placed ν List.mem_cons_self (by simp [hands])
      simp only [List.cons_append, ran, hands, ih, Moment.ending?_concat, thread, other,
        false_and, if_false, Option.or_none]

theorem concluded_eq_error_iff {reply : Answer V} (p : Panic) :
    concluded reply outcomes = .error p ↔ outcomes.findSome? panic? = some p := by
  unfold concluded firstPanic
  split
  next p' first => simp [first]
  next none => simp [none]

theorem concluded_eq_ok_iff {reply : Answer V} (ended : AllEnded outcomes) :
    concluded reply outcomes = .ok reply ↔ ∀ outcome ∈ outcomes, ∃ a, outcome.2 = some (.ok a) := by
  have calm : firstPanic outcomes = none ↔
      ∀ outcome ∈ outcomes, ∃ a, outcome.2 = some (.ok a) := by
    rw [firstPanic, List.findSome?_eq_none_iff]
    refine forall₂_congr fun outcome member => ?_
    obtain ⟨task, returned⟩ := outcome
    cases returned with
    | none => exact absurd rfl (ended _ member)
    | some returned => cases returned <;> simp [panic?]
  rw [← calm]
  unfold concluded
  cases firstPanic outcomes <;> simp

theorem firstPanic_append (outcomes : List (Task κ × Option (Return V)))
    (last : Task κ × Option (Return V)) :
    firstPanic (outcomes ++ [last]) = (firstPanic outcomes).or (panic? last) := by
  cases panic : panic? last <;> simp [firstPanic, List.findSome?_append, panic]

theorem AllEnded.append (ended : AllEnded outcomes) (task : Task κ) (result : Return V) :
    AllEnded (outcomes ++ [(task, some result)]) := by
  intro outcome member
  rcases List.mem_append.mp member with member | member
  · exact ended outcome member
  · rw [List.mem_singleton.mp member]
    exact Option.some_ne_none _

theorem noted_handed {task : Task κ} (handed : μ.delivered? r = some task) :
    noted r depth outcomes μ = outcomes ++ [(task, none)] := by
  simp only [noted, handed]

/-- A step further up says nothing of the callbacks. -/
theorem noted_above (idle : μ.delivered? r = none) (above : depth < μ.below.length) :
    noted r depth outcomes μ = outcomes := by
  simp only [noted, idle, if_neg (Nat.not_le.mpr above)]

/-- A step below the callbacks says nothing of those that have ended. -/
theorem AllEnded.noted (ended : AllEnded outcomes) (idle : μ.delivered? r = none) :
    noted r depth outcomes μ = outcomes := by
  have same : outcomes.map (fun outcome => (outcome.1, outcome.2.or (some μ.result))) =
      outcomes := by
    rw [List.map_congr_left (g := id), List.map_id]
    intro outcome member
    obtain ⟨result, some⟩ := Option.ne_none_iff_exists'.mp (ended outcome member)
    rw [some, Option.some_or, ← some]
    rfl
  simp only [Quorate.noted, idle, same, ite_self]

/-- It says how the last one has ended. -/
theorem AllEnded.noted_last (ended : AllEnded outcomes) (idle : μ.delivered? r = none)
    (low : μ.below.length ≤ depth) (task : Task κ) :
    Quorate.noted r depth (outcomes ++ [(task, none)]) μ =
      outcomes ++ [(task, some μ.result)] := by
  have same : Quorate.noted r depth outcomes μ = outcomes := ended.noted idle
  simp only [Quorate.noted, idle, if_pos low] at same ⊢
  rw [List.map_append, same]
  rfl

end

/-- How a thread stands that delivers the callbacks `queue` of `r` above the frames `base`, of which
some have run and ended in the given ways. The delivery remembers the first panic among them. -/
inductive Reported (r : ResultId) (queue : List (Task κ)) (reply : Answer V)
    (base : List (Frame V κ)) : List (Task κ × Option (Return V)) → Thread V κ → Prop where
  | between {a : Answer V} {outcomes : List (Task κ × Option (Return V))} {rest : List (Task κ)} :
      AllEnded outcomes → outcomes.map Prod.fst ++ rest = queue →
      Reported r queue reply base outcomes
        ⟨.ok a, .deliver r rest (firstPanic outcomes) reply :: base⟩
  | ready {outcomes : List (Task κ × Option (Return V))} {task : Task κ} {rest : List (Task κ)}
      {thread : Thread V κ} : AllEnded outcomes → outcomes.map Prod.fst ++ task :: rest = queue →
      Handover task (.deliver r rest (firstPanic outcomes) reply :: base) false thread →
      Reported r queue reply base outcomes thread
  /-- The callback has not yet ended, or the delivery is about to note how it did. -/
  | running {outcomes : List (Task κ × Option (Return V))} {task : Task κ} {rest : List (Task κ)}
      {thread : Thread V κ} : AllEnded outcomes → outcomes.map Prod.fst ++ task :: rest = queue →
      Handover task (.deliver r rest (firstPanic outcomes) reply :: base) true thread →
      Reported r queue reply base (outcomes ++ [(task, none)]) thread
  | ended {outcomes : List (Task κ × Option (Return V))} :
      AllEnded outcomes → outcomes.map Prod.fst = queue →
      Reported r queue reply base outcomes ⟨concluded reply outcomes, base⟩

namespace Reported

variable {client : Client V κ σ} {r : ResultId} {queue : List (Task κ)} {reply : Answer V}
  {base : List (Frame V κ)} {outcomes : List (Task κ × Option (Return V))} {thread : Thread V κ}
  {μ : Moment V κ σ} {e : Effect V κ σ} {calls : List (Call V κ)}

/-- The delivery's own frame goes on with the next callback, or tells the readers and is over. -/
theorem step_between {store : Store V κ σ} {t : Nat} {a : Answer V} {rest : List (Task κ)}
    (ended : AllEnded outcomes) (all : outcomes.map Prod.fst ++ rest = queue)
    (yields : Moment.Yields client
      ⟨store, t, .ok a, .deliver r rest (firstPanic outcomes) reply, base⟩ e calls) :
    Reported r queue reply base outcomes ⟨e.result, e.frames ++ base⟩ := by
  have handsOn := yields.handsOn
  generalize e.result = result' at handsOn ⊢
  generalize e.frames = frames at handsOn ⊢
  cases handsOn with
  | next => exact .ready ended all .ready
  | tells => exact .ended ended (by simpa using all)

/-- What the delivery's own frame does when its callback has come down to it: it goes on, and if the
callback panicked, it takes note of that. -/
theorem step_own {store : Store V κ σ} {t : Nat} {result : Return V} {task : Task κ}
    {rest : List (Task κ)} (ended : AllEnded outcomes)
    (all : outcomes.map Prod.fst ++ task :: rest = queue)
    (yields : Moment.Yields client
      ⟨store, t, result, .deliver r rest (firstPanic outcomes) reply, base⟩ e calls) :
    Reported r queue reply base (outcomes ++ [(task, some result)])
      ⟨e.result, e.frames ++ base⟩ := by
  have ended := ended.append task result
  have all : (outcomes ++ [(task, some result)]).map Prod.fst ++ rest = queue := by
    simpa using all
  have first := firstPanic_append outcomes (task, some result)
  cases result with
  | ok a =>
    rw [show panic? (task, some (.ok a : Return V)) = none from rfl, Option.or_none] at first
    rw [← first] at yields
    exact step_between ended all yields
  | error p =>
    have next : firstPanic (outcomes ++ [(task, some (.error p))]) =
        some ((firstPanic outcomes).getD p) := by
      rw [first]
      cases firstPanic outcomes <;> rfl
    have goes : Reported r queue reply base (outcomes ++ [(task, some (.error p))])
        ⟨.ok .unit, .deliver r rest (firstPanic (outcomes ++ [(task, some (.error p))])) reply ::
          base⟩ := .between ended all
    rw [next] at goes
    have handsOn := yields.handsOn
    generalize e.result = result' at handsOn ⊢
    generalize e.frames = frames at handsOn ⊢
    cases handsOn with
    | notes => exact goes

/-- The frame that delivers has no delivery of the same result below it. -/
theorem idle_own {rest : List (Task κ)} {first : Option Panic}
    (frame : μ.frame = .deliver r rest first reply)
    (single : load (Frame.delivers r) (μ.frame :: μ.below) ≤ 1) : μ.delivered? r = none := by
  apply Moment.delivered?_idle
  simp only [frame, load_cons, Frame.delivers, if_true] at single
  omega

theorem step (reported : Reported r queue reply base outcomes ⟨μ.result, μ.frame :: μ.below⟩)
    (inside : base.length ≤ μ.below.length)
    (single : load (Frame.delivers r) (μ.frame :: μ.below) ≤ 1) (yields : μ.Yields client e calls) :
    Reported r queue reply base (noted r base.length outcomes μ)
        ⟨e.result, e.frames ++ μ.below⟩ ∧
      (μ.delivered? r ≠ none → μ.below.length = base.length + 1) := by
  generalize same : Thread.mk μ.result (μ.frame :: μ.below) = thread at reported
  cases reported with
  | @between a _ rest ended all =>
    obtain ⟨store, t, result, frame, below⟩ := μ
    cases same
    have idle := idle_own rfl single
    rw [ended.noted idle]
    exact ⟨step_between ended all yields, fun hands => absurd idle hands⟩
  | @ready _ task rest _ ended all handover =>
    subst same
    have height : μ.below.length = base.length + 1 := by
      generalize same : Thread.mk μ.result (μ.frame :: μ.below) = thread at handover
      cases handover with
      | ready =>
        obtain ⟨-, below⟩ := List.cons.inj (congrArg Thread.frames same)
        simp [below]
    obtain ⟨after, hands⟩ := Delivery.step_above handover (Nat.le_of_eq height.symm) single yields
    rw [noted_handed (Option.toList_eq_singleton_iff.mp hands)]
    exact ⟨.running ended all after, fun _ => height⟩
  | @running outcomes task rest _ ended all handover =>
    subst same
    by_cases higher : base.length + 1 ≤ μ.below.length
    · obtain ⟨after, hands⟩ := Delivery.step_above handover higher single yields
      have idle : μ.delivered? r = none := Option.toList_eq_nil_iff.mp hands
      rw [noted_above idle higher]
      exact ⟨.running ended all after, fun hands => absurd idle hands⟩
    · obtain ⟨above, frames⟩ := handover.frames
      cases above with
      | nil =>
        obtain ⟨frame, below⟩ := List.cons.inj frames
        have idle := idle_own frame single
        rw [ended.noted_last idle (by omega)]
        refine ⟨?_, fun hands => absurd idle hands⟩
        obtain ⟨store, t, result, frame', below'⟩ := μ
        subst frame below
        exact step_own ended all yields
      | cons f above =>
        have below : μ.below = above ++ .deliver r _ _ reply :: base := (List.cons.inj frames).2
        rw [below, List.length_append, List.length_cons] at higher
        omega
  | ended _ _ =>
    have lengths := congrArg (fun thread => thread.frames.length) same
    simp only [List.length_cons] at lengths
    omega

/-- A thread that is back where it began has run all callbacks, and goes on accordingly. -/
theorem returned {result : Return V}
    (reported : Reported r queue reply base outcomes ⟨result, base⟩) :
    AllEnded outcomes ∧ outcomes.map Prod.fst = queue ∧ result = concluded reply outcomes := by
  have higher {task : Task κ} {rest : List (Task κ)} {first : Option Panic} {gone : Bool}
      (handover : Handover task (.deliver r rest first reply :: base) gone ⟨result, base⟩) :
      False := by
    obtain ⟨above, frames⟩ := handover.frames
    have lengths := congrArg List.length frames
    simp only [List.length_append, List.length_cons] at lengths
    omega
  generalize same : Thread.mk result base = thread at reported
  cases reported with
  | between _ all =>
    have lengths := congrArg (fun thread => thread.frames.length) same
    simp at lengths
  | ready _ _ handover => subst same; exact (higher handover).elim
  | running _ _ handover => subst same; exact (higher handover).elim
  | ended ended all =>
    cases same
    exact ⟨ended, all, rfl⟩

/-- Right above where it began, the thread has no callback running. -/
theorem between_callbacks {result : Return V} {f : Frame V κ}
    (reported : Reported r queue reply base outcomes ⟨result, f :: base⟩) :
    ∃ rest first, f = .deliver r rest first reply := by
  have own {task : Task κ} {rest : List (Task κ)} {first : Option Panic} {gone : Bool}
      (handover : Handover task (.deliver r rest first reply :: base) gone ⟨result, f :: base⟩) :
      ∃ rest first, f = .deliver r rest first reply := by
    obtain ⟨above, frames⟩ := handover.frames
    cases above with
    | nil => exact ⟨rest, first, (List.cons.inj frames).1⟩
    | cons f' above =>
      have lengths := congrArg List.length frames
      simp only [List.cons_append, List.length_cons, List.length_append] at lengths
      omega
  generalize same : Thread.mk result (f :: base) = thread at reported
  cases reported with
  | between => cases same; exact ⟨_, _, rfl⟩
  | ready _ _ handover => subst same; exact own handover
  | running _ _ handover => subst same; exact own handover
  | ended =>
    have lengths := congrArg (fun thread => thread.frames.length) same
    simp at lengths

end Reported

/-- The callbacks that a delivery has run, through a run in which its thread does nothing below. -/
theorem Run.reported {client : Client V κ σ} {s s₁ : System V κ σ} {h : List (Moment V κ σ)}
    {r : ResultId} {queue : List (Task κ)} {reply : Answer V} {t : Nat} {base : List (Frame V κ)}
    (run : Run client Call.Fair s h s₁) (sound : s.Sound) (orderly : s.Orderly)
    (start : s.threads[t]? = some ⟨.ok .unit, .deliver r queue none reply :: base⟩)
    (inside : ∀ μ ∈ h, μ.thread = t → base.length ≤ μ.below.length) :
    (∃ thread, s₁.threads[t]? = some thread ∧ Reported r queue reply base (ran r h) thread) ∧
      ∀ μ ∈ h, μ.delivered? r ≠ none → μ.thread = t ∧ μ.below.length = base.length + 1 := by
  induction run with
  | start => exact ⟨⟨_, start, .between nofun rfl⟩, nofun⟩
  | @step h s₁ s₂ t' μ run found step fair ih =>
    have alone := ((run.step found step fair).delivering sound orderly start inside).2 μ (by simp)
    obtain ⟨μ', e, calls, moment, yields, rfl⟩ := System.step_yields step
    cases found.symm.trans moment
    obtain ⟨⟨thread, there, reported⟩, placed⟩ := ih fun μ member => inside μ (by simp [member])
    obtain ⟨-, moved, selected⟩ := System.moment?_eq_some found
    have grown (here : μ.delivered? r ≠ none → μ.thread = t ∧ μ.below.length = base.length + 1) :
        ∀ ν ∈ h ++ [μ], ν.delivered? r ≠ none →
          ν.thread = t ∧ ν.below.length = base.length + 1 := by
      intro ν member hands
      rcases List.mem_append.mp member with member | member
      · exact placed ν member hands
      · cases List.mem_singleton.mp member
        exact here hands
    by_cases same : t' = t
    · subst same
      cases there.symm.trans selected
      have single : load (Frame.delivers r) (μ.frame :: μ.below) ≤ 1 :=
        Nat.le_trans (System.load_le selected) ((run.orderly sound orderly).delivers_le r)
      obtain ⟨next, here⟩ := reported.step (inside μ (by simp) moved) single yields
      rw [ran_concat placed moved here]
      exact ⟨⟨_, System.after_self found e calls, next⟩, grown fun hands => ⟨moved, here hands⟩⟩
    · have other : μ.thread ≠ t := by rw [moved]; exact same
      have idle := alone other
      rw [ran_concat_other (fun ν member hands => (placed ν member hands).1) other idle]
      exact ⟨⟨thread, System.after_other there same _ e calls, reported⟩,
        grown fun hands => absurd idle hands⟩
  | begin c _ _ ih =>
    obtain ⟨⟨thread, there, reported⟩, placed⟩ := ih inside
    exact ⟨⟨thread, System.begin_other there c, reported⟩, placed⟩
  | pass now _ _ ih => exact ih inside

section

variable {client : Client V κ σ} {s s₁ : System V κ σ} {h : List (Moment V κ σ)} {r : ResultId}
  {t : Nat}

/-- The delivery's own frame never waits. -/
theorem System.deliver_goes {result : Return V} {rest : List (Task κ)} {first : Option Panic}
    {reply : Answer V} {base : List (Frame V κ)} {x : Result V κ}
    (there : s.store.results[r]? = some x) (free : x.isHeld = false)
    (at' : s.threads[t]? = some ⟨result, .deliver r rest first reply :: base⟩) :
    s.step client t ≠ none := by
  have resumes : s.store.resume client result (.deliver r rest first reply) ≠ none := by
    cases result with
    | error p => simp [Store.resume, Store.unwind, Store.continuing]
    | ok a =>
      cases rest with
      | cons task rest => simp [Store.resume, Store.proceed, Store.continuing]
      | nil =>
        cases first <;> simp [Store.resume, Store.proceed, there, free, Store.answering,
          Store.raising]
  obtain ⟨e, effect⟩ := Option.ne_none_iff_exists'.mp resumes
  rw [System.step_of_resume at' effect]
  exact Option.some_ne_none _

theorem Result.Direct.free {x x' : Result V κ} (direct : x.Direct) (later : x.Later x') :
    x'.isHeld = false := by
  obtain ⟨cell, kind⟩ := x
  obtain ⟨cell', kind'⟩ := x'
  have kinds := later.kind
  cases kind <;> cases kind' <;> first | rfl | exact kinds.elim | exact direct.elim

/-- The call that ends a result goes on to deliver its callbacks. -/
theorem Spans.delivers {c : Call V κ} {s' : System V κ σ} {base : List (Frame V κ)} {x : Result V κ}
    (spans : Spans client c s t base s' h s₁) (ends : c.Ends r) (sound : s.Sound)
    (orderly : s.Orderly) (there : s.store.results[r]? = some x) (direct : x.Direct)
    (pending : x.cell.state.isPending = true)
    (ended : (x.touch (.ok .unit) (.call c)).cell.state.isPending = false) :
    s'.threads[t]? = some ⟨.ok .unit, .deliver r x.cell.queue none (.flag true) :: base⟩ := by
  obtain ⟨e, effect, store, thread⟩ := spans.entered (by rintro c' rfl; exact ends)
  have after := spans.touched there ends
  rw [store] at after
  cases Store.enter_enters effect ends (spans.ordered sound orderly).1 there direct with
  | leaves unchanged =>
    obtain ⟨x', there', cell⟩ := unchanged
    cases after.symm.trans there'
    rw [cell, pending] at ended
    cases ended
  | ends _ _ result frames =>
    rw [result, frames] at thread
    exact thread

end

/-- The state that a call gives to the result that it ends. -/
inductive Call.Applies (x : Result V κ) : Call V κ → State V → Prop where
  | completed {r : ResultId} {state : State V} : Applies x (.complete r state) state
  | cancelled {r : ResultId} : x.kind = .settable → Applies x (.cancel r) .cancelled
  /-- The last acknowledgement hands the value of a latch over. -/
  | counted {r : ResultId} {v : V} {missing : Nat} : x.kind = .latch ⟨missing, some v⟩ →
      missing ≤ 1 → Applies x (.countDown r) (.succeeded v)

theorem Call.Ends.applies {c : Call V κ} {r : ResultId} {x : Result V κ} (ends : c.Ends r)
    (direct : x.Direct) (pending : x.cell.state.isPending = true)
    (ended : (x.touch (.ok .unit) (.call c)).cell.state.isPending = false) :
    c.Applies x (x.touch (.ok .unit) (.call c)).cell.state := by
  cases c with
  | complete r' state =>
    have same : (x.touch (.ok .unit) (.call (.complete r' state))).cell.state = state := by
      simp [Result.touch, Result.complete, Cell.transition, pending]
    rw [same]
    exact .completed
  | cancel r' =>
    obtain ⟨cell, kind⟩ := x
    cases kind with
    | settable =>
      have same : (Result.touch ⟨cell, .settable⟩ (.ok .unit)
          (.call (.cancel r') : Frame V κ)).cell.state = .cancelled := by
        simp only at pending
        simp [Result.touch, Result.cancel, Result.complete, Cell.transition, pending]
      rw [same]
      exact .cancelled rfl
    | latch l => exact absurd ended (by simpa [Result.touch, Result.cancel] using pending)
    | _ => exact direct.elim
  | countDown r' =>
    obtain ⟨cell, kind⟩ := x
    have still (same : Result.countDown ⟨cell, kind⟩ = ⟨cell, kind⟩ ∨
        ∃ l, Result.countDown ⟨cell, kind⟩ = ⟨cell, .latch l⟩) : False := by
      have kept : (Result.countDown ⟨cell, kind⟩).cell = cell := by
        rcases same with same | ⟨l, same⟩ <;> rw [same]
      have ended : (Result.countDown ⟨cell, kind⟩).cell.state.isPending = false := ended
      rw [kept] at ended
      cases ended.symm.trans pending
    cases kind with
    | settable => exact (still (.inl rfl)).elim
    | latch l =>
      obtain ⟨missing, value⟩ := l
      rcases Nat.lt_or_ge 1 missing with more | last
      · refine (still (.inr ⟨⟨missing - 1, value⟩, ?_⟩)).elim
        simp only [Result.countDown, Latch.acknowledge_counted pending more]
      · cases value with
        | none =>
          refine (still (.inr ⟨⟨missing - 1, none⟩, ?_⟩)).elim
          simp only [Result.countDown, Latch.acknowledge_empty pending]
        | some v =>
          have same : (Result.touch ⟨cell, .latch ⟨missing, some v⟩⟩ (.ok .unit)
              (.call (.countDown r') : Frame V κ)).cell.state = .succeeded v := by
            simp only [Result.touch, Result.countDown, Latch.acknowledge_full pending last]
          rw [same]
          exact .counted rfl last
    | _ => exact direct.elim
  | _ => exact ends.elim

end Quorate
