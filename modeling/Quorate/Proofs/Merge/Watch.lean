import Quorate.Proofs.System.Orderly
import Quorate.Proofs.System.Queue

/-! The callbacks by which a merge looks at its sources, counted over all threads and queues. Every
step passes them on or loses them; none is made but by the construction of the merge. -/

set_option autoImplicit false

namespace Quorate

variable {V κ σ : Type}

/-- Counts a callback that looks at position `i` of the merge `m`. -/
def Callback.watches (m : ResultId) (i : Nat) : Callback κ → Nat
  | .observe merge index => if merge = m ∧ index = i then 1 else 0
  | _ => 0

def Task.watches (m : ResultId) (i : Nat) (task : Task κ) : Nat := task.callback.watches m i

/-- The callbacks in a list of tasks. -/
def watching (m : ResultId) (i : Nat) (tasks : List (Task κ)) : Nat :=
  (tasks.map (Task.watches m i)).sum

def Call.watches (m : ResultId) (i : Nat) : Call V κ → Nat
  | .register _ task | .perform task | .discard task => task.watches m i
  | .fork c => c.watches m i
  | _ => 0

/-- A merge that attaches itself has yet to make the callbacks for the sources that are left. -/
def Frame.watches (m : ResultId) (i : Nat) : Frame V κ → Nat
  | .call c => c.watches m i
  | .start callback => callback.watches m i
  | .deliver _ tasks _ _ | .sweep _ _ _ tasks => watching m i tasks
  | .lookup merge index | .query merge index _ | .commit merge index =>
    if merge = m ∧ index = i then 1 else 0
  | .attach merge sources index =>
    if merge = m ∧ index ≤ i ∧ i < index + sources.length then 1 else 0
  | _ => 0

def Result.watches (m : ResultId) (i : Nat) (x : Result V κ) : Nat := watching m i x.cell.queue

section

variable (m : ResultId) (i : Nat)

@[simp] theorem watching_nil : watching m i ([] : List (Task κ)) = 0 := rfl

@[simp] theorem watching_cons (task : Task κ) (tasks : List (Task κ)) :
    watching m i (task :: tasks) = task.watches m i + watching m i tasks := by simp [watching]

@[simp] theorem watching_append (tasks tasks' : List (Task κ)) :
    watching m i (tasks ++ tasks') = watching m i tasks + watching m i tasks' := by
  simp [watching]

end

/-- The queued callbacks of all results. -/
def Store.watches (m : ResultId) (i : Nat) (s : Store V κ σ) : Nat :=
  (s.results.map (Result.watches m i)).sum

def System.watches (m : ResultId) (i : Nat) (s : System V κ σ) : Nat :=
  s.weight (Frame.watches m i) + s.store.watches m i

theorem Store.Touches.watches {s : Store V κ σ} {e : Effect V κ σ} {result : Return V}
    {frame : Frame V κ} (touches : s.Touches result frame e) (m : ResultId) (i : Nat) :
    e.store.watches m i + (s.subject? frame).elim 0 (Result.watches m i) =
      s.watches m i +
        (s.subject? frame).elim 0 fun x => (x.touch result frame).watches m i := by
  have none : (frame.made? result).elim 0 (Result.watches m i) = 0 := by
    cases made : frame.made? result with
    | none => rfl
    | some x => simp [Result.watches, Frame.made?_queue made]
  have sum := touches.sum (Result.watches m i)
  rwa [none, Nat.add_zero] at sum

theorem Result.watches_cell {x x' : Result V κ} (same : x'.cell = x.cell) (m : ResultId) (i : Nat) :
    x'.watches m i = x.watches m i := by rw [watches, same, watches]

theorem Frame.Passive.watches {frame : Frame V κ} (passive : frame.Passive) (m : ResultId)
    (i : Nat) :
    frame.watches m i = 0 := by
  unfold Frame.Passive at passive
  unfold Frame.watches
  split
  next c => cases c <;> first | rfl | exact passive.elim
  next callback => cases callback <;> first | rfl | exact passive.elim
  next => exact passive.elim
  next => exact passive.elim
  next => exact passive.elim
  next => exact passive.elim
  next => exact passive.elim
  next => exact passive.elim
  next => rfl

theorem Frame.Ending.watches {frame : Frame V κ} {r : ResultId} (ending : frame.Ending r)
    (m : ResultId) (i : Nat) : frame.watches m i = 0 := by
  unfold Frame.Ending at ending
  split at ending <;> first | rfl | exact ending.elim

/-- The steps that can lose a callback. -/
inductive Loses (s : Store V κ σ) : Return V → Frame V κ → Prop where
  | refused {a : Answer V} {callback : Callback κ} {p : Panic} :
      Loses s (.ok a) (.call (.perform ⟨callback, .refuse p⟩))
  | discarded {a : Answer V} {task : Task κ} : Loses s (.ok a) (.call (.discard task))
  | handed {a : Answer V} {r : ResultId} {task : Task κ} {x : Result V κ} :
      s.results[r]? = some x → x.isForeign = true → Loses s (.ok a) (.call (.register r task))
  | missed {a : Answer V} {merge : ResultId} {index : Nat} {cell : Cell V (Task κ)}
      {gathering : Merge V κ} :
      s.results[merge]? = some ⟨cell, .merge gathering⟩ →
      gathering.gathering.sources[index]? = none → Loses s (.ok a) (.lookup merge index)
  | early {a : Answer V} {merge source : ResultId} {index : Nat} {x : Result V κ} :
      s.results[source]? = some x → x.isDone = false → Loses s (.ok a) (.query merge index source)
  | skipped {a : Answer V} {merge source : ResultId} {index : Nat} {x : Result V κ} :
      s.results[source]? = some x → x.isCancelled = true →
      Loses s (.ok a) (.query merge index source)
  | committed {o : Outcome V} {merge : ResultId} {index : Nat} :
      Loses s (.ok (.outcome o)) (.commit merge index)
  | stopped {a : Answer V} {merge : ResultId} {sources : List ResultId} {index : Nat}
      {x : Result V κ} :
      s.results[merge]? = some x → x.isDone = true → Loses s (.ok a) (.attach merge sources index)
  | dropped {p : Panic} {merge : ResultId} {sources : List ResultId} {all : Bool}
      {drained : List (Task κ)} : Loses s (.error p) (.sweep merge sources all drained)
  | unwound {p : Panic} {frame : Frame V κ} : frame.Unwound → Loses s (.error p) frame

@[simp] theorem Frame.watches_deliver (m : ResultId) (i : Nat) (r : ResultId)
    (tasks : List (Task κ)) (first : Option Panic) (reply : Answer V) :
    Frame.watches m i (.deliver r tasks first reply) = watching m i tasks := rfl

section

variable {client : Client V κ σ} {s : Store V κ σ} {result result' : Return V} {frame : Frame V κ}
  {frames : List (Frame V κ)} {m : ResultId} {i : Nat}

/-- A step passes the callbacks on that its frame carries and its result has queued, or it loses
those of its frame. It makes none, unless it makes the merge. -/
theorem Emits.watches (emits : Emits client s result frame result' frames)
    (silent : ∀ c, (Moment.mk s 0 result frame []).call? client = some c → c.watches m i = 0)
    (other : ∀ a merger sources, result = .ok a → frame = .call (.build merger sources) →
      s.results.length ≠ m) :
    (∀ merge index, frame ≠ .commit merge index) ∧
      load (Frame.watches m i) frames +
          ((s.subject? frame).elim 0 fun x => (x.touch result frame).watches m i) =
        frame.watches m i + (s.subject? frame).elim 0 (Result.watches m i) ∨
    Loses s result frame ∧
      load (Frame.watches m i) frames +
          ((s.subject? frame).elim 0 fun x => (x.touch result frame).watches m i) =
        (s.subject? frame).elim 0 (Result.watches m i) := by
  -- steps that leave the cell of their result move callbacks between frames only
  have still (same : ∀ x : Result V κ, (x.touch result frame).cell = x.cell) :
      ((s.subject? frame).elim 0 fun x => (x.touch result frame).watches m i) =
        (s.subject? frame).elim 0 (Result.watches m i) := by
    cases s.subject? frame with
    | none => rfl
    | some x => exact Result.watches_cell (same x) m i
  cases emits with
  | passive passive passives =>
    rw [passive.watches, load_passive (fun f p => p.watches m i) passives,
      still fun x => passive.cell x _]
    exact .inl ⟨by rintro merge index rfl; exact passive, rfl⟩
  | @calls _ _ _ c action =>
    have none := silent c (by simp [Moment.call?, action])
    simp [Store.subject?, Frame.subject?, Frame.watches, none]
  | @attempts _ _ _ c action =>
    have none := silent c (by simp [Moment.call?, action])
    simp [Store.subject?, Frame.subject?, Frame.watches, none]
  | keeps ending found same _ =>
    refine .inl ⟨ending.apart.1, ?_⟩
    simp [Store.subject?, ending.subject, found, Result.watches_cell same, ending.watches]
  | settles about found settles _ form =>
    rcases form with ending | ⟨index, o, rfl, rfl⟩ | rfl
    · refine .inl ⟨ending.apart.1, ?_⟩
      rw [ending.watches]
      simp [Store.subject?, about, found, Result.watches, settles.cell]
    · cases about
      refine .inr ⟨.committed, ?_⟩
      simp [Store.subject?, Frame.subject?, found, Result.watches, settles.cell]
    · cases about
      simp [Store.subject?, Frame.subject?, found, Result.watches, settles.cell, Frame.watches]
  | sweeps found pending =>
    simp [Store.subject?, Frame.subject?, found, Result.watches, Result.touch, Result.cancel,
      Cell.transition, pending, Frame.watches, Call.watches]
  | @serves a c code r x form found foreign =>
    obtain ⟨cell, kind⟩ := x
    cases kind with
    | foreign done cancelled =>
      rcases form with rfl | ⟨task, rfl⟩
      · simp [Store.subject?, Frame.subject?, found, Result.touch, Result.cancel, Frame.watches,
          Call.watches]
      · refine .inr ⟨.handed found foreign, ?_⟩
        simp [Store.subject?, Frame.subject?, found, Result.touch, Result.register,
          Result.isForeign, Frame.watches]
    | _ => cases foreign
  | queues found own waiting =>
    simp [Store.subject?, Frame.subject?, found, Result.watches, Result.touch, Result.register, own,
      Cell.enqueue, waiting, Frame.watches, Call.watches, Nat.add_comm]
  | performs found own drained =>
    simp [Store.subject?, Frame.subject?, found, Result.watches, Result.touch, Result.register, own,
      Cell.enqueue, drained, Frame.watches, Call.watches]
  | refuses => exact .inr ⟨.refused, by simp [Store.subject?, Frame.subject?]⟩
  | discards => exact .inr ⟨.discarded, by simp [Store.subject?, Frame.subject?]⟩
  | misses found missing =>
    exact .inr ⟨.missed found missing, by simp [Store.subject?, Frame.subject?]⟩
  | early found undone => exact .inr ⟨.early found undone, by simp [Store.subject?, Frame.subject?]⟩
  | skips found cancelled =>
    exact .inr ⟨.skipped found cancelled, by simp [Store.subject?, Frame.subject?]⟩
  | stops found done => exact .inr ⟨.stopped found done, by simp [Store.subject?, Frame.subject?]⟩
  | drops => exact .inr ⟨.dropped, by simp [Store.subject?, Frame.subject?]⟩
  | @records o merge index cell gathering found arrival =>
    have same : (Result.touch ⟨cell, .merge gathering⟩ (.ok (.outcome o))
        (.commit merge index)).cell = cell := by
      rcases arrival with arrival | ⟨g, arrival⟩ <;> simp [Result.touch, Result.commit, arrival]
    refine .inr ⟨.committed, ?_⟩
    simp [Store.subject?, Frame.subject?, found, Result.watches, same]
  | @rejects o merge index cell gathering p found arrival =>
    have same : (Result.touch ⟨cell, .merge gathering⟩ (.ok (.outcome o))
        (.commit merge index)).cell = cell := by
      rcases arrival with arrival | arrival <;> simp [Result.touch, Result.commit, arrival]
    refine .inr ⟨.committed, ?_⟩
    simp [Store.subject?, Frame.subject?, found, Result.watches, same]
  | @breaks o merge index cell gathering values g p f found arrival plain panics =>
    have same : (Result.touch ⟨cell, .merge gathering⟩ (.ok (.outcome o))
        (.commit merge index)).cell = cell := by
      simp [Result.touch, Result.commit, arrival, plain, panics]
    refine .inr ⟨.committed, ?_⟩
    simp [Store.subject?, Frame.subject?, found, Result.watches, same]
  | @merges o merge index cell gathering values g f found unlocked arrival code =>
    have same : (Result.touch ⟨cell, .merge gathering⟩ (.ok (.outcome o))
        (.commit merge index)).cell = cell := by
      simp [Result.touch, Result.commit, arrival, code]
    refine .inr ⟨.committed, ?_⟩
    simp [Store.subject?, Frame.subject?, found, Result.watches, same, Frame.watches]
  | @overtaken o merge x found terminal =>
    have same : (x.touch (.ok (.outcome o)) (.merging merge)).cell = x.cell := by
      obtain ⟨cell, kind⟩ := x
      cases kind with
      | merge gathering =>
        simp [Result.touch, Result.mergerEnded, Result.merged,
          (Cell.transition_eq_none_iff cell _).mpr terminal]
      | _ => rfl
    simp [Store.subject?, Frame.subject?, found, Result.watches, same, Frame.watches]
  | poisons found =>
    simp [Store.subject?, Frame.subject?, found, Result.watches, Result.touch, Result.mergerEnded,
      Frame.watches]
  | notifies found =>
    simp [Store.subject?, Frame.subject?, found, Result.watches, Result.touch, Result.notify,
      Cell.notify]
  | builds some =>
    simp [Store.subject?, Frame.subject?, Frame.watches, Call.watches, other _ _ _ rfl rfl]
  | opens form =>
    rcases form with ⟨f, p, -, -, -, rfl⟩ | ⟨f, o, -, -, -, rfl⟩ | ⟨f, -, -, rfl⟩ <;>
      simp [Store.subject?, Frame.subject?, Frame.watches, Call.watches]
  | completes =>
    simp [Store.subject?, Frame.subject?, Frame.watches, Call.watches]
  | @registers a merge source sources index =>
    -- one of the callbacks that are yet to be made is made
    refine .inl ⟨by simp, ?_⟩
    simp only [Store.subject?, Frame.subject?, Frame.watches, Call.watches, Task.watches,
      Callback.watches, load_cons, load_nil, List.length_cons, Option.bind_none, Option.elim_none]
    by_cases same : merge = m
    · simp only [same, true_and]
      split <;> split <;> split <;> omega
    · simp [same]
  | @unwinds p frame through =>
    refine .inr ⟨.unwound through, ?_⟩
    rw [still fun x => Result.touch_error_cell]
    simp
  | catches form =>
    rcases form with rfl | rfl <;> simp [Store.subject?, Frame.subject?, Frame.watches]
  | @survives p r tasks first reply =>
    rw [still fun x => Result.touch_error_cell]
    simp
  | _ =>
    simp [Store.subject?, Frame.subject?, Frame.watches, Call.watches, Task.watches,
      Callback.watches]

end

/-- A call that respects what producers hold and carries no callback of the merge `m`, as only the
construction of the merge makes those. -/
def Call.Blind (m : ResultId) (s : Store V κ σ) (c : Call V κ) : Prop :=
  c.Fair s ∧ ∀ i, c.watches m i = 0

section

variable {client : Client V κ σ} {s s₁ : System V κ σ} {t : Nat} {μ : Moment V κ σ}
  {e : Effect V κ σ} {calls : List (Call V κ)} {m : ResultId}

theorem Moment.Yields.watches (yields : μ.Yields client e calls) (found : s.moment? t = some μ)
    (blind : ∀ c, μ.call? client = some c → c.Blind m μ.store)
    (other : ∀ a merger sources, μ.result = .ok a → μ.frame = .call (.build merger sources) →
      s.store.results.length ≠ m) (i : Nat) :
    (∀ merge index, μ.frame ≠ .commit merge index) ∧
        (s.after t μ.below e calls).watches m i = s.watches m i ∨
      Loses s.store μ.result μ.frame ∧
        (s.after t μ.below e calls).watches m i + μ.frame.watches m i = s.watches m i := by
  have store := (System.moment?_eq_some found).1
  have stored := yields.touches.watches m i
  have weighed := System.weight_after (Frame.watches m i) e calls found
  rw [store] at stored
  simp only [System.watches]
  have same : (s.after t μ.below e calls).store = e.store := rfl
  rw [same]
  rcases yields.emits with ⟨rfl, emits⟩ | ⟨a, b, c, answered, frame, -, frames, rfl⟩
  · have silent : ∀ c, (Moment.mk s.store 0 μ.result μ.frame []).call? client = some c →
        c.watches m i = 0 := fun c made => (blind c (by rw [← made, ← store]; rfl)).2 i
    rw [store] at emits
    simp only [List.map_nil, load_nil] at weighed
    rcases emits.watches silent other with ⟨apart, same⟩ | ⟨loses, lost⟩
    · exact .inl ⟨apart, by omega⟩
    · exact .inr ⟨loses, by omega⟩
  · have about : s.store.subject? μ.frame = none := by rw [frame]; rfl
    have carried : Frame.watches m i μ.frame = c.watches m i := by rw [frame]; rfl
    rw [about] at stored
    rw [frames, carried] at weighed
    simp only [Option.elim_none, load_nil, List.map_cons, List.map_nil, load_cons] at stored weighed
    have begun : Frame.watches m i (Frame.call c) = c.watches m i := rfl
    exact .inl ⟨by rw [frame]; simp, by omega⟩

/-- Before a merge is made, there are no callbacks of it. -/
theorem Run.unwatched {h : List (Moment V κ σ)} (run : Run client (Call.Blind m) s h s₁)
    (before : s₁.store.results.length ≤ m) (i : Nat) (none : s.watches m i = 0) :
    s₁.watches m i = 0 := by
  induction run with
  | start => exact none
  | @step h s₁ s₂ t μ run found step blind ih =>
    obtain ⟨μ', e, calls, moment, yields, rfl⟩ := System.step_yields step
    cases found.symm.trans moment
    have length := yields.touches.length
    rw [(System.moment?_eq_some moment).1] at length
    have within : e.store.results.length ≤ m := before
    have ih := ih (by omega)
    -- a merge with the number `m` would have made the store longer than it is
    have other : ∀ a merger sources, μ.result = .ok a →
        μ.frame = .call (.build merger sources) → s₁.store.results.length ≠ m := by
      intro a merger sources answered frame
      simp only [answered, frame, Frame.made?, Option.toList_some, List.length_singleton] at length
      omega
    rcases yields.watches found blind other i with ⟨-, same⟩ | ⟨-, fewer⟩
    · rw [same]; exact ih
    · omega
  | @begin h s₁ c _ blind ih =>
    have ih := ih before
    simp only [System.watches, System.weight_begin] at ih ⊢
    have carried : Frame.watches m i (Frame.call c) = 0 := blind.2 i
    show _ + Store.watches m i s₁.store = 0
    omega
  | pass now _ _ ih => exact ih before

end

end Quorate
