import Quorate.Proofs.Merge.Cancel
import Quorate.Proofs.System.Ledger

/-! What a run has done with the callbacks of a result of any kind. They wait until the result
ends, then for the sources of a merge that was cancelled, and then they are delivered. Readers are
told when the last of them has left the thread that delivers. -/

set_option autoImplicit false

namespace Quorate

variable {V κ σ : Type}

/-- The thread that handed over a callback of a result has come down below it, every time. So one
that runs in its place, or is waited for, has ended. One that was given to a thread of its own may
still run, and one that was refused does not run at all. -/
def Dispatched (r : ResultId) (h : List (Moment V κ σ)) : Prop :=
  ∀ before μ later, h = before ++ μ :: later → μ.delivered? r ≠ none → μ.ending? later ≠ none

/-- What a step about a result of the library does to its cell. -/
inductive Result.Shifts (x : Result V κ) (r : ResultId) :
    Return V → Frame V κ → Return V → List (Frame V κ) → Cell V (Task κ) → Prop where
  | still {result result' : Return V} {frame : Frame V κ} {frames : List (Frame V κ)} :
      (∀ a task, result = .ok a → frame = .call (.register r task) → x.cell.drained = true) →
      Shifts x r result frame result' frames x.cell
  | settles {result : Return V} {frame : Frame V κ} {state : State V} {reply : Answer V} :
      x.cell.state.isPending = true → state.isPending = false →
      (∀ task, frame ≠ .call (.register r task)) →
      Shifts x r result frame (.ok .unit) [.deliver r x.cell.queue none reply]
        ⟨state, [], true, x.cell.notified⟩
  | sweeps {a : Answer V} {sources : List ResultId} : x.cell.state.isPending = true →
      Shifts x r (.ok a) (.call (.cancel r)) (.ok (.flag true))
        [.sweep r sources true x.cell.queue] ⟨.cancelled, [], true, x.cell.notified⟩
  | queues {a : Answer V} {task : Task κ} : x.cell.drained = false →
      Shifts x r (.ok a) (.call (.register r task)) (.ok .unit) []
        { x.cell with queue := x.cell.queue ++ [task] }
  | notifies {a : Answer V} {first : Option Panic} {reply : Answer V} {result : Return V} :
      Shifts x r (.ok a) (.deliver r [] first reply) result [] x.cell.notify

theorem Emits.shifts {client : Client V κ σ} {s : Store V κ σ} {result result' : Return V}
    {frame : Frame V κ} {frames : List (Frame V κ)} {r : ResultId} {x : Result V κ}
    (emits : Emits client s result frame result' frames) (about : frame.subject? = some r)
    (found : s.results[r]? = some x) (own : x.isForeign = false) (sound : frame.Sound s) :
    x.Shifts r result frame result' frames (x.touch result frame).cell := by
  have unwound {p : Panic} : x.Shifts r (.error p) frame result' frames
      (x.touch (.error p) frame).cell := by
    rw [Result.touch_error_cell]
    exact .still nofun
  -- a frame that leaves the cell alone and registers nothing
  have calm (same : (x.touch result frame).cell = x.cell)
      (apart : ∀ task, frame ≠ .call (.register r task)) :
      x.Shifts r result frame result' frames (x.touch result frame).cell := by
    rw [same]
    exact .still fun _ task _ register => absurd register (apart task)
  cases emits with
  | passive passive _ => exact calm (passive.cell x _) (by rintro task rfl; exact passive)
  | keeps ending found' same _ =>
    cases about.symm.trans ending.subject
    cases found.symm.trans found'
    exact calm same (by rintro task rfl; exact ending)
  | settles about' found' settles terminal form =>
    cases about.symm.trans about'
    cases found.symm.trans found'
    rw [settles.cell]
    refine .settles settles.pending (terminal.elim id fun frame => ?_) ?_
    · rw [frame] at sound
      exact sound.terminal
    · rintro task rfl
      rcases form with ending | ⟨index, o, frame, -⟩ | frame
      · exact ending
      · cases frame
      · cases frame
  | @sweeps a _ cell m found' pending =>
    cases about
    cases found.symm.trans found'
    have same : (Result.touch ⟨cell, .merge m⟩ (.ok a) (.call (.cancel r) : Frame V κ)).cell =
        ⟨.cancelled, [], true, cell.notified⟩ := by
      simp [Result.touch, Result.cancel, Cell.transition, pending]
    rw [same]
    exact .sweeps pending
  | @queues a _ task _ found' own waiting =>
    cases about
    cases found.symm.trans found'
    have cell : (x.touch (.ok a) (.call (.register r task))).cell =
        { x.cell with queue := x.cell.queue ++ [task] } := by
      simp [Result.touch, Result.register, own, Cell.enqueue, waiting]
    rw [cell]
    exact .queues waiting
  | @performs a _ task _ found' own drained =>
    cases about
    cases found.symm.trans found'
    have cell : (x.touch (.ok a) (.call (.register r task))).cell = x.cell := by
      simp [Result.touch, Result.register, own, Cell.enqueue, drained]
    rw [cell]
    exact .still fun _ _ _ _ => drained
  | notifies => cases about; exact .notifies
  | serves form found' foreign =>
    rcases form with rfl | ⟨task, rfl⟩ <;> cases about <;> cases found.symm.trans found' <;>
      cases own.symm.trans foreign
  | @overtaken o _ _ found' terminal =>
    cases about
    cases found.symm.trans found'
    refine calm ?_ (by simp)
    obtain ⟨cell, kind⟩ := x
    cases kind with
    | merge m =>
      simp [Result.touch, Result.mergerEnded, Result.merged,
        (Cell.transition_eq_none_iff cell _).mpr terminal]
    | _ => rfl
  | records found' arrival =>
    cases about
    cases found.symm.trans found'
    refine calm ?_ (by simp)
    rcases arrival with arrival | ⟨g, arrival⟩ <;> simp [Result.touch, Result.commit, arrival]
  | rejects found' arrival =>
    cases about
    cases found.symm.trans found'
    refine calm ?_ (by simp)
    rcases arrival with arrival | arrival <;> simp [Result.touch, Result.commit, arrival]
  | breaks found' arrival plain panics =>
    cases about
    cases found.symm.trans found'
    exact calm (by simp [Result.touch, Result.commit, arrival, plain, panics]) (by simp)
  | merges found' unlocked arrival code =>
    cases about
    cases found.symm.trans found'
    exact calm (by simp [Result.touch, Result.commit, arrival, code]) (by simp)
  | poisons | drops | survives | catches | unwinds => exact unwound
  | _ => cases about

/-- What the history says of the callbacks of a result. -/
inductive Account (r : ResultId) (h : List (Moment V κ σ)) (s : System V κ σ) (x : Result V κ) :
    Prop where
  /-- The result is pending, and its callbacks wait. -/
  | waiting : x.cell.state.isPending = true → delivered r h = [] → x.cell.queue = queued r h →
      Account r h s x
  /-- A merge was cancelled, and its callbacks wait until its sources were asked. -/
  | sweeping {t : Nat} {result : Return V} {above base : List (Frame V κ)}
      {sources : List ResultId} {all : Bool} : x.cell.state.isPending = false →
      delivered r h = [] →
      s.threads[t]? = some ⟨result, above ++ .sweep r sources all (queued r h) :: base⟩ →
      Account r h s x
  | delivering {reply : Answer V} {t : Nat} {base : List (Frame V κ)} {thread : Thread V κ} :
      x.cell.state.isPending = false → s.threads[t]? = some thread →
      base.length < thread.frames.length →
      Delivery s.store r (queued r h) reply base (delivered r h) thread →
      (∀ μ ∈ h, μ.delivered? r ≠ none → μ.thread = t ∧ μ.below.length = base.length + 1) →
      Account r h s x
  /-- The callbacks are dispatched, and the readers are told. -/
  | told : x.cell.state.isPending = false → delivered r h = queued r h → s.store.Told r →
      Dispatched r h → Account r h s x
  /-- The callbacks were thrown away, and the readers are never told. -/
  | untold : x.cell.state.isPending = false → s.Untold r → Account r h s x

theorem Dispatched.concat {r : ResultId} {h : List (Moment V κ σ)} (dispatched : Dispatched r h)
    {μ : Moment V κ σ} (idle : μ.delivered? r = none) : Dispatched r (h ++ [μ]) := by
  intro before ν later split hands
  rcases concat_eq_split split with ⟨-, rfl, -⟩ | ⟨later, rfl, first⟩
  · exact absurd idle hands
  · obtain ⟨result, ended⟩ := Option.ne_none_iff_exists'.mp (dispatched before ν later first hands)
    rw [Moment.ending?_concat, ended, Option.some_or]
    exact Option.some_ne_none _

/-- The step that ends a delivery is below all callbacks that it handed over. -/
theorem dispatched_of_end {r : ResultId} {h : List (Moment V κ σ)} {μ : Moment V κ σ}
    {t depth : Nat}
    (placed : ∀ μ ∈ h, μ.delivered? r ≠ none → μ.thread = t ∧ μ.below.length = depth + 1)
    (idle : μ.delivered? r = none) (thread : μ.thread = t) (height : μ.below.length = depth) :
    Dispatched r (h ++ [μ]) := by
  intro before ν later split hands
  rcases concat_eq_split split with ⟨-, rfl, -⟩ | ⟨later, rfl, rfl⟩
  · exact absurd idle hands
  · obtain ⟨moved, higher⟩ := placed ν (by simp) hands
    rw [Moment.ending?_concat, if_pos ⟨thread.trans moved.symm, by omega⟩]
    cases ν.ending? later <;> simp

/-- No callback joins the others once a result has ended. -/
theorem queued_ended {r : ResultId} {h : List (Moment V κ σ)} {μ : Moment V κ σ} {x : Result V κ}
    (there : μ.store.results[r]? = some x) (terminal : x.cell.state.isPending = false) :
    queued r (h ++ [μ]) = queued r h := by
  rw [queued_concat]
  rcases Moment.queued?_cases there with none | ⟨pending, -⟩
  · rw [none]
    exact List.append_nil _
  · cases pending.symm.trans terminal

theorem Moment.Yields.shifts {client : Client V κ σ} {μ : Moment V κ σ} {e : Effect V κ σ}
    {calls : List (Call V κ)} {r : ResultId} {x : Result V κ} (yields : μ.Yields client e calls)
    (about : μ.frame.subject? = some r) (there : μ.store.results[r]? = some x)
    (own : x.isForeign = false) (sound : μ.frame.Sound μ.store) :
    x.Shifts r μ.result μ.frame e.result e.frames (x.touch μ.result μ.frame).cell := by
  rcases yields.emits with ⟨-, emits⟩ | ⟨a, b, c, -, fork, -⟩
  · exact emits.shifts about there own sound
  · rw [fork] at about
    cases about

/-- What the sweep of a cancelled merge does next. -/
theorem Emits.sweep {client : Client V κ σ} {s : Store V κ σ} {result result' : Return V}
    {frames : List (Frame V κ)} {r : ResultId} {sources : List ResultId} {all : Bool}
    {tasks : List (Task κ)}
    (emits : Emits client s result (.sweep r sources all tasks) result' frames) :
    (∃ above sources all, frames = above ++ [.sweep r sources all tasks]) ∨
      (∃ reply, result' = .ok .unit ∧ frames = [.deliver r tasks none reply]) ∨ frames = [] := by
  cases emits with
  | passive passive => exact passive.elim
  | keeps ending => exact ending.elim
  | settles about => cases about
  | asks => exact .inl ⟨[_], _, _, rfl⟩
  | swept => exact .inr (.inl ⟨_, rfl, rfl⟩)
  | drops => exact .inr (.inr rfl)
  | catches | unwinds => exact .inr (.inr rfl)

/-- The frame of a delivery that is not over. -/
theorem Delivery.frame {s : Store V κ σ} {r : ResultId} {queue done : List (Task κ)}
    {reply : Answer V} {base : List (Frame V κ)} {thread : Thread V κ}
    (delivery : Delivery s r queue reply base done thread)
    (higher : base.length < thread.frames.length) :
    ∃ above rest first, thread.frames = above ++ .deliver r rest first reply :: base := by
  cases delivery with
  | between => exact ⟨[], _, _, rfl⟩
  | handing _ handover | handed _ handover =>
    obtain ⟨above, frames⟩ := handover.frames
    exact ⟨above, _, _, frames⟩
  | ended => exact absurd higher (Nat.lt_irrefl _)

/-- The callbacks of a result are handed over right above the frame that delivers them. -/
theorem Delivery.placed {s : Store V κ σ} {r : ResultId} {queue done : List (Task κ)}
    {reply : Answer V} {base : List (Frame V κ)} {μ : Moment V κ σ}
    (delivery : Delivery s r queue reply base done ⟨μ.result, μ.frame :: μ.below⟩)
    (inside : base.length ≤ μ.below.length)
    (single : load (Frame.delivers r) (μ.frame :: μ.below) ≤ 1) (hands : μ.delivered? r ≠ none) :
    μ.below.length = base.length + 1 := by
  obtain ⟨above, rest, first, frames⟩ := delivery.frame (Nat.lt_succ_of_le inside)
  have here : 1 ≤ load (Frame.delivers r) μ.below := Nat.pos_of_ne_zero fun idle =>
    hands (Moment.delivered?_idle idle)
  have one : Frame.delivers r (.deliver (V := V) r rest first reply) = 1 := by
    simp [Frame.delivers]
  rw [load_cons] at single
  cases above with
  | nil =>
    obtain ⟨frame, -⟩ := List.cons.inj frames
    rw [frame, one] at single
    omega
  | cons f above =>
    have below : μ.below = above ++ .deliver r rest first reply :: base := (List.cons.inj frames).2
    cases above with
    | nil => rw [below]; rfl
    | cons g above =>
      refine absurd (Moment.delivered?_eq_none fun f' top => ?_) hands
      rw [below] at top single
      cases top
      simp only [List.cons_append, load_cons, load_append, one] at single
      omega

namespace Account

variable {client : Client V κ σ} {s : System V κ σ} {h : List (Moment V κ σ)} {r : ResultId}
  {x x' : Result V κ} {t : Nat} {μ : Moment V κ σ} {e : Effect V κ σ} {calls : List (Call V κ)}

/-- A thread has just taken the callbacks out to deliver them. -/
theorem taken {tasks : List (Task κ)} {reply : Answer V} {base : List (Frame V κ)}
    (terminal : x.cell.state.isPending = false) (none : delivered r h = [])
    (all : tasks = queued r h)
    (takes : s.threads[t]? = some ⟨.ok .unit, .deliver r tasks .none reply :: base⟩) :
    Account r h s x := by
  have delivery : Delivery s.store r (queued r h) reply base (delivered r h)
      ⟨.ok .unit, .deliver r tasks .none reply :: base⟩ := by
    rw [none]
    exact .between all
  exact .delivering terminal takes (by simp) delivery fun μ member hands =>
    absurd (List.filterMap_eq_nil_iff.mp none μ member) hands

/-- While the sources of a merge are asked, none of its callbacks is delivered. -/
theorem sweeping_idle {t₀ : Nat} {result : Return V} {above base : List (Frame V κ)}
    {sources : List ResultId} {all : Bool} {tasks : List (Task κ)} (orderly : s.Orderly)
    (sweeps : s.threads[t₀]? = some ⟨result, above ++ .sweep r sources all tasks :: base⟩)
    (found : s.moment? t = some μ) : μ.delivered? r = none := by
  obtain ⟨-, -, selected⟩ := System.moment?_eq_some found
  have one : Frame.delivers r (.sweep (V := V) r sources all tasks) = 1 := by simp [Frame.delivers]
  have single := orderly.delivers_le r
  by_cases same : t₀ = t
  · subst same
    have frames := (Option.some.inj (sweeps.symm.trans selected))
    have few := System.load_le (w := Frame.delivers r) sweeps
    simp only [load_append, load_cons, one] at few
    cases above with
    | nil =>
      obtain ⟨-, below⟩ := List.cons.inj (congrArg Thread.frames frames)
      rw [below] at few
      exact Moment.delivered?_idle (by omega)
    | cons f above =>
      have below : above ++ .sweep r sources all tasks :: base = μ.below :=
        (List.cons.inj (congrArg Thread.frames frames)).2
      cases above with
      | nil => simp [Moment.delivered?, ← below]
      | cons g above =>
        apply Moment.delivered?_eq_none
        intro f' top
        rw [← below] at top
        cases top
        simp only [load_cons] at few
        omega
  · have both : load (Frame.delivers r) (above ++ .sweep r sources all tasks :: base) +
        load (Frame.delivers r) (μ.frame :: μ.below) ≤ _ := System.weight_pair sweeps selected same
    simp only [load_append, load_cons, one] at both
    exact Moment.delivered?_idle (by omega)

/-- A sweep that is unwound leaves nobody who would tell the readers. -/
theorem dropped {sources : List ResultId} {all : Bool} {tasks : List (Task κ)} (orderly : s.Orderly)
    (there : s.store.results[r]? = some x) (terminal : x.cell.state.isPending = false)
    (found : s.moment? t = some μ) (yields : μ.Yields client e calls)
    (sweep : μ.frame = .sweep r sources all tasks) (gone : e.frames = []) :
    (s.after t μ.below e calls).Untold r := by
  have store := (System.moment?_eq_some found).1
  have one : μ.frame.delivers r = 1 := by simp [sweep, Frame.delivers]
  have enough := System.weight_le (w := Frame.delivers r) found
  have single := orderly.delivers_le r
  have begun := load_calls (Frame.delivers r) (fun _ => rfl) calls
  have moved := System.weight_after (Frame.delivers r) e calls found
  rw [gone, load_nil] at moved
  have kept := yields.touches.there r x (store ▸ there)
  rw [if_neg (by simp [sweep, Frame.subject?])] at kept
  refine ⟨⟨x, kept, terminal, ?_⟩, by omega⟩
  have told := ((orderly.there r x there).ended terminal).2.2
  cases notified : x.cell.notified with
  | false => rfl
  | true =>
    rw [notified, if_pos rfl] at told
    omega

/-- The sweep of a cancelled merge goes on, hands its callbacks to a delivery, or drops them. -/
theorem step_sweeping {t₀ : Nat} {result : Return V} {above base : List (Frame V κ)}
    {sources : List ResultId} {all : Bool} (orderly : s.Orderly)
    (there : s.store.results[r]? = some x) (terminal : x.cell.state.isPending = false)
    (none : delivered r h = [])
    (sweeps : s.threads[t₀]? =
      some ⟨result, above ++ .sweep r sources all (queued r h) :: base⟩)
    (found : s.moment? t = some μ) (yields : μ.Yields client e calls)
    (after : (s.after t μ.below e calls).store.results[r]? = some x') :
    Account r (h ++ [μ]) (s.after t μ.below e calls) x' := by
  obtain ⟨store, -, selected⟩ := System.moment?_eq_some found
  have touches := yields.touches
  rw [store] at touches
  have terminal' : x'.cell.state.isPending = false := by
    obtain ⟨x₁, after₁, later⟩ := touches.later r x there
    cases after.symm.trans after₁
    rw [later.state terminal]
    exact terminal
  have idle := sweeping_idle orderly sweeps found
  have queues : queued r (h ++ [μ]) = queued r h := queued_ended (store ▸ there) terminal
  have delivers : delivered r (h ++ [μ]) = [] := by
    rw [delivered_concat, none, idle]
    rfl
  by_cases same : t = t₀
  · subst same
    have self := System.after_self found e calls
    have frames := Option.some.inj (sweeps.symm.trans selected)
    cases above with
    | cons f above =>
      have below : above ++ .sweep r sources all (queued r h) :: base = μ.below :=
        (List.cons.inj (congrArg Thread.frames frames)).2
      rw [← below, ← List.append_assoc, ← queues] at self
      rw [← below, ← queues]
      exact .sweeping terminal' delivers self
    | nil =>
      obtain ⟨frame, below⟩ := List.cons.inj (congrArg Thread.frames frames)
      have emits : Emits client μ.store μ.result μ.frame e.result e.frames := by
        rcases yields.emits with ⟨-, emits⟩ | ⟨a, b, c, -, fork, -⟩
        · exact emits
        · cases frame.trans fork
      rw [← frame] at emits
      rcases emits.sweep with ⟨above, sources, all, goes⟩ | ⟨reply, answer, goes⟩ | goes
      · rw [goes, List.append_assoc, ← queues] at self
        exact .sweeping terminal' delivers self
      · rw [answer, goes] at self
        exact .taken terminal' delivers queues.symm self
      · exact .untold terminal' (dropped orderly there terminal found yields frame.symm goes)
  · have kept := System.after_other sweeps same μ.below e calls
    rw [← queues] at kept
    exact .sweeping terminal' delivers kept

/-- A delivery goes on, or the callbacks have ended and the readers are told. -/
theorem step_delivering {reply : Answer V} {t₀ : Nat} {base : List (Frame V κ)}
    {thread : Thread V κ} (orderly : s.Orderly) (there : s.store.results[r]? = some x)
    (terminal : x.cell.state.isPending = false) (here : s.threads[t₀]? = some thread)
    (higher : base.length < thread.frames.length)
    (delivery : Delivery s.store r (queued r h) reply base (delivered r h) thread)
    (placed : ∀ μ ∈ h, μ.delivered? r ≠ none → μ.thread = t₀ ∧ μ.below.length = base.length + 1)
    (found : s.moment? t = some μ) (yields : μ.Yields client e calls)
    (terminal' : x'.cell.state.isPending = false) :
    Account r (h ++ [μ]) (s.after t μ.below e calls) x' := by
  obtain ⟨store, moved, selected⟩ := System.moment?_eq_some found
  have queues : queued r (h ++ [μ]) = queued r h := queued_ended (store ▸ there) terminal
  have delivering : s.Delivering r (queued r h) reply t₀ base (delivered r h) :=
    ⟨thread, here, delivery⟩
  have alone := delivering.alone orderly found
  have inside (same : t = t₀) : base.length ≤ μ.below.length := by
    subst same
    cases here.symm.trans selected
    exact Nat.le_of_lt_succ higher
  obtain ⟨thread', here', delivery'⟩ := delivering.step orderly found inside yields
  rw [← delivered_concat, ← queues] at delivery'
  have placed' : ∀ μ' ∈ h ++ [μ], μ'.delivered? r ≠ none →
      μ'.thread = t₀ ∧ μ'.below.length = base.length + 1 := by
    intro μ' member hands
    rcases List.mem_append.mp member with member | member
    · exact placed μ' member hands
    · cases List.mem_singleton.mp member
      have same : t = t₀ := Classical.byContradiction fun other => hands (alone other)
      subst same
      cases here.symm.trans selected
      have single : load (Frame.delivers r) (μ.frame :: μ.below) ≤ 1 :=
        Nat.le_trans (System.load_le selected) (orderly.delivers_le r)
      rw [← store] at delivery
      exact ⟨moved, delivery.placed (inside rfl) single hands⟩
  rcases delivery'.working with ⟨higher', -⟩ | ⟨all, told, result, rfl, -⟩
  · exact .delivering terminal' here' higher' delivery' placed'
  · have same : t = t₀ := by
      apply Classical.byContradiction
      intro other
      cases here'.symm.trans (System.after_other here other μ.below e calls)
      exact absurd higher (Nat.lt_irrefl _)
    subst same
    have frames := congrArg (fun thread => thread.frames.length)
      (Option.some.inj (here'.symm.trans (System.after_self found e calls)))
    simp only [List.length_append] at frames
    have height : μ.below.length = base.length := by
      have := inside rfl
      omega
    have idle : μ.delivered? r = none := by
      apply Classical.byContradiction
      intro hands
      have := (placed' μ (by simp) hands).2
      omega
    exact .told terminal' all told
      (dispatched_of_end (fun μ' member => placed μ' member) idle moved height)

/-- The callbacks of a pending result wait, until a step ends it and takes them out. -/
theorem step_waiting (orderly : s.Orderly) (sound : s.Sound)
    (there : s.store.results[r]? = some x) (own : x.isForeign = false)
    (pending : x.cell.state.isPending = true) (none : delivered r h = [])
    (all : x.cell.queue = queued r h) (found : s.moment? t = some μ)
    (yields : μ.Yields client e calls)
    (after : (s.after t μ.below e calls).store.results[r]? = some x') :
    Account r (h ++ [μ]) (s.after t μ.below e calls) x' := by
  have store := (System.moment?_eq_some found).1
  have here : μ.store.results[r]? = some x := by rw [store, there]
  obtain ⟨undrained, -, nobody⟩ := (orderly.there r x there).waiting pending
  -- only a callback that is registered joins the others
  have queues (others : ∀ a task, μ.result = .ok a → μ.frame = .call (.register r task) →
      x.cell.drained = true) : queued r (h ++ [μ]) = x.cell.queue := by
    rw [queued_concat, all]
    rcases Moment.queued?_cases here with idle | ⟨-, a, task, result, frame, -⟩
    · rw [idle]
      exact List.append_nil _
    · cases undrained.symm.trans (others a task result frame)
  have delivers : delivered r (h ++ [μ]) = [] := by
    rw [delivered_concat, none, System.idle_delivered? nobody found]
    rfl
  have kept := yields.touches.there r x here
  cases after.symm.trans kept
  split
  next about =>
    have shifts := yields.shifts about here own (store ▸ (sound.frames.moment found).1)
    have self := System.after_self found e calls
    have idle : μ.frame.delivers r = 0 := by
      have := System.weight_le (w := Frame.delivers r) found
      omega
    generalize x.touch μ.result μ.frame = x' at shifts ⊢
    generalize same : x'.cell = cell at shifts
    generalize frame : μ.frame = frame₀ at shifts queues idle
    generalize result : μ.result = result₀ at shifts queues
    generalize e.result = result₁ at shifts self
    generalize e.frames = frames₁ at shifts self
    cases shifts with
    | still drained =>
      exact .waiting (by rw [same]; exact pending) delivers (by rw [same, queues drained])
    | settles _ terminal apart =>
      have queues := queues fun _ task _ register => absurd register (apart task)
      exact .taken (by rw [same]; exact terminal) delivers queues.symm self
    | sweeps =>
      have queues := queues fun _ task _ register => by cases register
      rw [← queues, ← List.nil_append ([_] ++ μ.below)] at self
      exact .sweeping (by rw [same]; rfl) delivers self
    | @queues a task _ =>
      have joins : μ.queued? r = some task := by
        simp [Moment.queued?, result, frame, here, pending]
      refine .waiting (by rw [same]; exact pending) delivers ?_
      rw [same, queued_concat, joins, all]
      rfl
    | notifies => simp [Frame.delivers] at idle
  next apart =>
    refine .waiting pending delivers (queues fun _ task _ register => ?_).symm
    exact absurd (by rw [register]; rfl) apart

theorem step (account : Account r h s x) (orderly : s.Orderly) (sound : s.Sound)
    (there : s.store.results[r]? = some x) (own : x.isForeign = false)
    (found : s.moment? t = some μ) (yields : μ.Yields client e calls)
    (after : (s.after t μ.below e calls).store.results[r]? = some x') :
    Account r (h ++ [μ]) (s.after t μ.below e calls) x' := by
  have store := (System.moment?_eq_some found).1
  have later : s.store.Later (s.after t μ.below e calls).store := by
    rw [← store]
    exact yields.touches.later
  have still (terminal : x.cell.state.isPending = false) : x'.cell.state.isPending = false := by
    obtain ⟨x₁, after₁, later⟩ := later r x there
    cases after.symm.trans after₁
    rw [later.state terminal]
    exact terminal
  cases account with
  | waiting pending none all =>
    exact step_waiting orderly sound there own pending none all found yields after
  | sweeping terminal none sweeps =>
    exact step_sweeping orderly there terminal none sweeps found yields after
  | delivering terminal here higher delivery placed =>
    exact step_delivering orderly there terminal here higher delivery placed found yields
      (still terminal)
  | told terminal all told dispatched =>
    have idle := System.idle_delivered? (orderly.told_idle told) found
    refine .told (still terminal) ?_ (told.later later) (dispatched.concat idle)
    rw [delivered_concat, idle, queued_ended (store ▸ there) terminal, all]
    exact List.append_nil _
  | untold terminal untold => exact .untold (still terminal) (untold.step found yields)

theorem begin (account : Account r h s x) (c : Call V κ) : Account r h (s.begin c) x := by
  cases account with
  | waiting pending none all => exact .waiting pending none all
  | sweeping terminal none sweeps =>
    exact .sweeping terminal none (System.begin_other sweeps c)
  | delivering terminal here higher delivery placed =>
    exact .delivering terminal (System.begin_other here c) higher delivery placed
  | told terminal all told dispatched => exact .told terminal all told dispatched
  | untold terminal untold => exact .untold terminal (untold.begin c)

theorem pass (account : Account r h s x) (now : Nat) : Account r h (s.pass now) x := by
  cases account with
  | waiting pending none all => exact .waiting pending none all
  | sweeping terminal none sweeps => exact .sweeping terminal none sweeps
  | delivering terminal here higher delivery placed =>
    exact .delivering terminal here higher (delivery.later (Store.later_of_results rfl)) placed
  | told terminal all told dispatched => exact .told terminal all told dispatched
  | untold terminal untold => exact .untold terminal untold

end Account

/-- Every result of the library has its account in a run from nothing. -/
theorem Run.accounted {client : Client V κ σ} {memory : σ} {h : List (Moment V κ σ)}
    {s : System V κ σ} {r : ResultId} {x : Result V κ}
    (run : Run client Call.Fair ⟨.empty memory, []⟩ h s) (there : s.store.results[r]? = some x)
    (own : x.isForeign = false) : Account r h s x := by
  induction run generalizing x with
  | start => simp [Store.empty] at there
  | @step h s s' t μ run found step fair ih =>
    obtain ⟨μ', e, calls, moment, yields, rfl⟩ := System.step_yields step
    cases found.symm.trans moment
    have sound := run.sound (System.sound_empty memory)
    have orderly := run.orderly (System.sound_empty memory) (System.orderly_empty memory)
    have touches := yields.touches
    rw [(System.moment?_eq_some found).1] at touches
    cases before : s.store.results[r]? with
    | some x₀ =>
      obtain ⟨x₁, after, later⟩ := touches.later r x₀ before
      cases there.symm.trans after
      have own : x₀.isForeign = false := later.isForeign ▸ own
      exact (ih before own).step orderly sound before own found yields there
    | none =>
      -- nothing was heard of the result before this step made it
      obtain ⟨-, unqueued, undelivered⟩ := run.recorded.beyond r before
      have idle := System.idle_delivered? (orderly.beyond r before).2 found
      have queues : queued r (h ++ [μ]) = [] := by
        rw [queued_concat, unqueued,
          Moment.queued?_missing (by rw [(System.moment?_eq_some found).1, before])]
        rfl
      have delivers : delivered r (h ++ [μ]) = [] := by
        rw [delivered_concat, undelivered, idle]
        rfl
      rcases Frame.made?_cell (touches.new before there).2 with ⟨pending, empty⟩ | ⟨ended, told⟩
      · exact .waiting pending delivers (by rw [empty, queues])
      · refine .told ended (by rw [delivers, queues]) ⟨x, there, told⟩ ?_
        rintro before' μ' later' split hands
        exact absurd (List.filterMap_eq_nil_iff.mp delivers μ' (by simp [split])) hands
  | begin c _ _ ih => exact (ih there own).begin c
  | pass now _ _ ih => exact (ih there own).pass now

end Quorate
