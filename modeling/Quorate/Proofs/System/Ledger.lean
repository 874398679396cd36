import Quorate.Proofs.System.Delivery

/-! What a run has done with one result that is completed by its producers: the state it was given,
the callbacks that were registered while it was pending, and those that were handed over since. -/

set_option autoImplicit false

namespace Quorate

variable {V κ σ : Type}

/-- A result that its producers complete: a settable one or a latch. -/
def Result.Direct (x : Result V κ) : Prop :=
  match x.kind with
  | .settable | .latch _ => True
  | _ => False

theorem Result.Direct.own {x : Result V κ} (direct : x.Direct) : x.isForeign = false := by
  obtain ⟨cell, kind⟩ := x
  cases kind <;> first | rfl | exact direct.elim

namespace Moment

/-- The terminal state that a result takes in this step. -/
def settled? (r : ResultId) (μ : Moment V κ σ) : Option (State V) :=
  if μ.frame.subject? = some r then
    (μ.store.results[r]?).bind fun x =>
      let state := (x.touch μ.result μ.frame).cell.state
      if x.cell.state.isPending && !state.isPending then some state else none
  else none

/-- The callback that is registered on a pending result in this step. -/
def queued? (r : ResultId) (μ : Moment V κ σ) : Option (Task κ) :=
  match μ.result, μ.frame with
  | .ok _, .call (.register r' task) =>
    if r' = r ∧ (μ.store.results[r]?).any fun x => x.cell.state.isPending then some task else none
  | _, _ => none

variable {r : ResultId} {μ : Moment V κ σ} {x : Result V κ}

theorem settled?_about (about : μ.frame.subject? = some r) (there : μ.store.results[r]? = some x) :
    μ.settled? r =
      if x.cell.state.isPending && !(x.touch μ.result μ.frame).cell.state.isPending then
        some (x.touch μ.result μ.frame).cell.state
      else none := by
  simp [settled?, about, there]

theorem queued?_cases (there : μ.store.results[r]? = some x) :
    μ.queued? r = none ∨ x.cell.state.isPending = true ∧
      ∃ a task, μ.result = .ok a ∧ μ.frame = .call (.register r task) ∧
        μ.queued? r = some task := by
  cases queued : μ.queued? r with
  | none => exact .inl rfl
  | some task =>
    unfold queued? at queued
    split at queued
    next a r' task' result frame =>
      split at queued
      next here =>
        cases queued
        obtain ⟨rfl, pending⟩ := here
        exact .inr ⟨by simpa [there] using pending, a, task, result, frame, rfl⟩
      next => cases queued
    next => cases queued

theorem settled?_missing (missing : μ.store.results[r]? = none) : μ.settled? r = none := by
  simp [settled?, missing]

theorem queued?_missing (missing : μ.store.results[r]? = none) : μ.queued? r = none := by
  unfold queued?
  split <;> simp [missing]

end Moment

/-- The terminal states that a result took. -/
def settled (r : ResultId) (h : List (Moment V κ σ)) : List (State V) :=
  h.filterMap (Moment.settled? r)

/-- The callbacks that were registered on a result while it was pending. -/
def queued (r : ResultId) (h : List (Moment V κ σ)) : List (Task κ) :=
  h.filterMap (Moment.queued? r)

theorem settled_concat (r : ResultId) (h : List (Moment V κ σ)) (μ : Moment V κ σ) :
    settled r (h ++ [μ]) = settled r h ++ (μ.settled? r).toList :=
  filterMap_concat _ h μ

theorem queued_concat (r : ResultId) (h : List (Moment V κ σ)) (μ : Moment V κ σ) :
    queued r (h ++ [μ]) = queued r h ++ (μ.queued? r).toList :=
  filterMap_concat _ h μ

/-- What a step about a result of a producer does to its cell. -/
inductive Result.Moves (x : Result V κ) (r : ResultId) :
    Return V → Frame V κ → Return V → List (Frame V κ) → Cell V (Task κ) → Prop where
  | still {result result' : Return V} {frame : Frame V κ} {frames : List (Frame V κ)} :
      (∀ a task, result = .ok a → frame = .call (.register r task) → x.cell.drained = true) →
      Moves x r result frame result' frames x.cell
  | settles {result : Return V} {frame : Frame V κ} {state : State V} {reply : Answer V} :
      x.cell.state.isPending = true → state.isPending = false → frame.Ending r →
      Moves x r result frame (.ok .unit) [.deliver r x.cell.queue none reply]
        ⟨state, [], true, x.cell.notified⟩
  | queues {a : Answer V} {task : Task κ} : x.cell.drained = false →
      Moves x r (.ok a) (.call (.register r task)) (.ok .unit) []
        { x.cell with queue := x.cell.queue ++ [task] }
  | notifies {a : Answer V} {first : Option Panic} {reply : Answer V} {result : Return V} :
      Moves x r (.ok a) (.deliver r [] first reply) result [] x.cell.notify

theorem Emits.moves {client : Client V κ σ} {s : Store V κ σ} {result result' : Return V}
    {frame : Frame V κ} {frames : List (Frame V κ)} {r : ResultId} {x : Result V κ}
    (emits : Emits client s result frame result' frames) (about : frame.subject? = some r)
    (found : s.results[r]? = some x) (direct : x.Direct) (sound : frame.Sound s) :
    x.Moves r result frame result' frames (x.touch result frame).cell := by
  have merge {cell : Cell V (Task κ)} {m : Merge V κ} : x ≠ ⟨cell, .merge m⟩ := by
    rintro rfl
    exact direct
  have own := direct.own
  have unwound {p : Panic} : x.Moves r (.error p) frame result' frames
      (x.touch (.error p) frame).cell := by
    rw [Result.touch_error_cell]
    exact .still nofun
  cases emits with
  | passive passive _ =>
    rw [passive.cell]
    apply Result.Moves.still
    rintro a task - rfl
    exact passive.elim
  | keeps ending found' same _ =>
    cases about.symm.trans ending.subject
    cases found.symm.trans found'
    rw [same]
    apply Result.Moves.still
    rintro a task - rfl
    exact ending.elim
  | settles about' found' settles terminal form =>
    cases about.symm.trans about'
    cases found.symm.trans found'
    rw [settles.cell]
    refine .settles settles.pending (terminal.elim id fun frame => ?_) ?_
    · rw [frame] at sound
      exact sound.terminal
    · rcases form with ending | ⟨index, o, rfl, -⟩ | rfl
      · exact ending
      · obtain ⟨size, ⟨cell, m, found', -⟩, -⟩ := sound
        exact absurd (Option.some.inj (found.symm.trans found')) merge
      · obtain ⟨size, cell, m, found', -⟩ := sound
        exact absurd (Option.some.inj (found.symm.trans found')) merge
  | @queues a _ task _ found' own waiting =>
    cases about
    cases found.symm.trans found'
    have cell : (x.touch (.ok a) (.call (.register r task))).cell =
        { x.cell with queue := x.cell.queue ++ [task] } := by
      simp [Result.touch, Result.register, own, Cell.enqueue, waiting]
    rw [cell]
    exact .queues waiting
  | @performs a _ task _ found' own drained =>
    cases about
    cases found.symm.trans found'
    have cell : (x.touch (.ok a) (.call (.register r task))).cell = x.cell := by
      simp [Result.touch, Result.register, own, Cell.enqueue, drained]
    rw [cell]
    exact .still fun _ _ _ _ => drained
  | notifies => cases about; exact .notifies
  | serves form found' foreign =>
    rcases form with rfl | ⟨task, rfl⟩ <;> cases about <;> cases found.symm.trans found' <;>
      cases own.symm.trans foreign
  | overtaken =>
    cases about
    obtain ⟨size, cell, m, found', -⟩ := sound
    exact absurd (Option.some.inj (found.symm.trans found')) merge
  | sweeps found' | records found' | rejects found' | breaks found' | merges found' =>
    cases about
    exact absurd (Option.some.inj (found.symm.trans found')) merge
  | poisons | drops | survives | catches | unwinds => exact unwound
  | _ => cases about

theorem Moment.Yields.moves {client : Client V κ σ} {μ : Moment V κ σ} {e : Effect V κ σ}
    {calls : List (Call V κ)} {r : ResultId} {x : Result V κ} (yields : μ.Yields client e calls)
    (about : μ.frame.subject? = some r) (there : μ.store.results[r]? = some x) (direct : x.Direct)
    (sound : μ.frame.Sound μ.store) :
    x.Moves r μ.result μ.frame e.result e.frames (x.touch μ.result μ.frame).cell := by
  rcases yields.emits with ⟨-, emits⟩ | ⟨a, b, c, -, fork, -⟩
  · exact emits.moves about there direct sound
  · rw [fork] at about
    cases about

/-- A result takes its state in the first step of a call that can end it, which takes its callbacks
out for delivery. -/
theorem Moment.Yields.settled {client : Client V κ σ} {μ : Moment V κ σ} {e : Effect V κ σ}
    {calls : List (Call V κ)} {r : ResultId} {x : Result V κ} (yields : μ.Yields client e calls)
    (there : μ.store.results[r]? = some x) (direct : x.Direct) (sound : μ.frame.Sound μ.store)
    (settles : μ.settled? r ≠ none) :
    (∃ a, μ.result = .ok a) ∧ μ.frame.Ending r ∧
      ∃ reply, e.result = .ok .unit ∧ e.frames = [.deliver r x.cell.queue none reply] := by
  have about : μ.frame.subject? = some r := by
    apply Classical.byContradiction
    intro apart
    exact settles (if_neg apart)
  rw [settled?_about about there] at settles
  have moves := yields.moves about there direct sound
  have answered : ∃ a, μ.result = .ok a := by
    cases result : μ.result with
    | ok a => exact ⟨a, rfl⟩
    | error p =>
      rw [result, Result.touch_error_cell] at settles
      simp at settles
  refine ⟨answered, ?_⟩
  generalize (x.touch μ.result μ.frame).cell = cell at moves settles
  generalize μ.result = result at moves
  generalize μ.frame = frame at moves ⊢
  generalize e.result = result' at moves ⊢
  generalize e.frames = frames at moves ⊢
  cases moves with
  | @settles _ _ _ reply _ _ ending => exact ⟨ending, reply, rfl, rfl⟩
  | still | queues | notifies => simp [Cell.notify] at settles

/-- What the history says of a result that is completed by its producers. -/
inductive Ledger (r : ResultId) (h : List (Moment V κ σ)) (s : System V κ σ) (x : Result V κ) :
    Prop where
  /-- The result is pending, and its callbacks are waiting. -/
  | waiting : x.cell.state.isPending = true → settled r h = [] → delivered r h = [] →
      x.cell.queue = queued r h → Ledger r h s x
  /-- The result was terminal from the start. -/
  | born : x.cell.state.isPending = false → settled r h = [] → delivered r h = [] →
      queued r h = [] → s.store.Told r → Ledger r h s x
  /-- The result took its state once, and its callbacks are on their way. -/
  | ended {reply : Answer V} {t : Nat} {base : List (Frame V κ)} :
      x.cell.state.isPending = false → settled r h = [x.cell.state] →
      s.Delivering r (queued r h) reply t base (delivered r h) → Ledger r h s x
  | delivered : x.cell.state.isPending = false → settled r h = [x.cell.state] →
      delivered r h = queued r h → s.store.Told r → Ledger r h s x

namespace Ledger

variable {client : Client V κ σ} {s : System V κ σ} {h : List (Moment V κ σ)} {r : ResultId}
  {x x' : Result V κ} {t : Nat} {μ : Moment V κ σ} {e : Effect V κ σ} {calls : List (Call V κ)}

theorem pending (ledger : Ledger r h s x) (pending : x.cell.state.isPending = true) :
    settled r h = [] ∧ Quorate.delivered r h = [] ∧ x.cell.queue = queued r h := by
  cases ledger with
  | waiting _ unsettled none all => exact ⟨unsettled, none, all⟩
  | born terminal | ended terminal | delivered terminal =>
    exact absurd pending (by simp [terminal])

/-- A step that neither ends the result nor queues a callback at most hands one over. -/
theorem calm (ledger : Ledger r h s x) (orderly : s.Orderly) (there : s.store.results[r]? = some x)
    (found : s.moment? t = some μ) (yields : μ.Yields client e calls)
    (state : x'.cell.state = x.cell.state) (queue : x'.cell.queue = x.cell.queue)
    (settles : μ.settled? r = none) (queues : μ.queued? r = none) :
    Ledger r (h ++ [μ]) (s.after t μ.below e calls) x' := by
  have later : s.store.Later (s.after t μ.below e calls).store := by
    rw [← (System.moment?_eq_some found).1]
    exact yields.touches.later
  have settled_eq : settled r (h ++ [μ]) = settled r h := by
    rw [settled_concat, settles]
    exact List.append_nil _
  have queued_eq : queued r (h ++ [μ]) = queued r h := by
    rw [queued_concat, queues]
    exact List.append_nil _
  have delivered_eq (idle : μ.delivered? r = none) :
      Quorate.delivered r (h ++ [μ]) = Quorate.delivered r h := by
    rw [delivered_concat, idle]
    exact List.append_nil _
  have idle (told : s.store.Told r) : Quorate.delivered r (h ++ [μ]) = Quorate.delivered r h :=
    delivered_eq (System.idle_delivered? (orderly.told_idle told) found)
  cases ledger with
  | waiting pending unsettled none all =>
    have idle := System.idle_delivered? ((orderly.there r x there).waiting pending).2.2 found
    exact .waiting (by rw [state]; exact pending) (by rw [settled_eq]; exact unsettled)
      (by rw [delivered_eq idle]; exact none) (by rw [queue, queued_eq]; exact all)
  | born terminal unsettled none empty told =>
    exact .born (by rw [state]; exact terminal) (by rw [settled_eq]; exact unsettled)
      (by rw [idle told]; exact none) (by rw [queued_eq]; exact empty) (told.later later)
  | @ended reply t' base terminal once delivering =>
    have terminal : x'.cell.state.isPending = false := by rw [state]; exact terminal
    have once : settled r (h ++ [μ]) = [x'.cell.state] := by rw [settled_eq, state]; exact once
    by_cases inside : t = t' → base.length ≤ μ.below.length
    · have next := delivering.step orderly found inside yields
      apply Ledger.ended terminal once
      rw [queued_eq, delivered_concat]
      exact next
    · -- the thread goes on below the call that ended the result
      obtain ⟨same, outside⟩ := Classical.not_imp.mp inside
      subst same
      obtain ⟨thread, here, delivery⟩ := delivering
      obtain ⟨store, -, selected⟩ := System.moment?_eq_some found
      cases here.symm.trans selected
      rcases delivery.working with ⟨higher, -⟩ | ⟨all, told, -⟩
      · exact absurd (Nat.lt_succ_iff.mp higher) outside
      exact .delivered terminal once (by rw [idle told, queued_eq]; exact all) (told.later later)
  | delivered terminal once all told =>
    exact .delivered (by rw [state]; exact terminal) (by rw [settled_eq, state]; exact once)
      (by rw [idle told, queued_eq]; exact all) (told.later later)

/-- The step that ends the result takes its callbacks out to deliver them. -/
theorem settles {reply : Answer V} (ledger : Ledger r h s x) (orderly : s.Orderly)
    (there : s.store.results[r]? = some x) (found : s.moment? t = some μ)
    (pending : x.cell.state.isPending = true) (terminal : x'.cell.state.isPending = false)
    (settles : μ.settled? r = some x'.cell.state) (queues : μ.queued? r = none)
    (delivers : (s.after t μ.below e calls).threads[t]? =
      some ⟨.ok .unit, .deliver r x.cell.queue none reply :: μ.below⟩) :
    Ledger r (h ++ [μ]) (s.after t μ.below e calls) x' := by
  obtain ⟨unsettled, none, all⟩ := ledger.pending pending
  have idle := System.idle_delivered? ((orderly.there r x there).waiting pending).2.2 found
  apply Ledger.ended terminal
  · rw [settled_concat, unsettled, settles]
    rfl
  · rw [queued_concat, queues, delivered_concat, none, idle, ← all]
    exact ⟨_, delivers, .between (by simp)⟩

/-- A callback that is registered on the pending result waits behind the others. -/
theorem queues {task : Task κ} (ledger : Ledger r h s x) (orderly : s.Orderly)
    (there : s.store.results[r]? = some x) (found : s.moment? t = some μ)
    (pending : x.cell.state.isPending = true) (state : x'.cell.state = x.cell.state)
    (queue : x'.cell.queue = x.cell.queue ++ [task]) (settles : μ.settled? r = none)
    (queues : μ.queued? r = some task) :
    Ledger r (h ++ [μ]) (s.after t μ.below e calls) x' := by
  obtain ⟨unsettled, none, all⟩ := ledger.pending pending
  have idle := System.idle_delivered? ((orderly.there r x there).waiting pending).2.2 found
  apply Ledger.waiting
  · rw [state]
    exact pending
  · rw [settled_concat, unsettled, settles]
    rfl
  · rw [delivered_concat, none, idle]
    rfl
  · rw [queued_concat, queues, queue, all]
    rfl

/-- The step lemma: one case for each way a step can move the cell. -/
theorem step (ledger : Ledger r h s x) (orderly : s.Orderly) (sound : s.Sound)
    (there : s.store.results[r]? = some x) (direct : x.Direct) (found : s.moment? t = some μ)
    (yields : μ.Yields client e calls) :
    Ledger r (h ++ [μ]) (s.after t μ.below e calls)
      (if μ.frame.subject? = some r then x.touch μ.result μ.frame else x) := by
  have store := (System.moment?_eq_some found).1
  have here : μ.store.results[r]? = some x := by rw [store, there]
  have queued := Moment.queued?_cases here
  split
  next about =>
    have settled := Moment.settled?_about about here
    have moves := yields.moves about here direct (store ▸ (sound.frames.moment found).1)
    have self := System.after_self found e calls
    generalize x.touch μ.result μ.frame = x' at settled moves ⊢
    generalize same : x'.cell = cell at moves settled
    generalize frame : μ.frame = frame₀ at moves queued
    generalize result : μ.result = result₀ at moves queued
    generalize e.result = result₁ at moves self
    generalize e.frames = frames₁ at moves self
    cases moves with
    | still drained =>
      apply ledger.calm orderly there found yields (by rw [same]) (by rw [same])
      · simpa using settled
      · -- a registration that leaves the cell alone came after the end
        rcases queued with none | ⟨pending, a, task, result, frame, -⟩
        · exact none
        · have waiting := ((orderly.there r x there).waiting pending).1
          rw [drained a task result frame] at waiting
          cases waiting
    | settles pending terminal ending =>
      apply ledger.settles orderly there found pending (by rw [same]; exact terminal)
      · rw [settled, same]
        simp [pending, terminal]
      · rcases queued with none | ⟨-, a, task, -, register, -⟩
        · exact none
        · rw [register] at ending
          exact ending.elim
      · exact self
    | @queues a task undrained =>
      have pending : x.cell.state.isPending = true := by
        cases state : x.cell.state.isPending with
        | true => rfl
        | false =>
          have drained := ((orderly.there r x there).ended state).1
          rw [undrained] at drained
          cases drained
      apply ledger.queues orderly there found pending (by rw [same]) (by rw [same])
      · simpa using settled
      · simp [Moment.queued?, result, frame, here, pending]
    | notifies =>
      apply ledger.calm orderly there found yields (by rw [same]; rfl) (by rw [same]; rfl)
      · simpa [Cell.notify] using settled
      · rcases queued with none | ⟨-, a, task, -, register, -⟩
        · exact none
        · cases register
  next apart =>
    apply ledger.calm orderly there found yields rfl rfl (if_neg apart)
    rcases queued with none | ⟨-, a, task, -, register, -⟩
    · exact none
    · exact absurd (by rw [register]; rfl) apart

end Ledger

/-- A new result is pending without callbacks, or terminal with nobody to tell. -/
theorem Frame.made?_cell {result : Return V} {frame : Frame V κ} {x : Result V κ}
    (made : frame.made? result = some x) :
    x.cell.state.isPending = true ∧ x.cell.queue = [] ∨
      x.cell.state.isPending = false ∧ x.cell.notified = true := by
  obtain ⟨-, fresh | ⟨state, terminal, settled⟩⟩ := made?_start made
  · rw [fresh]
    exact .inl ⟨rfl, rfl⟩
  · rw [settled]
    exact .inr ⟨terminal, rfl⟩

theorem Result.Later.direct {x x' : Result V κ} (later : x.Later x') (direct : x'.Direct) :
    x.Direct := by
  obtain ⟨cell, kind⟩ := x
  obtain ⟨cell', kind'⟩ := x'
  have kinds := later.kind
  cases kind <;> cases kind' <;> trivial

/-- The history tells of all results, and says nothing of those that are not there. -/
structure System.Recorded (h : List (Moment V κ σ)) (s : System V κ σ) : Prop where
  there : ∀ (r : ResultId) (x : Result V κ), s.store.results[r]? = some x → x.Direct →
    Ledger r h s x
  called : ∀ (r : ResultId) (x : Result V κ), s.store.results[r]? = some x → x.Direct →
    ∀ μ ∈ h, μ.settled? r ≠ none → (∃ a, μ.result = .ok a) ∧ μ.frame.Ending r
  beyond : ∀ r : ResultId, s.store.results[r]? = none →
    settled r h = [] ∧ queued r h = [] ∧ delivered r h = []

theorem System.Recorded.step {client : Client V κ σ} {s : System V κ σ} {t : Nat} {μ : Moment V κ σ}
    {h : List (Moment V κ σ)} {e : Effect V κ σ} {calls : List (Call V κ)}
    (recorded : s.Recorded h) (orderly : s.Orderly) (sound : s.Sound) (found : s.moment? t = some μ)
    (yields : μ.Yields client e calls) :
    (s.after t μ.below e calls).Recorded (h ++ [μ]) := by
  have store := (moment?_eq_some found).1
  have touches := yields.touches
  rw [store] at touches
  -- nothing happens to a result that is not there
  have missing (r : ResultId) (none : s.store.results[r]? = none) :
      settled r (h ++ [μ]) = [] ∧ queued r (h ++ [μ]) = [] ∧ delivered r (h ++ [μ]) = [] := by
    obtain ⟨unsettled, unqueued, undelivered⟩ := recorded.beyond r none
    have idle := idle_delivered? (orderly.beyond r none).2 found
    rw [← store] at none
    rw [settled_concat, queued_concat, delivered_concat, unsettled, unqueued, undelivered, idle,
      Moment.settled?_missing none, Moment.queued?_missing none]
    exact ⟨rfl, rfl, rfl⟩
  constructor
  · intro r x' after direct
    cases before : s.store.results[r]? with
    | some x =>
      have moved := touches.there r x before
      obtain ⟨x₁, after₁, later⟩ := touches.later r x before
      cases after.symm.trans after₁
      have ledger := (recorded.there r x before (later.direct direct)).step orderly sound before
        (later.direct direct) found yields
      cases after.symm.trans moved
      exact ledger
    | none =>
      obtain ⟨unsettled, unqueued, undelivered⟩ := missing r before
      have made := (touches.new before after).2
      rcases Frame.made?_cell made with ⟨pending, empty⟩ | ⟨terminal, told⟩
      · exact .waiting pending unsettled undelivered (by rw [empty, unqueued])
      · exact .born terminal unsettled undelivered unqueued ⟨x', after, told⟩
  · intro r x' after direct μ' member settles
    cases before : s.store.results[r]? with
    | some x =>
      obtain ⟨x₁, after₁, later⟩ := touches.later r x before
      cases after.symm.trans after₁
      have direct := later.direct direct
      rcases List.mem_append.mp member with member | member
      · exact recorded.called r x before direct μ' member settles
      · cases List.mem_singleton.mp member
        obtain ⟨answered, ending, -⟩ := yields.settled (by rw [store, before]) direct
          (store ▸ (sound.frames.moment found).1) settles
        exact ⟨answered, ending⟩
    | none =>
      have unsettled := List.filterMap_eq_nil_iff.mp (missing r before).1
      exact absurd (unsettled μ' member) settles
  · intro r none
    apply missing r
    cases before : s.store.results[r]? with
    | none => rfl
    | some x =>
      obtain ⟨x', after, -⟩ := touches.later r x before
      cases none.symm.trans after

theorem Ledger.begin {r : ResultId} {h : List (Moment V κ σ)} {s : System V κ σ} {x : Result V κ}
    (ledger : Ledger r h s x) (c : Call V κ) : Ledger r h (s.begin c) x := by
  cases ledger with
  | waiting pending unsettled none all => exact .waiting pending unsettled none all
  | born terminal unsettled none empty told => exact .born terminal unsettled none empty told
  | ended terminal once delivering => exact .ended terminal once (delivering.begin c)
  | delivered terminal once all told => exact .delivered terminal once all told

theorem Ledger.pass {r : ResultId} {h : List (Moment V κ σ)} {s : System V κ σ} {x : Result V κ}
    (ledger : Ledger r h s x) (now : Nat) : Ledger r h (s.pass now) x := by
  cases ledger with
  | waiting pending unsettled none all => exact .waiting pending unsettled none all
  | born terminal unsettled none empty told => exact .born terminal unsettled none empty told
  | ended terminal once delivering => exact .ended terminal once (delivering.pass now)
  | delivered terminal once all told => exact .delivered terminal once all told

/-- The history of a run from nothing tells of all results. -/
theorem Run.recorded {client : Client V κ σ} {memory : σ} {h : List (Moment V κ σ)}
    {s : System V κ σ} (run : Run client Call.Fair ⟨.empty memory, []⟩ h s) : s.Recorded h := by
  induction run with
  | start =>
    refine ⟨fun r x there => ?_, fun r x there => ?_, fun _ _ => ⟨rfl, rfl, rfl⟩⟩ <;>
      simp [Store.empty] at there
  | step run found step fair ih =>
    obtain ⟨μ, e, calls, moment, yields, rfl⟩ := System.step_yields step
    cases found.symm.trans moment
    exact ih.step (run.orderly (System.sound_empty memory) (System.orderly_empty memory))
      (run.sound (System.sound_empty memory)) found yields
  | begin c _ _ ih =>
    exact ⟨fun r x there direct => (ih.there r x there direct).begin c, ih.called, ih.beyond⟩
  | pass now _ _ ih =>
    exact ⟨fun r x there direct => (ih.there r x there direct).pass now, ih.called, ih.beyond⟩

end Quorate
