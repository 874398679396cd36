import Quorate.Proofs.Merge.Turns

/-! What a cancel does to a network at rest. It goes down to the results below the one it was called
on and cancels those that are pending. Whatever callbacks it sets off find a cancelled source, so
that they change nothing. -/

set_option autoImplicit false

namespace Quorate

variable {V κ σ : Type}

/-- The result `r` is `m`, or below it. -/
def Within (net : List (Node V κ)) (m r : ResultId) : Prop := r = m ∨ Below net m r

theorem Within.source {net : List (Node V κ)} {m r r' : ResultId} (within : Within net m r)
    (source : SourceOf net r r') : Within net m r' := by
  rcases within with rfl | below
  · exact .inr (.single source)
  · exact .inr (.tail below source)

/-- A result is as it was, except that its readers may have been told, or it was cancelled. -/
inductive Result.Becomes (reached : Prop) (x x' : Result V κ) : Prop where
  | kept : x'.cell.state = x.cell.state → x'.cell.queue = x.cell.queue → x'.kind = x.kind →
      Becomes reached x x'
  | cancelled : reached → x.cell.state = .pending → x'.cell.state = .cancelled →
      x'.cell.queue = [] → Becomes reached x x'

namespace Result

variable {reached : Prop} {x x' : Result V κ}

theorem cancel_cases (x : Result V κ) :
    x.cancel = x ∨ x.cell.state = .pending ∧
      x.cancel.cell = ⟨.cancelled, [], true, x.cell.notified⟩ := by
  obtain ⟨cell, kind⟩ := x
  have taken {cell' : Cell V (Task κ)} {tasks : List (Task κ)}
      (same : cell.transition .cancelled = some (cell', tasks)) :
      cell.state = .pending ∧ cell' = ⟨.cancelled, [], true, cell.notified⟩ := by
    obtain ⟨pending, rfl, -⟩ := (Cell.transition_eq_some_iff _ _ _ _).mp same
    exact ⟨(State.isPending_iff _).mp pending, rfl⟩
  cases kind with
  | settable =>
    simp only [cancel, complete]
    split
    next => exact .inl rfl
    next same => exact .inr (taken same)
  | merge m =>
    simp only [cancel]
    split
    next => exact .inl rfl
    next same => exact .inr (taken same)
  | _ => exact .inl rfl

theorem Becomes.refl (x : Result V κ) : x.Becomes reached x := .kept rfl rfl rfl

theorem Becomes.cancel (becomes : x.Becomes reached x') (here : reached) :
    x.Becomes reached x'.cancel := by
  rcases x'.cancel_cases with same | ⟨pending, cell⟩
  · rw [same]
    exact becomes
  · cases becomes with
    | kept state => exact .cancelled here (state ▸ pending) (by rw [cell]) (by rw [cell])
    | cancelled _ _ state => cases pending.symm.trans state

theorem Becomes.notify (becomes : x.Becomes reached x') : x.Becomes reached x'.notify := by
  cases becomes with
  | kept state queue kind => exact .kept state queue kind
  | cancelled here pending state queue => exact .cancelled here pending state queue

end Result

/-- Every result is as it was, or it is within `m` and was cancelled. -/
structure Store.Becomes (net : List (Node V κ)) (m : ResultId) (s s' : Store V κ σ) : Prop where
  length : s'.results.length = s.results.length
  there : ∀ (r : ResultId) (x : Result V κ), s.results[r]? = some x →
    ∃ x', s'.results[r]? = some x' ∧ x.Becomes (Within net m r) x'

theorem Store.Later.state? {s s' : Store V κ σ} (later : s.Later s') {r : ResultId}
    {state : State V} (ended : s.state? r = some state) (terminal : state ≠ .pending) :
    s'.state? r = some state := by
  obtain ⟨x, there, rfl⟩ := Option.map_eq_some_iff.mp ended
  obtain ⟨x', there', later⟩ := later r x there
  rw [Store.state?_there there', later.state_of_ne terminal]

theorem Store.Later.peaceful {s s' : Store V κ σ} (later : s.Later s') {r : ResultId}
    (peaceful : s.Peaceful r) : s'.Peaceful r := by
  rcases peaceful with ⟨v, succeeded⟩ | cancelled
  · exact .inl ⟨v, later.state? succeeded nofun⟩
  · exact .inr (later.state? cancelled nofun)

/-- The source that a merge would look at is cancelled. -/
def Store.Vain (net : List (Node V κ)) (s : Store V κ σ) (m i : Nat) : Prop :=
  ∀ node, net[m]? = some node → ∀ source, node.sources[i]? = some source →
    s.state? source = some .cancelled

def Task.Vain (net : List (Node V κ)) (s : Store V κ σ) (task : Task κ) : Prop :=
  ∃ m i, task = ⟨.observe m i, .inline⟩ ∧ s.Vain net m i

/-- A frame of a cancel of `m`, or of a callback that it set off. -/
def Frame.Cascades (net : List (Node V κ)) (m : ResultId) (s : Store V κ σ) : Frame V κ → Prop
  | .call (.cancel r) => Within net m r
  | .call (.perform task) => task.Vain net s
  | .start (.observe merge i) | .lookup merge i => s.Vain net merge i
  | .query _ _ source => s.state? source = some .cancelled
  | .deliver _ tasks first _ => first = none ∧ ∀ task ∈ tasks, task.Vain net s
  | .sweep r rest _ tasks =>
    Within net m r ∧ (∀ source ∈ rest, SourceOf net r source) ∧ ∀ task ∈ tasks, task.Vain net s
  | _ => False

/-- A frame that is going to cancel `r`. -/
def Frame.Asks (r : ResultId) : Frame V κ → Prop
  | .call (.cancel r') => r' = r
  | .sweep _ rest _ _ => r ∈ rest
  | _ => False

section

variable {net : List (Node V κ)} {m r r' : ResultId} {s s' : Store V κ σ} {frame : Frame V κ}

theorem Store.Later.vain (later : s.Later s') {m i : Nat} (vain : s.Vain net m i) :
    s'.Vain net m i :=
  fun node there source position => later.state? (vain node there source position) nofun

theorem Store.Later.task_vain (later : s.Later s') {task : Task κ} (vain : task.Vain net s) :
    task.Vain net s' := by
  obtain ⟨m, i, same, vain⟩ := vain
  exact ⟨m, i, same, later.vain vain⟩

theorem Store.Later.cascades (later : s.Later s') (cascades : frame.Cascades net m s) :
    frame.Cascades net m s' := by
  cases frame with
  | call c =>
    cases c with
    | cancel r => exact cascades
    | perform task => exact later.task_vain cascades
    | _ => exact cascades.elim
  | start callback =>
    cases callback with
    | observe merge i => exact later.vain cascades
    | _ => exact cascades.elim
  | lookup merge i => exact later.vain cascades
  | query merge i source => exact later.state? cascades nofun
  | deliver r tasks first reply =>
    exact ⟨cascades.1, fun task member => later.task_vain (cascades.2 task member)⟩
  | sweep r rest all tasks =>
    exact ⟨cascades.1, cascades.2.1, fun task member => later.task_vain (cascades.2.2 task member)⟩
  | _ => exact cascades.elim

/-- A callback at a source that is cancelled is vain. -/
theorem Task.Awaits.vain {task : Task κ} (awaits : task.Awaits net r)
    (cancelled : s.state? r = some .cancelled) : task.Vain net s := by
  obtain ⟨m, i, same, own⟩ := awaits
  refine ⟨m, i, same, fun node there source position => ?_⟩
  rw [own node there source position]
  exact cancelled

end

section

variable {client : Client V κ σ} {net : List (Node V κ)} {m r r' : ResultId}
  {s₀ s : Store V κ σ}

theorem Store.Becomes.before (becomes : s₀.Becomes net m s) {x : Result V κ}
    (there : s.results[r]? = some x) :
    ∃ x₀, s₀.results[r]? = some x₀ ∧ x₀.Becomes (Within net m r) x := by
  have bound : r < s₀.results.length := by
    rw [← becomes.length]
    exact (List.getElem?_eq_some_iff.mp there).1
  have found := List.getElem?_eq_getElem bound
  obtain ⟨x', there', becomes⟩ := becomes.there r _ found
  cases there.symm.trans there'
  exact ⟨_, found, becomes⟩

section

variable (rests : s₀.Rests net) (becomes : s₀.Becomes net m s)
include rests becomes

theorem Store.Becomes.queued {x : Result V κ} (there : s.results[r]? = some x) {task : Task κ}
    (member : task ∈ x.cell.queue) : task.Awaits net r := by
  obtain ⟨x₀, before, becomes⟩ := becomes.before there
  cases becomes with
  | kept _ queue =>
    rw [queue] at member
    exact rests.queued r _ before task member
  | cancelled _ _ _ queue =>
    rw [queue] at member
    cases member

/-- No source of a cancelled merge has failed. -/
theorem Store.Becomes.not_failed (source : SourceOf net r r')
    (cancelled : s.state? r = some .cancelled) (e : Error) : s.state? r' ≠ some (.failed e) := by
  intro failed
  obtain ⟨x, there, state⟩ := Option.map_eq_some_iff.mp cancelled
  obtain ⟨y, there', state'⟩ := Option.map_eq_some_iff.mp failed
  obtain ⟨x₀, before, merge⟩ := becomes.before there
  obtain ⟨y₀, before', own⟩ := becomes.before there'
  cases own with
  | cancelled _ _ other => cases state'.symm.trans other
  | kept same =>
    have failed₀ : s₀.state? r' = some (.failed e) := by
      rw [Store.state?_there before', ← same, state']
    cases merge with
    | kept same =>
      have cancelled₀ : s₀.state? r = some .cancelled := by
        rw [Store.state?_there before, ← same, state]
      rcases rests.ended r r' source (.inr cancelled₀) with ⟨v, succeeded⟩ | cancelled'
      · cases failed₀.symm.trans succeeded
      · cases failed₀.symm.trans cancelled'
    | cancelled _ pending =>
      refine rests.waits r r' source ?_ e failed₀
      rw [Store.state?_there before, pending]

/-- A merge holds its sources as long as it is pending. -/
theorem Store.Becomes.record (later : s₀.Later s) {merger : Merger V κ} {sources : List ResultId}
    (node : net[r]? = some (.merge merger sources)) :
    ∃ (cell : Cell V (Task κ)) (merge : Merge V κ), s.results[r]? = some ⟨cell, .merge merge⟩ ∧
      (merge.gathering.sources = sources ∨
        merge.gathering.sources = [] ∧ cell.state ≠ .pending) := by
  obtain ⟨cell₀, merge₀, before, held⟩ := rests.merge r merger sources node
  obtain ⟨⟨cell, kind⟩, there, becomes⟩ := becomes.there r _ before
  obtain ⟨x', there', later⟩ := later r _ before
  cases there.symm.trans there'
  cases becomes with
  | kept state _ same =>
    dsimp only at state same
    subst same
    refine ⟨cell, merge₀, there, held.imp_right fun released => ⟨released.1, ?_⟩⟩
    rw [state]
    exact released.2
  | cancelled _ pending state =>
    dsimp only at pending state
    have kinds := later.kind
    cases kind with
    | merge merge =>
      obtain ⟨-, -, sources'⟩ := kinds
      refine ⟨cell, merge, there, ?_⟩
      have all : merge₀.gathering.sources = sources := held.resolve_right fun late => late.2 pending
      rw [all] at sources'
      exact sources'.imp_right fun none => ⟨none, by rw [state]; nofun⟩
    | _ => exact kinds.elim

/-- Every result is a leaf or a merge. -/
theorem Store.Becomes.kinds (later : s₀.Later s) {x : Result V κ} (there : s.results[r]? = some x) :
    x.kind = .settable ∨ ∃ merger sources merge, net[r]? = some (.merge merger sources) ∧
      x.kind = .merge merge ∧ (x.cell.state = .pending → merge.gathering.sources = sources) := by
  have bound : r < net.length := by
    rw [rests.length, ← becomes.length]
    exact (List.getElem?_eq_some_iff.mp there).1
  have node := List.getElem?_eq_getElem bound
  cases same : net[r] with
  | leaf =>
    rw [same] at node
    obtain ⟨cell, before⟩ := rests.leaf r node
    obtain ⟨x', there', later⟩ := later r _ before
    cases there.symm.trans there'
    have kinds := later.kind
    cases kind : x.kind <;> rw [kind] at kinds <;> first | exact .inl rfl | exact kinds.elim
  | merge merger sources =>
    rw [same] at node
    obtain ⟨cell, merge, there', held⟩ := becomes.record rests later node
    cases there.symm.trans there'
    exact .inr ⟨merger, sources, merge, node, rfl, fun pending =>
      held.resolve_right fun released => released.2 pending⟩

end

/-- What a cancel of a leaf or of a merge does at once. -/
inductive Store.Asked (s : Store V κ σ) (r : ResultId) (x : Result V κ) : Effect V κ σ → Prop where
  | refused : x.cell.state ≠ .pending → Asked s r x ⟨s, .ok (.flag false), []⟩
  | leaf : x.kind = .settable → x.cell.state = .pending → x.cancel.cell.state = .cancelled →
      Asked s r x ⟨s.set r x.cancel, .ok .unit, [.deliver r x.cell.queue none (.flag true)]⟩
  | merge {merge : Merge V κ} : x.kind = .merge merge → x.cell.state = .pending →
      x.cancel.cell.state = .cancelled →
      Asked s r x ⟨s.set r x.cancel, .ok (.flag true),
        [.sweep r merge.gathering.sources true x.cell.queue]⟩

theorem Store.enter_cancel {x : Result V κ} {e : Effect V κ σ} (there : s.results[r]? = some x)
    (kinds : x.kind = .settable ∨ ∃ merge, x.kind = .merge merge)
    (effect : s.enter client (.cancel r) = some e) : s.Asked r x e := by
  obtain ⟨x', there', -, effect⟩ := Store.locking_eq_some effect
  cases there.symm.trans there'
  obtain ⟨cell, kind⟩ := x
  have ended (terminal : cell.state.isPending = false) : cell.state ≠ .pending := by
    intro pending
    rw [pending] at terminal
    cases terminal
  have waits : cell.state.isPending = true → cell.state = .pending := (State.isPending_iff _).mp
  rcases kinds with same | ⟨merge, same⟩
  · dsimp only at same
    subst same
    simp only [Store.completing] at effect
    split at effect
    next none =>
      cases effect
      exact .refused (ended ((Cell.transition_eq_none_iff _ _).mp none))
    next cell' tasks some =>
      obtain ⟨pending, rfl, rfl⟩ := (Cell.transition_eq_some_iff _ _ _ _).mp some
      cases effect
      have cancelled : (Result.mk cell .settable : Result V κ).cancel =
          ⟨⟨.cancelled, [], true, cell.notified⟩, .settable⟩ := by
        simp only [Result.cancel, Result.complete, some]
      rw [← cancelled]
      exact .leaf rfl (waits pending) (by rw [cancelled])
  · dsimp only at same
    subst same
    simp only at effect
    split at effect
    next none =>
      cases effect
      exact .refused (ended ((Cell.transition_eq_none_iff _ _).mp none))
    next cell' tasks some =>
      obtain ⟨pending, rfl, rfl⟩ := (Cell.transition_eq_some_iff _ _ _ _).mp some
      cases effect
      have cancelled : (Result.mk cell (.merge merge)).cancel =
          ⟨⟨.cancelled, [], true, cell.notified⟩,
            .merge { merge with gathering := merge.gathering.release }⟩ := by
        simp only [Result.cancel, some]
      rw [← cancelled]
      exact .merge rfl (waits pending) (by rw [cancelled])

theorem Store.state?_set {x y : Result V κ} (there : s.results[r]? = some x) :
    (s.set r y).state? r = some y.cell.state := by
  have bound := (List.getElem?_eq_some_iff.mp there).1
  exact state?_there (by simp [bound])

end

section

variable {client : Client V κ σ} {net : List (Node V κ)} {m r : ResultId} {s₀ s : Store V κ σ}
  {frame : Frame V κ} {a : Answer V} {e : Effect V κ σ} (rests : s₀.Rests net)
  (later : s₀.Later s) (becomes : s₀.Becomes net m s)
include rests later becomes

theorem Store.Becomes.asked {x : Result V κ} (there : s.results[r]? = some x)
    (effect : s.resume client (.ok a) (.call (.cancel r)) = some e) : s.Asked r x e := by
  apply Store.enter_cancel there _ effect
  rcases becomes.kinds rests later there with leaf | ⟨-, -, merge, -, kind, -⟩
  · exact .inl leaf
  · exact .inr ⟨merge, kind⟩

/-- The frames that a cancel leaves go on with it, and none of them panics. -/
theorem Frame.Cascades.step (here : frame.Cascades net m s)
    (effect : s.resume client (.ok a) frame = some e) :
    (∃ b, e.result = .ok b) ∧ ∀ f ∈ e.frames, f.Cascades net m e.store := by
  have moved := (Store.resume_touches effect).later
  cases frame with
  | call c =>
    cases c with
    | cancel r =>
      obtain ⟨x, there, -, -⟩ := Store.locking_eq_some effect
      -- the callbacks of a result that is cancelled now are vain
      have vain (cancelled : (s.set r x.cancel).state? r = some .cancelled) :
          ∀ task ∈ x.cell.queue, task.Vain net (s.set r x.cancel) :=
        fun task member => (becomes.queued rests there member).vain cancelled
      cases becomes.asked rests later there effect with
      | refused => exact ⟨⟨_, rfl⟩, by simp⟩
      | leaf _ _ cancelled =>
        refine ⟨⟨_, rfl⟩, fun f member => ?_⟩
        rw [List.mem_singleton.mp member]
        exact ⟨rfl, vain (by rw [Store.state?_set there, cancelled])⟩
      | merge kind pending cancelled =>
        refine ⟨⟨_, rfl⟩, fun f member => ?_⟩
        rw [List.mem_singleton.mp member]
        refine ⟨here, fun source member => ?_, vain (by rw [Store.state?_set there, cancelled])⟩
        rcases becomes.kinds rests later there with leaf | ⟨merger, sources, merge, node, same, all⟩
        · cases kind.symm.trans leaf
        · cases kind.symm.trans same
          exact ⟨_, node, all pending ▸ member⟩
    | perform task =>
      obtain ⟨merge, i, rfl, vain⟩ := here
      cases effect
      refine ⟨⟨_, rfl⟩, fun f member => ?_⟩
      rw [List.mem_singleton.mp member]
      exact vain
    | _ => exact here.elim
  | start callback =>
    cases callback with
    | observe merge i =>
      cases effect
      refine ⟨⟨_, rfl⟩, fun f member => ?_⟩
      rw [List.mem_singleton.mp member]
      exact here
    | _ => exact here.elim
  | lookup merge i =>
    obtain ⟨x, there, -, effect⟩ := Store.locking_eq_some effect
    split at effect
    next gathered kind =>
      split at effect
      next => cases effect; exact ⟨⟨_, rfl⟩, by simp⟩
      next source position =>
        cases effect
        refine ⟨⟨_, rfl⟩, fun f member => ?_⟩
        rw [List.mem_singleton.mp member]
        rcases becomes.kinds rests later there with leaf | ⟨merger, sources, _, node, same, -⟩
        · cases kind.symm.trans leaf
        · cases kind.symm.trans same
          -- the merge still holds its sources, as it has found one
          obtain ⟨cell, merge', there', held⟩ := becomes.record rests later node
          cases there.symm.trans there'
          cases kind
          rcases held with all | ⟨none, -⟩
          · rw [all] at position
            exact here _ node source position
          · rw [none] at position
            cases position
    next => cases effect
  | query merge i source =>
    obtain ⟨x, there, state⟩ := Option.map_eq_some_iff.mp here
    obtain ⟨x', there', -, effect⟩ := Store.locking_eq_some effect
    cases there.symm.trans there'
    have cancelled : x.isDone = true ∧ x.isCancelled = true := by
      rcases becomes.kinds rests later there with kind | ⟨-, -, merge, -, kind, -⟩ <;>
        simp [Result.isDone, Result.isCancelled, kind, state, State.isPending, State.isCancelled]
    simp only [cancelled, Bool.not_true, Bool.false_eq_true, if_false, if_true] at effect
    cases effect
    exact ⟨⟨_, rfl⟩, by simp⟩
  | deliver r tasks first reply =>
    obtain ⟨rfl, vain⟩ := here
    cases tasks with
    | nil =>
      simp only [Store.resume, Store.proceed] at effect
      split at effect
      next => cases effect
      next =>
        split at effect <;> cases effect
        exact ⟨⟨_, rfl⟩, by simp⟩
    | cons task tasks =>
      cases effect
      refine ⟨⟨_, rfl⟩, fun f member => ?_⟩
      simp only [List.mem_cons, List.not_mem_nil, or_false] at member
      rcases member with rfl | rfl
      · exact vain task List.mem_cons_self
      · exact ⟨rfl, fun task member => vain task (List.mem_cons_of_mem _ member)⟩
  | sweep r rest all tasks =>
    obtain ⟨within, sources, vain⟩ := here
    cases a with
    | flag b =>
      cases rest with
      | nil =>
        cases effect
        refine ⟨⟨_, rfl⟩, fun f member => ?_⟩
        rw [List.mem_singleton.mp member]
        exact ⟨rfl, vain⟩
      | cons source rest =>
        cases effect
        refine ⟨⟨_, rfl⟩, fun f member => ?_⟩
        simp only [List.mem_cons, List.not_mem_nil, or_false] at member
        rcases member with rfl | rfl
        · exact within.source (sources source List.mem_cons_self)
        · exact ⟨within, fun r member => sources r (List.mem_cons_of_mem _ member), vain⟩
    | _ => cases effect
  | _ => exact here.elim

omit rests later in
theorem Store.Becomes.step (here : frame.Cascades net m s)
    (effect : s.resume client (.ok a) frame = some e) : s₀.Becomes net m e.store := by
  have touches := Store.resume_touches effect
  refine ⟨?_, fun r x before => ?_⟩
  · have none : frame.made? (.ok a : Return V) = none := by
      cases frame with
      | call c => cases c <;> first | rfl | exact here.elim
      | _ => rfl
    rw [touches.length, none, becomes.length]
    rfl
  · obtain ⟨x', there, becomes⟩ := becomes.there r x before
    refine ⟨_, touches.there r x' there, ?_⟩
    split
    next about =>
      cases frame with
      | call c =>
        cases c with
        | cancel r' => cases about; exact becomes.cancel here
        | _ => first | exact here.elim | cases about
      | deliver r' tasks first reply =>
        cases tasks with
        | nil => exact becomes.notify
        | cons => cases about
      | _ => first | exact here.elim | cases about
    next => exact becomes

/-- A result that is to be cancelled is asked next, or it has ended. -/
theorem Frame.Asks.step (asks : frame.Asks r) (effect : s.resume client (.ok a) frame = some e) :
    (∃ state, e.store.state? r = some state ∧ state ≠ .pending) ∨ ∃ f ∈ e.frames, f.Asks r := by
  cases frame with
  | call c =>
    cases c with
    | cancel r' =>
      cases asks
      obtain ⟨x, there, -, -⟩ := Store.locking_eq_some effect
      left
      cases becomes.asked rests later there effect with
      | refused ended => exact ⟨_, Store.state?_there there, ended⟩
      | leaf _ _ cancelled => exact ⟨_, Store.state?_set there, by rw [cancelled]; nofun⟩
      | merge _ _ cancelled => exact ⟨_, Store.state?_set there, by rw [cancelled]; nofun⟩
    | _ => exact asks.elim
  | sweep r' rest all tasks =>
    cases a with
    | flag b =>
      cases rest with
      | nil => cases asks
      | cons source rest =>
        cases effect
        right
        rcases List.mem_cons.mp asks with rfl | asks
        · exact ⟨_, List.mem_cons_self, rfl⟩
        · exact ⟨_, List.mem_cons_of_mem _ List.mem_cons_self, asks⟩
    | _ => cases effect
  | _ => exact asks.elim

/-- A merge that is cancelled is going to ask all of its sources. -/
theorem Store.Becomes.asks {r' : ResultId} (source : SourceOf net r r')
    (here : frame.Cascades net m s) (effect : s.resume client (.ok a) frame = some e)
    (before : s.state? r ≠ some .cancelled) (after : e.store.state? r = some .cancelled) :
    ∃ f ∈ e.frames, f.Asks r' := by
  obtain ⟨node, found, member⟩ := source
  cases node with
  | leaf => cases member
  | merge merger sources =>
    obtain ⟨cell, merge, there, held⟩ := becomes.record rests later found
    have touched := (Store.resume_touches effect).there r _ there
    split at touched
    next about =>
      cases frame with
      | call c =>
        cases c with
        | cancel r'' =>
          cases about
          generalize same : Result.mk cell (.merge merge) = x at there
          cases becomes.asked rests later there effect with
          | refused => exact absurd after before
          | leaf kind => subst same; cases kind
          | merge kind pending =>
            subst same
            cases kind
            refine ⟨_, List.mem_cons_self, ?_⟩
            show r' ∈ merge.gathering.sources
            rw [held.resolve_right fun released => released.2 pending]
            exact member
        | _ => first | exact here.elim | cases about
      | deliver r'' tasks first reply =>
        cases tasks with
        | nil =>
          -- readers are told, which leaves the state
          rw [Store.state?_there touched] at after
          rw [Store.state?_there there] at before
          exact absurd after before
        | cons => cases about
      | _ => first | exact here.elim | cases about
    next =>
      rw [Store.state?_there touched] at after
      rw [Store.state?_there there] at before
      exact absurd after before

end

/-- How far a cancel of `m` has come, which found the network at rest in `s₀`. -/
structure System.Cascade (net : List (Node V κ)) (m : ResultId) (s₀ : Store V κ σ)
    (s : System V κ σ) : Prop where
  later : s₀.Later s.store
  becomes : s₀.Becomes net m s.store
  frames : s.Each (Frame.Cascades net m s.store)
  answered : ∀ thread ∈ s.threads, thread.frames ≠ [] → ∃ a, thread.result = .ok a
  /-- What is below a cancelled merge has ended, or is going to be cancelled. -/
  asked : ∀ r r', SourceOf net r r' → s.store.state? r = some .cancelled →
    s.store.Peaceful r' ∨ ∃ thread ∈ s.threads, ∃ f ∈ thread.frames, f.Asks r'

section

variable {client : Client V κ σ} {net : List (Node V κ)} {m : ResultId} {s₀ : Store V κ σ}
  {s s₁ : System V κ σ} {t : Nat} {μ : Moment V κ σ} {e : Effect V κ σ} {calls : List (Call V κ)}
  {h : List (Moment V κ σ)}

theorem Store.Peaceful.of_ended {s : Store V κ σ} {r : ResultId} {state : State V}
    (there : s.state? r = some state) (ended : state ≠ .pending)
    (unfailed : ∀ e, s.state? r ≠ some (.failed e)) : s.Peaceful r := by
  cases state with
  | pending => exact absurd rfl ended
  | succeeded v => exact .inl ⟨v, there⟩
  | failed e => exact absurd there (unfailed e)
  | cancelled => exact .inr there

theorem System.Cascade.step (cascade : s.Cascade net m s₀) (rests : s₀.Rests net) (plain : s.Plain)
    (found : s.moment? t = some μ) (yields : μ.Yields client e calls) :
    (s.after t μ.below e calls).Cascade net m s₀ := by
  obtain ⟨later, becomes, frames, answered, asked⟩ := cascade
  obtain ⟨rfl, effect⟩ := plain.resumed found yields
  have selected := (moment?_eq_some found).2.2
  have here := (frames.moment found).1
  obtain ⟨a, same⟩ := answered _ (List.mem_of_getElem? selected) (by simp)
  dsimp only at same
  rw [same] at effect
  have moved := (Store.resume_touches effect).later
  obtain ⟨⟨b, result⟩, emitted⟩ := here.step rests later becomes effect
  have becomes' := becomes.step here effect
  refine ⟨later.trans moved, becomes', ?_, ?_, fun r r' source cancelled => ?_⟩
  · exact (frames.mono fun _ => moved.cascades).after found emitted (by simp)
  · exact threads_after (fun _ => ⟨b, result⟩) answered (by simp)
  · have self := List.mem_of_getElem? (after_self found e [])
    by_cases before : s.store.state? r = some .cancelled
    · rcases asked r r' source before with peaceful | ⟨thread, member, f, included, asks⟩
      · exact .inl (moved.peaceful peaceful)
      · obtain ⟨t', there⟩ := List.mem_iff_getElem?.mp member
        by_cases own : t = t'
        · subst own
          cases selected.symm.trans there
          rcases List.mem_cons.mp included with rfl | included
          · rcases asks.step rests later becomes effect with
              ⟨state, there, ended⟩ | ⟨f, included, asks⟩
            · exact .inl (.of_ended there ended (becomes'.not_failed rests source cancelled))
            · exact .inr ⟨_, self, f, List.mem_append_left _ included, asks⟩
          · exact .inr ⟨_, self, f, List.mem_append_right _ included, asks⟩
        · have there' := List.mem_of_getElem? (after_other there own μ.below e [])
          exact .inr ⟨thread, there', f, included, asks⟩
    · obtain ⟨f, included, asks⟩ := becomes.asks rests later source here effect before cancelled
      exact .inr ⟨_, self, f, List.mem_append_left _ included, asks⟩

/-- A cancel of a network at rest goes down to the sources of every merge that it cancels. -/
theorem Run.cascade (run : Run client (fun _ _ => False) (s.begin (.cancel m)) h s₁)
    (rests : s.store.Rests net) (ready : (s.begin (.cancel m)).Ready) (quiet : s.Quiet) :
    s₁.Cascade net m s.store := by
  induction run with
  | start =>
    refine ⟨.refl _, ⟨rfl, fun r x there => ⟨x, there, .refl x⟩⟩, ?_, ?_, ?_⟩
    · apply System.Each.begin
      · intro thread member f included
        rw [quiet thread member] at included
        cases included
      · exact .inl rfl
    · refine System.threads_begin (fun thread member some => ?_) fun _ => ⟨.unit, rfl⟩
      exact absurd (quiet thread member) some
    · exact fun r r' source cancelled => .inl (rests.ended r r' source (.inr cancelled))
  | step run found step _ ih =>
    obtain ⟨μ, e, calls, moment, yields, rfl⟩ := System.step_yields step
    cases found.symm.trans moment
    have before : Run client Call.Plain _ _ _ := run.mono fun _ _ => False.elim
    exact ih.step rests (before.plain ready.plain) found yields
  | begin c _ obeyed => exact obeyed.elim
  | @pass h s₁ now _ _ ih =>
    have moved : s₁.store.Later (s₁.pass now).store := Store.later_of_results rfl
    obtain ⟨later, ⟨length, there⟩, frames, answered, asked⟩ := ih
    exact ⟨later.trans moved, ⟨length, there⟩, frames.mono fun _ => moved.cascades, answered,
      asked⟩

/-- Once a cancel has ended, the sources of every cancelled merge have ended without a failure. -/
theorem System.Cascade.sealed (cascade : s.Cascade net m s₀) (quiet : s.Quiet) {r r' : ResultId}
    (source : SourceOf net r r') (cancelled : s.store.state? r = some .cancelled) :
    s.store.Peaceful r' := by
  rcases cascade.asked r r' source cancelled with peaceful | ⟨thread, member, f, included, -⟩
  · exact peaceful
  · rw [quiet thread member] at included
    cases included

end

end Quorate
