import Quorate.Proofs.Merge.Watch

/-! Where the callbacks of one merge are. They run inline, wait at the source of their position
only, and go on from there once that source has ended. -/

set_option autoImplicit false

namespace Quorate

variable {V κ σ : Type}

section

variable (m : ResultId) (sources : List ResultId) (s : Store V κ σ)

/-- The source at position `i` has ended. -/
def Store.Ended (i : Nat) : Prop :=
  ∃ r x, sources[i]? = some r ∧ s.results[r]? = some x ∧ x.isForeign = false ∧
    x.cell.state.isPending = false

/-- The result is cancelled, and stays so. -/
def Store.IsCancelled (r : ResultId) : Prop :=
  ∃ x, s.results[r]? = some x ∧ x.isForeign = false ∧ x.isCancelled = true

/-- A callback of `m` is to run inline, at a position of which `P` holds. -/
def Task.At (P : Nat → Prop) (task : Task κ) : Prop :=
  ∀ i, task.callback = .observe m i → task.executor = .inline ∧ P i

/-- A frame with callbacks of `m` has them where they belong. -/
def Frame.Placed : Frame V κ → Prop
  | .call (.register r task) => task.At m fun i => sources[i]? = some r
  | .call (.perform task) => task.At m (s.Ended sources)
  | .call (.discard task) => task.At m fun _ => False
  | .call (.fork c) => ∀ i, c.watches m i = 0
  | .start (.observe merge i) | .lookup merge i | .commit merge i => merge = m → s.Ended sources i
  | .query merge i r => merge = m → s.Ended sources i ∧ sources[i]? = some r
  | .deliver _ tasks _ _ => ∀ task ∈ tasks, task.At m (s.Ended sources)
  | .sweep r _ _ tasks => ∀ task ∈ tasks, task.At m fun i => sources[i]? = some r ∧ s.IsCancelled r
  | .attach merge rest index => merge = m → rest ≠ [] → rest = sources.drop index
  | _ => True

/-- What a store keeps of the merge `m`: its size, its sources, and its callbacks at them. -/
structure Store.Hosts : Prop where
  record : ∃ cell merge, s.results[m]? = some ⟨cell, .merge merge⟩ ∧
    merge.size = sources.length ∧
    (merge.gathering.sources = sources ∨ merge.gathering.sources = [])
  own : ∀ r ∈ sources, ∃ x, s.results[r]? = some x ∧ x.isForeign = false
  queued : ∀ (r : ResultId) (x : Result V κ), s.results[r]? = some x →
    ∀ task ∈ x.cell.queue, task.At m fun i => sources[i]? = some r

end

section

variable {m : ResultId} {sources : List ResultId} {s s' : Store V κ σ}

theorem Task.At.mono {P P' : Nat → Prop} {task : Task κ} (at' : task.At m P)
    (weaker : ∀ i, P i → P' i) : task.At m P' := fun i watches =>
  ⟨(at' i watches).1, weaker i (at' i watches).2⟩

theorem Store.Later.ended (later : s.Later s') {i : Nat} (ended : s.Ended sources i) :
    s'.Ended sources i := by
  obtain ⟨r, x, position, found, own, terminal⟩ := ended
  obtain ⟨x', found', later⟩ := later r x found
  exact ⟨r, x', position, found', later.isForeign.trans own, by rw [later.state terminal, terminal]⟩

theorem Store.IsCancelled.terminal {r : ResultId} (cancelled : s.IsCancelled r) :
    ∃ x, s.results[r]? = some x ∧ x.isForeign = false ∧ x.cell.state = .cancelled := by
  obtain ⟨⟨cell, kind⟩, found, own, cancelled⟩ := cancelled
  refine ⟨_, found, own, ?_⟩
  cases kind with
  | latch latch => cases cancelled
  | foreign done claims => cases own
  | _ =>
    simp only [Result.isCancelled] at cancelled
    cases state : cell.state <;> rw [state] at cancelled <;> first | rfl | cases cancelled

theorem Store.Later.isCancelled (later : s.Later s') {r : ResultId} (cancelled : s.IsCancelled r) :
    s'.IsCancelled r := by
  obtain ⟨x, found, own, state⟩ := cancelled.terminal
  obtain ⟨x₀, found₀, -, marked⟩ := cancelled
  cases found.symm.trans found₀
  obtain ⟨x', found', later⟩ := later r x found
  refine ⟨x', found', later.isForeign.trans own, ?_⟩
  have state' : x'.cell.state = .cancelled := by
    rw [later.state (by rw [state]; rfl), state]
  have kinds := later.kind
  obtain ⟨cell, kind⟩ := x
  obtain ⟨cell', kind'⟩ := x'
  simp only at kinds state'
  cases kind <;> cases kind' <;> simp only [Kind.Later] at kinds <;>
    simp_all [Result.isCancelled, State.isCancelled, Result.isForeign]

theorem Store.IsCancelled.ended {r : ResultId} {i : Nat} (cancelled : s.IsCancelled r)
    (position : sources[i]? = some r) : s.Ended sources i := by
  obtain ⟨x, found, own, state⟩ := cancelled.terminal
  exact ⟨r, x, position, found, own, by rw [state]; rfl⟩

theorem Store.Later.placed (later : s.Later s') {frame : Frame V κ}
    (placed : frame.Placed m sources s) : frame.Placed m sources s' := by
  cases frame with
  | call c =>
    cases c with
    | perform task => exact Task.At.mono placed fun i => later.ended
    | _ => exact placed
  | start callback =>
    cases callback with
    | observe merge i => exact fun same => later.ended (placed same)
    | _ => trivial
  | lookup merge i => exact fun same => later.ended (placed same)
  | commit merge i => exact fun same => later.ended (placed same)
  | query merge i r => exact fun same => ⟨later.ended (placed same).1, (placed same).2⟩
  | deliver r tasks first reply =>
    exact fun task member => (placed task member).mono fun i => later.ended
  | sweep r rest all tasks =>
    exact fun task member => (placed task member).mono fun i at' =>
      ⟨at'.1, later.isCancelled at'.2⟩
  | attach merge rest index => exact placed
  | _ => trivial

theorem Task.at_of_watches {task : Task κ} (none : ∀ i, task.watches m i = 0) {P : Nat → Prop} :
    task.At m P := by
  intro i watches
  have one := none i
  simp [Task.watches, Callback.watches, watches] at one

/-- A call that carries no callback of the merge has none to place. -/
theorem Call.placed {c : Call V κ} (none : ∀ i, c.watches m i = 0) :
    (Frame.call c).Placed m sources s := by
  cases c with
  | register r task => exact Task.at_of_watches none
  | perform task => exact Task.at_of_watches none
  | discard task => exact Task.at_of_watches none
  | fork c => exact none
  | _ => trivial

/-- A callback of the merge that is handed over starts after its source has ended. -/
theorem Task.At.starts {callback : Callback κ} {executor : Executor} (later : s.Later s')
    (at' : Task.At m (s.Ended sources) ⟨callback, executor⟩) :
    (Frame.start callback : Frame V κ).Placed m sources s' := by
  cases callback with
  | observe merge index =>
    rintro rfl
    exact later.ended (at' index rfl).2
  | _ => trivial

/-- No callback of the merge gets a thread of its own. -/
theorem Task.At.spawns {callback : Callback κ} {P : Nat → Prop}
    (at' : Task.At m P ⟨callback, .spawn⟩) :
    (Frame.call (.fork (.perform ⟨callback, .inline⟩)) : Frame V κ).Placed m sources s := by
  intro i
  cases callback with
  | observe merge index =>
    by_cases same : merge = m
    · subst same
      cases (at' index rfl).1
    · simp [Call.watches, Task.watches, Callback.watches, same]
  | _ => rfl

/-- A merge registers its callbacks at the sources of their positions. -/
theorem Frame.attach_placed {merge source : ResultId} {rest : List ResultId} {index : Nat}
    (placed : (Frame.attach merge (source :: rest) index : Frame V κ).Placed m sources s) :
    (Frame.call (.register source ⟨.observe merge index, .inline⟩) : Frame V κ).Placed m sources s' ∧
      (Frame.attach merge rest (index + 1) : Frame V κ).Placed m sources s' := by
  constructor
  · intro i watches
    cases watches
    refine ⟨rfl, ?_⟩
    show sources[index]? = some source
    rw [← List.head?_drop, ← placed rfl (by simp)]
    rfl
  · intro same _
    rw [← List.tail_drop, ← placed same (by simp)]
    rfl

theorem Frame.Passive.placed {frame : Frame V κ} (passive : frame.Passive) :
    frame.Placed m sources s := by
  cases frame with
  | call c => cases c <;> trivial
  | start callback => cases callback <;> trivial
  | _ => trivial

end

section

variable {client : Client V κ σ} {s : Store V κ σ} {result : Return V} {frame : Frame V κ}
  {e : Effect V κ σ} {m : ResultId} {sources : List ResultId}

theorem Store.Hosts.of_position (hosts : s.Hosts m sources) {i : Nat} {r : ResultId}
    (position : sources[i]? = some r) : ∃ x, s.results[r]? = some x ∧ x.isForeign = false :=
  hosts.own r (List.mem_of_getElem? position)

/-- A pending merge that is cancelled is cancelled after that step. -/
theorem Store.Touches.isCancelled {a : Answer V} {r : ResultId} {cell : Cell V (Task κ)}
    {merge : Merge V κ} (touches : s.Touches (.ok a) (.call (.cancel r)) e)
    (found : s.results[r]? = some ⟨cell, .merge merge⟩) (pending : cell.state.isPending = true) :
    e.store.IsCancelled r := by
  refine ⟨_, touches.there r _ found, ?_, ?_⟩
  · simp [Frame.subject?, Result.touch, Result.cancel, Cell.transition, pending, Result.isForeign]
  · simp [Frame.subject?, Result.touch, Result.cancel, Cell.transition, pending,
      Result.isCancelled, State.isCancelled]

/-- The callbacks of a result that ends go from its queue to its delivery. -/
theorem Store.Hosts.taken {r : ResultId} {x : Result V κ} {state : State V}
    (hosts : s.Hosts m sources) (touches : s.Touches result frame e)
    (about : frame.subject? = some r) (found : s.results[r]? = some x)
    (settles : x.Settles (x.touch result frame) state) (terminal : state.isPending = false) :
    ∀ task ∈ x.cell.queue, task.At m (e.store.Ended sources) := by
  intro task queued
  apply (hosts.queued r x found task queued).mono
  intro i position
  obtain ⟨x', found', own⟩ := hosts.of_position position
  cases found.symm.trans found'
  have after := touches.there r x found
  rw [if_pos about] at after
  exact ⟨r, _, position, after, (Result.touch_later _ _).isForeign.trans own,
    by rw [settles.cell]; exact terminal⟩

/-- A merge that is made now is another one. -/
theorem Store.Hosts.unmade (hosts : s.Hosts m sources) : s.results.length ≠ m := by
  rintro rfl
  obtain ⟨cell, merge, found, -⟩ := hosts.record
  exact absurd (List.getElem?_eq_some_iff.mp found).1 (Nat.lt_irrefl _)

/-- So is a merge of nothing. -/
theorem Store.Hosts.not_empty {merge : ResultId} (hosts : s.Hosts m sources) (some : sources ≠ [])
    (empty : s.IsMerge merge 0) : merge ≠ m := by
  rintro rfl
  obtain ⟨cell, gathering, found, size⟩ := empty
  obtain ⟨cell', gathering', found', size', -⟩ := hosts.record
  cases found.symm.trans found'
  exact some (List.eq_nil_of_length_eq_zero (size'.symm.trans size))

/-- A source that the merge looks up is the one at that position. -/
theorem Store.Hosts.position {cell : Cell V (Task κ)} {merge : Merge V κ} {index : Nat}
    {source : ResultId} (hosts : s.Hosts m sources)
    (found : s.results[m]? = some ⟨cell, .merge merge⟩)
    (selected : merge.gathering.sources[index]? = some source) : sources[index]? = some source := by
  obtain ⟨cell', merge', found', -, held⟩ := hosts.record
  cases found.symm.trans found'
  rcases held with all | none
  · rw [← all]
    exact selected
  · rw [none] at selected
    cases selected

/-- A step leaves callbacks where they belong. A callback gets from the queue of its source to the
merge only after the source has ended. -/
theorem Emits.placed (emits : Emits client s result frame e.result e.frames)
    (touches : s.Touches result frame e) (hosts : s.Hosts m sources) (some : sources ≠ [])
    (sound : frame.Sound s) (placed : frame.Placed m sources s)
    (drained : ∀ (r : ResultId) (x : Result V κ), s.results[r]? = Option.some x →
      x.cell.drained = true → x.cell.state.isPending = false)
    (blind : ∀ c, (Moment.mk s 0 result frame []).call? client = Option.some c → c.Blind m s) :
    ∀ f ∈ e.frames, f.Placed m sources e.store := by
  have later := touches.later
  generalize same : e.result = result' at emits
  generalize up : e.frames = frames at emits
  cases emits with
  | passive passive passives => exact fun f member => (passives f member).placed
  | polls =>
    have signal (f : FutureId) : Task.At m (fun _ => False) (⟨.signal f, .inline⟩ : Task κ) :=
      Task.at_of_watches fun _ => rfl
    exact List.forall_mem_cons.mpr
      ⟨(signal _).mono fun _ => False.elim, List.forall_mem_singleton.mpr trivial⟩
  | @calls _ _ _ c action =>
    have blind := blind c (by simp [Moment.call?, action])
    exact List.forall_mem_cons.mpr ⟨Call.placed blind.2, List.forall_mem_singleton.mpr trivial⟩
  | @attempts _ _ _ c action =>
    have blind := blind c (by simp [Moment.call?, action])
    exact List.forall_mem_cons.mpr ⟨Call.placed blind.2,
      List.forall_mem_cons.mpr ⟨trivial, List.forall_mem_singleton.mpr trivial⟩⟩
  | settles about found settles terminal form =>
    exact List.forall_mem_singleton.mpr
      (hosts.taken touches about found settles (sound.given terminal))
  | @sweeps a r cell merge found pending =>
    refine List.forall_mem_singleton.mpr fun task queued => ?_
    exact (hosts.queued r _ found task queued).mono fun i position =>
      ⟨position, touches.isCancelled found pending⟩
  | serves => exact List.forall_mem_singleton.mpr trivial
  | @performs a r task x found own full =>
    refine List.forall_mem_singleton.mpr (Task.At.mono placed fun i position => later.ended ?_)
    exact ⟨r, x, position, found, own, drained r x found full⟩
  | builds => exact List.forall_mem_singleton.mpr fun same => absurd same hosts.unmade
  | opens form =>
    rcases form with ⟨f, p, -, -, -, rfl⟩ | ⟨f, o, -, -, -, rfl⟩ | ⟨f, -, -, rfl⟩
    · simp
    · exact List.forall_mem_singleton.mpr trivial
    · exact List.forall_mem_cons.mpr ⟨trivial, List.forall_mem_singleton.mpr trivial⟩
  | completes =>
    exact List.forall_mem_cons.mpr ⟨trivial, List.forall_mem_singleton.mpr fun same =>
      absurd same (hosts.not_empty some sound)⟩
  | inline => exact List.forall_mem_singleton.mpr (Task.At.starts later placed)
  | spawns => exact List.forall_mem_singleton.mpr (Task.At.spawns placed)
  | joins =>
    exact List.forall_mem_cons.mpr
      ⟨Task.At.starts later placed, List.forall_mem_singleton.mpr trivial⟩
  | observes => exact List.forall_mem_singleton.mpr fun same => later.ended (placed same)
  | finds found selected =>
    refine List.forall_mem_singleton.mpr ?_
    rintro rfl
    exact ⟨later.ended (placed rfl), hosts.position found selected⟩
  | inquires =>
    exact List.forall_mem_cons.mpr ⟨trivial, List.forall_mem_singleton.mpr fun same =>
      later.ended (placed same).1⟩
  | reads => exact List.forall_mem_singleton.mpr fun same => later.ended (placed same).1
  | merges => exact List.forall_mem_cons.mpr ⟨trivial, List.forall_mem_singleton.mpr trivial⟩
  | registers =>
    obtain ⟨registers, attaches⟩ := Frame.attach_placed placed
    exact List.forall_mem_cons.mpr ⟨registers, List.forall_mem_singleton.mpr attaches⟩
  | asks =>
    refine List.forall_mem_cons.mpr ⟨trivial, List.forall_mem_singleton.mpr fun task queued => ?_⟩
    exact (placed task queued).mono fun i at' => ⟨at'.1, later.isCancelled at'.2⟩
  | swept =>
    refine List.forall_mem_singleton.mpr fun task queued => ?_
    exact (placed task queued).mono fun i at' => later.ended (at'.2.ended at'.1)
  | @delivers a r task tasks first reply =>
    have all : ∀ task' ∈ task :: tasks, task'.At m (e.store.Ended sources) := fun task' queued =>
      (placed task' queued).mono fun i => later.ended
    exact List.forall_mem_cons.mpr ⟨all task List.mem_cons_self, List.forall_mem_singleton.mpr
      fun task' queued => all task' (List.mem_cons_of_mem _ queued)⟩
  | survives =>
    exact List.forall_mem_singleton.mpr fun task queued =>
      (placed task queued).mono fun i => later.ended
  | _ => simp

/-- A merge goes on hosting its callbacks. -/
theorem Store.Hosts.step (hosts : s.Hosts m sources) (touches : s.Touches result frame e)
    (placed : frame.Placed m sources s) : e.store.Hosts m sources := by
  have later := touches.later
  refine ⟨?_, ?_, ?_⟩
  · obtain ⟨cell, merge, found, size, held⟩ := hosts.record
    obtain ⟨⟨cell', kind'⟩, found', ⟨kinds, -, -⟩⟩ := later m _ found
    cases kind' with
    | merge merge' =>
      obtain ⟨size', -, sources'⟩ := kinds
      refine ⟨cell', merge', found', size'.trans size, ?_⟩
      rcases sources' with same | none
      · rw [same]; exact held
      · exact .inr none
    | _ => exact kinds.elim
  · intro r member
    obtain ⟨x, found, own⟩ := hosts.own r member
    obtain ⟨x', found', later⟩ := later r x found
    exact ⟨x', found', later.isForeign.trans own⟩
  · intro r x' after task member
    cases before : s.results[r]? with
    | some x =>
      have moved := touches.there r x before
      cases after.symm.trans moved
      split at member
      next about =>
        rcases Result.touch_queue member with member | ⟨r', rfl⟩
        · exact hosts.queued r x before task member
        · cases about
          exact placed
      next => exact hosts.queued r x before task member
    | none =>
      have made := (touches.new before after).2
      rw [Frame.made?_queue made] at member
      cases member

end

end Quorate
