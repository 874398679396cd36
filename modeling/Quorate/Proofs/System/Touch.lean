import Quorate.Proofs.System.Run

/-! What one step does to one result. Every step enters at most one critical section, and what it
does there depends on the frame, on what the frame goes on with, and on that one result alone. -/

set_option autoImplicit false

namespace Quorate

variable {V κ σ : Type}

namespace Result

/-- Apply a terminal state, if the result is pending. -/
def complete (x : Result V κ) (state : State V) : Result V κ :=
  match x.cell.transition state with
  | none => x
  | some (cell, _) => { x with cell }

def countDown (x : Result V κ) : Result V κ :=
  match x.kind with
  | .latch latch =>
    match latch.acknowledge x.cell with
    | .late => x
    | .counted latch => { x with kind := .latch latch }
    | .last cell latch _ => ⟨cell, .latch latch⟩
  | _ => x

def cancel (x : Result V κ) : Result V κ :=
  match x.kind with
  | .settable => x.complete .cancelled
  | .merge m =>
    match x.cell.transition .cancelled with
    | none => x
    | some (cell, _) => ⟨cell, .merge { m with gathering := m.gathering.release }⟩
  | _ => x

def register (x : Result V κ) (task : Task κ) : Result V κ :=
  if x.isForeign then x
  else match x.cell.enqueue task with
    | none => x
    | some cell => { x with cell }

def claim (x : Result V κ) (done cancelled : Bool) : Result V κ :=
  if x.isForeign then { x with kind := .foreign done cancelled } else x

def notify (x : Result V κ) : Result V κ := { x with cell := x.cell.notify }

/-- Give a merge the outcome of its merger. -/
def merged (x : Result V κ) (m : Merge V κ) (o : Outcome V) : Result V κ :=
  match x.cell.transition (.ofOutcome o) with
  | none => x
  | some (cell, _) => ⟨cell, .merge { m with lock := .free }⟩

/-- Take in the outcome of the source at `index`. -/
def commit (x : Result V κ) (index : Nat) (o : Outcome V) : Result V κ :=
  match x.kind with
  | .merge m =>
    match Gathering.arrive x.cell m.gathering m.size index o with
    | .late | .outside | .twice => x
    | .recorded gathering => { x with kind := .merge { m with gathering } }
    | .failed cell gathering _ => ⟨cell, .merge { m with gathering }⟩
    | .complete values gathering =>
      match m.merger with
      | .plain f =>
        match f values with
        | .error _ => ⟨x.cell, .merge { m with gathering, lock := .poisoned }⟩
        | .ok o => x.merged { m with gathering } o
      | .code _ => ⟨x.cell, .merge { m with gathering, lock := .held }⟩
  | _ => x

/-- A merger that was running under the lock has answered, or has panicked. -/
def mergerEnded (x : Result V κ) : Return V → Result V κ
  | .ok (.outcome o) =>
    match x.kind with
    | .merge m => x.merged m o
    | _ => x
  | .ok _ => x
  | .error _ =>
    match x.kind with
    | .merge m => ⟨x.cell, .merge { m with lock := .poisoned }⟩
    | _ => x

/-- What a result is after a step of `frame`, which goes on with `result`, if the step is about
this result. -/
def touch (x : Result V κ) (result : Return V) (frame : Frame V κ) : Result V κ :=
  match result, frame with
  | .ok _, .call (.complete _ state) => x.complete state
  | .ok _, .call (.countDown _) => x.countDown
  | .ok _, .call (.cancel _) => x.cancel
  | .ok _, .call (.register _ task) => x.register task
  | .ok _, .call (.claim _ done cancelled) => x.claim done cancelled
  | .ok _, .deliver _ [] _ _ => x.notify
  | .ok (.outcome o), .commit _ index => x.commit index o
  | result, .merging _ => x.mergerEnded result
  | _, _ => x

end Result

/-- The result whose critical section a frame enters to change it. -/
def Frame.subject? : Frame V κ → Option ResultId
  | .call (.complete r _) | .call (.countDown r) | .call (.cancel r) | .call (.register r _)
  | .call (.claim r _ _) => some r
  | .deliver r [] _ _ => some r
  | .commit merge _ | .merging merge => some merge
  | _ => none

/-- The result that a step of a frame makes. -/
def Frame.made? (result : Return V) (frame : Frame V κ) : Option (Result V κ) :=
  match result, frame with
  | .ok _, .call (.create seed) => some seed.result
  | .ok _, .call (.build merger sources) =>
    some ⟨.fresh, .merge ⟨merger, sources.length, .start sources, .free⟩⟩
  | _, _ => none

/-- A new result is free, and fresh unless it is a latch that waits for nothing. -/
theorem Frame.made?_start {result : Return V} {frame : Frame V κ} {x : Result V κ}
    (made : frame.made? result = some x) : x.isHeld = false ∧
      (x.cell = .fresh ∨ ∃ state, state.isPending = false ∧ x.cell = .settled state) := by
  unfold made? at made
  split at made
  next seed =>
    cases made
    cases seed with
    | latch count value =>
      refine ⟨rfl, ?_⟩
      simp only [Seed.result, Latch.start]
      split
      · exact .inr ⟨_, rfl, rfl⟩
      · exact .inl rfl
    | _ => exact ⟨rfl, .inl rfl⟩
  next => cases made; exact ⟨rfl, .inl rfl⟩
  next => cases made

namespace Store

variable {client : Client V κ σ} {s : Store V κ σ} {e : Effect V κ σ}

theorem locking_eq_some {r : ResultId} {f : Result V κ → Option (Effect V κ σ)}
    (found : s.locking r f = some e) :
    ∃ x, s.results[r]? = some x ∧ x.isHeld = false ∧ f x = some e := by
  unfold locking at found
  split at found
  next => cases found
  next x selected =>
    split at found
    next => cases found
    next free => exact ⟨x, selected, by simpa using free, found⟩

/-- A read of a result of the library settles until when it waits before it takes the lock. -/
theorem enter_get_eq_some {r : ResultId} {timeout : Option Duration}
    (effect : s.enter client (.get r timeout) = some e) : ∃ x, s.results[r]? = some x ∧
      (x.isForeign = true ∧ e = ⟨s, .ok .unit, [.client (client.serve r .get)]⟩ ∨
        x.isForeign = false ∧ e = ⟨s, .ok .unit, [.read r timeout (s.deadline timeout)]⟩) := by
  simp only [enter] at effect
  split at effect
  next => cases effect
  next x found =>
    split at effect
    next foreign => cases effect; exact ⟨x, found, .inl ⟨foreign, rfl⟩⟩
    next own => cases effect; exact ⟨x, found, .inr ⟨by simpa using own, rfl⟩⟩

/-- An outcome that is there is taken; the time is looked at only if there is none. -/
theorem proceed_polling_eq_some {a : Answer V} {r : ResultId} {deadline : Nat}
    (effect : s.proceed client a (.polling r deadline) = some e) : ∃ x, s.results[r]? = some x ∧
      ((∃ o, x.cell.state.outcome? = some o ∧ e = ⟨s, .ok (.outcome o), []⟩) ∨
        x.cell.state.outcome? = none ∧ deadline ≤ s.now ∧ e = ⟨s, .ok .pending, []⟩) := by
  simp only [proceed] at effect
  split at effect
  next => cases effect
  next x found =>
    split at effect
    next o there => cases effect; exact ⟨x, found, .inl ⟨o, there, rfl⟩⟩
    next pending =>
      split at effect <;> cases effect
      exact ⟨x, found, .inr ⟨pending, ‹_›, rfl⟩⟩

@[simp] theorem set_results (r : ResultId) (x : Result V κ) :
    (s.set r x).results = s.results.set r x := rfl

@[simp] theorem setPhase_results (f : FutureId) (phase : Phase) :
    (s.setPhase f phase).results = s.results := rfl

@[simp] theorem dropTask_results (t : Task κ) : (s.dropTask t).results = s.results := by
  unfold dropTask
  split <;> rfl

@[simp] theorem dropTasks_results (tasks : List (Task κ)) :
    (s.dropTasks tasks).results = s.results := by
  unfold dropTasks
  induction tasks generalizing s with
  | nil => rfl
  | cons t tasks ih => simp [ih]

/-- Of the results that are there, a step touches its subject only; behind them it adds what it
makes. While a merger runs under the lock of a result, only the end of the merger touches it. -/
structure Touches (s : Store V κ σ) (result : Return V) (frame : Frame V κ) (e : Effect V κ σ) :
    Prop where
  there : ∀ r x, s.results[r]? = some x →
    e.store.results[r]? = some (if frame.subject? = some r then x.touch result frame else x)
  locked : ∀ r x a, result = .ok a → frame.subject? = some r → s.results[r]? = some x →
    x.isHeld = true → frame = .merging r
  length : e.store.results.length = s.results.length + (frame.made? result).toList.length
  made : e.store.results[s.results.length]? = frame.made? result

section

variable {result : Return V} {frame : Frame V κ}

theorem touches_same (same : e.store.results = s.results)
    (still : ∀ x : Result V κ, x.touch result frame = x)
    (section? : frame.subject? = none ∨ ∃ p, result = .error p)
    (nothing : frame.made? result = none := by rfl) : s.Touches result frame e := by
  refine ⟨?_, ?_, by simp [same, nothing], by simp [same, nothing]⟩
  · intro r x found
    simp [same, found, still]
  · intro r x a answered about
    rcases section? with none | ⟨p, panicked⟩
    · cases none.symm.trans about
    · cases panicked.symm.trans answered

theorem touches_nothing (about : frame.subject? = none) (same : e.store.results = s.results)
    (nothing : frame.made? result = none := by rfl) : s.Touches result frame e := by
  refine ⟨?_, by simp [about], by simp [same, nothing], by simp [same, nothing]⟩
  intro r x found
  simp [about, same, found]

theorem touches_push {x : Result V κ} (about : frame.subject? = none)
    (pushed : e.store.results = s.results ++ [x])
    (made : frame.made? result = some x := by rfl) : s.Touches result frame e := by
  refine ⟨?_, by simp [about], by simp [pushed, made], by simp [pushed, made]⟩
  intro r x' found
  have bound := (List.getElem?_eq_some_iff.mp found).1
  simp [about, pushed, List.getElem?_append_left bound, found]

theorem touches_section {r : ResultId} {x : Result V κ}
    (about : frame.subject? = some r) (found : s.results[r]? = some x)
    (free : x.isHeld = false ∨ frame = .merging r)
    (change : e.store.results = s.results ∧ x.touch result frame = x ∨
      e.store.results = s.results.set r (x.touch result frame))
    (nothing : frame.made? result = none := by rfl) : s.Touches result frame e := by
  have length : e.store.results.length = s.results.length := by
    rcases change with ⟨unchanged, -⟩ | set
    · rw [unchanged]
    · rw [set, List.length_set]
  refine ⟨?_, ?_, by simp [length, nothing], by simp [← length, nothing]⟩
  · intro r' x' found'
    by_cases same : r = r'
    · subst same
      cases found.symm.trans found'
      have bound := (List.getElem?_eq_some_iff.mp found).1
      rcases change with ⟨unchanged, still⟩ | set
      · simp [about, unchanged, found, still]
      · simp [about, set, bound]
    · rcases change with ⟨unchanged, -⟩ | set
      · simp [about, unchanged, found', same]
      · simp [about, set, found', same]
  · intro r' x' a answered about' found' held
    cases about.symm.trans about'
    cases found.symm.trans found'
    exact free.resolve_left (by simp [held])

end

theorem completing_results {r : ResultId} {x : Result V κ} {state : State V} {reply : Answer V}
    (effect : s.completing r x state reply = some e) :
    e.store.results = s.results ∧ x.complete state = x ∨
      e.store.results = s.results.set r (x.complete state) := by
  unfold completing at effect
  split at effect
  next same => cases effect; exact .inl ⟨rfl, by simp [Result.complete, same]⟩
  next cell tasks same => cases effect; exact .inr (by simp [Result.complete, same])

theorem merged_results {r : ResultId} {cell : Cell V (Task κ)} (kind : Kind V κ) {m : Merge V κ}
    {o : Outcome V} (effect : s.merged r cell m o = some e) :
    e.store.results = s.results ∧ (Result.mk cell kind).merged m o = ⟨cell, kind⟩ ∨
      e.store.results = s.results.set r ((Result.mk cell kind).merged m o) := by
  unfold merged completing at effect
  split at effect
  next same => cases effect; exact .inl ⟨rfl, by simp only at same; simp [Result.merged, same]⟩
  next cell tasks same =>
    cases effect
    exact .inr (by simp only at same; simp [Result.merged, same])

/-- Completing a result changes results only. -/
theorem completing_only {r : ResultId} {x : Result V κ} {state : State V} {reply : Answer V}
    (effect : s.completing r x state reply = some e) : ∃ results, e.store = { s with results } := by
  unfold completing at effect
  split at effect
  next => cases effect; exact ⟨s.results, rfl⟩
  next => cases effect; exact ⟨_, rfl⟩

theorem enter_touches {c : Call V κ} (a : Answer V) (effect : s.enter client c = some e) :
    s.Touches (.ok a) (.call c) e := by
  cases c with
  | create seed =>
    cases effect
    exact touches_push rfl rfl
  | complete r state =>
    obtain ⟨x, found, free, effect⟩ := locking_eq_some effect
    exact touches_section rfl found (.inl free) (completing_results effect)
  | countDown r =>
    obtain ⟨x, found, free, effect⟩ := locking_eq_some effect
    apply touches_section rfl found (.inl free)
    split at effect
    next latch kind =>
      have touched : x.touch (.ok a) (.call (.countDown r)) = x.countDown := rfl
      rw [touched]
      split at effect
      next ack => cases effect; exact .inl ⟨rfl, by simp [Result.countDown, kind, ack]⟩
      next latch' ack => cases effect; exact .inr (by simp [Result.countDown, kind, ack])
      next cell latch' tasks ack => cases effect; exact .inr (by simp [Result.countDown, kind, ack])
    next => cases effect
  | cancel r =>
    obtain ⟨x, found, free, effect⟩ := locking_eq_some effect
    apply touches_section rfl found (.inl free)
    have touched : x.touch (.ok a) (.call (.cancel r)) = x.cancel := rfl
    rw [touched]
    split at effect
    next kind =>
      have same : x.cancel = x.complete .cancelled := by simp [Result.cancel, kind]
      rw [same]
      exact completing_results effect
    next latch kind => cases effect; exact .inl ⟨rfl, by simp [Result.cancel, kind]⟩
    next m kind =>
      split at effect
      next same => cases effect; exact .inl ⟨rfl, by simp [Result.cancel, kind, same]⟩
      next cell tasks same => cases effect; exact .inr (by simp [Result.cancel, kind, same])
    next kind => cases effect; exact .inl ⟨rfl, by simp [Result.cancel, kind]⟩
  | register r task =>
    obtain ⟨x, found, free, effect⟩ := locking_eq_some effect
    apply touches_section rfl found (.inl free)
    have touched : x.touch (.ok a) (.call (.register r task)) = x.register task := rfl
    rw [touched]
    split at effect
    next foreign => cases effect; exact .inl ⟨rfl, by simp [Result.register, foreign]⟩
    next own =>
      split at effect
      next same => cases effect; exact .inl ⟨rfl, by simp [Result.register, own, same]⟩
      next cell same => cases effect; exact .inr (by simp [Result.register, own, same])
  | get r timeout =>
    obtain ⟨x, -, ⟨-, rfl⟩ | ⟨-, rfl⟩⟩ := enter_get_eq_some effect <;>
      exact touches_nothing rfl rfl
  | within r patience => cases effect; exact touches_nothing rfl rfl
  | build merger sources =>
    simp only [enter] at effect
    split at effect
    next =>
      split at effect
      next =>
        split at effect <;> cases effect <;> exact touches_push rfl rfl
      next => cases effect; exact touches_push rfl rfl
    next => cases effect; exact touches_push rfl rfl
  | await r => cases effect; exact touches_nothing rfl rfl
  | poll f =>
    simp only [enter] at effect
    split at effect
    next => cases effect
    next => split at effect <;> cases effect <;> exact touches_nothing rfl rfl
  | claim r done cancelled =>
    obtain ⟨x, found, free, effect⟩ := locking_eq_some effect
    apply touches_section rfl found (.inl free)
    split at effect
    next foreign => cases effect; exact .inr (by simp [Result.touch, Result.claim, foreign])
    next => cases effect
  | run code => cases effect; exact touches_nothing rfl rfl
  | perform task =>
    simp only [enter] at effect
    split at effect <;> cases effect <;> exact touches_nothing rfl (by simp)
  | discard task => cases effect; exact touches_nothing rfl (by simp)
  | sleep d => cases effect; exact touches_nothing rfl rfl
  | fork c => cases effect
  | join t patience => cases effect; exact touches_nothing rfl rfl

theorem commit_touches {merge : ResultId} {index : Nat} {o : Outcome V}
    (effect : s.commit merge index o = some e) :
    s.Touches (.ok (.outcome o)) (.commit merge index) e := by
  obtain ⟨x, found, free, effect⟩ := locking_eq_some effect
  apply touches_section rfl found (.inl free)
  have touched : x.touch (.ok (.outcome o)) (.commit merge index) = x.commit index o := rfl
  rw [touched]
  split at effect
  next m kind =>
    split at effect
    next arrival => cases effect; exact .inl ⟨rfl, by simp [Result.commit, kind, arrival]⟩
    next arrival => cases effect; exact .inl ⟨rfl, by simp [Result.commit, kind, arrival]⟩
    next arrival => cases effect; exact .inl ⟨rfl, by simp [Result.commit, kind, arrival]⟩
    next gathering arrival =>
      cases effect
      exact .inr (by simp [Result.commit, kind, arrival])
    next cell gathering tasks arrival =>
      cases effect
      exact .inr (by simp [Result.commit, kind, arrival])
    next values gathering arrival =>
      obtain ⟨merger, size, gathering₀, lock⟩ := m
      cases merger with
      | plain f =>
        simp only at effect
        split at effect
        next p panics => cases effect; exact .inr (by simp [Result.commit, kind, arrival, panics])
        next o answers =>
          simp only [Result.commit, kind, arrival, answers]
          exact merged_results x.kind effect
      | code f => cases effect; exact .inr (by simp [Result.commit, kind, arrival])
  next => cases effect

/-- Taking in an outcome changes results only. -/
theorem commit_only {merge : ResultId} {index : Nat} {o : Outcome V}
    (effect : s.commit merge index o = some e) : ∃ results, e.store = { s with results } := by
  obtain ⟨x, -, -, effect⟩ := locking_eq_some effect
  split at effect
  next m _ =>
    split at effect
    next => cases effect; exact ⟨s.results, rfl⟩
    next => cases effect; exact ⟨s.results, rfl⟩
    next => cases effect; exact ⟨s.results, rfl⟩
    next => cases effect; exact ⟨_, rfl⟩
    next => cases effect; exact ⟨_, rfl⟩
    next values gathering _ =>
      simp only at effect
      split at effect
      next f _ =>
        split at effect
        next => cases effect; exact ⟨_, rfl⟩
        next => exact completing_only effect
      next => cases effect; exact ⟨_, rfl⟩
  next => cases effect

theorem query_results {merge : ResultId} {index : Nat} {source : ResultId}
    (effect : s.query client merge index source = some e) : e.store = s := by
  obtain ⟨x, -, -, effect⟩ := locking_eq_some effect
  split at effect
  next => cases effect; rfl
  next =>
    split at effect
    next => cases effect; rfl
    next =>
      split at effect
      next => cases effect; rfl
      next => split at effect <;> cases effect; rfl

theorem proceed_touches {frame : Frame V κ} (a : Answer V)
    (effect : s.proceed client a frame = some e) : s.Touches (.ok a) frame e := by
  cases frame with
  | call c => exact enter_touches a effect
  | start callback =>
    cases callback <;> cases effect <;> exact touches_nothing rfl rfl
  | guard => cases effect; exact touches_nothing rfl rfl
  | threadEnd => cases effect; exact touches_nothing rfl rfl
  | deliver r tasks first reply =>
    cases tasks with
    | nil =>
      simp only [proceed] at effect
      split at effect
      next => cases effect
      next x found =>
        split at effect
        next => cases effect
        next free =>
          refine touches_section rfl found (.inl (by simpa using free)) (.inr ?_)
          cases first <;> cases effect <;> rfl
    | cons task tasks =>
      cases effect
      exact touches_nothing rfl rfl
  | lookup merge index =>
    obtain ⟨x, -, -, effect⟩ := locking_eq_some effect
    split at effect
    next => split at effect <;> cases effect <;> exact touches_nothing rfl rfl
    next => cases effect
  | query merge index source => exact touches_nothing rfl (by rw [query_results effect])
  | commit merge index =>
    cases a with
    | outcome o => exact commit_touches effect
    | _ => cases effect
  | merging merge =>
    cases a with
    | outcome o =>
      simp only [proceed] at effect
      split at effect
      next o' cell m same found =>
        cases same
        exact touches_section rfl found (.inr rfl) (merged_results _ effect)
      next => cases effect
    | _ => cases effect
  | opening merge => cases a <;> cases effect; exact touches_nothing rfl rfl
  | attach merge sources index =>
    obtain ⟨x, -, -, effect⟩ := locking_eq_some effect
    split at effect
    next => cases effect; exact touches_nothing rfl rfl
    next => split at effect <;> cases effect <;> exact touches_nothing rfl rfl
  | sweep merge sources all drained =>
    cases a with
    | flag b => cases sources <;> cases effect <;> exact touches_nothing rfl rfl
    | _ => cases effect
  | read r timeout deadline =>
    obtain ⟨x, -, -, effect⟩ := locking_eq_some effect
    cases effect
    exact touches_nothing rfl rfl
  | wait r timeout deadline terminalOnEntry =>
    obtain ⟨x, -, -, effect⟩ := locking_eq_some effect
    split at effect
    next => cases effect; exact touches_nothing rfl rfl
    next => split at effect <;> cases effect; exact touches_nothing rfl rfl
    next => cases effect
  | polling r deadline =>
    obtain ⟨x, -, ⟨o, -, rfl⟩ | ⟨-, -, rfl⟩⟩ := proceed_polling_eq_some effect <;>
      exact touches_nothing rfl rfl
  | check f =>
    simp only [proceed] at effect
    split at effect
    next => cases effect
    next => split at effect <;> cases effect <;> exact touches_nothing rfl rfl
  | sleeping deadline =>
    simp only [proceed] at effect
    split at effect <;> cases effect
    exact touches_nothing rfl rfl
  | joining t deadline => cases effect
  | client code =>
    simp only [proceed] at effect
    split at effect <;> cases effect <;> exact touches_nothing rfl rfl

theorem unwind_touches {frame : Frame V κ} (p : Panic) (effect : s.unwind p frame = some e) :
    s.Touches (.error p) frame e := by
  cases frame with
  | merging merge =>
    simp only [unwind] at effect
    split at effect
    next cell m found =>
      cases effect
      exact touches_section rfl found (.inr rfl) (.inr rfl)
    next => cases effect
  | sweep merge sources all drained => cases effect; exact touches_nothing rfl (by simp)
  | call c => cases effect; exact touches_same rfl (fun x => by cases c <;> rfl) (.inr ⟨p, rfl⟩)
  | deliver r tasks first reply =>
    cases effect
    exact touches_same rfl (fun x => rfl) (.inr ⟨p, rfl⟩)
  | commit merge index => cases effect; exact touches_same rfl (fun x => rfl) (.inr ⟨p, rfl⟩)
  | _ => cases effect; exact touches_nothing rfl rfl

/-- A result that was not there before a step is the one that the step made. -/
theorem Touches.new {result : Return V} {frame : Frame V κ} {r : ResultId} {x : Result V κ}
    (touches : s.Touches result frame e) (missing : s.results[r]? = none)
    (found : e.store.results[r]? = some x) :
    r = s.results.length ∧ frame.made? result = some x := by
  have beyond : s.results.length ≤ r := List.getElem?_eq_none_iff.mp missing
  have bound : r < e.store.results.length := (List.getElem?_eq_some_iff.mp found).1
  have few : (frame.made? result).toList.length ≤ 1 := by cases frame.made? result <;> simp
  have last : r = s.results.length :=
    Nat.le_antisymm (Nat.le_of_lt_succ (Nat.lt_of_lt_of_le bound (by rw [touches.length]; omega)))
      beyond
  subst last
  exact ⟨rfl, touches.made.symm.trans found⟩

/-- A step touches nothing but its subject. -/
theorem resume_touches {result : Return V} {frame : Frame V κ}
    (effect : s.resume client result frame = some e) : s.Touches result frame e := by
  cases result with
  | ok a => exact proceed_touches a effect
  | error p => exact unwind_touches p effect

end Store

end Quorate
