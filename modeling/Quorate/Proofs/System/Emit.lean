import Quorate.Proofs.System.Later

/-! What a step puts in the place of its frame. The branches tell apart whatever callbacks, locks
and merges depend on; frames that hold none of these are passive and pass to passive frames. -/

set_option autoImplicit false

namespace Quorate

variable {V κ σ : Type}

/-- A frame that carries no callback of a result and is about no merge. -/
def Frame.Passive : Frame V κ → Prop
  | .call (.create _) | .call (.get _ _) | .call (.within _ _) | .call (.await _) | .call (.poll _)
  | .call (.claim _ _ _) | .call (.run _) | .call (.sleep _) | .call (.join _ _) => True
  | .start (.signal _) | .start (.client _) => True
  | .guard | .threadEnd | .read _ _ _ | .wait _ _ _ _ | .polling _ _ | .check _ | .sleeping _
  | .joining _ _ | .client _ => True
  | _ => False

/-- A frame that a panic goes through. -/
def Frame.Unwound : Frame V κ → Prop
  | .guard | .threadEnd | .deliver _ _ _ _ | .sweep _ _ _ _ | .merging _ => False
  | _ => True

/-- A pending result has taken a state, and its queue was taken out. -/
structure Result.Settles (x x' : Result V κ) (state : State V) : Prop where
  pending : x.cell.state.isPending = true
  cell : x'.cell = ⟨state, [], true, x.cell.notified⟩

/-- The frame of a call that can complete or cancel a result. -/
def Frame.Ending (r : ResultId) : Frame V κ → Prop
  | .call (.complete r' _) | .call (.countDown r') | .call (.cancel r') => r' = r
  | _ => False

inductive Emits (client : Client V κ σ) (s : Store V κ σ) :
    Return V → Frame V κ → Return V → List (Frame V κ) → Prop where
  | passive {a : Answer V} {frame : Frame V κ} {result : Return V} {frames : List (Frame V κ)} :
      frame.Passive → (∀ f ∈ frames, f.Passive) →
      frames = [] ∨
        (∃ f, frames = [f] ∧ ∀ callback, f ≠ .start callback) ∧ result = .ok .unit →
      Emits client s (.ok a) frame result frames
  | polls {a : Answer V} {f : FutureId} {r : ResultId} :
      Emits client s (.ok a) (.call (.poll f)) (.ok .unit)
        [.call (.register r ⟨.signal f, .inline⟩), .check f]
  | calls {a : Answer V} {code next : κ} {c : Call V κ} :
      (client.resume code a s).2 = .call c next →
      Emits client s (.ok a) (.client code) (.ok .unit) [.call c, .client next]
  | attempts {a : Answer V} {code next : κ} {c : Call V κ} :
      (client.resume code a s).2 = .attempt c next →
      Emits client s (.ok a) (.client code) (.ok .unit) [.call c, .guard, .client next]
  /-- The call changed no state. -/
  | keeps {a : Answer V} {frame : Frame V κ} {b : Bool} {r : ResultId} {x : Result V κ} :
      frame.Ending r → s.results[r]? = some x → (x.touch (.ok a) frame).cell = x.cell →
      (b = true → frame = .call (.countDown r)) →
      Emits client s (.ok a) frame (.ok (.flag b)) []
  | settles {result : Return V} {frame : Frame V κ} {r : ResultId} {x : Result V κ}
      {state : State V} {reply : Answer V} :
      frame.subject? = some r → s.results[r]? = some x →
      x.Settles (x.touch result frame) state →
      state.isPending = false ∨ frame = .call (.complete r state) →
      frame.Ending r ∨ (∃ index o, frame = .commit r index ∧ result = .ok (.outcome o)) ∨
        frame = .merging r →
      Emits client s result frame (.ok .unit) [.deliver r x.cell.queue none reply]
  | sweeps {a : Answer V} {r : ResultId} {cell : Cell V (Task κ)} {m : Merge V κ} :
      s.results[r]? = some ⟨cell, .merge m⟩ → cell.state.isPending = true →
      Emits client s (.ok a) (.call (.cancel r)) (.ok (.flag true))
        [.sweep r m.gathering.sources true cell.queue]
  /-- The method of a foreign result is client code. -/
  | serves {a : Answer V} {c : Call V κ} {code : κ} {r : ResultId} {x : Result V κ} :
      c = .cancel r ∨ (∃ task, c = .register r task) →
      s.results[r]? = some x → x.isForeign = true →
      Emits client s (.ok a) (.call c) (.ok .unit) [.client code]
  | queues {a : Answer V} {r : ResultId} {task : Task κ} {x : Result V κ} :
      s.results[r]? = some x → x.isForeign = false → x.cell.drained = false →
      Emits client s (.ok a) (.call (.register r task)) (.ok .unit) []
  | performs {a : Answer V} {r : ResultId} {task : Task κ} {x : Result V κ} :
      s.results[r]? = some x → x.isForeign = false → x.cell.drained = true →
      Emits client s (.ok a) (.call (.register r task)) (.ok .unit) [.call (.perform task)]
  | builds {a : Answer V} {merger : Merger V κ} {sources : List ResultId} : sources ≠ [] →
      Emits client s (.ok a) (.call (.build merger sources)) (.ok .unit)
        [.attach s.results.length sources 0]
  /-- A merge without sources runs its merger at once. -/
  | opens {a : Answer V} {merger : Merger V κ} {result : Return V} {frames : List (Frame V κ)} :
      (∃ f p, merger = .plain f ∧ f [] = .error p ∧ result = .error p ∧ frames = []) ∨
        (∃ f o, merger = .plain f ∧ f [] = .ok o ∧ result = .ok (.outcome o) ∧
          frames = [.opening s.results.length]) ∨
        (∃ f, merger = .code f ∧ result = .ok .unit ∧
          frames = [.client (f []), .opening s.results.length]) →
      Emits client s (.ok a) (.call (.build merger [])) result frames
  | completes {merge : ResultId} {o : Outcome V} :
      Emits client s (.ok (.outcome o)) (.opening merge) (.ok .unit)
        [.call (.complete merge (.ofOutcome o)), .attach merge [] 0]
  | inline {a : Answer V} {callback : Callback κ} :
      Emits client s (.ok a) (.call (.perform ⟨callback, .inline⟩)) (.ok .unit) [.start callback]
  | spawns {a : Answer V} {callback : Callback κ} :
      Emits client s (.ok a) (.call (.perform ⟨callback, .spawn⟩)) (.ok .unit)
        [.call (.fork (.perform ⟨callback, .inline⟩))]
  | joins {a : Answer V} {callback : Callback κ} :
      Emits client s (.ok a) (.call (.perform ⟨callback, .join⟩)) (.ok .unit)
        [.start callback, .threadEnd]
  | refuses {a : Answer V} {callback : Callback κ} {p : Panic} :
      Emits client s (.ok a) (.call (.perform ⟨callback, .refuse p⟩)) (.error p) []
  | discards {a : Answer V} {task : Task κ} :
      Emits client s (.ok a) (.call (.discard task)) (.ok .unit) []
  | observes {a : Answer V} {merge : ResultId} {index : Nat} :
      Emits client s (.ok a) (.start (.observe merge index)) (.ok .unit) [.lookup merge index]
  | misses {a : Answer V} {merge : ResultId} {index : Nat} {cell : Cell V (Task κ)}
      {m : Merge V κ} :
      s.results[merge]? = some ⟨cell, .merge m⟩ → m.gathering.sources[index]? = none →
      Emits client s (.ok a) (.lookup merge index) (.ok .unit) []
  | finds {a : Answer V} {merge : ResultId} {index : Nat} {cell : Cell V (Task κ)} {m : Merge V κ}
      {source : ResultId} :
      s.results[merge]? = some ⟨cell, .merge m⟩ → m.gathering.sources[index]? = some source →
      Emits client s (.ok a) (.lookup merge index) (.ok .unit) [.query merge index source]
  | early {a : Answer V} {merge source : ResultId} {index : Nat} {x : Result V κ} {p : Panic} :
      s.results[source]? = some x → x.isDone = false →
      Emits client s (.ok a) (.query merge index source) (.error p) []
  | skips {a : Answer V} {merge source : ResultId} {index : Nat} {x : Result V κ} :
      s.results[source]? = some x → x.isCancelled = true →
      Emits client s (.ok a) (.query merge index source) (.ok .unit) []
  | inquires {a : Answer V} {merge source : ResultId} {index : Nat} {x : Result V κ} {code : κ} :
      s.results[source]? = some x → x.isForeign = true →
      Emits client s (.ok a) (.query merge index source) (.ok .unit)
        [.client code, .commit merge index]
  | reads {a : Answer V} {merge source : ResultId} {index : Nat} {x : Result V κ} {o : Outcome V} :
      s.results[source]? = some x → x.isForeign = false → x.isCancelled = false →
      x.cell.state.outcome? = some o →
      Emits client s (.ok a) (.query merge index source) (.ok (.outcome o)) [.commit merge index]
  | records {o : Outcome V} {merge : ResultId} {index : Nat} {cell : Cell V (Task κ)}
      {m : Merge V κ} :
      s.results[merge]? = some ⟨cell, .merge m⟩ →
      Gathering.arrive cell m.gathering m.size index o = .late ∨
        (∃ g, Gathering.arrive cell m.gathering m.size index o = .recorded g) →
      Emits client s (.ok (.outcome o)) (.commit merge index) (.ok .unit) []
  | rejects {o : Outcome V} {merge : ResultId} {index : Nat} {cell : Cell V (Task κ)}
      {m : Merge V κ} {p : Panic} :
      s.results[merge]? = some ⟨cell, .merge m⟩ →
      Gathering.arrive cell m.gathering m.size index o = .outside ∨
        Gathering.arrive cell m.gathering m.size index o = .twice →
      Emits client s (.ok (.outcome o)) (.commit merge index) (.error p) []
  | breaks {o : Outcome V} {merge : ResultId} {index : Nat} {cell : Cell V (Task κ)}
      {m : Merge V κ} {values : List V} {g : Gathering V} {p : Panic}
      {f : List V → Except Panic (Outcome V)} :
      s.results[merge]? = some ⟨cell, .merge m⟩ →
      Gathering.arrive cell m.gathering m.size index o = .complete values g →
      m.merger = .plain f → f values = .error p →
      Emits client s (.ok (.outcome o)) (.commit merge index) (.error p) []
  | merges {o : Outcome V} {merge : ResultId} {index : Nat} {cell : Cell V (Task κ)}
      {m : Merge V κ} {values : List V} {g : Gathering V} {f : List V → κ} :
      s.results[merge]? = some ⟨cell, .merge m⟩ → m.lock ≠ .held →
      Gathering.arrive cell m.gathering m.size index o = .complete values g →
      m.merger = .code f →
      Emits client s (.ok (.outcome o)) (.commit merge index) (.ok .unit)
        [.client (f values), .merging merge]
  /-- The merge was completed while its merger ran, which its lock prevents. -/
  | overtaken {o : Outcome V} {merge : ResultId} {x : Result V κ} :
      s.results[merge]? = some x → x.cell.state.isPending = false →
      Emits client s (.ok (.outcome o)) (.merging merge) (.ok (.flag false)) []
  | poisons {p : Panic} {merge : ResultId} {cell : Cell V (Task κ)} {m : Merge V κ} :
      s.results[merge]? = some ⟨cell, .merge m⟩ →
      Emits client s (.error p) (.merging merge) (.error p) []
  | attached {a : Answer V} {merge : ResultId} {index : Nat} :
      Emits client s (.ok a) (.attach merge [] index) (.ok (.result merge)) []
  | stops {a : Answer V} {merge : ResultId} {sources : List ResultId} {index : Nat}
      {x : Result V κ} :
      s.results[merge]? = some x → x.isDone = true →
      Emits client s (.ok a) (.attach merge sources index) (.ok (.result merge)) []
  | registers {a : Answer V} {merge source : ResultId} {sources : List ResultId} {index : Nat} :
      Emits client s (.ok a) (.attach merge (source :: sources) index) (.ok .unit)
        [.call (.register source ⟨.observe merge index, .inline⟩),
          .attach merge sources (index + 1)]
  | asks {b all : Bool} {merge source : ResultId} {sources : List ResultId}
      {drained : List (Task κ)} :
      Emits client s (.ok (.flag b)) (.sweep merge (source :: sources) all drained) (.ok .unit)
        [.call (.cancel source), .sweep merge sources (all && b) drained]
  | swept {b all : Bool} {merge : ResultId} {drained : List (Task κ)} :
      Emits client s (.ok (.flag b)) (.sweep merge [] all drained) (.ok .unit)
        [.deliver merge drained none (.flag (all && b))]
  | drops {p : Panic} {merge : ResultId} {sources : List ResultId} {all : Bool}
      {drained : List (Task κ)} :
      Emits client s (.error p) (.sweep merge sources all drained) (.error p) []
  | delivers {a : Answer V} {r : ResultId} {task : Task κ} {tasks : List (Task κ)}
      {first : Option Panic} {reply : Answer V} :
      Emits client s (.ok a) (.deliver r (task :: tasks) first reply) (.ok .unit)
        [.call (.perform task), .deliver r tasks first reply]
  | notifies {a : Answer V} {r : ResultId} {first : Option Panic} {reply : Answer V}
      {x : Result V κ} : s.results[r]? = some x →
      Emits client s (.ok a) (.deliver r [] first reply)
        (match first with | some p => .error p | none => .ok reply) []
  | survives {p : Panic} {r : ResultId} {tasks : List (Task κ)} {first : Option Panic}
      {reply : Answer V} :
      Emits client s (.error p) (.deliver r tasks first reply) (.ok .unit)
        [.deliver r tasks (some (first.getD p)) reply]
  | catches {p : Panic} {frame : Frame V κ} {a : Answer V} : frame = .guard ∨ frame = .threadEnd →
      Emits client s (.error p) frame (.ok a) []
  | unwinds {p : Panic} {frame : Frame V κ} : frame.Unwound →
      Emits client s (.error p) frame (.error p) []

namespace Emits

variable {client : Client V κ σ} {s : Store V κ σ} {a : Answer V} {frame : Frame V κ}

theorem ends {result : Return V} (passive : frame.Passive) :
    Emits client s (.ok a) frame result [] :=
  .passive passive (by simp) (.inl rfl)

theorem goes {next : Frame V κ} (passive : frame.Passive) (passes : next.Passive)
    (other : ∀ callback, next ≠ .start callback) : Emits client s (.ok a) frame (.ok .unit) [next] :=
  .passive passive (by simpa using passes) (.inr ⟨⟨next, rfl, other⟩, rfl⟩)

/-- A callback starts on top of everything else, and only where it is handed over. -/
theorem starts {result result' : Return V} {frames : List (Frame V κ)}
    (emits : Emits client s result frame result' frames) :
    (∀ f ∈ frames, ∀ callback, f ≠ .start callback) ∨
      ∃ a task rest, result = .ok a ∧ frame = .call (.perform task) ∧
        frames = .start task.callback :: rest ∧ ∀ f ∈ rest, ∀ callback, f ≠ .start callback := by
  cases emits with
  | inline => exact .inr ⟨_, _, _, rfl, rfl, rfl, by simp⟩
  | joins => exact .inr ⟨_, _, _, rfl, rfl, rfl, by simp⟩
  | passive _ _ form =>
    left
    rcases form with rfl | ⟨⟨f, rfl, other⟩, -⟩
    · simp
    · exact List.forall_mem_singleton.mpr other
  | opens form =>
    left
    rcases form with ⟨f, p, -, -, -, rfl⟩ | ⟨f, o, -, -, -, rfl⟩ | ⟨f, -, -, rfl⟩ <;> simp
  | _ => exact .inl (by simp)

end Emits

namespace Store

variable {client : Client V κ σ} {s : Store V κ σ} {e : Effect V κ σ}

theorem completing_emits {result : Return V} {frame : Frame V κ} {r : ResultId} {x y : Result V κ}
    {state : State V} {reply : Answer V} (effect : s.completing r y state reply = some e)
    (about : frame.subject? = some r) (found : s.results[r]? = some x) (same : y.cell = x.cell)
    (touch : x.cell.state.isPending = true →
      (x.touch result frame).cell = ⟨state, [], true, x.cell.notified⟩)
    (terminal : state.isPending = false ∨ frame = .call (.complete r state))
    (form : frame.Ending r ∨ (∃ index o, frame = .commit r index ∧ result = .ok (.outcome o)) ∨
      frame = .merging r)
    (late : x.cell.state.isPending = false → Emits client s result frame (.ok (.flag false)) []) :
    Emits client s result frame e.result e.frames := by
  unfold completing at effect
  split at effect
  next none =>
    cases effect
    exact late (by simpa [same] using (Cell.transition_eq_none_iff _ _).mp none)
  next cell tasks some =>
    obtain ⟨pending, -, rfl⟩ := (Cell.transition_eq_some_iff _ _ _ _).mp some
    rw [same] at pending
    cases effect
    rw [same]
    exact .settles about found ⟨pending, touch pending⟩ terminal form

theorem enter_emits {c : Call V κ} {a : Answer V} (effect : s.enter client c = some e) :
    Emits client s (.ok a) (.call c) e.result e.frames := by
  cases c with
  | create seed => cases effect; exact .ends trivial
  | complete r state =>
    obtain ⟨x, found, -, effect⟩ := locking_eq_some effect
    refine completing_emits effect rfl found rfl ?_ (.inr rfl) (.inl rfl) ?_
    · intro pending
      simp [Result.touch, Result.complete, Cell.transition, pending]
    · intro terminal
      refine .keeps rfl found ?_ (by simp)
      simp [Result.touch, Result.complete, Cell.transition, terminal]
  | countDown r =>
    obtain ⟨⟨cell, kind⟩, found, -, effect⟩ := locking_eq_some effect
    cases kind with
    | latch latch =>
      simp only at effect
      split at effect
      next ack =>
        cases effect
        exact .keeps rfl found (by simp [Result.touch, Result.countDown, ack]) (by simp)
      next latch' ack =>
        cases effect
        exact .keeps rfl found (by simp [Result.touch, Result.countDown, ack]) fun _ => rfl
      next cell' latch' tasks ack =>
        cases effect
        have touch : (Result.touch (κ := κ) ⟨cell, .latch latch⟩ (.ok a)
            (.call (.countDown r))).cell = cell' := by simp [Result.touch, Result.countDown, ack]
        obtain ⟨pending, v, rfl, rfl⟩ := Latch.acknowledge_last ack
        exact .settles rfl found ⟨pending, touch⟩ (.inl rfl) (.inl rfl)
    | _ => cases effect
  | cancel r =>
    obtain ⟨⟨cell, kind⟩, found, -, effect⟩ := locking_eq_some effect
    cases kind with
    | settable =>
      refine completing_emits effect rfl found rfl ?_ (.inl rfl) (.inl rfl) ?_
      · intro pending
        simp [Result.touch, Result.cancel, Result.complete, Cell.transition, pending]
      · intro terminal
        refine .keeps rfl found ?_ (by simp)
        simp [Result.touch, Result.cancel, Result.complete, Cell.transition, terminal]
    | latch latch => cases effect; exact .keeps rfl found rfl (by simp)
    | merge m =>
      simp only at effect
      split at effect
      next none =>
        cases effect
        exact .keeps rfl found (by simp [Result.touch, Result.cancel, none]) (by simp)
      next cell' tasks some =>
        obtain ⟨pending, -, rfl⟩ := (Cell.transition_eq_some_iff _ _ _ _).mp some
        cases effect
        exact .sweeps found pending
    | foreign done cancelled => cases effect; exact .serves (.inl rfl) found rfl
  | register r task =>
    obtain ⟨x, found, -, effect⟩ := locking_eq_some effect
    split at effect
    next foreign => cases effect; exact .serves (.inr ⟨task, rfl⟩) found foreign
    next own =>
      have own : x.isForeign = false := by simpa using own
      split at effect
      next none =>
        cases effect
        exact .performs found own (by simpa [Cell.enqueue] using none)
      next cell some =>
        cases effect
        exact .queues found own ((Cell.enqueue_eq_some_iff _ _ _).mp some).1
  | get r timeout =>
    obtain ⟨x, -, ⟨-, rfl⟩ | ⟨-, rfl⟩⟩ := enter_get_eq_some effect <;> exact .goes trivial trivial (by simp)
  | build merger sources =>
    cases sources with
    | nil =>
      cases merger with
      | plain f =>
        simp only [enter, List.isEmpty_nil, if_true] at effect
        split at effect
        next p panics => cases effect; exact .opens (.inl ⟨f, p, rfl, panics, rfl, rfl⟩)
        next o answers => cases effect; exact .opens (.inr (.inl ⟨f, o, rfl, answers, rfl, rfl⟩))
      | code f => cases effect; exact .opens (.inr (.inr ⟨f, rfl, rfl, rfl⟩))
    | cons source sources => cases effect; exact .builds (by simp)
  | await r => cases effect; exact .ends trivial
  | poll f =>
    simp only [enter] at effect
    split at effect
    next => cases effect
    next =>
      split at effect
      next => cases effect; exact .polls
      next => cases effect; exact .goes trivial trivial (by simp)
  | claim r done cancelled =>
    obtain ⟨x, -, -, effect⟩ := locking_eq_some effect
    split at effect <;> cases effect
    exact .ends trivial
  | run code => cases effect; exact .goes trivial trivial (by simp)
  | perform task =>
    obtain ⟨callback, executor⟩ := task
    cases executor with
    | inline => cases effect; exact .inline
    | spawn => cases effect; exact .spawns
    | join => cases effect; exact .joins
    | refuse p => cases effect; exact .refuses
  | discard task => cases effect; exact .discards
  | within r patience => cases effect; exact .goes trivial trivial (by simp)
  | sleep d => cases effect; exact .goes trivial trivial (by simp)
  | fork c => cases effect
  | join t patience => cases effect; exact .goes trivial trivial (by simp)

theorem query_emits {merge source : ResultId} {index : Nat} {a : Answer V}
    (effect : s.query client merge index source = some e) :
    Emits client s (.ok a) (.query merge index source) e.result e.frames := by
  obtain ⟨x, found, -, effect⟩ := locking_eq_some effect
  split at effect
  next undone => cases effect; exact .early found (by simpa using undone)
  next =>
    split at effect
    next cancelled => cases effect; exact .skips found cancelled
    next settled =>
      split at effect
      next foreign => cases effect; exact .inquires found foreign
      next own =>
        split at effect
        next => cases effect
        next o answer =>
          cases effect
          exact .reads found (by simpa using own) (by simpa using settled) answer

theorem commit_emits {merge : ResultId} {index : Nat} {o : Outcome V}
    (effect : s.commit merge index o = some e) :
    Emits client s (.ok (.outcome o)) (.commit merge index) e.result e.frames := by
  obtain ⟨⟨cell, kind⟩, found, free, effect⟩ := locking_eq_some effect
  cases kind with
  | merge m =>
    simp only at effect
    split at effect
    next arrival => cases effect; exact .records found (.inl arrival)
    next arrival => cases effect; exact .rejects found (.inl arrival)
    next arrival => cases effect; exact .rejects found (.inr arrival)
    next g arrival => cases effect; exact .records found (.inr ⟨g, arrival⟩)
    next cell' g tasks arrival =>
      cases effect
      have pending : cell.state.isPending = true := Gathering.pending_of_arrive arrival (by simp)
      have touch : (Result.touch ⟨cell, .merge m⟩ (.ok (.outcome o)) (.commit merge index)).cell =
          cell' := by simp [Result.touch, Result.commit, arrival]
      obtain ⟨e, -, rfl, -, rfl⟩ := Gathering.arrive_failed arrival
      exact .settles rfl found ⟨pending, touch⟩ (.inl rfl) (.inr (.inl ⟨index, o, rfl, rfl⟩))
    next values g arrival =>
      have pending : cell.state.isPending = true := Gathering.pending_of_arrive arrival (by simp)
      obtain ⟨merger, size, gathering, lock⟩ := m
      cases merger with
      | plain f =>
        simp only at effect
        split at effect
        next p panics => cases effect; exact .breaks found arrival rfl panics
        next o' answers =>
          refine completing_emits effect rfl found rfl ?_ (.inl (State.isPending_ofOutcome o'))
            (.inr (.inl ⟨index, o, rfl, rfl⟩)) ?_
          · intro _
            simp [Result.touch, Result.commit, arrival, answers, Result.merged, Cell.transition,
              pending]
          · intro terminal
            cases pending.symm.trans terminal
      | code f =>
        cases effect
        exact .merges found (by simpa [Result.isHeld] using free) arrival rfl
  | _ => cases effect

theorem proceed_emits {frame : Frame V κ} {a : Answer V}
    (effect : s.proceed client a frame = some e) :
    Emits client s (.ok a) frame e.result e.frames := by
  cases frame with
  | call c => exact enter_emits effect
  | start callback =>
    cases callback with
    | observe merge index => cases effect; exact .observes
    | signal f => cases effect; exact .ends trivial
    | client code => cases effect; exact .goes trivial trivial (by simp)
  | guard => cases effect; exact .ends trivial
  | threadEnd => cases effect; exact .ends trivial
  | deliver r tasks first reply =>
    cases tasks with
    | nil =>
      simp only [proceed] at effect
      split at effect
      next => cases effect
      next x found =>
        split at effect
        next => cases effect
        next => cases first <;> cases effect <;> exact .notifies found
    | cons task tasks => cases effect; exact .delivers
  | lookup merge index =>
    obtain ⟨⟨cell, kind⟩, found, -, effect⟩ := locking_eq_some effect
    cases kind with
    | merge m =>
      simp only at effect
      split at effect
      next missing => cases effect; exact .misses found missing
      next source selected => cases effect; exact .finds found selected
    | _ => cases effect
  | query merge index source => exact query_emits effect
  | commit merge index =>
    cases a with
    | outcome o => exact commit_emits effect
    | _ => cases effect
  | merging merge =>
    cases a with
    | outcome o =>
      simp only [proceed] at effect
      split at effect
      next o' cell m same found =>
        cases same
        refine completing_emits effect rfl found rfl ?_ (.inl (State.isPending_ofOutcome o))
          (.inr (.inr rfl)) ?_
        · intro pending
          simp [Result.touch, Result.mergerEnded, Result.merged, Cell.transition, pending]
        · intro terminal
          exact .overtaken found terminal
      next => cases effect
    | _ => cases effect
  | opening merge => cases a <;> cases effect; exact .completes
  | attach merge sources index =>
    obtain ⟨x, found, -, effect⟩ := locking_eq_some effect
    split at effect
    next => cases effect; exact .attached
    next =>
      split at effect
      next done => cases effect; exact .stops found done
      next => cases effect; exact .registers
  | sweep merge sources all drained =>
    cases a with
    | flag b =>
      cases sources with
      | nil => cases effect; exact .swept
      | cons source sources => cases effect; exact .asks
    | _ => cases effect
  | read r timeout deadline =>
    obtain ⟨x, -, -, effect⟩ := locking_eq_some effect
    cases effect
    exact .goes trivial trivial (by simp)
  | wait r timeout deadline terminalOnEntry =>
    obtain ⟨x, -, -, effect⟩ := locking_eq_some effect
    split at effect
    next => cases effect; exact .ends trivial
    next => split at effect <;> cases effect; exact .ends trivial
    next => cases effect
  | polling r deadline =>
    obtain ⟨x, -, ⟨o, -, rfl⟩ | ⟨-, -, rfl⟩⟩ := proceed_polling_eq_some effect <;>
      exact .ends trivial
  | check f =>
    simp only [proceed] at effect
    split at effect
    next => cases effect
    next =>
      split at effect <;> cases effect
      · exact .goes trivial trivial (by simp)
      · exact .ends trivial
      · exact .ends trivial
      · exact .ends trivial
      · exact .ends trivial
  | sleeping deadline =>
    simp only [proceed] at effect
    split at effect <;> cases effect
    exact .ends trivial
  | joining t deadline => cases effect
  | client code =>
    simp only [proceed] at effect
    split at effect
    next c next action => cases effect; exact .calls action
    next c next action => cases effect; exact .attempts action
    next => cases effect; exact .ends trivial
    next => cases effect; exact .ends trivial

theorem unwind_emits {frame : Frame V κ} {p : Panic} (effect : s.unwind p frame = some e) :
    Emits client s (.error p) frame e.result e.frames := by
  cases frame with
  | guard => cases effect; exact .catches (.inl rfl)
  | threadEnd => cases effect; exact .catches (.inr rfl)
  | deliver r tasks first reply => cases effect; exact .survives
  | sweep merge sources all drained => cases effect; exact .drops
  | merging merge =>
    simp only [unwind] at effect
    split at effect
    next cell m found => cases effect; exact .poisons found
    next => cases effect
  | _ => cases effect; exact .unwinds trivial

theorem resume_emits {result : Return V} {frame : Frame V κ}
    (effect : s.resume client result frame = some e) :
    Emits client s result frame e.result e.frames := by
  cases result with
  | ok a => exact proceed_emits effect
  | error p => exact unwind_emits effect

end Store

end Quorate
