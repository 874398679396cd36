import Quorate.Proofs.Future.Phases
import Quorate.Proofs.Merge.Place
import Quorate.Proofs.System.Orderly
import Quorate.Proofs.System.Queue

/-! The callbacks that wake futures. A future registers its callback with its own result, to run
inline. From the queue of the result it comes to a frame only once the result has ended, and it is
thrown away only by a merge that was cancelled. Callbacks of futures that read a result of the
client's own making are the client's business, which may do with them what it likes. -/

set_option autoImplicit false

namespace Quorate

variable {V κ σ : Type}

section

variable (s : Store V κ σ)

def Store.HasEnded (r : ResultId) : Prop :=
  ∃ x, s.results[r]? = some x ∧ x.cell.state.isPending = false

def Store.Foreign (r : ResultId) : Prop := ∃ x, s.results[r]? = some x ∧ x.isForeign = true

/-- If the task wakes a future, then one that reads a foreign result, or it is to run inline and `P`
holds of the result that the future reads. -/
def Task.Wakes (P : ResultId → Prop) (task : Task κ) : Prop :=
  ∀ f, task.callback = .signal f → ∃ future, s.futures[f]? = some future ∧
    (s.Foreign future.result ∨ task.executor = .inline ∧ P future.result)

/-- A call hands on callbacks as they belong: to the result that their futures read, or after its
end. -/
def Call.Wakes : Call V κ → Prop
  | .register r task => task.Wakes s (· = r)
  | .perform task => task.Wakes s s.HasEnded
  | .discard task => task.Wakes s fun _ => False
  | .fork c => c.Wakes
  | _ => True

/-- A call that client code can make: it hands on no callback that wakes a future, except of futures
that read a foreign result. -/
def Call.Discreet : Call V κ → Prop
  | .register _ task | .perform task | .discard task => task.Wakes s fun _ => False
  | .fork c => c.Discreet
  | _ => True

/-- A call that respects what producers and futures hold. -/
def Call.Honest (c : Call V κ) : Prop := c.Fair s ∧ c.Discreet s

def Frame.Wakes : Frame V κ → Prop
  | .call c => c.Wakes s
  | .start callback => Task.Wakes s s.HasEnded ⟨callback, .inline⟩
  | .deliver _ tasks _ _ => ∀ task ∈ tasks, task.Wakes s s.HasEnded
  | .sweep _ _ _ tasks => ∀ task ∈ tasks, task.Wakes s s.IsCancelled
  | _ => True

/-- What a store tells about futures: their callbacks wait at the results that they read, those that
were woken read a result that has ended, and those that lost their callback one that was
cancelled. -/
structure Store.Wakings : Prop where
  queued : ∀ (r : ResultId) (x : Result V κ), s.results[r]? = some x →
    ∀ task ∈ x.cell.queue, task.Wakes s (· = r)
  woken : ∀ (f : FutureId) (future : Future), s.futures[f]? = some future → future.phase = .sent →
    s.Foreign future.result ∨ s.HasEnded future.result
  lost : ∀ (f : FutureId) (future : Future), s.futures[f]? = some future →
    future.phase = .dropped → s.Foreign future.result ∨ s.IsCancelled future.result

/-- The results and futures of a store are still there, results at most later than they were. -/
structure Store.Grows (s s' : Store V κ σ) : Prop where
  results : s.Later s'
  futures : ∀ (f : FutureId) (future : Future), s.futures[f]? = some future →
    ∃ future', s'.futures[f]? = some future' ∧ future'.result = future.result

end

section

variable {s s' : Store V κ σ} {r : ResultId} {task : Task κ} {P P' : ResultId → Prop}

theorem Store.IsCancelled.hasEnded (cancelled : s.IsCancelled r) : s.HasEnded r := by
  obtain ⟨x, found, -, state⟩ := cancelled.terminal
  exact ⟨x, found, by rw [state]; rfl⟩

theorem Store.Later.hasEnded (later : s.Later s') (ended : s.HasEnded r) : s'.HasEnded r := by
  obtain ⟨x, found, terminal⟩ := ended
  obtain ⟨x', found', later⟩ := later r x found
  exact ⟨x', found', by rw [later.state terminal, terminal]⟩

theorem Store.Later.foreign (later : s.Later s') (foreign : s.Foreign r) : s'.Foreign r := by
  obtain ⟨x, found, foreign⟩ := foreign
  obtain ⟨x', found', later⟩ := later r x found
  exact ⟨x', found', later.isForeign.trans foreign⟩

theorem Task.Wakes.mono (wakes : task.Wakes s P) (weaker : ∀ r, P r → P' r) : task.Wakes s P' := by
  intro f signals
  obtain ⟨future, there, reads⟩ := wakes f signals
  exact ⟨future, there, reads.imp_right fun ⟨inline, holds⟩ => ⟨inline, weaker _ holds⟩⟩

theorem Store.Grows.wakes (grows : s.Grows s') (wakes : task.Wakes s P)
    (lasts : ∀ r, P r → P' r) : task.Wakes s' P' := by
  intro f signals
  obtain ⟨future, there, reads⟩ := wakes f signals
  obtain ⟨future', there', same⟩ := grows.futures f future there
  rw [← same] at reads
  exact ⟨future', there', reads.imp grows.results.foreign fun ⟨inline, holds⟩ =>
    ⟨inline, lasts _ holds⟩⟩

theorem Call.Discreet.wakes {c : Call V κ} (discreet : c.Discreet s) : c.Wakes s := by
  induction c with
  | register r task => exact Task.Wakes.mono discreet fun _ => False.elim
  | perform task => exact Task.Wakes.mono discreet fun _ => False.elim
  | discard task => exact discreet
  | fork c ih => exact ih discreet
  | _ => trivial

theorem Store.Grows.call (grows : s.Grows s') {c : Call V κ} (wakes : c.Wakes s) : c.Wakes s' := by
  induction c with
  | register r task => exact grows.wakes wakes fun _ => id
  | perform task => exact grows.wakes wakes fun _ => grows.results.hasEnded
  | discard task => exact grows.wakes wakes fun _ => id
  | fork c ih => exact ih wakes
  | _ => trivial

theorem Store.Grows.frame (grows : s.Grows s') {frame : Frame V κ} (wakes : frame.Wakes s) :
    frame.Wakes s' := by
  cases frame with
  | call c => exact grows.call wakes
  | start callback => exact grows.wakes wakes fun _ => grows.results.hasEnded
  | deliver r tasks first reply =>
    exact fun task member => grows.wakes (wakes task member) fun _ => grows.results.hasEnded
  | sweep r sources all tasks =>
    exact fun task member => grows.wakes (wakes task member) fun _ => grows.results.isCancelled
  | _ => trivial

/-- Only a callback of a foreign result's future runs anywhere but inline. -/
theorem Task.Wakes.elsewhere (wakes : task.Wakes s P) (elsewhere : task.executor ≠ .inline)
    (executor : Executor) : Task.Wakes s P ⟨task.callback, executor⟩ := by
  intro f signals
  obtain ⟨future, there, reads⟩ := wakes f signals
  exact ⟨future, there, .inl (reads.resolve_right fun inline => elsewhere inline.1)⟩

/-- A passive frame does not run a callback next. -/
theorem Store.passive_starts_none {client : Client V κ σ} {frame : Frame V κ} {a : Answer V}
    {e : Effect V κ σ} (passive : frame.Passive)
    (effect : s.proceed client a frame = some e) (callback : Callback κ) :
    .start callback ∉ e.frames := by
  cases frame with
  | call c =>
    cases c with
    | get r timeout =>
      obtain ⟨x, -, ⟨-, rfl⟩ | ⟨-, rfl⟩⟩ := enter_get_eq_some effect <;> simp
    | poll f =>
      simp only [proceed, enter] at effect
      split at effect
      next => cases effect
      next => split at effect <;> cases effect <;> simp
    | claim r done cancelled =>
      obtain ⟨x, -, -, effect⟩ := locking_eq_some effect
      split at effect <;> cases effect
      simp
    | create seed => cases effect; simp
    | await r => cases effect; simp
    | run code => cases effect; simp
    | within r patience => cases effect; simp
    | sleep d => cases effect; simp
    | join t patience => cases effect; simp
    | _ => exact passive.elim
  | start callback' => cases callback' <;> cases effect <;> simp
  | read r timeout deadline =>
    obtain ⟨x, -, -, effect⟩ := locking_eq_some effect
    cases effect
    simp
  | wait r timeout deadline terminalOnEntry =>
    obtain ⟨x, -, -, effect⟩ := locking_eq_some effect
    split at effect
    next => cases effect; simp
    next => split at effect <;> cases effect; simp
    next => cases effect
  | polling r deadline =>
    obtain ⟨x, -, ⟨o, -, rfl⟩ | ⟨-, -, rfl⟩⟩ := proceed_polling_eq_some effect <;> simp
  | check f =>
    simp only [proceed] at effect
    split at effect
    next => cases effect
    next => split at effect <;> cases effect <;> simp
  | sleeping deadline => simp only [proceed] at effect; split at effect <;> cases effect; simp
  | joining t deadline => cases effect
  | guard => cases effect; simp
  | threadEnd => cases effect; simp
  | client code => simp only [proceed] at effect; split at effect <;> cases effect <;> simp
  | _ => exact passive.elim

end

section

variable {client : Client V κ σ} {s : Store V κ σ} {result : Return V} {frame : Frame V κ}
  {e : Effect V κ σ}

theorem Store.Touches.grows (touches : s.Touches result frame e)
    (rephases : s.Rephases result frame e) : s.Grows e.store := by
  refine ⟨touches.later, fun f future there => ?_⟩
  obtain ⟨phase, there', -⟩ := rephases.there f future there
  exact ⟨_, there', rfl⟩

/-- A future that is polled for the first time registers its callback with the result it reads. -/
theorem Store.poll_wakes {f : FutureId} (grows : s.Grows e.store)
    (effect : s.enter client (.poll f) = some e) : ∀ frame ∈ e.frames, frame.Wakes e.store := by
  simp only [enter] at effect
  split at effect
  next => cases effect
  next future there =>
    split at effect
    next =>
      cases effect
      intro frame member
      simp only [List.mem_cons, List.not_mem_nil, or_false] at member
      rcases member with rfl | rfl
      · intro f' same
        cases same
        obtain ⟨future', there', same⟩ := grows.futures f future there
        exact ⟨future', there', .inr ⟨rfl, same⟩⟩
      · trivial
    next =>
      cases effect
      intro frame member
      rw [List.mem_singleton.mp member]
      trivial

/-- A step hands callbacks on as they belong. -/
theorem Store.resume_wakes (effect : s.resume client result frame = some e)
    (wakings : s.Wakings) (sound : frame.Sound s) (wakes : frame.Wakes s)
    (drained : ∀ (r : ResultId) (x : Result V κ), s.results[r]? = some x →
      x.cell.drained = true → x.cell.state.isPending = false)
    (discreet : ∀ c, (Moment.mk s 0 result frame []).call? client = some c → c.Discreet s) :
    ∀ f ∈ e.frames, f.Wakes e.store := by
  have touches := resume_touches effect
  have grows := touches.grows (resume_rephases effect)
  have emits := resume_emits effect
  generalize same : e.result = result' at emits
  generalize up : e.frames = frames at emits
  intro f member
  cases emits with
  | passive passive passives =>
    have passive' := passives f member
    cases f with
    | start callback =>
      rw [← up] at member
      exact absurd member (passive_starts_none passive effect callback)
    | call c => cases c <;> trivial
    | _ => trivial
  | polls =>
    rw [← up] at member
    have entered : s.enter client (.poll _) = some e := effect
    exact poll_wakes grows entered f member
  | @calls _ _ _ c action =>
    rcases List.mem_cons.mp member with rfl | member
    · exact grows.call (discreet c (by simp [Moment.call?, action])).wakes
    · rw [List.mem_singleton.mp member]
      trivial
  | @attempts _ _ _ c action =>
    simp only [List.mem_cons, List.not_mem_nil, or_false] at member
    rcases member with rfl | rfl | rfl
    · exact grows.call (discreet c (by simp [Moment.call?, action])).wakes
    · trivial
    · trivial
  | @settles _ _ r x state reply about found settles terminal form =>
    have terminal : state.isPending = false := sound.given terminal
    have after := touches.there r x found
    rw [if_pos about] at after
    have ended : e.store.HasEnded r := ⟨_, after, by rw [settles.cell]; exact terminal⟩
    rw [List.mem_singleton.mp member]
    intro task queued
    exact grows.wakes (wakings.queued r x found task queued) fun _ reads => reads ▸ ended
  | @sweeps a r cell merge found pending =>
    have cancelled : e.store.IsCancelled r := touches.isCancelled found pending
    rw [List.mem_singleton.mp member]
    intro task queued
    exact grows.wakes (wakings.queued r _ found task queued) fun _ reads => reads ▸ cancelled
  | @performs a r task x found own full =>
    have ended : s.HasEnded r := ⟨x, found, drained r x found full⟩
    rw [List.mem_singleton.mp member]
    have waits : task.Wakes s (· = r) := wakes
    exact grows.wakes waits fun _ reads => reads ▸ grows.results.hasEnded ended
  | serves =>
    rw [List.mem_singleton.mp member]
    trivial
  | builds =>
    rw [List.mem_singleton.mp member]
    trivial
  | opens form =>
    rcases form with ⟨f, p, -, -, -, rfl⟩ | ⟨f, o, -, -, -, rfl⟩ | ⟨f, -, -, rfl⟩
    · cases member
    · rw [List.mem_singleton.mp member]
      trivial
    · simp only [List.mem_cons, List.not_mem_nil, or_false] at member
      rcases member with rfl | rfl <;> trivial
  | completes =>
    simp only [List.mem_cons, List.not_mem_nil, or_false] at member
    rcases member with rfl | rfl <;> trivial
  | @inline a callback =>
    have ready : Task.Wakes s s.HasEnded ⟨callback, .inline⟩ := wakes
    rw [List.mem_singleton.mp member]
    exact grows.wakes ready fun _ => grows.results.hasEnded
  | @spawns a callback =>
    have ready : Task.Wakes s s.HasEnded ⟨callback, .spawn⟩ := wakes
    rw [List.mem_singleton.mp member]
    exact grows.wakes (ready.elsewhere (by simp) .inline) fun _ => grows.results.hasEnded
  | @joins a callback =>
    have ready : Task.Wakes s s.HasEnded ⟨callback, .join⟩ := wakes
    simp only [List.mem_cons, List.not_mem_nil, or_false] at member
    rcases member with rfl | rfl
    · exact grows.wakes (ready.elsewhere (by simp) .inline) fun _ => grows.results.hasEnded
    · trivial
  | observes =>
    rw [List.mem_singleton.mp member]
    trivial
  | finds =>
    rw [List.mem_singleton.mp member]
    trivial
  | inquires =>
    simp only [List.mem_cons, List.not_mem_nil, or_false] at member
    rcases member with rfl | rfl <;> trivial
  | reads =>
    rw [List.mem_singleton.mp member]
    trivial
  | merges =>
    simp only [List.mem_cons, List.not_mem_nil, or_false] at member
    rcases member with rfl | rfl <;> trivial
  | @registers a merge source rest index =>
    simp only [List.mem_cons, List.not_mem_nil, or_false] at member
    rcases member with rfl | rfl
    · intro f signals
      cases signals
    · trivial
  | asks =>
    simp only [List.mem_cons, List.not_mem_nil, or_false] at member
    rcases member with rfl | rfl
    · trivial
    · exact fun task queued => grows.wakes (wakes task queued) fun _ => grows.results.isCancelled
  | swept =>
    rw [List.mem_singleton.mp member]
    exact fun task queued => grows.wakes (wakes task queued) fun _ cancelled =>
      (grows.results.isCancelled cancelled).hasEnded
  | @delivers a r task tasks first reply =>
    have ready : ∀ task' ∈ task :: tasks, task'.Wakes s s.HasEnded := wakes
    simp only [List.mem_cons, List.not_mem_nil, or_false] at member
    rcases member with rfl | rfl
    · exact grows.wakes (ready task List.mem_cons_self) fun _ => grows.results.hasEnded
    · exact fun task' queued => grows.wakes (ready task' (List.mem_cons_of_mem _ queued)) fun _ =>
        grows.results.hasEnded
  | survives =>
    rw [List.mem_singleton.mp member]
    exact fun task queued => grows.wakes (wakes task queued) fun _ => grows.results.hasEnded
  | _ => cases member

/-- Callbacks go on waiting at the results that their futures read. -/
theorem Store.Wakings.queued_step (wakings : s.Wakings) (touches : s.Touches result frame e)
    (grows : s.Grows e.store) (wakes : frame.Wakes s) {r : ResultId} {x' : Result V κ}
    (after : e.store.results[r]? = some x') :
    ∀ task ∈ x'.cell.queue, task.Wakes e.store (· = r) := by
  intro task member
  cases before : s.results[r]? with
  | none =>
    rw [Frame.made?_queue (touches.new before after).2] at member
    cases member
  | some x =>
    have moved := touches.there r x before
    cases after.symm.trans moved
    have waits : task.Wakes s (· = r) := by
      split at member
      next about =>
        rcases Result.touch_queue member with member | ⟨r', rfl⟩
        · exact wakings.queued r x before task member
        · cases about
          exact wakes
      next => exact wakings.queued r x before task member
    exact grows.wakes waits fun _ => id

/-- A future is woken after the end of its result, and loses its callback only once its result is
cancelled. -/
theorem Store.Wakings.step (wakings : s.Wakings) (touches : s.Touches result frame e)
    (rephases : s.Rephases result frame e) (wakes : frame.Wakes s) : e.store.Wakings := by
  have grows := touches.grows rephases
  refine ⟨fun r x' after => wakings.queued_step touches grows wakes after, ?_, ?_⟩
  · intro f future' after sent
    cases before : s.futures[f]? with
    | none =>
      have created := rephases.new f future' before after
      cases sent.symm.trans created
    | some future =>
      obtain ⟨phase, there, cause⟩ := rephases.there f future before
      cases after.symm.trans there
      subst sent
      refine Or.imp grows.results.foreign grows.results.hasEnded ?_
      rcases cause with same | changes
      · exact wakings.woken f future before same.symm
      · cases changes with
        | wakes =>
          obtain ⟨future₀, there₀, reads⟩ := wakes f rfl
          cases before.symm.trans there₀
          exact reads.imp_right And.right
  · intro f future' after dropped
    cases before : s.futures[f]? with
    | none =>
      have created := rephases.new f future' before after
      cases dropped.symm.trans created
    | some future =>
      obtain ⟨phase, there, cause⟩ := rephases.there f future before
      cases after.symm.trans there
      subst dropped
      refine Or.imp grows.results.foreign grows.results.isCancelled ?_
      rcases cause with same | changes
      · exact wakings.lost f future before same.symm
      · cases changes with
        | @loses _ _ task drops signals =>
          have reads : ∀ {P : ResultId → Prop}, task.Wakes s P → s.Foreign future.result ∨
              task.executor = .inline ∧ P future.result := by
            intro P holds
            obtain ⟨future₀, there₀, reads⟩ := holds f signals
            cases before.symm.trans there₀
            exact reads
          cases drops with
          | discards =>
            have loose : task.Wakes s fun _ => False := wakes
            exact (reads loose).imp_right fun none => none.2.elim
          | refuses refuses =>
            have ready : task.Wakes s s.HasEnded := wakes
            refine (reads ready).imp_right fun inline => ?_
            cases refuses.symm.trans inline.1
          | unwinds member => exact (reads (wakes task member)).imp_right And.right

end

/-- Frames and results hold callbacks as they belong. -/
structure System.Waking (s : System V κ σ) : Prop where
  frames : s.Each (Frame.Wakes s.store)
  store : s.store.Wakings

theorem System.waking_empty (client : σ) :
    (System.mk (.empty client) [] : System V κ σ).Waking := by
  refine ⟨fun _ member => by simp at member, ?_, ?_, ?_⟩
  all_goals intro _ _ found; simp [Store.empty] at found

theorem System.Waking.step {client : Client V κ σ} {s : System V κ σ} {t : Nat} {μ : Moment V κ σ}
    {e : Effect V κ σ} {calls : List (Call V κ)} (waking : s.Waking) (sound : s.Sound)
    (orderly : s.Orderly) (found : s.moment? t = some μ)
    (discreet : ∀ c, μ.call? client = some c → c.Discreet μ.store)
    (yields : μ.Yields client e calls) : (s.after t μ.below e calls).Waking := by
  have touches := yields.touches
  have rephases := yields.rephases
  have store := (moment?_eq_some found).1
  have here := (waking.frames.moment found).1
  have sound := (sound.frames.moment found).1
  have frames := waking.frames
  have wakings := waking.store
  have drained : ∀ (r : ResultId) (x : Result V κ), μ.store.results[r]? = some x →
      x.cell.drained = true → x.cell.state.isPending = false := by
    intro r x there full
    rw [store] at there
    cases pending : x.cell.state.isPending with
    | false => rfl
    | true =>
      have empty := ((orderly.there r x there).waiting pending).1
      cases full.symm.trans empty
  rw [← store] at here sound frames wakings
  have grows := touches.grows rephases
  refine ⟨?_, wakings.step touches rephases here⟩
  refine (frames.mono fun frame => grows.frame).after found ?_ ?_
  · cases yields with
    | resumed effect => exact Store.resume_wakes effect wakings sound here drained discreet
    | forked _ _ _ => simp
    | joined _ _ _ => simp
  · intro c member
    cases yields with
    | resumed _ => simp at member
    | forked _ _ frame =>
      rw [List.mem_singleton.mp member]
      rw [frame] at here
      exact grows.call here
    | joined _ _ _ => simp at member

theorem Run.waking {client : Client V κ σ} {s s₁ : System V κ σ} {h : List (Moment V κ σ)}
    (run : Run client (fun s c => c.Honest s) s h s₁) (sound : s.Sound) (orderly : s.Orderly)
    (waking : s.Waking) : s₁.Waking := by
  induction run with
  | start => exact waking
  | step run found step honest ih =>
    have fair := run.mono fun _ _ => And.left
    obtain ⟨μ, e, calls, moment, yields, rfl⟩ := System.step_yields step
    cases found.symm.trans moment
    exact ih.step (fair.sound sound) (fair.orderly sound orderly) moment
      (fun c made => (honest c made).2) yields
  | begin c _ honest ih => exact ⟨ih.frames.begin honest.2.wakes, ih.store⟩
  | @pass _ s₁ now _ _ ih =>
    have grows : s₁.store.Grows (s₁.pass now).store :=
      ⟨Store.later_of_results rfl, fun f future there => ⟨future, there, rfl⟩⟩
    exact ⟨ih.frames.mono fun _ => grows.frame, ih.store.queued, ih.store.woken, ih.store.lost⟩

/-- Calls that hand on no callback of a future, made one after the other. -/
theorem Run.perform_honest {client : Client V κ σ}
    (silent : ∀ μ c, Moment.call? client μ = some c → c.Honest μ.store) (s : System V κ σ)
    {calls : List (Call V κ × Nat)}
    (discreet : ∀ call ∈ calls, ∀ s : Store V κ σ, call.1.Discreet s) :
    Run client (fun s c => c.Honest s) s (s.perform client calls).1 (s.perform client calls).2 := by
  induction calls generalizing s with
  | nil => exact .start
  | cons call calls ih =>
    obtain ⟨c, count⟩ := call
    have rest (s : System V κ σ) := ih s fun call member => discreet call (by simp [member])
    unfold System.perform
    split
    next fair =>
      have honest : c.Honest s.store :=
        ⟨(c.isFair_iff _).mp fair, discreet (c, count) List.mem_cons_self s.store⟩
      exact (Run.call silent s honest count).trans (rest _)
    next => exact rest s

theorem Client.panicking_honest {V : Type} {p : Panic} (μ : Moment V Unit Unit) (c : Call V Unit)
    (made : μ.call? (.panicking V p) = some c) : c.Honest μ.store := by
  rw [Client.panicking_call?] at made
  cases made

end Quorate
