import Quorate.Proofs.System.Schedule
import Quorate.Proofs.System.Finish

/-! Systems in two layers. Client code makes the calls of a plain system, and besides it sleeps,
reads results and starts threads with more client code. None of that touches a result, so that what
holds of a plain system holds of the lower layer. -/

set_option autoImplicit false

namespace Quorate

variable {V κ σ : Type}

/-- A call of the outer layer. -/
def Call.Outer (s : Store V κ σ) : Call V κ → Prop
  | .run _ | .sleep _ | .fork (.run _) => True
  | .get r _ => r < s.results.length
  | _ => False

def Frame.Outer (s : Store V κ σ) : Frame V κ → Prop
  | .call c => c.Outer s
  | .client _ | .sleeping _ | .guard => True
  | .read r timeout deadline | .wait r timeout deadline _ =>
    r < s.results.length ∧ (deadline ≠ none → timeout ≠ none)
  | _ => False

def Call.Layered (s : Store V κ σ) (c : Call V κ) : Prop := c.Plain s ∨ c.Outer s

def Frame.Layered (s : Store V κ σ) (frame : Frame V κ) : Prop := frame.Plain s ∨ frame.Outer s

theorem Call.Layered.frame {s : Store V κ σ} {c : Call V κ} (layered : c.Layered s) :
    (Frame.call c).Layered s :=
  layered.imp Call.Plain.frame id

theorem Call.Layered.fair {s : Store V κ σ} {c : Call V κ} (layered : c.Layered s) : c.Fair s := by
  rcases layered with plain | outer
  · exact plain.fair
  · cases c with
    | complete r state => exact outer.elim
    | fork c => cases c <;> trivial
    | _ => trivial

namespace Store.Later

variable {s s' : Store V κ σ} (later : s.Later s')
include later

theorem frame_layered {frame : Frame V κ} (layered : frame.Layered s) : frame.Layered s' := by
  refine layered.imp later.frame_plain fun outer => ?_
  cases frame with
  | call c =>
    cases c with
    | get r timeout => exact later.there outer
    | fork c => cases c <;> exact outer
    | _ => exact outer
  | read r timeout deadline => exact ⟨later.there outer.1, outer.2⟩
  | wait r timeout deadline entry => exact ⟨later.there outer.1, outer.2⟩
  | _ => exact outer

end Store.Later

/-- A store is plain because of its results. -/
theorem Store.Plain.of_results {s s' : Store V κ σ} (plain : s.Plain)
    (same : s'.results = s.results) : s'.Plain := by
  have later : s.Later s' := later_of_results same
  intro r x found
  rw [same] at found
  obtain ⟨kind, queue⟩ := plain r x found
  exact ⟨later.kind_plain kind, fun task member => later.task_plain (queue task member)⟩

section

variable {client : Client V κ σ} {s : Store V κ σ} {result : Return V} {frame : Frame V κ}
  {e : Effect V κ σ}

theorem Frame.Outer.not_flags (outer : frame.Outer s) : ¬ frame.Flags := by
  cases frame with
  | call c => cases c <;> first | exact id | exact outer.elim
  | _ => first | exact id | exact outer.elim

/-- What an outer frame leaves behind. -/
structure Goes (s : Store V κ σ) (frame : Frame V κ) (e : Effect V κ σ) : Prop where
  results : e.store.results = s.results
  frames : ∀ f ∈ e.frames, f.Layered s
  leaves : Leaves frame e.result e.frames

/-- A step that answers or raises. -/
theorem Goes.over (outer : frame.Outer s) (same : e.store.results = s.results)
    (none : e.frames = []) : Goes s frame e := by
  refine ⟨same, by simp [none], ⟨by simp [none], by simp [none], ?_, by simp [none]⟩⟩
  exact fun flags => absurd flags outer.not_flags

/-- A step that puts one frame in the place of another. -/
theorem Goes.to {s' : Store V κ σ} {f : Frame V κ} (outer : frame.Outer s)
    (same : s'.results = s.results) (layered : f.Layered s)
    (fits : f.Fits (.ok .unit : Return V)) : Goes s frame ⟨s', .ok .unit, [f]⟩ := by
  refine ⟨same, by simpa using layered, ⟨by simpa using fits, by simp, nofun, ?_⟩⟩
  exact fun flags => absurd flags outer.not_flags

theorem Store.Plain.outer (plain : s.Plain) (outer : frame.Outer s)
    (rule : ∀ c, (Moment.mk s 0 result frame []).call? client = some c → c.Layered s)
    (effect : s.resume client result frame = some e) : Goes s frame e := by
  cases result with
  | error p =>
    cases frame with
    | call c => cases effect; exact .over outer rfl rfl
    | client code => cases effect; exact .over outer rfl rfl
    | sleeping deadline => cases effect; exact .over outer rfl rfl
    | read r timeout deadline => cases effect; exact .over outer rfl rfl
    | wait r timeout deadline entry => cases effect; exact .over outer rfl rfl
    | guard => cases effect; exact .over outer rfl rfl
    | _ => exact outer.elim
  | ok a =>
    cases frame with
    | call c =>
      cases c with
      | run code => cases effect; exact .to outer rfl (.inr trivial) trivial
      | sleep d => cases effect; exact .to outer rfl (.inr trivial) trivial
      | get r timeout =>
        obtain ⟨x, found, ⟨foreign, -⟩ | ⟨-, rfl⟩⟩ := enter_get_eq_some effect
        · cases (plain.own found).symm.trans foreign
        · refine .to outer rfl (.inr ⟨outer, fun some => ?_⟩) trivial
          rintro rfl
          exact some rfl
      | fork c => cases effect
      | _ => exact outer.elim
    | guard => cases effect; exact .over outer rfl rfl
    | sleeping deadline =>
      simp only [resume, proceed] at effect
      split at effect <;> cases effect
      exact .over outer rfl rfl
    | read r timeout deadline =>
      obtain ⟨x, -, -, effect⟩ := locking_eq_some effect
      cases effect
      exact .to outer rfl (.inr outer) trivial
    | wait r timeout deadline entry =>
      obtain ⟨x, -, -, effect⟩ := locking_eq_some effect
      split at effect
      next => cases effect; exact .over outer rfl rfl
      next => split at effect <;> cases effect; exact .over outer rfl rfl
      next => cases effect
    | client code =>
      simp only [resume, proceed] at effect
      split at effect
      next c next action =>
        have layered := (rule c (by simp [Moment.call?, action])).frame
        cases effect
        refine ⟨rfl, ?_, ⟨by simp [Frame.Fits], by simp [Frame.Above], by simp, False.elim⟩⟩
        intro f member
        simp only [List.mem_cons, List.not_mem_nil, or_false] at member
        rcases member with rfl | rfl
        · exact layered
        · exact .inr trivial
      next c next action =>
        have layered := (rule c (by simp [Moment.call?, action])).frame
        cases effect
        refine ⟨rfl, ?_, ⟨by simp [Frame.Fits], by simp [Frame.Above], by simp, False.elim⟩⟩
        intro f member
        simp only [List.mem_cons, List.not_mem_nil, or_false] at member
        rcases member with rfl | rfl | rfl
        · exact layered
        · exact .inr trivial
        · exact .inr trivial
      next => cases effect; exact .over outer rfl rfl
      next => cases effect; exact .over outer rfl rfl
    | _ => exact outer.elim

end

/-- A system in two layers, in which every frame gets the answers that it can go on with. -/
structure System.Layered (s : System V κ σ) : Prop where
  store : s.store.Plain
  frames : s.Each (Frame.Layered s.store)
  fits : ∀ thread ∈ s.threads, thread.Fits
  sound : s.Sound
  orderly : s.Orderly

theorem System.layered_empty (client : σ) :
    (System.mk (.empty client) [] : System V κ σ).Layered :=
  ⟨(plain_empty client).store, (fun _ member => by cases member),
    (fun _ member => by cases member), sound_empty client, orderly_empty client⟩

section

variable {client : Client V κ σ} {s s₁ : System V κ σ} {t : Nat} {μ : Moment V κ σ}
  {e : Effect V κ σ} {calls : List (Call V κ)} {h : List (Moment V κ σ)}

/-- What a step of a layered system leaves: plain frames of a plain frame, or what an outer frame
goes on with, or another thread. -/
theorem System.Layered.cases (layered : s.Layered) (found : s.moment? t = some μ)
    (yields : μ.Yields client e calls)
    (rule : ∀ c, μ.call? client = some c → c.Layered μ.store) :
    calls = [] ∧ s.store.resume client μ.result μ.frame = some e ∧
        (μ.frame.Plain s.store ∨ μ.frame.Outer s.store ∧ Goes s.store μ.frame e) ∨
      ∃ a b code, μ.result = .ok a ∧ μ.frame = .call (.fork (.run code)) ∧
        e = ⟨s.store, .ok b, []⟩ ∧ calls = [.run code] := by
  have here := (layered.frames.moment found).1
  have store := (moment?_eq_some found).1
  cases yields with
  | resumed effect =>
    rw [store] at effect rule
    refine .inl ⟨rfl, effect, here.imp_right fun outer => ⟨outer, ?_⟩⟩
    refine layered.store.outer outer (fun c made => rule c ?_) effect
    rw [← made, ← store]
    rfl
  | @forked a c t answered frame =>
    right
    rw [frame] at here
    rcases here with plain | outer
    · exact plain.elim
    · cases c with
      | run code => exact ⟨a, _, code, answered, frame, by rw [store], rfl⟩
      | _ => exact outer.elim
  | joined b answered frame =>
    rw [frame] at here
    rcases here with plain | outer
    · exact plain.elim
    · exact outer.elim

theorem System.Layered.step (layered : s.Layered) (found : s.moment? t = some μ)
    (yields : μ.Yields client e calls)
    (rule : ∀ c, μ.call? client = some c → c.Layered μ.store) :
    (s.after t μ.below e calls).Layered := by
  obtain ⟨plain, frames, fits, sound, orderly⟩ := layered
  have touches := yields.touches
  rw [(moment?_eq_some found).1] at touches
  have selected := List.mem_of_getElem? (moment?_eq_some found).2.2
  have later := frames.mono fun _ => touches.later.frame_layered
  have sound' := sound.step found (fun c made => (rule c made).fair) yields
  have orderly' := orderly.step sound found yields
  rcases System.Layered.cases ⟨plain, frames, fits, sound, orderly⟩ found yields rule with
    ⟨rfl, effect, here | ⟨-, goes⟩⟩ | ⟨a, b, code, answered, frame, rfl, rfl⟩
  · refine ⟨plain.step here touches, later.after found ?_ (by simp), ?_, sound', orderly'⟩
    · exact fun f member => .inl (plain.frames here effect f member)
    · exact threads_after ((fits _ selected).step (plain.leaves here effect)) fits (by simp)
  · refine ⟨plain.of_results goes.results, later.after found ?_ (by simp), ?_, sound', orderly'⟩
    · exact fun f member => touches.later.frame_layered (goes.frames f member)
    · exact threads_after ((fits _ selected).step goes.leaves) fits (by simp)
  · refine ⟨plain, later.after found (by simp) ?_, ?_, sound', orderly'⟩
    · intro c member
      rw [List.mem_singleton.mp member]
      exact .inr trivial
    · refine threads_after ?_ fits fun c _ => Thread.fits_ofCall c
      refine (fits _ selected).step ⟨nofun, by simp, ?_, nofun⟩
      rw [frame]
      exact False.elim

theorem Run.layered (run : Run client Call.Layered s h s₁) (layered : s.Layered) : s₁.Layered := by
  have fair : Run client Call.Fair s h s₁ := run.mono fun _ _ => Call.Layered.fair
  have sound := fair.sound layered.sound
  have orderly := fair.orderly layered.sound layered.orderly
  clear fair
  induction run with
  | start => exact layered
  | @step h s₁ s₂ t μ run found step rule ih =>
    obtain ⟨μ', e, calls, moment, yields, rfl⟩ := System.step_yields step
    cases found.symm.trans moment
    have fair : Run client Call.Fair s h s₁ := run.mono fun _ _ => Call.Layered.fair
    have before := ih (fair.sound layered.sound) (fair.orderly layered.sound layered.orderly)
    exact before.step found yields rule
  | begin c run obeyed ih =>
    have fair : Run client Call.Fair _ _ _ := run.mono fun _ _ => Call.Layered.fair
    have before := ih (fair.sound layered.sound) (fair.orderly layered.sound layered.orderly)
    exact ⟨before.store, before.frames.begin obeyed.frame,
      System.threads_begin before.fits (Thread.fits_ofCall c), sound, orderly⟩
  | @pass h s₁ now run past ih =>
    have fair : Run client Call.Fair s h s₁ := run.mono fun _ _ => Call.Layered.fair
    have before := ih (fair.sound layered.sound) (fair.orderly layered.sound layered.orderly)
    have later : s₁.store.Later (s₁.pass now).store := Store.later_of_results rfl
    exact ⟨before.store.of_results rfl, before.frames.mono fun _ => later.frame_layered,
      before.fits, sound, orderly⟩

/-- No lock is held in a layered system, as its mergers are not client code. -/
theorem System.Layered.free (layered : s.Layered) {r : ResultId} {x : Result V κ}
    (found : s.store.results[r]? = some x) : x.isHeld = false := by
  have none : s.weight (Frame.merges r) = 0 := by
    apply weight_eq_zero_iff.mpr
    intro thread member frame included
    have here := layered.frames thread member frame included
    cases frame with
    | merging merge => rcases here with here | here <;> exact here.elim
    | _ => rfl
  have lock := (layered.orderly.there r x found).lock
  rw [none] at lock
  cases held : x.isHeld with
  | false => rfl
  | true => simp [held] at lock

/-- A frame that waits for a pending result has a limit. -/
def Frame.Limited (s : Store V κ σ) (frame : Frame V κ) : Prop :=
  ∀ r timeout entry, frame = .wait r timeout none entry →
    entry = true ∧ ∃ x, s.results[r]? = some x ∧ x.cell.state.isPending = false

/-- The clock is all that an outer frame may have to wait for. -/
theorem Frame.Outer.resumes {store : Store V κ σ} {result : Return V} {frame : Frame V κ}
    (outer : frame.Outer store)
    (free : ∀ (r : ResultId) (x : Result V κ), store.results[r]? = some x → x.isHeld = false)
    (apart : ∀ c, frame ≠ .call (.fork c)) (limited : frame.Limited store) :
    ∃ now, store.now ≤ now ∧ ∃ e, Store.resume { store with now } client result frame = some e := by
  cases result with
  | error p =>
    refine ⟨store.now, Nat.le_refl _, ?_⟩
    cases frame with
    | deliver | sweep | merging => exact outer.elim
    | _ => exact ⟨_, rfl⟩
  | ok a =>
    cases frame with
    | call c =>
      refine ⟨store.now, Nat.le_refl _, ?_⟩
      cases c with
      | run code => exact ⟨_, rfl⟩
      | sleep d => exact ⟨_, rfl⟩
      | get r timeout =>
        have found : store.results[r]? = _ := List.getElem?_eq_getElem outer
        simp only [Store.resume, Store.proceed, Store.enter, found]
        split <;> exact ⟨_, rfl⟩
      | fork c => exact absurd rfl (apart c)
      | _ => exact outer.elim
    | guard => exact ⟨store.now, Nat.le_refl _, _, rfl⟩
    | client code =>
      refine ⟨store.now, Nat.le_refl _, ?_⟩
      simp only [Store.resume, Store.proceed]
      split <;> exact ⟨_, rfl⟩
    | sleeping deadline =>
      refine ⟨max store.now deadline, Nat.le_max_left _ _, ?_⟩
      simp only [Store.resume, Store.proceed, Nat.le_max_right, if_true]
      exact ⟨_, rfl⟩
    | read r timeout deadline =>
      have found : store.results[r]? = _ := List.getElem?_eq_getElem outer.1
      refine ⟨store.now, Nat.le_refl _, ?_⟩
      simp only [Store.resume, Store.proceed, Store.locking_free found (free r _ found)]
      exact ⟨_, rfl⟩
    | wait r timeout deadline entry =>
      obtain ⟨there, limit⟩ := outer
      have found := List.getElem?_eq_getElem there
      have locks (now : Nat) (f : Result V κ → Option (Effect V κ σ)) :
          Store.locking { store with now } r f = f store.results[r] :=
        Store.locking_free found (free r _ found) f
      cases deadline with
      | none =>
        obtain ⟨rfl, x, found', ended⟩ := limited r timeout entry rfl
        cases found.symm.trans found'
        refine ⟨store.now, Nat.le_refl _, ?_⟩
        have outcome : ∃ o, store.results[r].cell.state.outcome? = some o := by
          apply Option.ne_none_iff_exists'.mp
          intro none
          rw [(State.outcome?_eq_none_iff _).mp none] at ended
          cases ended
        obtain ⟨o, outcome⟩ := outcome
        simp only [Store.resume, Store.proceed, locks, Cell.release?, Bool.true_or, if_true,
          outcome]
        exact ⟨_, rfl⟩
      | some deadline =>
        obtain ⟨d, rfl⟩ := Option.ne_none_iff_exists'.mp (limit (by simp))
        refine ⟨max store.now deadline, Nat.le_max_left _ _, ?_⟩
        simp only [Store.resume, Store.proceed, locks]
        cases store.results[r].cell.release? entry with
        | some o => exact ⟨_, rfl⟩
        | none => exact ⟨_, if_pos (Nat.le_max_right _ _)⟩
    | _ => exact outer.elim

/-- A thread of a layered system moves, unless it reads a pending result without a limit. -/
theorem System.Layered.moves (layered : s.Layered) (found : s.moment? t = some μ)
    (limited : μ.frame.Limited s.store) : s.Moves client t := by
  obtain ⟨store, -, selected⟩ := moment?_eq_some found
  have here := (layered.frames.moment found).1
  have fits := (layered.fits _ (List.mem_of_getElem? selected)).top _ rfl
  obtain ⟨_, t', result, frame, below⟩ := μ
  dsimp only at store selected limited here fits
  -- the clock is all that the frame looks at beside the results
  have resumes (now : Nat) (past : s.store.now ≤ now)
      (effect : (∃ c, frame = .call (.fork c)) ∨
        ∃ e, (s.pass now).store.resume client result frame = some e)
      (apart : ∀ t d, frame ≠ .joining t d) : s.Moves client t := by
    have selected : (s.pass now).threads[t]? = some ⟨result, frame :: below⟩ := selected
    refine ⟨now, ?_⟩
    unfold System.step
    split
    next none => cases selected.symm.trans none
    next ended => cases selected.symm.trans ended
    next => exact ⟨_, past, rfl⟩
    next joins => cases selected.symm.trans joins; exact absurd rfl (apart _ _)
    next forks _ same =>
      cases selected.symm.trans same
      rcases effect with ⟨c, rfl⟩ | ⟨e, effect⟩
      · cases result with
        | ok a => exact (forks a c rfl rfl).elim
        | error p => exact ⟨_, past, rfl⟩
      · exact ⟨_, past, by rw [effect]; rfl⟩
  by_cases forks : ∃ c, frame = .call (.fork c)
  · obtain ⟨c, rfl⟩ := forks
    exact resumes s.store.now (Nat.le_refl _) (.inl ⟨c, rfl⟩) (by simp)
  · have apart (c : Call V κ) : frame ≠ .call (.fork c) := fun same => forks ⟨c, same⟩
    have apart' (t d : Nat) : frame ≠ .joining t d := by
      rintro rfl
      rcases here with here | here <;> exact here.elim
    rcases here with plain | outer
    · obtain ⟨e, effect⟩ : ∃ e, s.store.resume client result frame = some e :=
        layered.store.progress (fun r x => layered.free) plain fits
      exact resumes s.store.now (Nat.le_refl _) (.inr ⟨e, effect⟩) apart'
    · obtain ⟨now, past, e, effect⟩ : ∃ now, s.store.now ≤ now ∧
          ∃ e, Store.resume { s.store with now } client result frame = some e :=
        outer.resumes (fun r x => layered.free) apart limited
      exact resumes now past (.inr ⟨e, effect⟩) apart'

end

section

variable (price : κ → Nat)

/-- What is left to be done for a call, where client code has a price. -/
def Call.toil : Call V κ → Nat
  | .run code => 1 + price code
  | .sleep _ => 2
  | .get _ _ => 3
  | .fork c => 1 + c.toil
  | c => Frame.cost (.call c)

def Frame.toil : Frame V κ → Nat
  | .call c => c.toil price
  | .client code => price code
  | .read _ _ _ => 2
  | .sleeping _ | .wait _ _ _ _ | .guard => 1
  | frame => frame.cost

def Action.toil : Action V κ → Nat
  | .call c next => c.toil price + price next
  | .attempt c next => c.toil price + 1 + price next
  | .finish _ => 0
  | .panic _ => 1

/-- Client code pays for what it does next. -/
def Client.Frugal (client : Client V κ σ) : Prop :=
  ∀ code a s, (client.resume code a s).2.toil price < price code

def Thread.toil (thread : Thread V κ) : Nat :=
  load (Frame.toil price) thread.frames + panicCost thread.result

def System.toil (s : System V κ σ) : Nat :=
  (s.threads.map (Thread.toil price)).sum + (s.store.results.map Result.cost).sum

variable {price} {client : Client V κ σ} {s s₁ : System V κ σ} {t : Nat} {μ : Moment V κ σ}
  {e : Effect V κ σ} {calls : List (Call V κ)} {h : List (Moment V κ σ)}

theorem Frame.Plain.toil {store : Store V κ σ} {frame : Frame V κ} (plain : frame.Plain store) :
    frame.toil price = frame.cost := by
  cases frame with
  | call c => cases c <;> first | rfl | exact plain.elim
  | _ => first | rfl | exact plain.elim

theorem load_plain {store : Store V κ σ} {frames : List (Frame V κ)}
    (plain : ∀ f ∈ frames, f.Plain store) :
    load (Frame.toil price) frames = load Frame.cost frames := by
  induction frames with
  | nil => rfl
  | cons f frames ih =>
    have first : f.toil price = f.cost := Frame.Plain.toil (plain f List.mem_cons_self)
    rw [load_cons, load_cons, first, ih fun g member => plain g (List.mem_cons_of_mem _ member)]

/-- An outer frame leaves less to be done than it found. -/
theorem Frame.Outer.pays {store : Store V κ σ} {result : Return V} {frame : Frame V κ}
    (frugal : client.Frugal price) (outer : frame.Outer store) (plain : store.Plain)
    (effect : store.resume client result frame = some e) :
    load (Frame.toil price) e.frames + panicCost e.result <
      frame.toil price + panicCost result := by
  have priced (code : κ) (a : Answer V) : 0 < price code := Nat.zero_lt_of_lt (frugal code a store)
  cases result with
  | error p =>
    have positive : 0 < frame.toil price := by
      cases frame with
      | call c =>
        cases c <;> first | exact outer.elim | (simp only [Frame.toil, Call.toil]; omega)
      | client code => exact priced code .unit
      | read => exact Nat.two_pos
      | sleeping | wait | guard => exact Nat.one_pos
      | _ => exact outer.elim
    cases frame with
    | deliver | sweep | merging => exact outer.elim
    | guard => cases effect; simp [Frame.toil, panicCost]
    | _ => cases effect; first | exact outer.elim | simpa [panicCost] using positive
  | ok a =>
    cases frame with
    | call c =>
      cases c with
      | run code => cases effect; simp [Frame.toil, Call.toil, panicCost]
      | sleep d => cases effect; simp [Frame.toil, Call.toil, panicCost]
      | get r timeout =>
        obtain ⟨x, found, ⟨foreign, -⟩ | ⟨-, rfl⟩⟩ := Store.enter_get_eq_some effect
        · cases (plain.own found).symm.trans foreign
        · simp [Frame.toil, Call.toil, panicCost]
      | fork c => cases effect
      | _ => exact outer.elim
    | guard => cases effect; simp [Frame.toil, panicCost]
    | sleeping deadline =>
      simp only [Store.resume, Store.proceed] at effect
      split at effect <;> cases effect
      simp [Frame.toil, panicCost]
    | read r timeout deadline =>
      obtain ⟨x, -, -, effect⟩ := Store.locking_eq_some effect
      cases effect
      simp [Frame.toil, panicCost]
    | wait r timeout deadline entry =>
      obtain ⟨x, -, -, effect⟩ := Store.locking_eq_some effect
      split at effect
      next => cases effect; simp [Frame.toil, panicCost]
      next => split at effect <;> cases effect; simp [Frame.toil, panicCost]
      next => cases effect
    | client code =>
      have paid := frugal code a store
      simp only [Store.resume, Store.proceed] at effect
      split at effect
      next c next action =>
        cases effect
        rw [action] at paid
        simpa [Frame.toil, panicCost, Action.toil] using paid
      next c next action =>
        cases effect
        rw [action] at paid
        simpa [Frame.toil, panicCost, Action.toil, Nat.add_assoc] using paid
      next answer action =>
        cases effect
        rw [action] at paid
        simpa [Frame.toil, panicCost, Action.toil] using paid
      next p action =>
        cases effect
        rw [action] at paid
        simpa [Frame.toil, panicCost, Action.toil] using paid
    | _ => exact outer.elim

/-- With every step less is left to be done. -/
theorem System.Layered.pays (layered : s.Layered) (frugal : client.Frugal price)
    (found : s.moment? t = some μ) (yields : μ.Yields client e calls)
    (rule : ∀ c, μ.call? client = some c → c.Layered μ.store) :
    (s.after t μ.below e calls).toil price < s.toil price := by
  have selected := (moment?_eq_some found).2.2
  have moved := sum_set (Thread.toil price) ⟨e.result, e.frames ++ μ.below⟩ selected
  simp only [Thread.toil, load_cons, load_append] at moved
  simp only [System.toil, System.after, List.map_append, List.sum_append, List.map_map]
  rcases layered.cases found yields rule with
    ⟨rfl, effect, here | ⟨outer, goes⟩⟩ | ⟨a, b, code, answered, frame, rfl, rfl⟩
  · have pays := layered.store.pays here effect
    have stored := (Store.resume_touches effect).sum Result.cost
    have cost : μ.frame.toil price = μ.frame.cost := here.toil
    have left : load (Frame.toil price) e.frames = load Frame.cost e.frames :=
      load_plain (layered.store.frames here effect)
    rw [cost, left] at moved
    simp only [List.map_nil, List.sum_nil]
    omega
  · have pays := outer.pays frugal layered.store effect
    rw [goes.results]
    simp only [List.map_nil, List.sum_nil]
    omega
  · -- the new thread takes over what was left to be done for the fork
    have cost : μ.frame.toil price = 1 + Call.toil price (.run code : Call V κ) := by
      rw [frame]
      rfl
    have begun : Thread.toil price (.ofCall (.run code) : Thread V κ) =
        Call.toil price (.run code : Call V κ) := by
      simp [Thread.toil, Thread.ofCall, Frame.toil, panicCost]
    rw [cost, answered] at moved
    simp only [load_nil, panicCost, Nat.zero_add] at moved
    simp only [List.map_cons, List.map_nil, List.sum_cons, List.sum_nil, Function.comp_apply, begun]
    omega

end

end Quorate
