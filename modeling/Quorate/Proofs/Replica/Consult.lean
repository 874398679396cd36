import Quorate.Proofs.Replica.Outcome

/-! What becomes of the threads of a reading. Each goes on until it has ended, unless it waits for a
merge that is kept pending; one that asked for the outcome of the merge gets it, or gives up when
its time is over. -/

set_option autoImplicit false

namespace Quorate.Replica

variable {V : Type} {merge : List (Option V) → Outcome (Option V)} {members : List (Member V)}
  {cancels : Nat → Prop} {asked : ResultId → Prop} {started t : Nat} {s s' : Reading V}
  {h h' : List (Moment (Option V) (Work V) Unit)} {μ : Moment (Option V) (Work V) Unit}
  {e : Effect (Option V) (Work V) Unit} {calls : List (Call (Option V) (Work V))}
  {answer : Return (Option V)} {thread : Thread (Option V) (Work V)}

/-- What a piece of work and all that comes of it cost at most. -/
def Work.price : Work V → Nat
  | .delay _ _ => 8
  | .reply _ _ => 5
  | .gather _ members sources => 14 + 15 * sources.length + 28 * members.length
  | .start _ _ members sources => 40 + 15 * sources.length + 28 * members.length
  | .merged _ => 7
  | .judge _ => 6
  | .abandon | .finish => 1

theorem frugal : (client : Client (Option V) (Work V) Unit).Frugal Work.price := by
  intro work a store
  cases work with
  | delay result member => simp [client, Work.resume, Action.toil, Call.toil, Work.price]
  | reply result member =>
    simp only [client, Work.resume]
    cases member.replica.state? member.origin <;>
      simp [Action.toil, Call.toil, Frame.cost, Work.price]
  | gather plan members sources =>
    cases members with
    | nil => simp [client, Work.resume, Action.toil, Call.toil, Frame.cost, Work.price]; omega
    | cons member members =>
      simp [client, Work.resume, Action.toil, Call.toil, Frame.cost, Work.price]; omega
  | start plan member members sources =>
    cases a <;> simp [client, Work.resume, Action.toil, Call.toil, Work.price]
    all_goals omega
  | merged plan =>
    obtain ⟨merge, purpose⟩ := plan
    cases a <;> cases purpose <;>
      simp [client, Work.resume, Action.toil, Call.toil, Frame.cost, Work.price]
  | judge merge =>
    cases a <;> simp [client, Work.resume, Action.toil, Call.toil, Frame.cost, Work.price]
  | abandon | finish => simp [client, Work.resume, Action.toil, Work.price]

/-- Left to itself, a reading takes a bounded number of steps. -/
theorem Unfolds.steps_le (unfolds : Unfolds merge members cancels h s)
    (schedule : Schedule client Call.Never s h' s') :
    h'.length + s'.toil Work.price ≤ s.toil Work.price := by
  induction schedule with
  | start => simp
  | @step h₁ s₁ s₂ t μ schedule found step ih =>
    obtain ⟨μ', e, calls, moment, yields, rfl⟩ := System.step_yields step
    cases found.symm.trans moment
    have before := unfolds.schedule (schedule.mono fun _ _ => False.elim)
    obtain ⟨started, stage⟩ := before.stage
    have behaves := (stage.behaves found (fun _ => True) fun _ _ => trivial).1
    have pays := before.layered.pays frugal found yields fun c made => (behaves.rule c made).1
    rw [List.length_append, List.length_singleton]
    omega
  | begin c _ obeyed => exact obeyed.elim
  | pass now _ _ ih => exact ih

theorem Unfolds.bounded (unfolds : Unfolds merge members cancels h s) : s.Bounded client :=
  ⟨s.toil Work.price, fun _ _ schedule =>
    Nat.le_trans (Nat.le_add_right _ _) (unfolds.steps_le schedule)⟩

theorem Stage.unasking (stage : Stage merge members cancels asked started s)
    (found : s.moment? t = some μ) (inside : t ≤ started) : μ.frame.Unasking := by
  rcases stage.cases found with
    ⟨-, -, reads⟩ | ⟨i, member, -, -, -, -, -, modest⟩ | ⟨outside, -⟩
  · exact (reads.behaves asked).2
  · exact modest.1
  · omega

/-- The reader and the replicas go on until they have ended. -/
theorem Unfolds.moves (unfolds : Unfolds merge members cancels h s) (there : t < s.threads.length)
    (inside : t ≤ members.length) (busy : s.answer? t = none) : s.Moves client t := by
  obtain ⟨μ, found⟩ := System.moment?_of_busy there busy
  obtain ⟨asked, started, stage, inside⟩ : ∃ asked started,
      Stage merge members cancels asked started s ∧ t ≤ started := by
    cases finished : s.answer? 0 with
    | some answer => exact ⟨_, _, unfolds.full finished, inside⟩
    | none =>
      -- while the reader is at work, nothing has been begun from outside
      obtain ⟨started, stage⟩ := unfolds.stage
      obtain ⟨⟨result, frames⟩, here, -, alone⟩ := stage.reader
      have count := alone fun none => by
        have none : frames = [] := none
        rw [none] at here
        cases finished.symm.trans (System.answer?_eq_some_iff.mpr here)
      exact ⟨_, started, stage, by omega⟩
  refine unfolds.layered.moves found fun r timeout entry frame => ?_
  exact absurd frame ((stage.unasking found inside).2 _ _ _ _)

/-- An instant that can be told could have been told before. -/
theorem deadline_ne_none {s₁ s₂ : Records V} {timeout : Option Duration}
    (told : s₂.deadline timeout ≠ none) (past : s₁.now ≤ s₂.now) : s₁.deadline timeout ≠ none := by
  cases timeout with
  | none => exact absurd rfl told
  | some d =>
    simp only [Store.deadline, Option.bind_some, ne_eq, ite_eq_right_iff, reduceCtorEq, imp_false,
      Nat.not_lt, Nat.not_le] at told ⊢
    omega

/-- How thread `t` stands that reads the merge `m` while the merge is in one state, and what has
happened since the thread began. -/
inductive Glances (m : ResultId) (timeout : Option Duration) (state : State (Option V)) (t : Nat) :
    List (Moment (Option V) (Work V) Unit) → Thread (Option V) (Work V) → Prop where
  | calls {h : List (Moment (Option V) (Work V) Unit)} :
      Glances m timeout state t h ⟨.ok .unit, [.call (.get m timeout)]⟩
  | reads {h : List (Moment (Option V) (Work V) Unit)} {μ : Moment (Option V) (Work V) Unit} :
      μ ∈ h → μ.thread = t → Glances m timeout state t h
        ⟨.ok .unit, [.read m timeout (μ.store.deadline timeout)]⟩
  | waits {h : List (Moment (Option V) (Work V) Unit)} {μ : Moment (Option V) (Work V) Unit} :
      μ ∈ h → μ.thread = t → Glances m timeout state t h
        ⟨.ok .unit, [.wait m timeout (μ.store.deadline timeout) !state.isPending]⟩
  | ended {h : List (Moment (Option V) (Work V) Unit)} {o : Outcome (Option V)} :
      state.outcome? = some o ∨
        state = .pending ∧ (∃ d, timeout = some d ∧ o = .error (.timeout d)) →
      Glances m timeout state t h ⟨.ok (.outcome o), []⟩

section

variable {m : ResultId} {timeout : Option Duration} {state : State (Option V)}

theorem Glances.after (glances : Glances m timeout state t h thread)
    (part : h ⊆ h') : Glances m timeout state t h' thread := by
  cases glances with
  | calls => exact .calls
  | reads member stepped => exact .reads (part member) stepped
  | waits member stepped => exact .waits (part member) stepped
  | ended outcome => exact .ended outcome

theorem Glances.step (glances : Glances m timeout state t h ⟨μ.result, μ.frame :: μ.below⟩)
    (stepped : μ.thread = t) (here : μ.store.state? m = some state)
    (own : ∀ x, μ.store.results[m]? = some x → x.isForeign = false)
    (yields : μ.Yields client e calls) :
    Glances m timeout state t (h ++ [μ]) ⟨e.result, e.frames ++ μ.below⟩ := by
  obtain ⟨x, there, same⟩ := Option.map_eq_some_iff.mp here
  obtain ⟨s, t', result, frame, below⟩ := μ
  dsimp only at *
  generalize equal : Thread.mk result (frame :: below) = thread at glances
  cases glances with
  | calls =>
    cases equal
    obtain ⟨-, effect⟩ := yields.effect (by simp) (by simp)
    obtain ⟨x', there', ⟨foreign, -⟩ | ⟨-, rfl⟩⟩ := Store.enter_get_eq_some effect
    · cases (own x' there').symm.trans foreign
    · exact .reads (μ := ⟨s, t', _, _, _⟩) (by simp) stepped
  | reads member stepped' =>
    cases equal
    obtain ⟨-, effect⟩ := yields.effect (by simp) (by simp)
    obtain ⟨x', there', -, effect⟩ := Store.locking_eq_some effect
    cases there.symm.trans there'
    rw [same] at effect
    cases effect
    exact .waits (List.mem_append_left _ member) stepped'
  | waits member stepped' =>
    cases equal
    obtain ⟨-, resumed⟩ := yields.effect (by simp) (by simp)
    obtain ⟨x', there', -, effect⟩ := Store.locking_eq_some resumed
    cases there.symm.trans there'
    clear resumed
    split at effect
    next o released =>
      cases effect
      unfold Cell.release? at released
      split at released
      next => exact .ended (.inl (same ▸ released))
      next => cases released
    next d deadline released _ =>
      split at effect <;> cases effect
      rw [same]
      refine .ended (.inr ?_)
      cases state with
      | pending => exact ⟨rfl, d, rfl, rfl⟩
      | _ => simp [Cell.release?, State.isPending, same, State.outcome?] at released
    next => cases effect
  | ended => cases equal

/-- A thread that reads the merge ends with its outcome, or with a timeout if the merge is pending.
It goes on unless the merge is pending and there is no end to its patience. -/
theorem Unfolds.glances (unfolds : Unfolds merge members cancels h s)
    (finished : s.answer? 0 = some answer)
    (schedule : Schedule client Consults (s.begin (.get members.length timeout)) h' s')
    (still : ∀ h₁ s₁, Schedule client Consults (s.begin (.get members.length timeout)) h₁ s₁ →
      s₁.store.state? members.length = some state) :
    (∀ answer, s'.answer? s.threads.length = some answer → ∃ o, answer = .ok (.outcome o) ∧
      (state.outcome? = some o ∨
        state = .pending ∧ ∃ d, timeout = some d ∧ o = .error (.timeout d))) ∧
    (state ≠ .pending ∨ (∀ μ ∈ h', μ.thread = s.threads.length →
        μ.store.deadline timeout ≠ none) → s'.answer? s.threads.length = none →
      s'.Moves client s.threads.length) := by
  have begun := unfolds.consult finished timeout
  obtain ⟨thread, here, glances⟩ := schedule.thread
    (P := fun h _ thread => Glances members.length timeout state s.threads.length h thread)
    (System.begin_self s _) .calls
    (fun {h₁ s₁ μ e calls} before found yields glances => by
      have store := (System.moment?_eq_some found).1
      refine glances.step (System.moment?_eq_some found).2.1 (store ▸ still _ _ before) ?_ yields
      rw [store]
      exact fun x => (begun.schedule before).layered.store.own)
    (fun _ _ glances => glances.after (by simp)) (fun _ glances => glances)
  refine ⟨fun answer ended => ?_, fun limited busy => ?_⟩
  · cases here.symm.trans (System.answer?_eq_some_iff.mp ended)
    generalize same : Thread.mk answer [] = thread at glances
    cases glances with
    | ended outcome => cases same; exact ⟨_, rfl, outcome⟩
    | _ => cases same
  · obtain ⟨μ, found⟩ := System.moment?_of_busy (List.getElem?_eq_some_iff.mp here).1 busy
    refine (begun.schedule schedule).layered.moves found fun r timeout' entry frame => ?_
    have selected := (System.moment?_eq_some found).2.2
    rw [frame] at selected
    cases here.symm.trans selected
    generalize same : Thread.mk μ.result _ = thread at glances
    generalize μ.result = result at same
    cases glances with
    | calls => cases same
    | reads => cases same
    | waits member stepped =>
      simp only [Thread.mk.injEq, List.cons.injEq, Frame.wait.injEq] at same
      obtain ⟨-, ⟨rfl, rfl, never, rfl⟩, -⟩ := same
      rcases limited with ended | limited
      · obtain ⟨x, there, state⟩ := Option.map_eq_some_iff.mp (still _ _ schedule)
        rw [← state] at ended ⊢
        cases cell : x.cell.state with
        | pending => exact absurd cell ended
        | _ => exact ⟨rfl, x, there, by rw [cell]; rfl⟩
      · exact absurd never.symm (limited _ member stepped)
    | ended => cases same

end

end Quorate.Replica
