import Mathlib.Data.List.Count
import Quorate.Proofs.System.Schedule

/-! Running a system with enough fuel. A run follows one of the schedules; every step of a run, and
every time that it lets time pass, uses up fuel. If the steps are bounded and the first thread can
always move, the run ends with its answer. -/

set_option autoImplicit false

namespace Quorate

variable {V κ σ : Type} {client : Client V κ σ}

namespace Store

variable {s : Store V κ σ} {now : Nat}

theorem completing_isSome (r : ResultId) (x : Result V κ) (state : State V) (reply : Answer V) :
    (completing { s with now } r x state reply).isSome = (s.completing r x state reply).isSome := by
  unfold completing
  split <;> rfl

theorem enter_isSome (c : Call V κ) :
    (enter { s with now } client c).isSome = (s.enter client c).isSome := by
  cases c with
  | complete | cancel =>
    simp only [enter, locking]
    repeat' split
    all_goals first | rfl | exact completing_isSome ..
  | _ =>
    simp only [enter, locking]
    repeat' split
    all_goals rfl

theorem commit_isSome (merge : ResultId) (index : Nat) (o : Outcome V) :
    (commit { s with now } merge index o).isSome = (s.commit merge index o).isSome := by
  simp only [commit, locking]
  repeat' split
  all_goals first | rfl | exact completing_isSome ..

theorem unwind_isSome (p : Panic) (frame : Frame V κ) :
    (unwind { s with now } p frame).isSome = (s.unwind p frame).isSome := by
  cases frame with
  | merging merge =>
    simp only [unwind]
    split <;> rfl
  | _ => rfl

/-- All that a frame may gain from the time that passes is that its deadline comes. -/
theorem proceed_isSome {a : Answer V} {frame : Frame V κ} {below : List (Frame V κ)}
    (past : s.now ≤ now)
    (up : ∀ deadline, Thread.deadline? ⟨.ok a, frame :: below⟩ = some deadline → deadline ≤ s.now) :
    (proceed { s with now } client a frame).isSome = (s.proceed client a frame).isSome := by
  cases frame with
  | call c => exact enter_isSome c
  | start callback => cases callback <;> rfl
  | commit merge index => cases a <;> first | rfl | exact commit_isSome ..
  | deliver r tasks first reply =>
    cases tasks with
    | nil =>
      simp only [proceed]
      repeat' split
      all_goals rfl
    | cons task tasks => rfl
  | wait r timeout deadline entry =>
    have come (d : Nat) (limit : deadline = some d) : d ≤ now ∧ d ≤ s.now :=
      ⟨Nat.le_trans (up d limit) past, up d limit⟩
    simp only [proceed, locking]
    repeat' split
    all_goals first | rfl | exact absurd (come _ rfl).1 ‹_› | exact absurd (come _ rfl).2 ‹_›
  | polling r deadline =>
    have up := up deadline rfl
    simp only [proceed, if_pos up, if_pos (Nat.le_trans up past)]
    repeat' split
    all_goals rfl
  | sleeping deadline =>
    have up := up deadline rfl
    simp only [proceed, if_pos up, if_pos (Nat.le_trans up past)]
    rfl
  | merging merge =>
    simp only [proceed]
    split
    next => exact completing_isSome ..
    next => rfl
  | _ =>
    simp only [proceed, query, locking]
    repeat' split
    all_goals rfl

theorem resume_isSome {result : Return V} {frame : Frame V κ} {below : List (Frame V κ)}
    (past : s.now ≤ now)
    (up : ∀ deadline, Thread.deadline? ⟨result, frame :: below⟩ = some deadline →
      deadline ≤ s.now) :
    (resume { s with now } client result frame).isSome =
      (s.resume client result frame).isSome := by
  cases result with
  | ok a => exact proceed_isSome past up
  | error p => exact unwind_isSome p frame

end Store

/-- Whether a thread waits for an instant to come. -/
def Thread.waits (now : Nat) (thread : Thread V κ) : Bool := thread.deadline?.any (now < ·)

theorem Thread.waits_iff {now : Nat} {thread : Thread V κ} :
    thread.waits now = true ↔ ∃ deadline, thread.deadline? = some deadline ∧ now < deadline := by
  simp [waits, Option.any_eq_true]

namespace System

variable {s s' : System V κ σ} {t now bound : Nat} {μ : Moment V κ σ}

/-- A thread whose deadline has come, if it has one, need not wait for the clock. -/
theorem step_isSome (past : s.store.now ≤ now)
    (up : ∀ thread deadline, s.threads[t]? = some thread → thread.deadline? = some deadline →
      deadline ≤ s.store.now) :
    ((s.pass now).step client t).isSome = (s.step client t).isSome := by
  cases here : s.threads[t]? with
  | none => simp only [step, pass, here]
  | some thread =>
    obtain ⟨result, frames⟩ := thread
    cases frames with
    | nil => simp only [step, pass, here]
    | cons frame below =>
      have effect : (Store.resume { s.store with now } client result frame).isSome =
          (s.store.resume client result frame).isSome :=
        Store.resume_isSome past (up _ · here)
      cases result with
      | error p => simpa [step, pass, here] using effect
      | ok a =>
        cases frame with
        | call c =>
          cases c with
          | fork c => simp [step, pass, here]
          | _ => simpa [step, pass, here] using effect
        | joining other deadline =>
          have up := up _ deadline here rfl
          have up' := Nat.le_trans up past
          simp only [step, pass, here, up, up', if_true]
          repeat' split
          all_goals rfl
        | _ => simpa [step, pass, here] using effect

/-- A thread that moves can step at once, or its deadline is still to come. -/
theorem Moves.ready (moves : s.Moves client t) : (∃ s', s.step client t = some s') ∨
    ∃ thread deadline, s.threads[t]? = some thread ∧ thread.deadline? = some deadline ∧
      s.store.now < deadline := by
  obtain ⟨now, s', past, step⟩ := moves
  by_cases up : ∀ thread deadline, s.threads[t]? = some thread →
      thread.deadline? = some deadline → deadline ≤ s.store.now
  · left
    rw [← Option.isSome_iff_exists, ← step_isSome past up, step]
    rfl
  · right
    push Not at up
    simpa using up

theorem step_of_next? (next : s.next? client = some s') : ∃ t, s.step client t = some s' := by
  obtain ⟨t, -, step⟩ := List.exists_of_findSome?_eq_some next
  exact ⟨t, step⟩

theorem step_eq_none (next : s.next? client = none) (t : Nat) : s.step client t = none := by
  rcases Nat.lt_or_ge t s.threads.length with inside | beyond
  · exact List.findSome?_eq_none_iff.mp next t (by simpa using inside)
  · simp only [step, List.getElem?_eq_none_iff.mpr beyond]

/-- How many threads wait for an instant to come. -/
def waiting (s : System V κ σ) : Nat := s.threads.countP (Thread.waits s.store.now)

theorem waiting_after (found : s.moment? t = some μ) {e : Effect V κ σ} {calls : List (Call V κ)}
    (yields : μ.Yields client e calls) : (s.after t μ.below e calls).waiting ≤ s.waiting + 1 := by
  obtain ⟨store, -, selected⟩ := moment?_eq_some found
  have now : e.store.now = s.store.now := by rw [yields.now, store]
  have begun : (calls.map Thread.ofCall).countP (Thread.waits (V := V) s.store.now) = 0 := by
    simp only [List.countP_eq_zero, List.mem_map]
    rintro _ ⟨c, -, rfl⟩
    simp [Thread.waits, Thread.ofCall, Thread.deadline?]
  have inside := (List.getElem?_eq_some_iff.mp selected).1
  simp only [waiting, after, now, List.countP_append, begun, List.countP_set inside]
  split <;> split <;> omega

/-- Time passes until a thread need not wait any more. -/
theorem advance?_eq_some (advance : s.advance? = some s') :
    ∃ now, s.store.now ≤ now ∧ s' = s.pass now ∧ s'.waiting < s.waiting := by
  obtain ⟨now, first, rfl⟩ := Option.map_eq_some_iff.mp advance
  obtain ⟨member, ahead⟩ := List.mem_filter.mp (List.min?_mem first)
  obtain ⟨thread, included, deadline⟩ := List.mem_filterMap.mp member
  have ahead : s.store.now < now := by simpa using ahead
  refine ⟨now, Nat.le_of_lt ahead, rfl, ?_⟩
  have weaker (thread : Thread V κ) (waits : thread.waits now = true) :
      thread.waits s.store.now = true := by
    obtain ⟨deadline, same, later⟩ := Thread.waits_iff.mp waits
    exact Thread.waits_iff.mpr ⟨deadline, same, Nat.lt_trans ahead later⟩
  calc s.threads.countP (Thread.waits now)
      = (s.threads.filter (Thread.waits s.store.now)).countP (Thread.waits now) := by
        rw [List.countP_filter]
        refine List.countP_congr fun thread _ => ?_
        simp only [Bool.and_eq_true]
        exact ⟨fun waits => ⟨waits, weaker thread waits⟩, And.left⟩
    _ < (s.threads.filter (Thread.waits s.store.now)).length := by
        refine List.countP_lt_length_iff.mpr ⟨thread, List.mem_filter.mpr ⟨included, ?_⟩, ?_⟩
        · exact Thread.waits_iff.mpr ⟨now, deadline, ahead⟩
        · simp [Thread.waits, deadline]
    _ = s.waiting := List.countP_eq_length_filter.symm

theorem advance?_ne_none {thread : Thread V κ} {deadline : Nat}
    (here : s.threads[t]? = some thread) (limit : thread.deadline? = some deadline)
    (ahead : s.store.now < deadline) : s.advance? ≠ none := by
  intro none
  have nobody := List.min?_eq_none_iff.mp (Option.map_eq_none_iff.mp none)
  have member := List.mem_filterMap.mpr ⟨thread, List.mem_of_getElem? here, limit⟩
  exact List.filter_eq_nil_iff.mp nobody deadline member (by simpa using ahead)

/-- A run follows a schedule until its fuel is used up, or until nothing moves that matters. -/
theorem run_schedule (client : Client V κ σ) (fuel : Nat) (s : System V κ σ) :
    ∃ h, Schedule client Call.Never s h (s.run client fuel) ∧
      (fuel ≤ 2 * h.length + s.waiting ∨ (s.run client fuel).next? client = none ∧
        (((s.run client fuel).threads.head?.map Thread.isFinished).getD true = true ∨
          (s.run client fuel).advance? = none)) := by
  induction fuel generalizing s with
  | zero => exact ⟨[], .start, .inl (Nat.zero_le _)⟩
  | succ fuel ih =>
    unfold run
    split
    next s₁ next =>
      obtain ⟨t, step⟩ := step_of_next? next
      obtain ⟨μ, e, calls, found, yields, rfl⟩ := step_yields step
      obtain ⟨h, schedule, left⟩ := ih (s.after t μ.below e calls)
      have first : Schedule client Call.Never s ([] ++ [μ]) _ := .step .start found step
      have more := waiting_after found yields
      refine ⟨_, first.trans schedule, left.imp_left fun left => ?_⟩
      simp only [List.nil_append, List.length_append, List.length_singleton]
      omega
    next next =>
      split
      next ended => exact ⟨[], .start, .inr ⟨next, .inl ended⟩⟩
      next =>
        split
        next s₁ advance =>
          obtain ⟨now, past, rfl, fewer⟩ := advance?_eq_some advance
          obtain ⟨h, schedule, left⟩ := ih (s.pass now)
          have first : Schedule client Call.Never s [] (s.pass now) := .pass now .start past
          exact ⟨_, first.trans schedule, left.imp_left fun left => by simpa using by omega⟩
        next advance => exact ⟨[], .start, .inr ⟨next, .inr advance⟩⟩

/-- With fuel for all its steps, a system whose first thread can always move runs until that has
ended. -/
theorem run_ends (bounded : ∀ h s', Schedule client Call.Never s h s' → h.length ≤ bound)
    (moves : ∀ h s', Schedule client Call.Never s h s' → s'.answer? 0 = none → s'.Moves client 0)
    {fuel : Nat} (enough : 2 * bound + s.waiting < fuel) :
    ∃ h answer, Schedule client Call.Never s h (s.run client fuel) ∧
      (s.run client fuel).answer? 0 = some answer := by
  obtain ⟨h, schedule, left⟩ := s.run_schedule client fuel
  cases ended : (s.run client fuel).answer? 0 with
  | some answer => exact ⟨h, answer, schedule, rfl⟩
  | none =>
    have short := bounded h _ schedule
    rcases left with left | ⟨next, stopped⟩
    · omega
    · rcases (moves h _ schedule ended).ready with
        ⟨s', step⟩ | ⟨thread, deadline, here, limit, ahead⟩
      · cases (step_eq_none next 0).symm.trans step
      · have busy : thread.frames ≠ [] := by
          intro nothing
          obtain ⟨result, frames⟩ := thread
          cases nothing
          cases limit
        rcases stopped with finished | none
        · rw [List.head?_eq_getElem?, here] at finished
          exact absurd (List.isEmpty_iff.mp finished) busy
        · exact absurd none (advance?_ne_none here limit ahead)

theorem result?_eq (s : System V κ σ) : s.result? = s.answer? 0 := by
  obtain ⟨store, threads⟩ := s
  cases threads with
  | nil => rfl
  | cons thread threads =>
    obtain ⟨result, frames⟩ := thread
    cases frames <;> rfl

end System

end Quorate
