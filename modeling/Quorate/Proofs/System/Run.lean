import Quorate.Result.System

/-! Runs of a system of threads. In a run any thread may take the next step, time may pass, and
further calls may begin on threads of their own. The history of a run holds the moment of every
step, so that what happened can be read off it. -/

set_option autoImplicit false

namespace Quorate

variable {V κ σ : Type}

/-- A step that is about to be taken: a topmost frame, what it goes on with, and the store. -/
structure Moment (V κ σ : Type) where
  store : Store V κ σ
  thread : Nat
  result : Return V
  frame : Frame V κ
  below : List (Frame V κ)

/-- What is read off a history grows with its last step. -/
theorem filterMap_concat {α β : Type} (f : α → Option β) (xs : List α) (x : α) :
    (xs ++ [x]).filterMap f = xs.filterMap f ++ (f x).toList := by
  cases read : f x <;> simp [read]

namespace Moment

/-- The call that client code makes in this step. -/
def call? (client : Client V κ σ) (μ : Moment V κ σ) : Option (Call V κ) :=
  match μ.result, μ.frame with
  | .ok a, .client code =>
    match (client.resume code a μ.store).2 with
    | .call c _ | .attempt c _ => some c
    | _ => none
  | _, _ => none

/-- What a step yields: an effect on its own thread, and the calls that begin on new threads. -/
inductive Yields (client : Client V κ σ) (μ : Moment V κ σ) :
    Effect V κ σ → List (Call V κ) → Prop where
  | resumed {e : Effect V κ σ} : μ.store.resume client μ.result μ.frame = some e →
      Yields client μ e []
  | forked {a : Answer V} {c : Call V κ} (t : Nat) : μ.result = .ok a →
      μ.frame = .call (.fork c) → Yields client μ ⟨μ.store, .ok (.thread t), []⟩ [c]
  | joined {a : Answer V} {other deadline : Nat} (b : Answer V) : μ.result = .ok a →
      μ.frame = .joining other deadline → Yields client μ ⟨μ.store, .ok b, []⟩ []

/-- A frame that neither forks nor joins takes its step by itself. -/
theorem Yields.effect {client : Client V κ σ} {μ : Moment V κ σ} {e : Effect V κ σ}
    {calls : List (Call V κ)} (yields : μ.Yields client e calls)
    (forks : ∀ c, μ.frame ≠ .call (.fork c)) (joins : ∀ t d, μ.frame ≠ .joining t d) :
    calls = [] ∧ μ.store.resume client μ.result μ.frame = some e := by
  cases yields with
  | resumed effect => exact ⟨rfl, effect⟩
  | forked t answered frame => exact absurd frame (forks _)
  | joined b answered frame => exact absurd frame (joins _ _)

end Moment

namespace System

/-- The step that thread `t` is about to take. -/
def moment? (s : System V κ σ) (t : Nat) : Option (Moment V κ σ) :=
  match s.threads[t]? with
  | some ⟨result, frame :: below⟩ => some ⟨s.store, t, result, frame, below⟩
  | _ => none

theorem moment?_eq_some {s : System V κ σ} {t : Nat} {μ : Moment V κ σ}
    (found : s.moment? t = some μ) :
    μ.store = s.store ∧ μ.thread = t ∧ s.threads[t]? = some ⟨μ.result, μ.frame :: μ.below⟩ := by
  unfold moment? at found
  split at found
  next selected => cases found; exact ⟨rfl, rfl, selected⟩
  next => cases found

theorem moment?_there {s : System V κ σ} {t : Nat} {result : Return V} {frame : Frame V κ}
    {below : List (Frame V κ)} (here : s.threads[t]? = some ⟨result, frame :: below⟩) :
    s.moment? t = some ⟨s.store, t, result, frame, below⟩ := by
  simp only [moment?, here]

/-- The system after thread `t` has yielded an effect and new calls above the frames `below`. -/
def after (s : System V κ σ) (t : Nat) (below : List (Frame V κ)) (e : Effect V κ σ)
    (calls : List (Call V κ)) : System V κ σ :=
  ⟨e.store, s.threads.set t ⟨e.result, e.frames ++ below⟩ ++ calls.map .ofCall⟩

theorem after_self {s : System V κ σ} {t : Nat} {μ : Moment V κ σ} (found : s.moment? t = some μ)
    (e : Effect V κ σ) (calls : List (Call V κ)) :
    (s.after t μ.below e calls).threads[t]? = some ⟨e.result, e.frames ++ μ.below⟩ := by
  have bound := (List.getElem?_eq_some_iff.mp (moment?_eq_some found).2.2).1
  rw [after, List.getElem?_append_left (by simpa using bound), List.getElem?_set_self bound]

theorem after_there {s : System V κ σ} {t : Nat} {result : Return V} {frame : Frame V κ}
    {below : List (Frame V κ)} (here : s.threads[t]? = some ⟨result, frame :: below⟩)
    (e : Effect V κ σ) (calls : List (Call V κ)) :
    (s.after t below e calls).threads[t]? = some ⟨e.result, e.frames ++ below⟩ :=
  after_self (moment?_there here) e calls

/-- A step leaves the other threads where they are. -/
theorem after_other {s : System V κ σ} {t t' : Nat} {thread : Thread V κ}
    (there : s.threads[t']? = some thread) (other : t ≠ t') (below : List (Frame V κ))
    (e : Effect V κ σ) (calls : List (Call V κ)) :
    (s.after t below e calls).threads[t']? = some thread := by
  have bound := (List.getElem?_eq_some_iff.mp there).1
  rw [after, List.getElem?_append_left (by simpa using bound), List.getElem?_set_ne other, there]

/-- The threads after a step: the one that stepped, the others, and the new ones. -/
theorem threads_after {P : Thread V κ → Prop} {s : System V κ σ} {t : Nat}
    {below : List (Frame V κ)} {e : Effect V κ σ} {calls : List (Call V κ)}
    (here : P ⟨e.result, e.frames ++ below⟩) (others : ∀ thread ∈ s.threads, P thread)
    (begun : ∀ c ∈ calls, P (.ofCall c)) :
    ∀ thread ∈ (s.after t below e calls).threads, P thread := by
  intro thread member
  simp only [after, List.mem_append, List.mem_map] at member
  rcases member with member | ⟨c, member, rfl⟩
  · rcases List.mem_or_eq_of_mem_set member with member | rfl
    · exact others thread member
    · exact here
  · exact begun c member

theorem step_yields {client : Client V κ σ} {s s' : System V κ σ} {t : Nat}
    (step : s.step client t = some s') :
    ∃ μ e calls, s.moment? t = some μ ∧ μ.Yields client e calls ∧
      s' = s.after t μ.below e calls := by
  unfold System.step at step
  split at step
  next => cases step
  next => cases step
  next a c frames selected =>
    refine ⟨⟨s.store, t, .ok a, .call (.fork c), frames⟩, _, _, by simp [moment?, selected],
      .forked s.threads.length rfl rfl, ?_⟩
    cases step
    rfl
  next a other deadline frames selected =>
    have resumed (b : Answer V) : some (System.mk s.store (s.threads.set t ⟨.ok b, frames⟩)) =
        some s' → ∃ μ e calls, s.moment? t = some μ ∧ μ.Yields client e calls ∧
          s' = s.after t μ.below e calls := by
      intro same
      refine ⟨⟨s.store, t, .ok a, .joining other deadline, frames⟩, _, _,
        by simp [moment?, selected], .joined b rfl rfl, ?_⟩
      cases same
      simp [after]
    simp only at step
    split at step
    · exact resumed _ step
    · exact resumed _ step
    · split at step
      · exact resumed _ step
      · cases step
  next result frame frames _ _ selected =>
    obtain ⟨e, effect, rfl⟩ := Option.map_eq_some_iff.mp step
    exact ⟨⟨s.store, t, result, frame, frames⟩, e, [], by simp [moment?, selected],
      .resumed effect, by simp [after]⟩

/-- A frame that has an effect takes a step; it neither forks nor joins. -/
theorem step_of_resume {client : Client V κ σ} {s : System V κ σ} {t : Nat} {result : Return V}
    {frame : Frame V κ} {below : List (Frame V κ)} {e : Effect V κ σ}
    (here : s.threads[t]? = some ⟨result, frame :: below⟩)
    (effect : s.store.resume client result frame = some e) :
    s.step client t = some (s.after t below e []) := by
  unfold System.step
  split
  next none => cases here.symm.trans none
  next ended => cases here.symm.trans ended
  next forks => cases here.symm.trans forks; cases effect
  next joins => cases here.symm.trans joins; cases effect
  next same =>
    cases here.symm.trans same
    simp [effect, after]

theorem step_of_fork {client : Client V κ σ} {s : System V κ σ} {t : Nat} {a : Answer V}
    {c : Call V κ} {below : List (Frame V κ)}
    (here : s.threads[t]? = some ⟨.ok a, .call (.fork c) :: below⟩) :
    s.step client t =
      some (s.after t below ⟨s.store, .ok (.thread s.threads.length), []⟩ [c]) := by
  simp only [step, here, after]
  rfl

/-- A frame that neither forks nor joins steps by its effect. -/
theorem step_resumes {client : Client V κ σ} {s s' : System V κ σ} {t : Nat} {result : Return V}
    {frame : Frame V κ} {below : List (Frame V κ)}
    (here : s.threads[t]? = some ⟨result, frame :: below⟩) (forks : ∀ c, frame ≠ .call (.fork c))
    (joins : ∀ t d, frame ≠ .joining t d) (step : s.step client t = some s') :
    ∃ e, s.store.resume client result frame = some e ∧ s' = s.after t below e [] := by
  obtain ⟨μ, e, calls, moment, yields, rfl⟩ := step_yields step
  cases (moment?_there here).symm.trans moment
  obtain ⟨rfl, effect⟩ := yields.effect forks joins
  exact ⟨e, effect, rfl⟩

/-- Let threads take steps in a given order, as far as they can: what happened, and the system
after it. -/
def drive (client : Client V κ σ) (s : System V κ σ) : List Nat → List (Moment V κ σ) × System V κ σ
  | [] => ([], s)
  | t :: ts =>
    match s.moment? t, s.step client t with
    | some μ, some s =>
      let (h, s) := drive client s ts
      (μ :: h, s)
    | _, _ => drive client s ts

/-- Begin a call on a new thread. -/
def begin (s : System V κ σ) (c : Call V κ) : System V κ σ :=
  { s with threads := s.threads ++ [.ofCall c] }

theorem begin_other {s : System V κ σ} {t : Nat} {thread : Thread V κ}
    (there : s.threads[t]? = some thread) (c : Call V κ) :
    (s.begin c).threads[t]? = some thread := by
  have bound := (List.getElem?_eq_some_iff.mp there).1
  rw [begin, List.getElem?_append_left bound, there]

theorem begin_self (s : System V κ σ) (c : Call V κ) :
    (s.begin c).threads[s.threads.length]? = some (.ofCall c) :=
  List.getElem?_concat_length

/-- The threads once a call has begun: those that were there, and a new one. -/
theorem threads_begin {P : Thread V κ → Prop} {s : System V κ σ} {c : Call V κ}
    (others : ∀ thread ∈ s.threads, P thread) (new : P (.ofCall c)) :
    ∀ thread ∈ (s.begin c).threads, P thread := by
  intro thread member
  rcases List.mem_append.mp member with member | member
  · exact others thread member
  · rw [List.mem_singleton.mp member]
    exact new

/-- Begin a call and let it take a number of steps. -/
def call (client : Client V κ σ) (s : System V κ σ) (c : Call V κ) (count : Nat) :
    List (Moment V κ σ) × System V κ σ :=
  (s.begin c).drive client (List.replicate count s.threads.length)

/-- Let time pass. -/
def pass (s : System V κ σ) (now : Nat) : System V κ σ := { s with store := { s.store with now } }

/-- Every thread has ended. -/
def Quiet (s : System V κ σ) : Prop := ∀ thread ∈ s.threads, thread.frames = []

theorem quiet_of_all {s : System V κ σ}
    (ended : (s.threads.all fun thread => thread.frames.isEmpty) = true) : s.Quiet :=
  fun thread member => List.isEmpty_iff.mp (List.all_eq_true.mp ended thread member)

end System

/-- A run from `s` in which every call that is made, from outside or by client code, obeys `rule`
in the store it is made on. -/
inductive Run (client : Client V κ σ) (rule : Store V κ σ → Call V κ → Prop) (s : System V κ σ) :
    List (Moment V κ σ) → System V κ σ → Prop where
  | start : Run client rule s [] s
  | step {h : List (Moment V κ σ)} {s₁ s₂ : System V κ σ} {t : Nat} {μ : Moment V κ σ} :
      Run client rule s h s₁ → s₁.moment? t = some μ → s₁.step client t = some s₂ →
      (∀ c, μ.call? client = some c → rule μ.store c) → Run client rule s (h ++ [μ]) s₂
  | begin {h : List (Moment V κ σ)} {s₁ : System V κ σ} (c : Call V κ) :
      Run client rule s h s₁ → rule s₁.store c → Run client rule s h (s₁.begin c)
  | pass {h : List (Moment V κ σ)} {s₁ : System V κ σ} (now : Nat) :
      Run client rule s h s₁ → s₁.store.now ≤ now → Run client rule s h (s₁.pass now)

/-- An element of a longer list is its last one, or stands in the list before. -/
theorem concat_eq_split {A : Type} {xs before later : List A} {x y : A}
    (split : xs ++ [x] = before ++ y :: later) :
    (xs = before ∧ x = y ∧ later = []) ∨
      ∃ later', later = later' ++ [x] ∧ xs = before ++ y :: later' := by
  rcases List.eq_nil_or_concat later with rfl | ⟨later, last, rfl⟩
  · obtain ⟨rfl, same⟩ := List.append_inj' split rfl
    exact .inl ⟨rfl, (List.cons.inj same).1, rfl⟩
  · rw [List.concat_eq_append, ← List.cons_append, ← List.append_assoc] at split
    obtain ⟨rfl, same⟩ := List.append_inj' split rfl
    cases same
    exact .inr ⟨later, List.concat_eq_append, rfl⟩

namespace Run

variable {client : Client V κ σ} {rule : Store V κ σ → Call V κ → Prop} {s s₁ s₂ : System V κ σ}
  {h h' : List (Moment V κ σ)}

theorem trans (first : Run client rule s h s₁) (next : Run client rule s₁ h' s₂) :
    Run client rule s (h ++ h') s₂ := by
  induction next with
  | start => simpa using first
  | step _ found step obeyed ih => simpa [List.append_assoc] using ih.step found step obeyed
  | begin c _ obeyed ih => exact ih.begin c obeyed
  | pass now _ past ih => exact ih.pass now past

/-- A run under a rule is a run under every weaker rule. -/
theorem mono {rule' : Store V κ σ → Call V κ → Prop} (weaker : ∀ s c, rule s c → rule' s c)
    (run : Run client rule s h s₁) : Run client rule' s h s₁ := by
  induction run with
  | start => exact .start
  | step _ found step obeyed ih => exact ih.step found step fun c made => weaker _ _ (obeyed c made)
  | begin c _ obeyed ih => exact ih.begin c (weaker _ _ obeyed)
  | pass now _ past ih => exact ih.pass now past

theorem drive (silent : ∀ μ c, Moment.call? client μ = some c → rule μ.store c)
    (s : System V κ σ) (ts : List Nat) :
    Run client rule s (s.drive client ts).1 (s.drive client ts).2 := by
  induction ts generalizing s with
  | nil => exact .start
  | cons t ts ih =>
    unfold System.drive
    split
    next μ s' found step =>
      have first : Run client rule s ([] ++ [μ]) s' := .step .start found step (silent μ)
      exact first.trans (ih s')
    next => exact ih s

/-- Begin a call and let it take some steps. -/
theorem call (silent : ∀ μ c, Moment.call? client μ = some c → rule μ.store c)
    (s : System V κ σ) {c : Call V κ} (obeyed : rule s.store c) (count : Nat) :
    Run client rule s (s.call client c count).1 (s.call client c count).2 :=
  (Run.begin c .start obeyed).trans (Run.drive silent _ _)

/-- A run up to one of its moments, and from there on. -/
theorem split {before later : List (Moment V κ σ)} {μ : Moment V κ σ}
    (run : Run client rule s (before ++ μ :: later) s₁) :
    ∃ s₂ t s₃, Run client rule s before s₂ ∧ s₂.moment? t = some μ ∧
      s₂.step client t = some s₃ ∧ Run client rule s₃ later s₁ := by
  generalize all : before ++ μ :: later = h at run
  induction run generalizing later with
  | start => exact absurd all (by simp)
  | @step h s₁ s₂ t μ' run found step obeyed ih =>
    rcases concat_eq_split all.symm with ⟨rfl, rfl, rfl⟩ | ⟨later, rfl, first⟩
    · exact ⟨_, _, _, run, found, step, .start⟩
    · obtain ⟨s', t', s'', run', found', step', rest⟩ := ih first.symm
      exact ⟨s', t', s'', run', found', step', rest.step found step obeyed⟩
  | begin c _ obeyed ih =>
    obtain ⟨s', t', s'', run', found', step', rest⟩ := ih all
    exact ⟨s', t', s'', run', found', step', rest.begin c obeyed⟩
  | pass now _ past ih =>
    obtain ⟨s', t', s'', run', found', step', rest⟩ := ih all
    exact ⟨s', t', s'', run', found', step', rest.pass now past⟩

/-- A thread that has come down to some frames stays there as long as it does nothing below. -/
theorem returned {t : Nat} {thread : Thread V κ} (run : Run client rule s h s₁)
    (there : s.threads[t]? = some thread)
    (inside : ∀ μ ∈ h, μ.thread = t → thread.frames.length ≤ μ.below.length) :
    s₁.threads[t]? = some thread := by
  induction run with
  | start => exact there
  | @step h s₁ s₂ t' μ _ found step _ ih =>
    have still := ih fun μ member => inside μ (by simp [member])
    obtain ⟨μ', e, calls, moment, -, rfl⟩ := System.step_yields step
    cases found.symm.trans moment
    obtain ⟨-, moved, selected⟩ := System.moment?_eq_some found
    apply System.after_other still
    rintro rfl
    cases still.symm.trans selected
    exact absurd (inside μ (by simp) moved) (by simp)
  | begin c _ _ ih => exact System.begin_other (ih inside) c
  | pass now _ _ ih => exact ih inside

end Run

/-- A client whose code does nothing but panic. -/
def Client.panicking (V : Type) (p : Panic) : Client V Unit Unit where
  resume _ _ s := (s.client, .panic p)
  serve _ _ := ()

theorem Client.panicking_call? {V : Type} {p : Panic} (μ : Moment V Unit Unit) :
    μ.call? (.panicking V p) = none := by
  unfold Moment.call?
  split <;> rfl

end Quorate
