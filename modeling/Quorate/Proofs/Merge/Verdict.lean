import Quorate.Proofs.Merge.Progress

/-! What decides a merge over one or more sources. The first failure or cancel does, if it comes
before the last value; otherwise the merger does, which gets the values once, by position. -/

set_option autoImplicit false

namespace Quorate

variable {V κ : Type}

/-- The state that an event calls for by itself. -/
def Event.verdict? : Event V → Option (State V)
  | .arrived _ (.error e) => some (.failed e)
  | .cancelled => some .cancelled
  | _ => none

/-- Every call of the merger returns. -/
def Merger.Returns (merger : Merger V κ) (events : List (Event V)) : Prop :=
  match merger with
  | .plain f => ∀ values p, f values ≠ .error p
  | .code _ => .panicked ∉ events

/-- What the merger returns for some values. Client code answers in an event. -/
def Merger.Answers (merger : Merger V κ) (events : List (Event V)) (values : List V)
    (o : Outcome V) : Prop :=
  match merger with
  | .plain f => f values = .ok o
  | .code _ => .answered o ∈ events

namespace Progress

/-- The values that an event lets the merger have. -/
def invokes : Progress V → Event V → Option (List V)
  | .gathering values, .arrived index (.ok v) =>
    match values[index]? with
    | some none =>
      if (values.set index (some v)).all Option.isSome then
        some ((values.set index (some v)).filterMap id)
      else none
    | _ => none
  | _, _ => none

/-- The values that have arrived, by position. -/
structure Collected (size : Nat) (events : List (Event V)) (values : List (Option V)) : Prop where
  length : values.length = size
  arrived : ∀ (i : Nat) (v : V), values[i]? = some (some v) → .arrived i (.ok v) ∈ events
  missing : ∀ i : Nat, values[i]? = some none → ∀ v, .arrived i (.ok v) ∉ events

/-- Nothing has decided the merge yet. -/
structure Open (size : Nat) (events : List (Event V)) (values : List (Option V)) : Prop where
  collected : Collected size events values
  some_missing : none ∈ values
  no_verdict : ∀ event ∈ events, event.verdict? = none

/-- Where a merge over `size` sources stands, and what its merger was called with. -/
inductive Verdict (merger : Merger V κ) (size : Nat) (events : List (Event V)) :
    Progress V → List (List V) → Prop where
  | open {values : List (Option V)} :
      Open size events values → Verdict merger size events (.gathering values) []
  /-- A failure or a cancel came before the last value. -/
  | ended {before after : List (Event V)} {event : Event V} {state : State V}
      {values : List (Option V)} :
      events = before ++ event :: after → Open size before values →
      event.verdict? = some state → Verdict merger size events (.decided state) []
  /-- The last value came before any failure or cancel. -/
  | full {before after : List (Event V)} {index : Nat} {v : V} {earlier : List (Option V)}
      {values : List V} :
      events = before ++ .arrived index (.ok v) :: after → Open size before earlier →
      values.length = size →
      (∀ (i : Nat) (w : V), values[i]? = some w →
        .arrived i (.ok w) ∈ before ++ [.arrived index (.ok v)]) →
      Verdict merger size events (run merger (handed merger values) after) [values]

variable {merger : Merger V κ} {size : Nat} {events : List (Event V)} {event : Event V}

theorem Open.start (size : Nat) (some : 0 < size) :
    Open size ([] : List (Event V)) (List.replicate size none) := by
  refine ⟨⟨by simp, ?_, by simp⟩, by simpa using Nat.ne_of_gt some, by simp⟩
  intro i v there
  simp [List.getElem?_replicate] at there

/-- An event that brings no value a merge waits for changes nothing. -/
theorem Open.skip {values : List (Option V)} (gathers : Open size events values)
    (none : event.verdict? = Option.none)
    (apart : ∀ i v, event = .arrived i (.ok v) → values[i]? ≠ some Option.none) :
    Open size (events ++ [event]) values := by
  obtain ⟨⟨length, arrived, missing⟩, some, calm⟩ := gathers
  refine ⟨⟨length, fun i v there => List.mem_append_left _ (arrived i v there), ?_⟩, some, ?_⟩
  · intro i there v member
    rcases List.mem_append.mp member with member | member
    · exact missing i there v member
    · exact apart i v (List.mem_singleton.mp member).symm there
  · intro event' member
    rcases List.mem_append.mp member with member | member
    · exact calm event' member
    · rw [List.mem_singleton.mp member, none]

/-- A value that a merge waits for is taken in. -/
theorem Collected.take {values : List (Option V)} (collected : Collected size events values)
    {index : Nat} {v : V} (missing : values[index]? = some none) :
    Collected size (events ++ [.arrived index (.ok v)]) (values.set index (some v)) := by
  obtain ⟨length, arrived, absent⟩ := collected
  have bound := (List.getElem?_eq_some_iff.mp missing).1
  refine ⟨by simpa using length, ?_, ?_⟩
  · intro i w there
    by_cases same : index = i
    · subst same
      simp only [List.getElem?_set_self bound, Option.some.injEq] at there
      simp [there]
    · rw [List.getElem?_set_ne same] at there
      exact List.mem_append_left _ (arrived i w there)
  · intro i there w member
    by_cases same : index = i
    · subst same
      simp [List.getElem?_set_self bound] at there
    · rw [List.getElem?_set_ne same] at there
      rcases List.mem_append.mp member with member | member
      · exact absent i there w member
      · simp [Ne.symm same] at member

/-- What has been handed to the merger is not gathered again. -/
theorem run_not_gathering {p : Progress V} (apart : ∀ values, p ≠ .gathering values)
    (events : List (Event V)) : ∀ values, p.run merger events ≠ .gathering values := by
  induction events generalizing p with
  | nil => exact apart
  | cons event events ih =>
    apply ih
    intro values same
    cases p with
    | gathering values' => exact apart values' rfl
    | _ =>
      cases event with
      | arrived index o => cases o <;> cases same
      | _ => cases same

theorem handed_not_gathering (values : List V) :
    ∀ values', handed merger values ≠ .gathering values' := by
  intro values' same
  unfold handed at same
  split at same
  next => split at same <;> cases same
  next => cases same

theorem getElem?_filterMap_id {values : List (Option V)} (all : values.all Option.isSome = true)
    (i : Nat) : (values.filterMap id)[i]? = values[i]?.join := by
  induction values generalizing i with
  | nil => rfl
  | cons slot values ih =>
    simp only [List.all_cons, Bool.and_eq_true] at all
    obtain ⟨w, rfl⟩ := Option.isSome_iff_exists.mp all.1
    cases i with
    | zero => rfl
    | succ i => exact ih all.2 i

theorem length_filterMap_id {values : List (Option V)} (all : values.all Option.isSome = true) :
    (values.filterMap id).length = values.length := by
  induction values with
  | nil => rfl
  | cons slot values ih =>
    simp only [List.all_cons, Bool.and_eq_true] at all
    obtain ⟨w, rfl⟩ := Option.isSome_iff_exists.mp all.1
    simpa using ih all.2

/-- A position that has given its value is not heard again. -/
theorem again (merger : Merger V κ) {values : List (Option V)} {index : Nat}
    (there : values[index]? ≠ some none) (v : V) :
    next merger (.gathering values) (.arrived index (.ok v)) = .gathering values ∧
      (Progress.gathering values).invokes (.arrived index (.ok v)) = none := by
  simp only [next, invokes, and_self]

/-- One more event. -/
theorem Verdict.step {p : Progress V} {merged : List (List V)}
    (verdict : Verdict merger size events p merged) (event : Event V) :
    Verdict merger size (events ++ [event]) (p.next merger event)
      (merged ++ (p.invokes event).toList) := by
  cases verdict with
  | @«open» values gathers =>
    cases event with
    | arrived index o =>
      cases o with
      | error e => exact .ended rfl gathers rfl
      | ok v =>
        by_cases missing : values[index]? = some none
        · have taken := gathers.collected.take (v := v) missing
          by_cases all : (values.set index (some v)).all Option.isSome = true
          · -- this was the last value
            simp only [Progress.next, invokes, missing, gathered, all, if_true]
            have last : events ++ [.arrived index (.ok v)] =
                events ++ .arrived index (.ok v) :: [] := rfl
            refine .full last gathers ((length_filterMap_id all).trans taken.length) ?_
            intro i w there
            rw [getElem?_filterMap_id all, Option.join_eq_some_iff] at there
            exact taken.arrived i w there
          · simp only [Progress.next, invokes, missing, gathered, all, if_false,
              Bool.false_eq_true]
            refine .open ⟨taken, ?_, ?_⟩
            · obtain ⟨slot, member, empty⟩ :
                  ∃ slot ∈ values.set index (some v), slot.isSome = false := by
                simpa using all
              cases slot with
              | none => exact member
              | some w => cases empty
            · intro event member
              rcases List.mem_append.mp member with member | member
              · exact gathers.no_verdict event member
              · rw [List.mem_singleton.mp member]
                rfl
        · obtain ⟨still, silent⟩ := again merger missing v
          rw [still, silent]
          refine .open (gathers.skip rfl ?_)
          rintro i w same
          cases same
          exact missing
    | cancelled => exact .ended rfl gathers rfl
    | answered o => exact .open (gathers.skip rfl nofun)
    | panicked => exact .open (gathers.skip rfl nofun)
  | @ended before after decisive state values split gathers called =>
    have still : Progress.next merger (.decided state) event = .decided state := by
      cases event with
      | arrived index o => cases o <;> rfl
      | _ => rfl
    rw [still]
    exact .ended (by rw [split, List.append_assoc, List.cons_append]) gathers called
  | @full before after index v earlier values split gathers length all =>
    -- whatever came of the values, the merger gets no others
    have apart (values' : List (Option V)) :
        run merger (handed merger values) after ≠ .gathering values' :=
      run_not_gathering (handed_not_gathering values) after values'
    have invoked : (run merger (handed merger values) after).invokes event = none := by
      cases reached : run merger (handed merger values) after with
      | gathering values' => exact absurd reached (apart values')
      | _ => rfl
    have reached : (run merger (handed merger values) after).next merger event =
        run merger (handed merger values) (after ++ [event]) := by
      rw [run_append, run_cons, run_nil]
    rw [invoked, reached]
    exact .full (by rw [split, List.append_assoc, List.cons_append]) gathers length all

/-- A merger that returns decides the merge, once client code has answered. -/
theorem run_handed {after : List (Event V)} (returns : merger.Returns events)
    (part : ∀ event ∈ after, event ∈ events) (values : List V) :
    (∃ o, merger.Answers events values o ∧
        run merger (handed merger values) after = .decided (.ofOutcome o)) ∨
      run merger (handed merger values) after = .merging values := by
  cases merger with
  | plain f =>
    cases answer : f values with
    | ok o => exact .inl ⟨o, answer, by simp [handed, answer]⟩
    | error p => exact absurd answer (returns values p)
  | code f =>
    show (∃ o, .answered o ∈ events ∧ run (.code f) (.merging values) after = _) ∨
      run (.code f) (.merging values) after = _
    -- while client code runs under the lock, only its end moves the merge
    induction after with
    | nil => exact .inr rfl
    | cons event after ih =>
      have ih := ih fun event member => part event (List.mem_cons_of_mem _ member)
      have here := part event List.mem_cons_self
      cases event with
      | answered o => exact .inl ⟨o, here, run_decided _ _⟩
      | panicked => exact absurd here returns
      | arrived index o => cases o <;> exact ih
      | cancelled => exact ih

namespace Verdict

variable {p : Progress V} {merged : List (List V)}

theorem once (verdict : Verdict merger size events p merged) : merged.length ≤ 1 := by
  cases verdict <;> simp

/-- The merger gets the value of each source at the position of the source. -/
theorem values (verdict : Verdict merger size events p merged) {values : List V}
    (member : values ∈ merged) :
    values.length = size ∧
      ∀ (i : Nat) (v : V), values[i]? = some v → .arrived i (.ok v) ∈ events := by
  cases verdict with
  | «open» => cases member
  | ended => cases member
  | @full before after index v earlier values' split gathers length all =>
    cases List.mem_singleton.mp member
    refine ⟨length, fun i w there => ?_⟩
    rw [split, ← List.singleton_append, ← List.append_assoc]
    exact List.mem_append_left _ (all i w there)

/-- Without a verdict and with a value missing, nothing happens. -/
theorem waits (verdict : Verdict merger size events p merged)
    (calm : ∀ event ∈ events, event.verdict? = none) {i : Nat} (bound : i < size)
    (silent : ∀ v, .arrived i (.ok v) ∉ events) : p.state = .pending ∧ merged = [] := by
  cases verdict with
  | «open» => exact ⟨rfl, rfl⟩
  | ended split gathers called =>
    have quiet := calm _ (by rw [split]; exact List.mem_append_right _ List.mem_cons_self)
    cases quiet.symm.trans called
  | @full before after index v earlier values split gathers length all =>
    have inside : i < values.length := by rw [length]; exact bound
    have reached := all i values[i] (List.getElem?_eq_getElem inside)
    refine absurd ?_ (silent values[i])
    rw [split, ← List.singleton_append, ← List.append_assoc]
    exact List.mem_append_left _ reached

/-- If the merger returns, a merge gathers, has its merger running, or is decided. -/
theorem settles (verdict : Verdict merger size events p merged)
    (returns : merger.Returns events) :
    (∃ values, p = .gathering values ∧ Open size events values) ∨
      (∃ values, p = .merging values) ∨
      ∃ state, p = .decided state ∧ state.isPending = false ∧
        ((∃ event ∈ events, event.verdict? = some state) ∨
          ∃ values o, merged = [values] ∧ merger.Answers events values o ∧
            state = .ofOutcome o) := by
  cases verdict with
  | «open» gathers => exact .inl ⟨_, rfl, gathers⟩
  | @ended before after event state values split gathers called =>
    refine .inr (.inr ⟨state, rfl, ?_, .inl ⟨event, ?_, called⟩⟩)
    · unfold Event.verdict? at called
      split at called <;> cases called <;> rfl
    · rw [split]
      exact List.mem_append_right _ List.mem_cons_self
  | @full before after index v earlier values split =>
    have part : ∀ event ∈ after, event ∈ events := by
      intro event member
      rw [split]
      exact List.mem_append_right _ (List.mem_cons_of_mem _ member)
    rcases run_handed returns part values with ⟨o, answers, decided⟩ | merging
    · exact .inr (.inr ⟨_, decided, State.isPending_ofOutcome o,
        .inr ⟨values, o, rfl, answers, rfl⟩⟩)
    · exact .inr (.inl ⟨values, merging⟩)

end Verdict

end Progress

end Quorate
