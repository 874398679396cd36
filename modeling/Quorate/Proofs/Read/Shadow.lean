import Quorate.Proofs.Replica.Withdraw

/-! A reading whose reader waits for the merge, beside one that ends with the merge. The threads of
the one do what those of the other do, but for the reader; what the reader asks for while it waits
is a call from outside in the other. -/

set_option autoImplicit false

namespace Quorate.Replica

variable {V : Type} {merge : List (Option V) → Outcome (Option V)} {members : List (Member V)}
  {cancels : Nat → Prop} {patience : Duration} {t : Nat} {b s s' : Reading V}
  {h : List (Moment (Option V) (Work V) Unit)} {μ : Moment (Option V) (Work V) Unit}
  {e : Effect (Option V) (Work V) Unit}

/-- No thread joins another but the reader that waits. -/
theorem Unfolds.unjoined (unfolds : Unfolds merge members cancels h b)
    (found : b.moment? t = some μ) (other deadline : Nat) : μ.frame ≠ .joining other deadline := by
  intro joins
  have layered := (unfolds.layered.frames.moment found).1
  rw [joins] at layered
  rcases layered with plain | outer
  · exact plain.elim
  · exact outer.elim

/-- Only the reader starts threads. -/
theorem Unfolds.unforked (unfolds : Unfolds merge members cancels h b)
    (found : b.moment? t = some μ) (other : t ≠ 0) (c : Call (Option V) (Work V)) :
    μ.frame ≠ .call (.fork c) := by
  intro forks
  obtain ⟨started, stage⟩ := unfolds.stage
  rcases stage.cases found with
    ⟨reader, -⟩ | ⟨i, member, -, -, -, replies, -⟩ | ⟨-, -, outside⟩
  · exact other reader
  · rw [forks] at replies
    generalize μ.result = result at replies
    generalize μ.below = below at replies
    generalize same : Thread.mk result (.call (.fork c) :: below) = thread at replies
    cases replies with
    | @delivers a above all =>
      cases above with
      | nil => cases same
      | cons f above =>
        cases same
        exact all _ List.mem_cons_self
    | _ => cases same
  · have outside := outside _ List.mem_cons_self
    rw [forks] at outside
    exact outside.2.elim fun _ looks => looks

/-- A step of another thread than the reader has an effect of its own. -/
theorem Unfolds.effect (unfolds : Unfolds merge members cancels h b)
    (found : b.moment? t = some μ) (other : t ≠ 0) {calls : List (Call (Option V) (Work V))}
    (yields : μ.Yields client e calls) :
    calls = [] ∧ b.store.resume client μ.result μ.frame = some e := by
  obtain ⟨none, effect⟩ := yields.effect (unfolds.unforked found other) (unfolds.unjoined found)
  rw [(System.moment?_eq_some found).1] at effect
  exact ⟨none, effect⟩

/-- With every step less is left to be done. -/
theorem Unfolds.pays (unfolds : Unfolds merge members cancels h b) {b' : Reading V}
    (found : b.moment? t = some μ) (step : b.step client t = some b') :
    b'.toil Work.price < b.toil Work.price := by
  have schedule : Schedule client Call.Never b ([] ++ [μ]) b' := .step .start found step
  have paid := unfolds.steps_le schedule
  simp only [List.nil_append, List.length_singleton] at paid
  omega

/-- The reading `s` stands beside `b`, which ends with the merge: they have the same results and,
but for the reader, the same threads. There may be more threads in `b`. -/
structure Beside (merge : List (Option V) → Outcome (Option V)) (members : List (Member V))
    (cancels : Nat → Prop) (h : List (Moment (Option V) (Work V) Unit)) (b s : Reading V) :
    Prop where
  unfolds : Unfolds merge members cancels h b
  store : s.store = b.store
  others : ∀ t, t ≠ 0 → t < s.threads.length → s.threads[t]? = b.threads[t]?
  length : s.threads.length ≤ b.threads.length

/-- Another thread than the reader takes the same step in both. -/
theorem Beside.step (beside : Beside merge members cancels h b s) (other : t ≠ 0)
    (found : s.moment? t = some μ) (step : s.step client t = some s') :
    ∃ e, μ.Yields client e [] ∧ s' = s.after t μ.below e [] ∧
      Beside merge members cancels (h ++ [μ]) (b.after t μ.below e []) s' ∧
      (b.after t μ.below e []).toil Work.price < b.toil Work.price := by
  obtain ⟨store, -, selected⟩ := System.moment?_eq_some found
  have inside := (List.getElem?_eq_some_iff.mp selected).1
  have selected' := (beside.others t other inside).symm.trans selected
  have found' : b.moment? t = some μ := by
    obtain ⟨_, t', result, frame, below⟩ := μ
    obtain rfl := (System.moment?_eq_some found).2.1
    simp only [System.moment?, selected', ← beside.store, ← store]
  obtain ⟨μ', e, calls, moment, yields, rfl⟩ := System.step_yields step
  cases found.symm.trans moment
  obtain ⟨rfl, effect⟩ := beside.unfolds.effect found' other yields
  have step' := System.step_of_resume selected' effect
  refine ⟨e, yields, rfl, ⟨beside.unfolds.step found' step', rfl, fun t' reader bound => ?_, ?_⟩,
    beside.unfolds.pays found' step'⟩
  · simp only [System.after, List.length_append, List.length_set, List.map_nil, List.length_nil,
      Nat.add_zero] at bound
    by_cases same : t = t'
    · subst same
      rw [System.after_self found, System.after_self found']
    · rw [System.after_nil same, System.after_nil same]
      exact beside.others t' reader bound
  · simpa [System.after] using beside.length

/-- The reader takes a step that the other reading does not know of. -/
theorem Beside.alone (beside : Beside merge members cancels h b s) (result : Return (Option V))
    (frames below : List (Frame (Option V) (Work V))) :
    Beside merge members cancels h b (s.after 0 below ⟨s.store, result, frames⟩ []) := by
  refine ⟨beside.unfolds, beside.store, fun t other inside => ?_, ?_⟩
  · rw [System.after_nil (Ne.symm other)]
    exact beside.others t other (by simpa [System.after] using inside)
  · simpa [System.after] using beside.length

theorem Beside.pass (beside : Beside merge members cancels h b s) {now : Nat}
    (past : s.store.now ≤ now) : Beside merge members cancels h (b.pass now) (s.pass now) := by
  obtain ⟨unfolds, store, others, length⟩ := beside
  rw [store] at past
  refine ⟨unfolds.pass past, ?_, others, length⟩
  rw [System.pass, System.pass, store]

section

variable {calls : List (Call (Option V) (Work V))} {result : Return (Option V)}
  {frame : Frame (Option V) (Work V)} {below below' : List (Frame (Option V) (Work V))}

theorem getElem?_set_append {A : Type} (xs ys : List A) (x : A) (other : t ≠ 0) :
    (xs.set 0 x ++ ys)[t]? = (xs ++ ys)[t]? := by
  cases xs with
  | nil => rfl
  | cons first xs => cases t <;> simp at other ⊢

theorem Beside.grown (beside : Beside merge members cancels h b s)
    (count : b.threads.length = s.threads.length) (new : List (Thread (Option V) (Work V)))
    (other : t ≠ 0) : (s.threads ++ new)[t]? = (b.threads ++ new)[t]? := by
  rcases Nat.lt_or_ge t s.threads.length with old | beyond
  · rw [List.getElem?_append_left old, List.getElem?_append_left (count ▸ old)]
    exact beside.others t other old
  · rw [List.getElem?_append_right beyond, List.getElem?_append_right (count ▸ beyond), count]

/-- The reader takes a step in both readings that leaves the same store. -/
theorem Beside.both (beside : Beside merge members cancels h b s)
    (count : b.threads.length = s.threads.length) (found : b.moment? 0 = some μ)
    (e : Effect (Option V) (Work V) Unit) {e' : Effect (Option V) (Work V) Unit}
    (step : b.step client 0 = some (b.after 0 below' e' calls)) (same : e.store = e'.store) :
    Beside merge members cancels (h ++ [μ]) (b.after 0 below' e' calls)
        (s.after 0 below e calls) ∧
      (b.after 0 below' e' calls).threads.length = (s.after 0 below e calls).threads.length ∧
      (b.after 0 below' e' calls).toil Work.price < b.toil Work.price := by
  have count' : (b.after 0 below' e' calls).threads.length =
      (s.after 0 below e calls).threads.length := by simp [System.after, count]
  refine ⟨⟨beside.unfolds.step found step, same, fun t other inside => ?_,
    Nat.le_of_eq count'.symm⟩, count', beside.unfolds.pays found step⟩
  rw [System.after, System.after, getElem?_set_append _ _ _ other, getElem?_set_append _ _ _ other]
  exact beside.grown count _ other

/-- The reader has the same step to take in both readings, above different frames. -/
theorem Beside.same (beside : Beside merge members cancels h b s)
    (count : b.threads.length = s.threads.length)
    (here : s.threads[0]? = some ⟨result, frame :: below⟩)
    (there : b.threads[0]? = some ⟨result, frame :: below'⟩)
    (step : s.step client 0 = some s') :
    ∃ e calls, s' = s.after 0 below e calls ∧
      b.step client 0 = some (b.after 0 below' e calls) := by
  obtain ⟨μ, e, calls, moment, yields, same⟩ := System.step_yields step
  cases (System.moment?_there here).symm.trans moment
  cases yields with
  | resumed effect =>
    exact ⟨e, [], same, System.step_of_resume there (beside.store ▸ effect)⟩
  | forked t answered frame =>
    cases answered
    cases frame
    cases (System.step_of_fork here).symm.trans step
    refine ⟨_, _, rfl, ?_⟩
    rw [beside.store, ← count]
    exact System.step_of_fork there
  | joined b answered frame =>
    exact absurd frame (beside.unfolds.unjoined (System.moment?_there there) _ _)

/-- The reader takes a step that another thread takes in the other reading. -/
theorem Beside.apart (beside : Beside merge members cancels h b s) {w : Nat}
    (beyond : s.threads.length ≤ w) (here : s.threads[0]? = some ⟨result, frame :: below⟩)
    (there : b.threads[w]? = some ⟨result, frame :: below'⟩)
    (step : s.step client 0 = some s') :
    ∃ e h', s' = s.after 0 below e [] ∧ b.store.resume client result frame = some e ∧
      Beside merge members cancels h' (b.after w below' e []) s' ∧
      (b.after w below' e []).toil Work.price < b.toil Work.price := by
  have found := System.moment?_there there
  have reader := (List.getElem?_eq_some_iff.mp here).1
  obtain ⟨μ, e, calls, moment, yields, rfl⟩ := System.step_yields step
  cases (System.moment?_there here).symm.trans moment
  have other : w ≠ 0 := by omega
  have unforked (c : Call (Option V) (Work V)) : frame ≠ .call (.fork c) :=
    beside.unfolds.unforked found other c
  have unjoined (t deadline : Nat) : frame ≠ .joining t deadline :=
    beside.unfolds.unjoined found t deadline
  obtain ⟨rfl, effect⟩ := yields.effect unforked unjoined
  have effect : b.store.resume client result frame = some e := beside.store ▸ effect
  have step' := System.step_of_resume there effect
  refine ⟨e, _, rfl, effect, ⟨beside.unfolds.step found step', rfl, fun t other inside => ?_, ?_⟩,
    beside.unfolds.pays found step'⟩
  · have inside : t < s.threads.length := by simpa [System.after] using inside
    rw [System.after_nil (Ne.symm other), System.after_nil (by omega)]
    exact beside.others t other inside
  · simpa [System.after] using beside.length

/-- The reader moves when a thread moves that stands in the other reading as it does. -/
theorem Beside.moves (beside : Beside merge members cancels h b s) {w : Nat}
    (here : s.threads[0]? = some ⟨result, frame :: below⟩)
    (there : b.threads[w]? = some ⟨result, frame :: below'⟩) (moves : b.Moves client w) :
    s.Moves client 0 := by
  obtain ⟨now, b', past, step⟩ := moves
  rw [← beside.store] at past
  obtain ⟨μ, e, calls, moment, yields, rfl⟩ := System.step_yields step
  have there' : (b.pass now).threads[w]? = some ⟨result, frame :: below'⟩ := there
  have here' : (s.pass now).threads[0]? = some ⟨result, frame :: below⟩ := here
  cases (System.moment?_there there').symm.trans moment
  have same : (s.pass now).store = (b.pass now).store := by
    rw [System.pass, System.pass, beside.store]
  cases yields with
  | resumed effect => exact ⟨now, _, past, System.step_of_resume here' (same ▸ effect)⟩
  | forked t answered frame =>
    cases answered
    cases frame
    exact ⟨now, _, past, System.step_of_fork here'⟩
  | joined b answered frame =>
    exact absurd frame (beside.unfolds.unjoined (System.moment?_there there) _ _)

end

/-! The reader at work: it asks for the same things in both readings. -/

/-- The last frame of a reader that goes on to wait for the merge, beside the one of a reader that
ends with it. -/
inductive Resumes (merge : List (Option V) → Outcome (Option V)) (members : List (Member V))
    (patience : Duration) : Frame (Option V) (Work V) → Frame (Option V) (Work V) → Prop where
  | begins : Resumes merge members patience (.call (.run (.gather (plan merge) members [])))
      (.call (.run (.gather ⟨merge, .read patience⟩ members [])))
  | gathers {left : List (Member V)} {sources : List ResultId} :
      Resumes merge members patience (.client (.gather (plan merge) left sources))
        (.client (.gather ⟨merge, .read patience⟩ left sources))
  | starts {member : Member V} {left : List (Member V)} {sources : List ResultId} :
      Resumes merge members patience (.client (.start (plan merge) member left sources))
        (.client (.start ⟨merge, .read patience⟩ member left sources))
  | turns : Resumes merge members patience (.client (.merged (plan merge)))
      (.client (.merged ⟨merge, .read patience⟩))

/-- The reader goes on as before, or ends with the merge in one reading and reads it in the
other. -/
theorem Resumes.step {f f' : Frame (Option V) (Work V)}
    (resumes : Resumes merge members patience f f') (result : Return (Option V))
    (store : Records V) :
    (∃ result' above g g', store.resume client result f = some ⟨store, result', above ++ [g]⟩ ∧
        store.resume client result f' = some ⟨store, result', above ++ [g']⟩ ∧
        Resumes merge members patience g g') ∨
      (∃ result', store.resume client result f = some ⟨store, result', []⟩ ∧
        ∀ m, result' = .ok (.result m) → f' = .client (.merged ⟨merge, .read patience⟩) ∧
          result = .ok (.result m) ∧ store.resume client result f' = some ⟨store, .ok .unit,
            [.call (.within m patience), .client (.judge m)]⟩) := by
  cases result with
  | error p =>
    refine .inr ⟨.error p, ?_, nofun⟩
    cases resumes <;> rfl
  | ok a =>
    cases resumes with
    | begins => exact .inl ⟨.ok .unit, [], _, _, rfl, rfl, .gathers⟩
    | @gathers left sources =>
      cases left with
      | nil =>
        exact .inl ⟨.ok .unit, [_], _, _, rfl, rfl, .turns⟩
      | cons member left => exact .inl ⟨.ok .unit, [_], _, _, rfl, rfl, .starts⟩
    | starts =>
      cases a with
      | result r => exact .inl ⟨.ok .unit, [_], _, _, rfl, rfl, .gathers⟩
      | _ => exact .inr ⟨.ok .unit, rfl, nofun⟩
    | turns =>
      refine .inr ⟨.ok a, ?_, ?_⟩
      · cases a <;> rfl
      · rintro m ⟨⟩
        exact ⟨rfl, rfl, rfl⟩

end Quorate.Replica
