import Quorate.Proofs.System.Tally

/-! The accounts of a latch. It is open as long as acknowledgements are missing and nobody has
failed it; the last acknowledgement that it waits for ends it, and so does the first failure. Calls
that come later leave it as it is. -/

set_option autoImplicit false

namespace Quorate

variable {V κ σ : Type}

section

variable {client : Client V κ σ} {memory : σ} {s s₁ : System V κ σ} {h : List (Moment V κ σ)}
  {r : ResultId} {x : Result V κ} {count : Nat} {value : V}

/-- How a latch stands in a run that was made for `count` acknowledgements and waits for `missing`
of them. -/
structure Accounted (client : Client V κ σ) (count : Nat) (value : V) (r : ResultId)
    (h : List (Moment V κ σ)) (s : System V κ σ) (x : Result V κ) (missing : Nat) : Prop where
  remaining : x.remaining? = some missing
  /-- What is not missing was acknowledged. -/
  counted : missing + acknowledged r h = count
  pending : x.cell.state = .pending ↔ 1 ≤ missing ∧ failures r h = []
  succeeded : x.cell.state = .succeeded value ↔ missing = 0
  /-- A latch that succeeds was never failed, and the last acknowledgement that it waited for was
  the one that ended it. -/
  full : missing = 0 → failures r h = [] ∧
    (1 ≤ count → ∃ before μ later, h = before ++ μ :: later ∧ μ.acknowledges r = true ∧
      acknowledged r before + 1 = count ∧ μ.settled? r = some (.succeeded value))
  /-- One failure is enough, and acknowledgements stay missing. -/
  failed : failures r h = [] ∨ ∃ e, failures r h = [e] ∧ x.cell.state = .failed e ∧ 1 ≤ missing
  /-- Once it has ended, nothing is counted any more. -/
  kept : x.cell.state ≠ .pending → ∀ h' s', Run client Call.Fair s h' s' →
    acknowledged r h' = 0 ∧ failures r h' = [] ∧
      ∃ x', s'.store.results[r]? = some x' ∧ x'.kind = x.kind ∧ x'.cell.state = x.cell.state
  /-- An acknowledgement of the pending latch is counted in the first step of its call, which
  answers that it was, unless a callback panics that it delivers. -/
  acknowledges : x.cell.state = .pending → ∀ t base s' h' s₁,
    Spans client (.countDown r) s t base s' h' s₁ →
      (∃ x', s'.store.results[r]? = some x' ∧ x'.remaining? = some (missing - 1) ∧
        x'.cell.state = if missing = 1 then .succeeded value else .pending) ∧
      ∀ result, s₁.threads[t]? = some ⟨result, base⟩ →
        result = .ok (.flag true) ∨ missing = 1 ∧ ∃ p, result = .error p
  /-- So does a failure of the pending latch. -/
  fails : x.cell.state = .pending → ∀ e t base s' h' s₁,
    Spans client (.complete r (.failed e)) s t base s' h' s₁ →
      (∃ x', s'.store.results[r]? = some x' ∧ x'.kind = x.kind ∧ x'.cell.state = .failed e) ∧
      ∀ result, s₁.threads[t]? = some ⟨result, base⟩ →
        result = .ok (.flag true) ∨ ∃ p, result = .error p
  /-- Calls that come later change nothing, and say so. -/
  late : x.cell.state ≠ .pending → ∀ c, c = .countDown r ∨ (∃ e, c = .complete r (.failed e)) →
    ∀ t base s' h' s₁, Spans client c s t base s' h' s₁ →
      s'.store = s.store ∧ s₁.threads[t]? = some ⟨.ok (.flag false), base⟩
  /-- Observers cannot cancel it. -/
  uncancelled : ∀ t base s' h' s₁, Spans client (.cancel r) s t base s' h' s₁ →
    s'.store = s.store ∧ s₁.threads[t]? = some ⟨.ok (.flag false), base⟩

namespace Spans

variable {c : Call V κ} {s' : System V κ σ} {t : Nat} {base : List (Frame V κ)}

/-- A call that finds a latch ended leaves everything as it is. -/
theorem late {k : Nat} {es : List Error} (spans : Spans client c s t base s' h s₁)
    (tally : x.Tally count value k es) (there : s.store.results[r]? = some x)
    (ended : x.cell.state.isPending = false)
    (producer : c = .countDown r ∨ ∃ e, c = .complete r (.failed e)) :
    s'.store = s.store ∧ s₁.threads[t]? = some ⟨.ok (.flag false), base⟩ := by
  obtain ⟨e, effect, store, thread⟩ := spans.entered (by rintro c' rfl; simp at producer)
  obtain ⟨l, kind⟩ := tally.kind
  have same : e = ⟨s.store, .ok (.flag false), []⟩ := by
    rcases producer with rfl | ⟨err, rfl⟩
    · obtain ⟨x', found, -, effect⟩ := Store.locking_eq_some effect
      cases there.symm.trans found
      simp only [kind, Latch.acknowledge_late l ended] at effect
      exact (Option.some.inj effect).symm
    · obtain ⟨x', found, -, effect⟩ := Store.locking_eq_some effect
      cases there.symm.trans found
      simp only [Store.completing, Cell.transition, ended] at effect
      exact (Option.some.inj effect).symm
  rw [same] at store thread
  exact ⟨store, spans.answered thread⟩

/-- An acknowledgement of a latch that waits for more is counted at once. -/
theorem acknowledges {k : Nat} (spans : Spans client (.countDown r) s t base s' h s₁)
    (tally : x.Tally count value k []) (there : s.store.results[r]? = some x)
    (pending : x.cell.state = .pending) (more : k + 1 < count) :
    s₁.threads[t]? = some ⟨.ok (.flag true), base⟩ := by
  obtain ⟨e, effect, -, thread⟩ := spans.entered nofun
  obtain ⟨x', found, -, effect⟩ := Store.locking_eq_some effect
  cases there.symm.trans found
  cases tally with
  | @waiting _ missing cell state some sum =>
    have live : cell.state.isPending = true := by rw [state]; rfl
    have several : 1 < missing := by omega
    simp only [Latch.acknowledge_counted live several] at effect
    cases effect
    exact spans.answered thread
  | full => omega

/-- An acknowledgement of a pending latch is counted; if it is not the last one, that is all. -/
theorem acknowledged {k missing : Nat} (spans : Spans client (.countDown r) s t base s' h s₁)
    (tally : x.Tally count value k []) (sum : missing + k = count)
    (there : s.store.results[r]? = some x) (pending : x.cell.state = .pending) (sound : s.Sound)
    (orderly : s.Orderly) :
    (∃ x', s'.store.results[r]? = some x' ∧ x'.remaining? = some (missing - 1) ∧
      x'.cell.state = if missing = 1 then .succeeded value else .pending) ∧
    ∀ result, s₁.threads[t]? = some ⟨result, base⟩ →
      result = .ok (.flag true) ∨ missing = 1 ∧ ∃ p, result = .error p := by
  have after := spans.touched there (show Call.Ends r (.countDown r) from rfl)
  have next := tally.countDown
  have live : x.cell.state.isPending = true := by rw [pending]; rfl
  rw [if_pos live] at next
  obtain ⟨left, remaining, sum', stands⟩ := next.stands
  have open' : ¬ x.cell.state = .succeeded value := by rw [pending]; nofun
  have few := mt tally.full_iff.mpr open'
  have state : x.countDown.cell.state = if missing = 1 then .succeeded value else .pending := by
    rcases stands with ⟨state, some, -⟩ | ⟨state, none, -⟩ | ⟨e, -, -, failed⟩
    · rw [state, if_neg (by omega)]
    · rw [state, if_pos (by omega)]
    · cases failed
  refine ⟨⟨_, after, by rw [show missing - 1 = left by omega]; exact remaining, state⟩, ?_⟩
  intro result returned
  by_cases last : missing = 1
  · cases spans.decides (show Call.Ends r (.countDown r) from rfl) sound orderly there
      tally.direct with
    | won _ _ _ _ answers => exact (answers result returned).2.2.imp id fun panic => ⟨last, panic⟩
    | lost unchanged _ _ =>
      -- the latch has ended, so its cell is another one
      obtain ⟨x', there', cell⟩ := unchanged
      cases after.symm.trans there'
      have state : x.countDown.cell.state = .succeeded value := by rw [state, if_pos last]
      have same : x.countDown.cell = x.cell := cell
      rw [same, pending] at state
      cases state
  · cases returned.symm.trans (spans.acknowledges tally there pending (by omega))
    exact .inl rfl

/-- A failure of a pending latch ends it. -/
theorem failed {k : Nat} {e : Error}
    (spans : Spans client (.complete r (.failed e)) s t base s' h s₁)
    (tally : x.Tally count value k []) (there : s.store.results[r]? = some x)
    (pending : x.cell.state = .pending) (sound : s.Sound) (orderly : s.Orderly) :
    (∃ x', s'.store.results[r]? = some x' ∧ x'.kind = x.kind ∧ x'.cell.state = .failed e) ∧
    ∀ result, s₁.threads[t]? = some ⟨result, base⟩ →
      result = .ok (.flag true) ∨ ∃ p, result = .error p := by
  have ends : Call.Ends (V := V) (κ := κ) r (.complete r (.failed e)) := rfl
  have after := spans.touched there ends
  have live : x.cell.state.isPending = true := by rw [pending]; rfl
  have completed : x.touch (.ok .unit) (.call (.complete r (.failed e))) =
      { x with cell := ⟨.failed e, [], true, x.cell.notified⟩ } := by
    simp [Result.touch, Result.complete, Cell.transition, live]
  rw [completed] at after
  refine ⟨⟨_, after, rfl, rfl⟩, ?_⟩
  intro result returned
  cases spans.decides ends sound orderly there tally.direct with
  | won _ _ _ _ answers => exact (answers result returned).2.2
  | lost unchanged _ _ =>
    obtain ⟨x', there', cell⟩ := unchanged
    cases after.symm.trans there'
    rw [← cell] at pending
    cases pending

/-- A latch refuses to be cancelled. -/
theorem uncancelled {k : Nat} {es : List Error} (spans : Spans client (.cancel r) s t base s' h s₁)
    (tally : x.Tally count value k es) (there : s.store.results[r]? = some x) :
    s'.store = s.store ∧ s₁.threads[t]? = some ⟨.ok (.flag false), base⟩ := by
  obtain ⟨e, effect, store, thread⟩ := spans.entered nofun
  obtain ⟨l, kind⟩ := tally.kind
  obtain ⟨x', found, -, effect⟩ := Store.locking_eq_some effect
  cases there.symm.trans found
  simp only [kind] at effect
  have same : e = ⟨s.store, .ok (.flag false), []⟩ := (Option.some.inj effect).symm
  rw [same] at store thread
  exact ⟨store, spans.answered thread⟩

end Spans

/-- A latch accounts for what its producers told it, in every run and from every call. -/
theorem latch_accounts (run : Run client Call.Fair ⟨.empty memory, []⟩ h s)
    (made : ∃ μ ∈ h, μ.Starts r count value) :
    ∃ x missing, s.store.results[r]? = some x ∧ Accounted client count value r h s x missing := by
  obtain ⟨x, there, tally⟩ := run.tallied made
  obtain ⟨missing, remaining, counted, stands⟩ := tally.stands
  have sound := run.sound (System.sound_empty memory)
  have orderly := run.orderly (System.sound_empty memory) (System.orderly_empty memory)
  have direct := tally.direct
  have terminal : x.cell.state ≠ .pending → x.cell.state.isPending = false :=
    (State.isPending_eq_false_iff _).mpr
  have unfailed (pending : x.cell.state = .pending) : failures r h = [] := by
    rcases stands with ⟨-, -, none⟩ | ⟨-, -, none⟩ | ⟨e, state, -, -⟩
    · exact none
    · exact none
    · cases pending.symm.trans state
  have full (state : x.cell.state = .succeeded value) := run.completed made there state
  refine ⟨x, missing, there, remaining, counted, ?_, ?_, ?_, ?_, ?_, ?_, ?_, ?_, ?_⟩
  · rcases stands with ⟨state, some, none⟩ | ⟨state, none, -⟩ | ⟨e, state, -, failed⟩
    · simp [state, some, none]
    · simp [state, none]
    · simp [state, failed]
  · rcases stands with ⟨state, some, -⟩ | ⟨state, none, -⟩ | ⟨e, state, some, -⟩
    · simp only [state, reduceCtorEq, false_iff]; omega
    · simp [state, none]
    · simp only [state, reduceCtorEq, false_iff]; omega
  · intro none
    rcases stands with ⟨-, some, -⟩ | ⟨state, -, unfailed⟩ | ⟨e, -, some, -⟩
    · omega
    · exact ⟨unfailed, full state⟩
    · omega
  · rcases stands with ⟨-, -, none⟩ | ⟨-, -, none⟩ | ⟨e, state, some, one⟩
    · exact .inl none
    · exact .inl none
    · exact .inr ⟨e, one, state, some⟩
  · intro ended h' s' later
    obtain ⟨unheard, unfailed⟩ := later.unaccepted there (terminal ended)
    obtain ⟨ν, member, starts⟩ := made
    obtain ⟨x', there', tally'⟩ := (run.trans later).tallied ⟨ν, by simp [member], starts⟩
    rw [acknowledged_append, failures_append, unheard, unfailed, List.append_nil] at tally'
    exact ⟨unheard, unfailed, x', there', tally.unique tally'⟩
  · intro pending t base s' h' s₁ spans
    rw [unfailed pending] at tally
    exact spans.acknowledged tally counted there pending sound orderly
  · intro pending e t base s' h' s₁ spans
    rw [unfailed pending] at tally
    exact spans.failed tally there pending sound orderly
  · intro ended c producer t base s' h' s₁ spans
    exact spans.late tally there (terminal ended) producer
  · intro t base s' h' s₁ spans
    exact spans.uncancelled tally there

end

namespace Panicked

/-- A latch for two acknowledgements that has a callback which panics, and is failed too late. -/
def acknowledgedTwice : List (Moment Unit Unit Unit) × System Unit Unit Unit :=
  (System.mk (.empty ()) []).perform client [(.create (.latch 2 ()), 1), (.countDown 0, 1),
    (.register 0 ⟨.client (), .inline⟩, 1), (.countDown 0, 7),
    (.complete 0 (.failed (.generic "late")), 1)]

theorem second_acknowledgement_recorded :
    Run client Call.Fair ⟨.empty (), []⟩ acknowledgedTwice.1 acknowledgedTwice.2 ∧
      (∃ μ ∈ acknowledgedTwice.1, μ.Starts 0 2 ()) ∧
      (∃ x, acknowledgedTwice.2.store.results[0]? = some x ∧
        Accounted client 2 () 0 acknowledgedTwice.1 acknowledgedTwice.2 x 0) ∧
      acknowledgedTwice.2.threads[3]? = some ⟨.error "boom", []⟩ ∧
      acknowledgedTwice.2.threads[4]? = some ⟨.ok (.flag false), []⟩ := by
  have run : Run client Call.Fair ⟨.empty (), []⟩ acknowledgedTwice.1 acknowledgedTwice.2 :=
    Run.perform Client.panicking_fair _ _
  have made : ∃ μ ∈ acknowledgedTwice.1, μ.Starts 0 2 () :=
    ⟨_, List.mem_cons_self, ⟨.unit, rfl⟩, rfl, rfl⟩
  obtain ⟨x, missing, there, account⟩ := latch_accounts run made
  have twice : acknowledged 0 acknowledgedTwice.1 = 2 := rfl
  obtain rfl : missing = 0 := by have sum := account.counted; omega
  exact ⟨run, made, ⟨x, there, account⟩, rfl, rfl⟩

end Panicked

end Quorate
