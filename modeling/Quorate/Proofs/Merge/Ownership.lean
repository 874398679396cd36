import Quorate.Proofs.Merge.Cancel

/-! A merge holds its sources while it waits for them. It lets go of them when it is decided, and
also when its merger panics, which leaves it pending with nothing to cancel. -/

set_option autoImplicit false

namespace Quorate

section

variable {V κ σ : Type} {client : Client V κ σ} {m : ResultId} {s s₁ : System V κ σ} {t : Nat}
  {base : List (Frame V κ)} {h : List (Moment V κ σ)} {cell : Cell V (Task κ)} {merge : Merge V κ}

/-- A result is cancelled, or it is for the client to say. -/
def Store.Cancelled (s : Store V κ σ) (r : ResultId) : Prop :=
  ∃ x, s.results[r]? = some x ∧ (x.isForeign = true ∨ x.cell.state = .cancelled)

theorem Store.Later.cancelled {store store' : Store V κ σ} (later : store.Later store')
    {r : ResultId} (cancelled : store.Cancelled r) : store'.Cancelled r := by
  obtain ⟨⟨cell, kind⟩, found, cancelled⟩ := cancelled
  obtain ⟨⟨cell', kind'⟩, found', ⟨kinds, state, -⟩⟩ := later r _ found
  refine ⟨_, found', ?_⟩
  rcases cancelled with foreign | cancelled
  · cases kind with
    | foreign done cancelled =>
      cases kind' with
      | foreign done cancelled => exact .inl rfl
      | _ => exact kinds.elim
    | _ => cases foreign
  · exact .inr ((state (by rw [cancelled]; rfl)).trans cancelled)

theorem Moment.asked?_eq_some {depth : Nat} {μ : Moment V κ σ} {r : ResultId} {b : Bool}
    (asked : μ.asked? t depth = some (r, b)) :
    ∃ a, μ.result = .ok a ∧ μ.frame = .call (.cancel r) ∧
      (μ.store.results[r]?).any Result.cancellable = b := by
  unfold asked? at asked
  split at asked
  next a r' result frame =>
    split at asked
    next => cases asked; exact ⟨a, result, frame, rfl⟩
    next => cases asked
  next => cases asked

/-- A source that was cancellable when it was asked is cancelled by that call. -/
theorem Moment.Yields.cancelled {μ : Moment V κ σ} {e : Effect V κ σ} {calls : List (Call V κ)}
    {depth : Nat} {r : ResultId} (yields : μ.Yields client e calls)
    (asked : μ.asked? t depth = some (r, true)) : e.store.Cancelled r := by
  obtain ⟨a, answered, frame, open'⟩ := Moment.asked?_eq_some asked
  have touches := yields.touches
  rw [answered, frame] at touches
  cases found : μ.store.results[r]? with
  | none => simp [found] at open'
  | some x =>
    simp only [found, Option.any_some, Result.cancellable, Bool.or_eq_true, Bool.and_eq_true]
      at open'
    have after := touches.there r x found
    simp only [Frame.subject?, if_true, Result.touch] at after
    refine ⟨_, after, ?_⟩
    rcases open' with foreign | ⟨pending, cancelled⟩
    · obtain ⟨cell, kind⟩ := x
      cases kind with
      | foreign done cancelled => exact .inl rfl
      | _ => cases foreign
    · refine .inr ?_
      cases state : x.cancel.cell.state <;> simp [state, State.isCancelled] at cancelled
      rfl

theorem Run.granted {rule : Store V κ σ → Call V κ → Prop} (run : Run client rule s h s₁)
    {depth : Nat} {r : ResultId} (asked : (r, true) ∈ (swept t depth h).asked) :
    s₁.store.Cancelled r := by
  induction run with
  | start => simp [swept] at asked
  | step run found step fair ih =>
    obtain ⟨μ, e, calls, moment, yields, rfl⟩ := System.step_yields step
    cases found.symm.trans moment
    rw [swept_concat] at asked
    rcases List.mem_append.mp asked with before | now
    · have later := yields.touches.later
      rw [(System.moment?_eq_some found).1] at later
      exact later.cancelled (ih before)
    · exact yields.cancelled (Option.mem_toList.mp now)
  | begin c _ _ ih => exact ih asked
  | pass now _ _ ih => exact (Store.later_of_results rfl).cancelled (ih asked)

/-- A merge that is pending holds all of its sources, unless its merger panicked: then it holds
none. A cancel asks the sources that are held, all of them if it answers at all, and answers yes
only if they were cancelled by it. So after a panic of the merger it answers yes and asks nobody. -/
theorem owned_iff_pending_unpoisoned {merger : Merger V κ} {sources : List ResultId}
    {s₀ : System V κ σ} {h₀ : List (Moment V κ σ)}
    (built : Built client Call.Fair merger sources m s₀)
    (some : sources ≠ []) (run : Run client Call.Fair s₀ h₀ s) :
    ∃ cell merge, s.store.results[m]? = Option.some ⟨cell, .merge merge⟩ ∧
      (merge.lock ≠ .held → (merge.gathering.sources = sources ↔
        cell.state = .pending ∧ merge.lock ≠ .poisoned)) ∧
      (merge.gathering.sources ≠ sources → merge.gathering.sources = []) ∧
      ∀ t base h s₁, cell.state = .pending → Cancels client m s t base h s₁ →
        ∀ answer, s₁.threads[t]? = Option.some ⟨.ok (.flag answer), base⟩ →
          (swept t base.length h).asked.map Prod.fst = merge.gathering.sources ∧
          (answer = true → ∀ ask ∈ (swept t base.length h).asked,
            ask.2 = true ∧ s₁.store.Cancelled ask.1) ∧
          (merge.lock = .poisoned → (swept t base.length h).asked = [] ∧ answer = true) := by
  obtain ⟨x, there, shows⟩ := run.shows built.sound built.orderly built.shows
  obtain ⟨cell, gathering, lock, rfl⟩ := shows.isMerge
  refine ⟨cell, _, there, fun unlocked => shows.owned unlocked some,
    shows.all_or_none.resolve_left, ?_⟩
  intro t base h s₁ pending cancels answer finished
  obtain ⟨thread, there', course⟩ := cancels.course there pending
  cases finished.symm.trans there'
  rcases course.finished with
    ⟨-, asked, -, -, all, answers, same⟩ | ⟨p, -, -, -, -, -, panicked⟩
  · have same : answer = all := by
      split at same
      next => cases same
      next => cases same; rfl
    subst same
    refine ⟨asked, ?_, ?_⟩
    · rintro yes ⟨r, b⟩ member
      have granted : b = true := answers.granted yes _ member
      subst granted
      obtain ⟨-, step, run', -⟩ := cancels
      exact ⟨rfl, run'.granted member⟩
    · intro poisoned
      -- a poisoned lock means that the merger had been called, after the sources were let go
      have none : gathering.sources = [] := by
        apply shows.all_or_none.resolve_left
        intro all
        exact ((shows.owned (cancels.unlocked there) some).mp all).2 poisoned
      have nobody : (swept t base.length h).asked = [] := by
        rw [none] at asked
        exact List.map_eq_nil_iff.mp asked
      exact ⟨nobody, answers.nobody nobody⟩
  · cases panicked

end

/-- The lock of a merge. -/
def Result.lock? {V κ : Type} (x : Result V κ) : Option Lock :=
  match x.kind with
  | .merge m => some m.lock
  | _ => none

namespace Poisoned

def client : Client Unit Unit Unit := .panicking Unit "boom"

/-- Two results, and a call that merges them with a merger that panics. -/
def before : System Unit Unit Unit :=
  ((System.mk (.empty ()) []).perform client [(.create .settable, 1), (.create .settable, 1),
    (.build (.plain fun _ => .error "boom") [0, 1], 0)]).2

def made : System Unit Unit Unit := (before.drive client [2]).2

/-- Both results have succeeded and the merger has panicked; now the merge is to be cancelled. -/
def after : System Unit Unit Unit :=
  ((made.drive client (List.replicate 5 2)).2.perform client
    [(.complete 0 (.succeeded ()), 8), (.complete 1 (.succeeded ()), 9), (.cancel 2, 0)]).2

theorem pending_without_sources :
    Built client Call.Fair (.plain fun _ => .error "boom") [0, 1] 2 made ∧
      ([0, 1] : List ResultId) ≠ [] ∧
      (∃ h, Run client Call.Fair made h after) ∧
      ∃ cell merge, after.store.results[2]? = some ⟨cell, .merge merge⟩ ∧
        cell.state = .pending ∧ merge.gathering.sources = [] ∧
        ∃ h s₁, Cancels client 2 after 5 [] h s₁ ∧
          s₁.threads[5]? = some ⟨.ok (.flag true), []⟩ ∧ (swept 5 0 h).asked = [] := by
  have reached : Run client Call.Fair ⟨.empty (), []⟩ _ before :=
    Run.perform Client.panicking_fair _ _
  have built : Built client Call.Fair (.plain fun _ => .error "boom") [0, 1] 2 made :=
    .intro reached (t := 2) rfl rfl rfl rfl rfl
  have run := (Run.drive Client.panicking_fair made (List.replicate 5 2)).trans
    (Run.perform Client.panicking_fair (made.drive client (List.replicate 5 2)).2
      [(.complete 0 (.succeeded ()), 8), (.complete 1 (.succeeded ()), 9), (.cancel 2, 0)])
  obtain ⟨cell, merge, there, owned, released, cancel⟩ :=
    owned_iff_pending_unpoisoned built (by simp) run
  have state : (after.store.results[2]?.map fun x => x.cell.state) = some .pending := rfl
  have lock : (after.store.results[2]?.bind Result.lock?) = some .poisoned := rfl
  have same : after.store.results[2]? = some ⟨cell, .merge merge⟩ := there
  rw [same] at state lock
  have pending : cell.state = .pending := Option.some.inj state
  have poisoned : merge.lock = .poisoned := Option.some.inj lock
  have apart : merge.gathering.sources ≠ [0, 1] := by
    intro all
    exact ((owned (by simp [poisoned])).mp all).2 poisoned
  have cancels : Cancels client 2 after 5 []
      ((after.drive client [5]).2.drive client (List.replicate 2 5)).1
      ((after.drive client [5]).2.drive client (List.replicate 2 5)).2 :=
    .intro rfl rfl (Run.drive Client.panicking_fair _ _) (by simp)
  have finished : ((after.drive client [5]).2.drive client (List.replicate 2 5)).2.threads[5]? =
      some ⟨.ok (.flag true), []⟩ := rfl
  exact ⟨built, by simp, ⟨_, run⟩, cell, merge, same, pending, released apart, _, _, cancels,
    finished, ((cancel _ _ _ _ pending cancels _ finished).2.2 poisoned).1⟩

end Poisoned

end Quorate
