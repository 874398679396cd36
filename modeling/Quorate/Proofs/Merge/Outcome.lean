import Quorate.Proofs.Merge.OneShot
import Quorate.Proofs.Merge.Opening

/-! Where a run leads a merge with a plain merger that always returns, in a system without client
code. The merge has what the merger makes of the values of its sources, or the error of one of them,
or it was cancelled; until then it waits. -/

set_option autoImplicit false

namespace Quorate

variable {V κ σ : Type}

theorem Call.Plain.blind {s : Store V κ σ} {c : Call V κ} (plain : c.Plain s) (m : ResultId) :
    c.Blind m s := by
  refine ⟨plain.fair, fun i => ?_⟩
  cases c with
  | register r task => exact plain.elim
  | perform task => exact plain.elim
  | discard task => exact plain.elim
  | fork c => exact plain.elim
  | _ => rfl

/-- All of some results have succeeded, with these values. -/
def Store.Votes (s : Store V κ σ) (sources : List ResultId) (votes : List V) : Prop :=
  List.Forall₂ (fun r v => s.Gives r (.ok v)) sources votes

namespace Store.Votes

variable {s : Store V κ σ} {sources : List ResultId} {votes votes' : List V}

theorem given (all : s.Votes sources votes) : ∀ r ∈ sources, ∃ v, s.Gives r (.ok v) := by
  induction all with
  | nil => simp
  | cons gives _ ih =>
    intro r member
    rcases List.mem_cons.mp member with rfl | member
    · exact ⟨_, gives⟩
    · exact ih r member

theorem unique (all : s.Votes sources votes) (all' : s.Votes sources votes') : votes = votes' := by
  refine List.right_unique_forall₂' ?_ all all'
  intro r v v' gives gives'
  exact Except.ok.inj (gives.unique gives')

/-- A result that has succeeded did not fail. -/
theorem not_failed (all : s.Votes sources votes) {r : ResultId} (member : r ∈ sources) {e : Error} :
    ¬ s.Gives r (.error e) := by
  intro gives
  obtain ⟨v, succeeded⟩ := all.given r member
  cases gives.unique succeeded

end Store.Votes

/-- What the construction of a merge calls the merger with. -/
def atOnce : List ResultId → Option (List V)
  | [] => some []
  | _ :: _ => none

/-- How a merge that merges by `merge` stands, and the calls of its merger, after some events. -/
inductive Stands (merge : List V → Outcome V) (sources : List ResultId) (s : System V κ σ)
    (events : List (Event V)) : List (List V) → State V → Prop where
  | waits {calls : List (List V)} :
      (s.Quiet → calls = [] ∧ (∀ values, ¬ s.store.Votes sources values) ∧
        ∀ r ∈ sources, ∀ e, ¬ s.store.Gives r (.error e)) →
      Stands merge sources s events calls .pending
  | merged {values : List V} : s.store.Votes sources values →
      Stands merge sources s events [values] (.ofOutcome (merge values))
  | failed {r : ResultId} {e : Error} : r ∈ sources → s.store.Gives r (.error e) →
      Stands merge sources s events [] (.failed e)
  | cancelled {calls : List (List V)} : .cancelled ∈ events →
      Stands merge sources s events calls .cancelled

section

variable {client : Client V κ σ} {s s₁ : System V κ σ} {m : ResultId} {sources : List ResultId}
  {h : List (Moment V κ σ)} {merge : List V → Outcome V} {merger : Merger V κ} {p : Progress V}

/-- The sources of a merge that was made in a plain system are results of the library. -/
theorem Built.own (built : Built client Call.Plain merger sources m s) :
    ∀ r ∈ sources, ∃ x, s.store.results[r]? = some x ∧ x.isForeign = false := by
  intro r member
  have here : r < s.store.results.length := by
    obtain ⟨run, found, answered, frame, step, -⟩ := built
    obtain ⟨μ, e, calls, moment, yields, rfl⟩ := System.step_yields step
    cases found.symm.trans moment
    have plain := (run.plain (System.plain_empty _)).frames.moment found
    have later := yields.touches.later
    rw [frame] at plain
    rw [(System.moment?_eq_some found).1] at later
    exact later.there (plain.1.2 r member)
  exact ⟨_, List.getElem?_eq_getElem here,
    built.ready.plain.store.own (List.getElem?_eq_getElem here)⟩

/-- Nothing arrives at a merge without sources, so nothing has its merger called. -/
theorem Run.unmerged (run : Run client Call.Fair s h s₁) (sound : s.Sound) (orderly : s.Orderly)
    (shows : s.store.Shows m merger [] .opening) : h.filterMap (Moment.merged? m) = [] := by
  induction run with
  | start => rfl
  | @step h s₁ s₂ t μ run found step fair ih =>
    obtain ⟨μ', e, calls, moment, yields, rfl⟩ := System.step_yields step
    cases found.symm.trans moment
    have merged := System.merged?_eq (run.sound sound) found yields (run.shows sound orderly shows)
    have silent (event : Event V) :
        (Progress.run merger .opening (h.filterMap (Moment.event? m))).invokes event = none := by
      rcases Progress.run_opening merger (h.filterMap (Moment.event? m)) with
        ⟨same, -⟩ | ⟨o, -, same⟩ | ⟨-, same⟩ <;> rw [same] <;> rfl
    rw [filterMap_concat, ih, merged]
    cases event : μ.event? m with
    | none => rfl
    | some event' => rw [Option.bind_some, silent event']; rfl
  | begin c _ _ ih => exact ih
  | pass now _ _ ih => exact ih

/-- A merge over one or more sources stands as the verdict over it says. -/
theorem System.Follows.stands
    (follows : s.Follows m (.plain fun values => .ok (merge values)) sources h p) :
    Stands merge sources s (h.filterMap (Moment.event? m)) (h.filterMap (Moment.merged? m))
      p.state := by
  have returns : (Merger.plain fun values => .ok (merge values) : Merger V κ).Returns
      (h.filterMap (Moment.event? m)) := fun _ _ => nofun
  have verdict := follows.verdict
  generalize same : h.filterMap (Moment.merged? m) = calls at verdict
  cases verdict with
  | «open» gathers =>
    refine .waits fun quiet => ⟨rfl, fun values all => ?_, fun r member e gives => ?_⟩
    · obtain ⟨values, o, once, -⟩ :=
        follows.succeeds (quiet.idle m) returns all.given gathers.no_verdict
      cases same.symm.trans once
    · exact follows.ends (quiet.idle m) returns (.inl ⟨r, member, e, gives⟩) rfl
  | @ended before after event state values split gathers called =>
    have member : event ∈ h.filterMap (Moment.event? m) := by
      rw [split]
      exact List.mem_append_right _ List.mem_cons_self
    unfold Event.verdict? at called
    split at called
    next index e =>
      cases called
      obtain ⟨r, position, gives⟩ := follows.spoken index (.error e) member
      exact .failed (List.mem_of_getElem? position) gives
    next => cases called; exact .cancelled member
    next => cases called
  | @full before after index v earlier values =>
    have given : s.store.Votes sources values :=
      follows.given (by rw [same]; exact List.mem_cons_self)
    simp only [Progress.handed, Progress.run_decided, Progress.state]
    exact .merged given

/-- Every run leads a merge with a plain merger that returns to one of the ways to stand. -/
theorem Built.stands
    (built : Built client Call.Plain (.plain fun values => .ok (merge values)) sources m s)
    (run : Run client Call.Plain s h s₁) :
    ∃ x, s₁.store.results[m]? = some x ∧ Stands merge sources s₁ (h.filterMap (Moment.event? m))
      ((atOnce sources).toList ++ h.filterMap (Moment.merged? m)) x.cell.state := by
  cases sources with
  | nil =>
    -- the construction calls the merger, and there is nothing to wait for
    have before := built.fair
    rw [run.fair.unmerged before.sound before.orderly before.shows]
    obtain ⟨p, ⟨x, there, shows⟩, stands⟩ := built.opened rfl run
    refine ⟨x, there, ?_⟩
    rw [shows.state]
    rcases stands with ⟨rfl, busy⟩ | rfl | ⟨cancelled, rfl⟩
    · exact .waits fun quiet => absurd quiet busy
    · exact .merged .nil
    · exact .cancelled cancelled
  | cons source sources =>
    obtain ⟨p, follows⟩ := (built.mono fun _ _ plain => plain.blind m).follows (by simp) built.own
      (run.mono fun _ _ plain => plain.blind m)
    obtain ⟨x, there, shows⟩ := follows.shows
    refine ⟨x, there, ?_⟩
    rw [shows.state]
    exact follows.stands

end

end Quorate
