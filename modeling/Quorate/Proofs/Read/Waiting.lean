import Quorate.Proofs.Read.Shadow
import Quorate.Proofs.System.Ledger

/-! How a reader waits for the merge. It takes the outcome as soon as it is polled and the outcome is
there, or gives up when its time is over and cancels the merge. -/

set_option autoImplicit false

namespace Quorate.Replica

variable {V : Type} {merge : List (Option V) → Outcome (Option V)} {members : List (Member V)}
  {m : ResultId} {b s s' : Reading V} {h : List (Moment (Option V) (Work V) Unit)}
  {μ : Moment (Option V) (Work V) Unit} {e : Effect (Option V) (Work V) Unit}
  {asks : Reading V → Call (Option V) (Work V) → Prop} {answer : Return (Option V)}

/-- When a reader begins to wait for `m`. -/
def awaits? (m : ResultId) (μ : Moment (Option V) (Work V) Unit) : Option Nat :=
  match μ.frame with
  | .call (.within r _) => if r = m then some μ.store.now else none
  | _ => none

/-- Whenever a reader begins to wait for the merge `m`, the merge ends less than `limit` later. -/
def InTime (m : ResultId) (limit : Duration) (h : List (Moment (Option V) (Work V) Unit)) : Prop :=
  ∀ start ∈ h.filterMap (awaits? m), ∃ ν ∈ h, (ν.settled? m).isSome ∧
    ν.store.now < start + limit.nanoseconds

instance {limit : Duration} : Decidable (InTime m limit h) := inferInstanceAs (Decidable (∀ _, _))

/-- A reader has waited for `limit` when it is polled, and the merge has not ended yet. -/
def GivesUp (m : ResultId) (limit : Duration) (h : List (Moment (Option V) (Work V) Unit)) : Prop :=
  ∃ start ∈ h.filterMap (awaits? m), ∃ μ ∈ h, μ.frame = .polling m (start + limit.nanoseconds) ∧
    start + limit.nanoseconds ≤ μ.store.now ∧ μ.store.state? m = some .pending

theorem awaits_concat {start : Nat} (awaits : start ∈ h.filterMap (awaits? m)) :
    start ∈ (h ++ [μ]).filterMap (awaits? m) := by
  rw [List.filterMap_append]
  exact List.mem_append_left _ awaits

theorem GivesUp.concat {limit : Duration} (givesUp : GivesUp m limit h) :
    GivesUp m limit (h ++ [μ]) := by
  obtain ⟨start, awaits, ν, member, polls⟩ := givesUp
  exact ⟨start, awaits_concat awaits, ν, List.mem_append_left _ member, polls⟩

theorem ended_of_yields {calls : List (Call (Option V) (Work V))} (yields : μ.Yields client e calls)
    (settles : μ.settled? m ≠ none) :
    ∃ state, e.store.state? m = some state ∧ state ≠ .pending := by
  cases there : μ.store.results[m]? with
  | none => exact absurd (Moment.settled?_missing there) settles
  | some x =>
    have about : μ.frame.subject? = some m := Decidable.of_not_not fun apart => settles (if_neg apart)
    have after := yields.touches.there m x there
    rw [if_pos about] at after
    refine ⟨_, Store.state?_there after, fun pending => settles ?_⟩
    simp [Moment.settled?_about about there, pending, State.isPending]

/-- A result that ended in some step has ended. -/
theorem ended_of_settled (schedule : Schedule client asks s h s') :
    ∀ ν ∈ h, ν.settled? m ≠ none → ∃ state, s'.store.state? m = some state ∧ state ≠ .pending := by
  induction schedule with
  | start => simp
  | @step h₁ s₁ s₂ t μ before found step ih =>
    obtain ⟨μ', e, calls, moment, yields, rfl⟩ := System.step_yields step
    cases found.symm.trans moment
    have later := yields.touches.later
    rw [(System.moment?_eq_some found).1] at later
    intro ν member settles
    rcases List.mem_append.mp member with member | member
    · obtain ⟨state, here, ended⟩ := ih ν member settles
      exact ⟨state, later.state? here ended, ended⟩
    · cases List.mem_singleton.mp member
      exact ended_of_yields yields settles
  | begin c _ _ ih => exact ih
  | pass now _ _ ih => exact ih

/-- When a reader gives up on a merge, its time is up, and the merge ends later if at all. -/
theorem GivesUp.not_inTime {limit : Duration} (schedule : Schedule client asks s h s')
    (givesUp : GivesUp m limit h) : ¬ InTime m limit h := by
  suffices late : ∀ μ ∈ h, ∀ deadline, μ.frame = .polling m deadline → deadline ≤ μ.store.now →
      μ.store.state? m = some .pending → ∀ ν ∈ h, ν.settled? m ≠ none →
        deadline ≤ ν.store.now by
    obtain ⟨start, awaits, μ, member, polls, up, pending⟩ := givesUp
    intro inTime
    obtain ⟨ν, member', settles, before⟩ := inTime start awaits
    exact absurd before (Nat.not_lt.mpr
      (late μ member _ polls up pending ν member' (Option.isSome_iff_ne_none.mp settles)))
  clear givesUp
  induction schedule with
  | start => simp
  | @step h₁ s₁ s₂ t μ before found step ih =>
    have store := (System.moment?_eq_some found).1
    intro μ₁ member deadline polls up pending ν member' settles
    rcases List.mem_append.mp member with member | member <;>
      rcases List.mem_append.mp member' with member' | member'
    · exact ih μ₁ member deadline polls up pending ν member' settles
    · rw [List.mem_singleton.mp member', store]
      exact Nat.le_trans up (before.past μ₁ member)
    · -- what had ended before is not pending now
      obtain ⟨state, here, ended⟩ := ended_of_settled before ν member' settles
      rw [List.mem_singleton.mp member, store, here] at pending
      exact absurd (Option.some.inj pending) ended
    · cases List.mem_singleton.mp member
      cases List.mem_singleton.mp member'
      exact absurd (by simp [Moment.settled?, polls, Frame.subject?]) settles
  | begin c _ _ ih => exact ih
  | pass now _ _ ih => exact ih

/-- What the merge of some replicas can come to if nobody cancels it. -/
inductive ComesTo (merge : List (Option V) → Outcome (Option V)) (members : List (Member V)) :
    Outcome (Option V) → Prop where
  | fails {member : Member V} {e : Error} : member ∈ members → member.state? = some (.failed e) →
      ComesTo merge members (.error e)
  | merges {values : List (Option V)} : Reply members values →
      ComesTo merge members (merge values)

theorem Unfolds.comesTo (unfolds : Unfolds merge members (fun _ => False) h b)
    (finished : b.answer? 0 = some answer) (some : members ≠ []) {state : State (Option V)}
    (here : b.store.state? members.length = Option.some state) {o : Outcome (Option V)}
    (outcome : state.outcome? = Option.some o) : ComesTo merge members o := by
  have made : members.length < b.store.results.length := by
    rw [(unfolds.over finished).2.1]
    exact Nat.lt_succ_self _
  obtain ⟨x, there, stands⟩ := unfolds.stands unfolds.calm some made
  cases here.symm.trans (Store.state?_there there)
  cases stands with
  | gathers pending => rw [pending] at outcome; cases outcome
  | fails included fails state =>
    rw [state] at outcome
    cases outcome
    exact .fails included fails
  | merges all state =>
    rw [state, State.outcome?_ofOutcome] at outcome
    cases outcome
    exact .merges all

/-- A frame that neither reads a result nor waits for one. -/
def Waitless (frame : Frame (Option V) (Work V)) : Prop :=
  (∀ r timeout, frame ≠ .call (.get r timeout)) ∧
    (∀ r timeout deadline, frame ≠ .read r timeout deadline) ∧
      ∀ r timeout deadline entry, frame ≠ .wait r timeout deadline entry

theorem waitless_of_looks {i : ResultId} {frame : Frame (Option V) (Work V)}
    (looks : frame.Looks m i) : Waitless frame := by
  refine ⟨?_, ?_, looks.modest.1.2⟩
  · rintro r timeout rfl
    exact looks
  · rintro r timeout deadline rfl
    exact looks

/-- A cancel of the merge does not come to wait for anything. -/
theorem Outside.waitless {cancelling : Prop} (outside : Outside m cancelling μ.frame)
    (waitless : Waitless μ.frame) {a : Answer (Option V)} (answered : μ.result = .ok a)
    (effect : μ.store.resume client μ.result μ.frame = some e) (looksOn : μ.LooksOn m e)
    (own : ∀ (r : ResultId) x, μ.store.results[r]? = some x → x.isForeign = false) :
    ∀ f ∈ e.frames, Waitless f := by
  have looking {i : ResultId} (looks : μ.frame.Looks m i) : ∀ f ∈ e.frames, Waitless f :=
    fun f member => waitless_of_looks ((looksOn i a looks answered).2 f member)
  obtain ⟨s, t, result, frame, below⟩ := μ
  dsimp only at *
  subst answered
  cases frame with
  | call c =>
    cases c with
    | get r timeout => exact absurd rfl (waitless.1 r timeout)
    | cancel r =>
      obtain ⟨⟨cell, kind⟩, found, -, effect⟩ := Store.locking_eq_some effect
      cases kind with
      | settable =>
        simp only [Store.completing] at effect
        split at effect <;> cases effect <;> simp [Waitless]
      | latch => cases effect; simp
      | merge record =>
        simp only at effect
        split at effect <;> cases effect <;> simp [Waitless]
      | foreign => cases own r _ found
    | _ => exact looking outside.2.choose_spec
  | read r timeout deadline => exact absurd rfl (waitless.2.1 r timeout deadline)
  | wait r timeout deadline entry => exact absurd rfl (waitless.2.2 r timeout deadline entry)
  | sweep r rest all tasks =>
    cases a with
    | flag b => cases rest <;> cases effect <;> simp [Waitless]
    | _ => cases effect
  | _ => exact looking outside.2.choose_spec

end Quorate.Replica
