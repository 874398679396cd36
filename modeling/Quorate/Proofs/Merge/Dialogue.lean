import Quorate.Proofs.Merge.Cascade
import Quorate.Proofs.System.Handover

/-! What a cancel of a merge answers. It asks one source after the other, hears the answer of each
before it goes on, and says yes in the end if all of them did. -/

set_option autoImplicit false

namespace Quorate

variable {V κ σ : Type}

/-- What passes between a cancel and the sources that it asks. -/
inductive Talk where
  | asks (source : ResultId)
  | hears (answer : Bool)
  deriving DecidableEq

/-- What a cancel that runs on thread `t` on top of `depth` frames asks or hears in a step. -/
def Moment.talk? (t depth : Nat) (μ : Moment V κ σ) : Option Talk :=
  match μ.result, μ.frame with
  | .ok _, .call (.cancel r) => if μ.at? t (depth + 1) then some (.asks r) else none
  | .ok (.flag b), .sweep _ _ _ _ => if μ.at? t depth then some (.hears b) else none
  | _, _ => none

/-- A cancel that has its own consent asks sources and hears their answers, each in turn. -/
def conversation (answers : List (ResultId × Bool)) : List Talk :=
  .hears true :: answers.flatMap fun answer => [.asks answer.1, .hears answer.2]

theorem conversation_concat (answers : List (ResultId × Bool)) (r : ResultId) (b : Bool) :
    conversation (answers ++ [(r, b)]) = conversation answers ++ [.asks r, .hears b] := by
  simp [conversation]

/-- How a thread stands that cancels the merge `m` over `sources`, and what it has asked and
heard. -/
inductive Dialogue (m : ResultId) (sources : List ResultId) :
    List Talk → Thread V κ → Prop where
  | hears {said : List Talk} {answers : List (ResultId × Bool)} {rest : List ResultId}
      {all b : Bool} {drained : List (Task κ)} :
      said ++ [.hears b] = conversation answers → (all && b) = answers.all Prod.snd →
      answers.map Prod.fst ++ rest = sources →
      Dialogue m sources said ⟨.ok (.flag b), [.sweep m rest all drained]⟩
  | asks {answers : List (ResultId × Bool)} {r : ResultId} {rest : List ResultId}
      {drained : List (Task κ)} : answers.map Prod.fst ++ r :: rest = sources →
      Dialogue m sources (conversation answers)
        ⟨.ok .unit, [.call (.cancel r), .sweep m rest (answers.all Prod.snd) drained]⟩
  | waits {answers : List (ResultId × Bool)} {r : ResultId} {rest : List ResultId}
      {drained : List (Task κ)} {result : Return V} {above : List (Frame V κ)} : above ≠ [] →
      (∀ f, above.getLast? = some f → ¬ f.Handing) → answers.map Prod.fst ++ r :: rest = sources →
      Dialogue m sources (conversation answers ++ [.asks r])
        ⟨result, above ++ [.sweep m rest (answers.all Prod.snd) drained]⟩
  | delivers {answers : List (ResultId × Bool)} {tasks : List (Task κ)} {result : Return V}
      {above : List (Frame V κ)} :
      (∀ f, above.getLast? = some f → ∀ r, f ≠ .call (.cancel r)) →
      answers.map Prod.fst = sources →
      Dialogue m sources (conversation answers)
        ⟨result, above ++ [.deliver m tasks none (.flag (answers.all Prod.snd))]⟩
  | ended {answers : List (ResultId × Bool)} : answers.map Prod.fst = sources →
      Dialogue m sources (conversation answers) ⟨.ok (.flag (answers.all Prod.snd)), []⟩

section

variable {client : Client V κ σ} {m : ResultId} {sources : List ResultId} {said : List Talk}
  {t : Nat} {μ : Moment V κ σ} {e : Effect V κ σ}

/-- Nothing is said further up the stack. -/
theorem Moment.talk?_above (inside : μ.below ≠ [])
    (apart : ∀ f, μ.below = [f] → ∀ r, μ.frame ≠ .call (.cancel r)) : μ.talk? t 0 = none := by
  unfold talk?
  split
  next r result frame =>
    refine if_neg fun here => ?_
    simp only [at?, Bool.and_eq_true, decide_eq_true_eq] at here
    obtain ⟨f, single⟩ := List.length_eq_one_iff.mp here.2
    exact apart f single r frame
  next =>
    refine if_neg fun here => ?_
    simp only [at?, Bool.and_eq_true, decide_eq_true_eq] at here
    exact inside (List.eq_nil_of_length_eq_zero here.2)
  next => rfl

/-- A source's cancel is over, or it goes on above the frame that asked. -/
theorem Dialogue.wait {answers : List (ResultId × Bool)} {r : ResultId} {rest : List ResultId}
    {drained : List (Task κ)} {result : Return V} {above : List (Frame V κ)}
    (order : answers.map Prod.fst ++ r :: rest = sources)
    (last : ∀ f, above.getLast? = some f → ¬ f.Handing)
    (fits : Thread.Fits ⟨result, above ++ [.sweep m rest (answers.all Prod.snd) drained]⟩)
    (answered : ∃ a, result = .ok a) :
    Dialogue m sources (conversation answers ++ [.asks r])
      ⟨result, above ++ [.sweep m rest (answers.all Prod.snd) drained]⟩ := by
  cases above with
  | nil =>
    obtain ⟨a, rfl⟩ := answered
    obtain ⟨b, rfl⟩ := fits.top _ rfl a rfl
    have heard : conversation answers ++ [.asks r] ++ [.hears b] =
        conversation (answers ++ [(r, b)]) := by
      rw [conversation_concat, List.append_assoc]
      rfl
    exact .hears heard (by simp) (by simpa using order)
  | cons f above => exact .waits (by simp) last order

theorem Dialogue.step (dialogue : Dialogue m sources said ⟨μ.result, μ.frame :: μ.below⟩)
    (apart : ∀ r task, μ.frame ≠ .call (.register r task)) (calm : ∃ a, μ.result = .ok a)
    (effect : μ.store.resume client μ.result μ.frame = some e) (answered : ∃ a, e.result = .ok a)
    (fits : Thread.Fits ⟨e.result, e.frames ++ μ.below⟩) :
    Dialogue m sources (said ++ (μ.talk? μ.thread 0).toList)
      ⟨e.result, e.frames ++ μ.below⟩ := by
  obtain ⟨store, t, result, frame, below⟩ := μ
  dsimp only at dialogue apart calm effect fits ⊢
  have last := (Store.resume_emits effect).last apart
  -- frames further up than the one that asks say nothing
  have silent {above : List (Frame V κ)} {f : Frame V κ} (same : below = above ++ [f])
      (apart : above = [] → ∀ r, frame ≠ .call (.cancel r)) :
      (Moment.mk store t result frame below).talk? t 0 = none := by
    refine Moment.talk?_above (by simp [same]) fun f' single => apart ?_
    rw [same] at single
    cases above with
    | nil => rfl
    | cons => simp at single
  have kept {above : List (Frame V κ)} {P : Frame V κ → Prop}
      (emitted : ∀ f, e.frames.getLast? = some f → P f)
      (lasting : ∀ f, (frame :: above).getLast? = some f → P f) :
      ∀ f, (e.frames ++ above).getLast? = some f → P f := by
    cases above with
    | nil => simpa using emitted
    | cons f' above =>
      intro f found
      apply lasting f
      simpa [List.getLast?_append, List.getLast?_cons] using found
  generalize same : Thread.mk result (frame :: below) = thread at dialogue
  cases dialogue with
  | @hears said answers rest all b drained heard granted order =>
    cases same
    have spoken : (Moment.mk store t (.ok (.flag b)) (.sweep m rest all drained) []).talk? t 0 =
        some (.hears b) := by simp [Moment.talk?, Moment.at?]
    rw [spoken, Option.toList_some, heard]
    cases rest with
    | nil =>
      cases effect
      rw [granted]
      have order : answers.map Prod.fst = sources := by simpa using order
      have nothing : ∀ f, ([] : List (Frame V κ)).getLast? = some f →
          ∀ r, f ≠ .call (.cancel r) := by simp
      exact .delivers nothing order
    | cons r rest =>
      cases effect
      rw [granted]
      exact .asks order
  | @asks answers r rest drained order =>
    cases same
    have spoken : (Moment.mk store t (.ok .unit) (.call (.cancel r))
        [.sweep m rest (answers.all Prod.snd) drained]).talk? t 0 = some (.asks r) := by
      simp [Moment.talk?, Moment.at?]
    rw [spoken, Option.toList_some]
    exact .wait order last fits answered
  | @waits answers r rest drained _ above some lasting order =>
    cases above with
    | nil => exact absurd rfl some
    | cons f above =>
      simp only [Thread.mk.injEq, List.cons_append, List.cons.injEq] at same
      obtain ⟨rfl, rfl, rfl⟩ := same
      have none := silent rfl fun first r asks => by
        subst first
        exact lasting frame rfl (by rw [asks]; trivial)
      rw [none, Option.toList_none, List.append_nil, ← List.append_assoc]
      rw [← List.append_assoc] at fits
      exact .wait order (kept last lasting) fits answered
  | @delivers answers tasks _ above lasting order =>
    cases above with
    | nil =>
      cases same
      have none : (Moment.mk store t result
          (.deliver m tasks none (.flag (answers.all Prod.snd))) []).talk? t 0 = none := by
        unfold Moment.talk?
        split <;> first | rfl | contradiction
      rw [none, Option.toList_none, List.append_nil]
      obtain ⟨a, rfl⟩ := calm
      cases tasks with
      | nil =>
        simp only [Store.resume, Store.proceed] at effect
        split at effect
        next => cases effect
        next => split at effect <;> cases effect; exact .ended order
      | cons task tasks =>
        cases effect
        have first : ∀ f, [.call (.perform task)].getLast? = some f →
            ∀ r, f ≠ (.call (.cancel r) : Frame V κ) := by simp
        exact .delivers first order
    | cons f above =>
      simp only [Thread.mk.injEq, List.cons_append, List.cons.injEq] at same
      obtain ⟨rfl, rfl, rfl⟩ := same
      have none := silent rfl fun first r => by
        subst first
        exact lasting frame rfl r
      rw [none, Option.toList_none, List.append_nil, ← List.append_assoc]
      refine .delivers (kept (fun f found r same => ?_) lasting) order
      exact last f found (by rw [same]; trivial)
  | ended => cases same

end

end Quorate
