import Mathlib.Data.List.Nodup
import Quorate.Proofs.Merge.Ownership
import Quorate.Proofs.Replica.Consult

/-! Cancelling the merge of a reading. The cancel asks the replicas one after the other, and answers
yes if the results of all of them were pending when it asked. -/

set_option autoImplicit false

namespace Quorate.Replica

variable {V : Type} {merge : List (Option V) → Outcome (Option V)} {members : List (Member V)}
  {t m : Nat} {s s' : Reading V} {h h' : List (Moment (Option V) (Work V) Unit)}
  {μ : Moment (Option V) (Work V) Unit} {e : Effect (Option V) (Work V) Unit}
  {calls : List (Call (Option V) (Work V))} {answer : Return (Option V)}
  {inquiries : List (ResultId × Bool)}

/-- How a thread stands that has cancelled the merge `m` over the results before it, and which of
them it has asked so far, with their answers. -/
inductive Asking (m : ResultId) : List (ResultId × Bool) → Thread (Option V) (Work V) → Prop where
  | hears {inquiries : List (ResultId × Bool)} {rest : List ResultId} {all b : Bool} :
      inquiries.map Prod.fst ++ rest = List.range m → (all && b) = inquiries.all Prod.snd →
      Asking m inquiries ⟨.ok (.flag b), [.sweep m rest all []]⟩
  | asks {inquiries : List (ResultId × Bool)} {r : ResultId} {rest : List ResultId} :
      inquiries.map Prod.fst ++ r :: rest = List.range m →
      Asking m inquiries
        ⟨.ok .unit, [.call (.cancel r), .sweep m rest (inquiries.all Prod.snd) []]⟩
  /-- A result that was pending tells the merge, and then answers. -/
  | waits {inquiries : List (ResultId × Bool)} {r : ResultId} {rest : List ResultId}
      {a : Answer (Option V)} {above : List (Frame (Option V) (Work V))}
      {tasks : List (Task (Work V))} :
      inquiries.map Prod.fst ++ rest = List.range m →
      (∀ f ∈ above ++ [.deliver r tasks none (.flag true)], f.Looks m r) →
      Asking m inquiries ⟨.ok a, above ++
        [.deliver r tasks none (.flag true), .sweep m rest (inquiries.all Prod.snd) []]⟩
  | delivers {inquiries : List (ResultId × Bool)} {a : Answer (Option V)} :
      inquiries.map Prod.fst = List.range m →
      Asking m inquiries ⟨.ok a, [.deliver m [] none (.flag (inquiries.all Prod.snd))]⟩
  | ended {inquiries : List (ResultId × Bool)} : inquiries.map Prod.fst = List.range m →
      Asking m inquiries ⟨.ok (.flag (inquiries.all Prod.snd)), []⟩

/-- A settable result can be cancelled while it is pending. -/
theorem cancellable_settable (cell : Cell (Option V) (Task (Work V))) :
    (Result.mk cell .settable).cancellable = cell.state.isPending := by
  cases pending : cell.state.isPending <;>
    simp [Result.cancellable, Result.isForeign, Result.cancel, Result.complete, Cell.transition,
      pending, State.isCancelled]

/-- Nothing is asked but by a cancel. -/
theorem unasked (apart : ∀ r, μ.frame ≠ .call (.cancel r)) : μ.asked? t 0 = none := by
  unfold Moment.asked?
  split
  next r _ frame => exact absurd frame (apart r)
  next => rfl

theorem Asking.step (asking : Asking m inquiries ⟨μ.result, μ.frame :: μ.below⟩)
    (yields : μ.Yields client e calls) (looksOn : μ.LooksOn m e)
    (own : ∀ (r : ResultId) x, μ.store.results[r]? = some x → r < m → x.kind = .settable)
    (queued : ∀ (r : ResultId) x, μ.store.results[r]? = some x →
      ∀ task ∈ x.cell.queue, r < m ∧ task = ⟨.observe m r, .inline⟩) :
    Asking m (inquiries ++ (μ.asked? μ.thread 0).toList) ⟨e.result, e.frames ++ μ.below⟩ := by
  have silent (apart : ∀ r, μ.frame ≠ .call (.cancel r)) :
      inquiries ++ (μ.asked? μ.thread 0).toList = inquiries := by
    rw [unasked apart, Option.toList_none, List.append_nil]
  obtain ⟨s, t, result, frame, below⟩ := μ
  dsimp only at *
  generalize same : Thread.mk result (frame :: below) = thread at asking
  cases asking with
  | @hears rest all b order granted =>
    cases same
    rw [silent (by simp)]
    obtain ⟨-, effect⟩ := yields.effect (by simp) (by simp)
    cases rest with
    | nil =>
      cases effect
      rw [granted]
      exact .delivers (by simpa using order)
    | cons r rest =>
      cases effect
      rw [granted]
      exact .asks order
  | @asks r rest order =>
    cases same
    obtain ⟨-, effect⟩ := yields.effect (by simp) (by simp)
    obtain ⟨⟨cell, kind⟩, found, -, effect⟩ := Store.locking_eq_some effect
    have bound : r < m := by
      have member : r ∈ List.range m := by
        rw [← order]
        exact List.mem_append_right _ List.mem_cons_self
      exact List.mem_range.mp member
    cases own r _ found bound
    have inquiry : (Moment.mk s t (.ok .unit) (.call (.cancel r))
        [.sweep m rest (inquiries.all Prod.snd) []]).asked? t 0 =
          some (r, cell.state.isPending) := by
      simp [Moment.asked?, Moment.at?, found, cancellable_settable]
    rw [inquiry, Option.toList_some]
    have order : (inquiries ++ [(r, cell.state.isPending)]).map Prod.fst ++ rest =
        List.range m := by simpa using order
    simp only [Store.completing] at effect
    split at effect
    next finished =>
      -- a refusal does not keep the cancel from asking the others
      cases effect
      have finished := (Cell.transition_eq_none_iff _ _).mp finished
      rw [finished] at order ⊢
      exact .hears order (by simp)
    next cell' tasks next =>
      obtain ⟨pending, -, rfl⟩ := (Cell.transition_eq_some_iff _ _ _ _).mp next
      cases effect
      rw [pending] at order ⊢
      have all : inquiries.all Prod.snd = (inquiries ++ [(r, true)]).all Prod.snd := by simp
      rw [all]
      have looks : ∀ f ∈ ([] ++ [.deliver r cell.queue none (.flag true)] :
          List (Frame (Option V) (Work V))), f.Looks m r := by
        intro f member
        rw [List.mem_singleton.mp member]
        exact ⟨rfl, queued r _ found⟩
      exact .waits order looks
  | @waits r rest a above tasks order looks =>
    -- the callbacks of a replica's result only let the merge look at it
    cases above with
    | nil =>
      cases same
      rw [silent (by simp)]
      obtain ⟨-, effect⟩ := yields.effect (by simp) (by simp)
      cases tasks with
      | nil =>
        simp only [Store.resume, Store.proceed] at effect
        split at effect
        next => cases effect
        next =>
          split at effect <;> cases effect
          exact .hears order (by simp)
      | cons task tasks =>
        cases effect
        have here := (looks _ (List.mem_singleton_self _)).2
        have looks : ∀ f ∈ ([.call (.perform task)] ++ [.deliver r tasks none (.flag true)] :
            List (Frame (Option V) (Work V))), f.Looks m r := by
          intro f member
          simp only [List.cons_append, List.nil_append, List.mem_cons, List.not_mem_nil,
            or_false] at member
          rcases member with rfl | rfl
          · exact here task List.mem_cons_self
          · exact ⟨rfl, fun task member => here task (List.mem_cons_of_mem _ member)⟩
        exact .waits order looks
    | cons f above =>
      cases same
      have here := looks frame List.mem_cons_self
      rw [silent here.modest.1.1]
      obtain ⟨⟨b, answered⟩, next⟩ := looksOn r a here rfl
      rw [answered, List.append_eq, ← List.append_assoc]
      refine .waits order fun f member => ?_
      rw [List.append_assoc] at member
      rcases List.mem_append.mp member with member | member
      · exact next f member
      · exact looks f (List.mem_cons_of_mem _ member)
  | delivers order =>
    cases same
    rw [silent (by simp)]
    obtain ⟨-, effect⟩ := yields.effect (by simp) (by simp)
    simp only [Store.resume, Store.proceed] at effect
    split at effect
    next => cases effect
    next =>
      split at effect <;> cases effect
      exact .ended order
  | ended => cases same

/-- A thread that asks a result to cancel notes its answer. -/
theorem Asking.inquiry (asking : Asking m inquiries ⟨μ.result, μ.frame :: μ.below⟩) {r : ResultId}
    (asks : μ.frame = .call (.cancel r)) :
    μ.asked? μ.thread 0 = some (r, (μ.store.results[r]?).any Result.cancellable) ∧
      r < m ∧ r ∉ inquiries.map Prod.fst := by
  obtain ⟨s, t, result, frame, below⟩ := μ
  dsimp only at *
  subst asks
  generalize same : Thread.mk result (.call (.cancel r) :: below) = thread at asking
  cases asking with
  | @asks r' rest order =>
    cases same
    refine ⟨by simp [Moment.asked?, Moment.at?], ?_, fun again => ?_⟩
    · have member : r ∈ List.range m := by
        rw [← order]
        exact List.mem_append_right _ List.mem_cons_self
      exact List.mem_range.mp member
    · have once : (inquiries.map Prod.fst ++ r :: rest).Nodup := by
        rw [order]
        exact List.nodup_range
      exact (List.nodup_append.mp once).2.2 r again r List.mem_cons_self rfl
  | @waits r' rest a above tasks order looks =>
    cases above with
    | nil => cases same
    | cons f above =>
      cases same
      exact (looks _ List.mem_cons_self).elim
  | _ => cases same

theorem Asking.unasking (asking : Asking m inquiries ⟨μ.result, μ.frame :: μ.below⟩)
    (r : ResultId) (timeout : Option Duration) (deadline : Option Nat) (entry : Bool) :
    μ.frame ≠ .wait r timeout deadline entry := by
  intro waits
  rw [waits] at asking
  generalize μ.result = result at asking
  generalize μ.below = below at asking
  generalize same : Thread.mk result (.wait r timeout deadline entry :: below) = thread at asking
  cases asking with
  | @waits r' rest a above tasks order looks =>
    cases above with
    | nil => cases same
    | cons f above =>
      cases same
      exact (looks _ List.mem_cons_self).elim
  | _ => cases same

/-- How the thread `t` stands that cancels the merge of some replicas, and what has happened since
it began, in the store `s₀`. A replica that hangs is pending when it is asked, and one that had
ended before is not. -/
inductive Withdraws (members : List (Member V)) (t : Nat) (s₀ : Records V)
    (h : List (Moment (Option V) (Work V) Unit)) (s : Records V) :
    Thread (Option V) (Work V) → Prop where
  | calls : (∀ μ ∈ h, μ.thread ≠ t) →
      Withdraws members t s₀ h s (.ofCall (.cancel members.length))
  | asking {thread : Thread (Option V) (Work V)} :
      Asking members.length (h.filterMap (Moment.asked? t 0)) thread →
      s.state? members.length = some .cancelled →
      (∀ μ ∈ h, μ.thread = t → ∀ r, μ.frame = .call (.cancel r) → r = members.length ∨
        ∃ state, μ.store.state? r = some state ∧
          (r, state.isPending) ∈ h.filterMap (Moment.asked? t 0)) →
      (∀ inquiry ∈ h.filterMap (Moment.asked? t 0),
        (∀ member, members[inquiry.1]? = some member → member.state? = none → inquiry.2 = true) ∧
          (s₀.Terminal inquiry.1 → inquiry.2 = false)) →
      Withdraws members t s₀ h s thread

theorem asked?_other (other : μ.thread ≠ t) : μ.asked? t 0 = none := by
  unfold Moment.asked?
  split
  next => exact if_neg (by simp [Moment.at?, other])
  next => rfl

section

variable {s₀ s₁ s₂ : Records V} {thread : Thread (Option V) (Work V)}

theorem Withdraws.later (withdraws : Withdraws members t s₀ h s₁ thread) (later : s₁.Later s₂) :
    Withdraws members t s₀ h s₂ thread := by
  cases withdraws with
  | calls idle => exact .calls idle
  | asking asking cancelled noted told =>
    exact .asking asking (later.state? cancelled (by simp)) noted told

theorem Withdraws.other (withdraws : Withdraws members t s₀ h s₁ thread) (later : s₁.Later s₂)
    (other : μ.thread ≠ t) : Withdraws members t s₀ (h ++ [μ]) s₂ thread := by
  have same : (h ++ [μ]).filterMap (Moment.asked? t 0) = h.filterMap (Moment.asked? t 0) := by
    rw [filterMap_concat, asked?_other other, Option.toList_none, List.append_nil]
  cases withdraws with
  | calls idle =>
    refine .calls fun μ' member => ?_
    rcases List.mem_append.mp member with member | member
    · exact idle μ' member
    · rw [List.mem_singleton.mp member]
      exact other
  | asking asking cancelled noted told =>
    refine .asking (same ▸ asking) (later.state? cancelled (by simp)) ?_ (same ▸ told)
    intro μ' member stepped
    rw [same]
    rcases List.mem_append.mp member with member | member
    · exact noted μ' member stepped
    · rw [List.mem_singleton.mp member] at stepped
      exact absurd stepped other

end


theorem asked?_idle (idle : ∀ μ ∈ h, μ.thread ≠ t) : h.filterMap (Moment.asked? t 0) = [] :=
  List.filterMap_eq_nil_iff.mpr fun μ member => asked?_other (idle μ member)

/-- The cancel finds the merge pending, and goes on to the replicas. -/
theorem Withdraws.call {s₀ : Records V} {cell : Cell (Option V) (Task (Work V))}
    {record : Merge (Option V) (Work V)} (idle : ∀ μ ∈ h, μ.thread ≠ t)
    (calling : ⟨μ.result, μ.frame :: μ.below⟩ =
      Thread.ofCall (V := Option V) (κ := Work V) (.cancel members.length))
    (there : μ.store.results[members.length]? = some ⟨cell, .merge record⟩)
    (pending : cell.state = .pending) (queue : cell.queue = [])
    (sources : record.gathering.sources = List.range members.length)
    (yields : μ.Yields client e calls) :
    Withdraws members t s₀ (h ++ [μ]) e.store ⟨e.result, e.frames ++ μ.below⟩ := by
  obtain ⟨s, t', result, frame, below⟩ := μ
  cases calling
  obtain ⟨-, effect⟩ := yields.effect (by simp) (by simp)
  obtain ⟨x', there', -, effect⟩ := Store.locking_eq_some effect
  cases there.symm.trans there'
  simp only [Cell.transition, pending, State.isPending, if_true, queue, sources] at effect
  cases effect
  have nobody : (h ++ [Moment.mk s t' (.ok .unit) (.call (.cancel members.length)) []]).filterMap
      (Moment.asked? t 0) = [] := by
    rw [filterMap_concat, asked?_idle idle]
    simp [Moment.asked?, Moment.at?]
  refine .asking ?_ (Store.state?_set there) ?_ ?_
  · rw [nobody]
    exact .hears rfl rfl
  · intro μ member stepped r frame
    rcases List.mem_append.mp member with member | member
    · exact absurd stepped (idle μ member)
    · rw [List.mem_singleton.mp member] at frame
      cases frame
      exact .inl rfl
  · rw [nobody]
    simp

/-- The cancel goes on with a replica that it has not asked yet. -/
theorem Withdraws.ask {s₀ : Records V} {asked : ResultId → Prop}
    (asking : Asking members.length (h.filterMap (Moment.asked? t 0))
      ⟨μ.result, μ.frame :: μ.below⟩)
    (cancelled : μ.store.state? members.length = some .cancelled)
    (noted : ∀ μ ∈ h, μ.thread = t → ∀ r, μ.frame = .call (.cancel r) → r = members.length ∨
      ∃ state, μ.store.state? r = some state ∧
        (r, state.isPending) ∈ h.filterMap (Moment.asked? t 0))
    (told : ∀ inquiry ∈ h.filterMap (Moment.asked? t 0),
      (∀ member, members[inquiry.1]? = some member → member.state? = none → inquiry.2 = true) ∧
        (s₀.Terminal inquiry.1 → inquiry.2 = false))
    (stepped : μ.thread = t) (answers : Answers members asked μ.store)
    (asks : ∀ r, asked r → ∃ μ ∈ h, μ.thread = t ∧ μ.frame = .call (.cancel r))
    (made : members.length < μ.store.results.length) (later : s₀.Later μ.store)
    (looksOn : μ.LooksOn members.length e) (yields : μ.Yields client e calls) :
    Withdraws members t s₀ (h ++ [μ]) e.store ⟨e.result, e.frames ++ μ.below⟩ := by
  subst stepped
  have inquires (r : ResultId) (frame : μ.frame = .call (.cancel r)) :
      ∃ x, μ.store.results[r]? = some x ∧ r < members.length ∧
        r ∉ (h.filterMap (Moment.asked? μ.thread 0)).map Prod.fst ∧
        μ.asked? μ.thread 0 = some (r, x.cell.state.isPending) := by
    obtain ⟨asked', bound, once⟩ := asking.inquiry frame
    obtain ⟨⟨cell, kind⟩, there⟩ : ∃ x, μ.store.results[r]? = some x :=
      ⟨_, List.getElem?_eq_getElem (Nat.lt_trans bound made)⟩
    cases answers.own r _ there bound
    rw [there, Option.any_some, cancellable_settable] at asked'
    exact ⟨_, there, bound, once, asked'⟩
  refine .asking ?_ (yields.touches.later.state? cancelled (by simp)) ?_ ?_
  · rw [filterMap_concat]
    refine asking.step yields looksOn answers.own fun r x there task member => ?_
    exact (answers.queued r x there task member).symm
  · intro μ' member stepped r frame
    rw [filterMap_concat]
    rcases List.mem_append.mp member with member | member
    · refine (noted μ' member stepped r frame).imp_right fun ⟨state, here, included⟩ => ?_
      exact ⟨state, here, List.mem_append_left _ included⟩
    · cases List.mem_singleton.mp member
      obtain ⟨x, there, -, -, asked'⟩ := inquires r frame
      exact .inr ⟨_, Store.state?_there there, by simp [asked']⟩
  · intro inquiry included
    rw [filterMap_concat, List.mem_append] at included
    rcases included with included | included
    · exact told inquiry included
    · obtain ⟨r, b⟩ := inquiry
      have heard := Option.mem_toList.mp included
      obtain ⟨a, -, frame, -⟩ := Moment.asked?_eq_some heard
      obtain ⟨x, there, bound, once, asked'⟩ := inquires _ frame
      cases heard.symm.trans asked'
      refine ⟨fun member position hangs => ?_, fun ⟨state, before, ended⟩ => ?_⟩
      · -- a replica that hangs ends its result only if it is asked to, and it is asked once
        rcases answers.states _ x member there position with pending | replied | ⟨again, -⟩
        · rw [pending]
          rfl
        · cases hangs.symm.trans replied
        · obtain ⟨μ', member, stepped, frame⟩ := asks _ again
          rcases noted μ' member stepped _ frame with last | ⟨state, -, before⟩
          · exact absurd last (Nat.ne_of_lt bound)
          · exact absurd (List.mem_map_of_mem before) once
      · cases (later.state? before ended).symm.trans (Store.state?_there there)
        cases state : x.cell.state with
        | pending => exact absurd state ended
        | _ => rfl

theorem Unfolds.withdraw (unfolds : Unfolds merge members (fun _ => False) h s)
    (finished : s.answer? 0 = some answer) (some : members ≠ []) :
    Unfolds merge members (· = s.threads.length) h (s.begin (.cancel members.length)) := by
  obtain ⟨-, length, -⟩ := unfolds.over finished
  have bound : members.length < s.store.results.length := by omega
  exact unfolds.begin finished (fun _ => False.elim) (fun _ _ => some) ⟨rfl, Nat.le_refl _⟩
    ⟨.inl bound, trivial, fun _ => rfl⟩

/-- While a replica is silent and none fails, a cancel of the merge goes through its stages on
every schedule. -/
theorem Unfolds.withdraws (unfolds : Unfolds merge members (fun _ => False) h s)
    (finished : s.answer? 0 = some answer)
    (sound : ∀ member ∈ members, ∀ e, member.state? ≠ some (.failed e)) {member : Member V}
    (included : member ∈ members) (silent : member.replies = false)
    (schedule : Schedule client Consults (s.begin (.cancel members.length)) h' s') :
    ∃ thread, s'.threads[s.threads.length]? = some thread ∧
      Withdraws members s.threads.length s.store h' s'.store thread := by
  have begun := unfolds.withdraw finished (List.ne_nil_of_mem included)
  obtain ⟨-, length, -⟩ := unfolds.over finished
  refine schedule.thread (P := fun h s' thread =>
      Withdraws members s.threads.length s.store h s' thread) (System.begin_self s _)
    (.calls (by simp)) (fun {h₁ s₁ μ e calls} before found yields withdraws => ?_)
    (fun later other withdraws => withdraws.other later other)
    (fun later withdraws => withdraws.later later)
  have unfolded := begun.schedule before
  obtain ⟨store, stepped, -⟩ := System.moment?_eq_some found
  obtain ⟨started, stage⟩ := unfolded.stage
  have later : s.store.Later s₁.store := before.store_later
  have made : members.length < s₁.store.results.length :=
    later.there (by rw [length]; exact Nat.lt_succ_self _)
  have alone : ∀ μ ∈ h ++ h₁, ∀ r, μ.frame = .call (.cancel r) →
      μ ∈ h₁ ∧ μ.thread = s.threads.length := by
    intro μ member r frame
    refine ⟨?_, unfolded.only μ member r frame⟩
    rcases List.mem_append.mp member with member | member
    · exact absurd frame (unfolds.calm μ member r)
    · exact member
  generalize same : Thread.mk μ.result (μ.frame :: μ.below) = thread at withdraws
  cases withdraws with
  | calls idle =>
    -- nobody else asks a replica to cancel, so the merge is pending at the first step
    have calm : Calm (h ++ h₁) := fun μ member r frame =>
      idle μ (alone μ member r frame).1 (alone μ member r frame).2
    obtain ⟨⟨cell, kind⟩, there, pending, stands⟩ :=
      unfolded.pends calm made sound included silent
    cases stands with
    | gathers _ _ _ _ merges =>
      obtain ⟨record, rfl, sources⟩ := merges
      have queue := stage.answers.empty there
      rw [← store] at there
      exact .call idle same there pending queue sources yields
    | fails _ _ state => cases pending.symm.trans state
    | @merges values _ state =>
      have ended := State.isPending_ofOutcome (merge values)
      rw [← state, pending] at ended
      cases ended
  | asking asking cancelled noted told =>
    subst same
    have answers := stage.answers
    rw [← store] at answers made later
    exact .ask asking cancelled noted told stepped answers
      (fun r ⟨μ, member, frame⟩ => by
        obtain ⟨member, stepped⟩ := alone μ member r frame
        exact ⟨μ, member, stepped, frame⟩)
      made later (unfolded.looksOn found yields) yields


/-- What a cancel of the merge came to, which thread `t` carried out: it asked every replica, and
its answer tells whether all of their results were pending then. -/
structure Withdrawn (n t : Nat) (h : List (Moment (Option V) (Work V) Unit)) (b : Bool) : Prop where
  asked : ∀ i < n, ∃ μ ∈ h, μ.thread = t ∧ μ.frame = .call (.cancel i)
  granted : b = true ↔ ∀ i < n, ∀ μ ∈ h, μ.thread = t → μ.frame = .call (.cancel i) →
    μ.store.state? i = some .pending

theorem asked?_mem {inquiry : ResultId × Bool}
    (included : inquiry ∈ h.filterMap (Moment.asked? t 0)) :
    ∃ μ ∈ h, μ.thread = t ∧ μ.frame = .call (.cancel inquiry.1) := by
  obtain ⟨μ, member, asked⟩ := List.mem_filterMap.mp included
  obtain ⟨-, -, frame, -⟩ := Moment.asked?_eq_some asked
  refine ⟨μ, member, ?_, frame⟩
  apply Decidable.byContradiction
  intro other
  cases (asked?_other other).symm.trans asked

theorem Withdrawn.of_inquiries {n : Nat} (inquired : h.filterMap (Moment.asked? t 0) = inquiries)
    (order : inquiries.map Prod.fst = List.range n)
    (noted : ∀ μ ∈ h, μ.thread = t → ∀ r, μ.frame = .call (.cancel r) → r = n ∨
      ∃ state, μ.store.state? r = some state ∧ (r, state.isPending) ∈ inquiries) :
    Withdrawn n t h (inquiries.all Prod.snd) := by
  have bound {inquiry : ResultId × Bool} (included : inquiry ∈ inquiries) : inquiry.1 < n :=
    List.mem_range.mp (order ▸ List.mem_map_of_mem included)
  have once {i : Nat} {b b' : Bool} (here : (i, b) ∈ inquiries) (there : (i, b') ∈ inquiries) :
      b = b' := by
    have nodup : (inquiries.map Prod.fst).Nodup := order ▸ List.nodup_range
    exact congrArg Prod.snd (List.inj_on_of_nodup_map nodup here there rfl)
  constructor
  · intro i inside
    have named : i ∈ inquiries.map Prod.fst := order ▸ List.mem_range.mpr inside
    obtain ⟨inquiry, included, rfl⟩ := List.mem_map.mp named
    exact asked?_mem (inquired ▸ included)
  · rw [List.all_eq_true]
    constructor
    · intro all i inside μ member stepped frame
      obtain last | ⟨state, here, included⟩ := noted μ member stepped i frame
      · exact absurd last (Nat.ne_of_lt inside)
      · have pending := all _ included
        cases state <;> first | exact here | cases pending
    · intro all inquiry included
      obtain ⟨μ, member, stepped, frame⟩ := asked?_mem (inquired ▸ included)
      obtain last | ⟨state, here, included'⟩ := noted μ member stepped _ frame
      · exact absurd last (Nat.ne_of_lt (bound included))
      · cases here.symm.trans (all _ (bound included) μ member stepped frame)
        exact (once included' included).symm

/-- The answer of a cancel, once its thread has ended. -/
theorem Withdraws.answers {s₀ s : Records V}
    (withdraws : Withdraws members t s₀ h s ⟨answer, []⟩) :
    s.state? members.length = some .cancelled ∧
      ∃ b, answer = .ok (.flag b) ∧ Withdrawn members.length t h b ∧
        ((∀ member ∈ members, member.state? = none) → b = true) ∧
        ((∃ i < members.length, s₀.Terminal i) → b = false) := by
  generalize same : Thread.mk answer [] = thread at withdraws
  cases withdraws with
  | calls => cases same
  | asking asking cancelled noted told =>
    generalize inquired : h.filterMap (Moment.asked? t 0) = inquiries at asking noted told
    cases asking with
    | waits => simp at same
    | hears | asks | delivers => cases same
    | ended order =>
      cases same
      refine ⟨cancelled, _, rfl, .of_inquiries inquired order noted, fun hang => ?_,
        fun ⟨i, inside, ended⟩ => ?_⟩
      · refine List.all_eq_true.mpr fun inquiry included => ?_
        have bound := List.mem_range.mp (order ▸ List.mem_map_of_mem included)
        have position := List.getElem?_eq_getElem bound
        exact (told inquiry included).1 _ position (hang _ (List.getElem_mem _))
      · have named : i ∈ inquiries.map Prod.fst := order ▸ List.mem_range.mpr inside
        obtain ⟨inquiry, included, rfl⟩ := List.mem_map.mp named
        have refused := (told inquiry included).2 ended
        apply Bool.eq_false_iff.mpr
        intro all
        cases refused.symm.trans (List.all_eq_true.mp all inquiry included)

/-- A cancel of the merge goes on until it has ended. -/
theorem Withdraws.going {s₀ s : Records V} (withdraws : Withdraws members t s₀ h s
    ⟨μ.result, μ.frame :: μ.below⟩) (r : ResultId) (timeout : Option Duration)
    (deadline : Option Nat) (entry : Bool) : μ.frame ≠ .wait r timeout deadline entry := by
  generalize same : Thread.mk μ.result (μ.frame :: μ.below) = thread at withdraws
  cases withdraws with
  | calls =>
    intro waits
    simp [waits, Thread.ofCall] at same
  | asking asking =>
    subst same
    exact asking.unasking r timeout deadline entry

end Quorate.Replica
