import Quorate.Proofs.Replica.Stage
import Quorate.Proofs.System.Layered

/-! How the threads of a reading go on. Whatever the order of their steps, each goes through its own
stages. -/

set_option autoImplicit false

namespace Quorate

variable {V κ σ : Type}

theorem Frame.Looks.apart {m i : ResultId} {frame : Frame V κ} (looks : frame.Looks m i) :
    (∀ c, frame ≠ .call (.fork c)) ∧ ∀ t d, frame ≠ .joining t d := by
  refine ⟨?_, ?_⟩
  · rintro c rfl
    exact looks
  · rintro t d rfl
    exact looks

/-- A frame that looks at a source of a merge comes after the merge, unless it has only to tell that
a result has ended. -/
theorem Frame.Looks.after {m i : ResultId} {frame : Frame V κ} {s : Store V κ σ}
    (looks : frame.Looks m i) (layered : frame.Layered s) :
    i < m ∧ m < s.results.length ∨ ∃ r reply, frame = .deliver r [] none reply := by
  have plain {task : Task κ} (plain : task.Plain s) (same : task = ⟨.observe m i, .inline⟩) :
      m < s.results.length := by
    obtain ⟨merge, index, size, equal, isMerge⟩ := plain
    cases equal.symm.trans same
    exact isMerge.there
  rcases layered with here | outer
  · cases frame with
    | call c =>
      cases c with
      | register r task => exact .inl ⟨looks.1, plain here.2 looks.2.2⟩
      | perform task => exact .inl ⟨looks.1, plain here looks.2⟩
      | _ => exact looks.elim
    | start callback =>
      obtain ⟨bound, rfl⟩ := looks
      obtain ⟨size, isMerge⟩ := here
      exact .inl ⟨bound, isMerge.there⟩
    | lookup merge index =>
      obtain ⟨bound, rfl, rfl⟩ := looks
      obtain ⟨size, isMerge⟩ := here
      exact .inl ⟨bound, isMerge.there⟩
    | commit merge index =>
      obtain ⟨bound, rfl, rfl⟩ := looks
      obtain ⟨size, isMerge⟩ := here
      exact .inl ⟨bound, isMerge.there⟩
    | query merge index source =>
      obtain ⟨bound, rfl, rfl, rfl⟩ := looks
      obtain ⟨⟨size, isMerge⟩, -⟩ := here
      exact .inl ⟨bound, isMerge.there⟩
    | deliver r tasks first reply =>
      obtain ⟨rfl, all⟩ := looks
      cases tasks with
      | nil => exact .inr ⟨r, reply, rfl⟩
      | cons task tasks =>
        obtain ⟨bound, same⟩ := all task List.mem_cons_self
        exact .inl ⟨bound, plain (here.2 task List.mem_cons_self) same⟩
    | _ => exact looks.elim
  · cases frame with
    | call c => cases c <;> first | exact looks.elim | exact outer.elim
    | _ => first | exact looks.elim | exact outer.elim

/-- A step of a frame that looks at the source `i` of `m`. -/
def Moment.LooksOn (m : ResultId) (μ : Moment V κ σ) (e : Effect V κ σ) : Prop :=
  ∀ i a, μ.frame.Looks m i → μ.result = .ok a →
    (∃ b, e.result = .ok b) ∧ ∀ f ∈ e.frames, f.Looks m i

theorem Frame.Looks.not_client {m i : ResultId} {frame : Frame V κ} (looks : frame.Looks m i)
    (code : κ) : frame ≠ .client code := by
  rintro rfl
  exact looks

/-- A frame that neither asks a result to cancel nor waits for one. -/
def Frame.Unasking (frame : Frame V κ) : Prop :=
  (∀ r, frame ≠ .call (.cancel r)) ∧
    ∀ r timeout deadline entry, frame ≠ .wait r timeout deadline entry

/-- A frame that makes no result either. -/
def Frame.Modest (frame : Frame V κ) : Prop :=
  frame.Unasking ∧ ∀ result, frame.made? result = none

theorem Frame.Looks.modest {m i : ResultId} {frame : Frame V κ} (looks : frame.Looks m i) :
    frame.Modest := by
  refine ⟨⟨?_, ?_⟩, fun result => ?_⟩
  · rintro r rfl
    exact looks
  · rintro r timeout deadline entry rfl
    exact looks
  · cases frame with
    | call c => cases result <;> cases c <;> first | rfl | exact looks.elim
    | _ => cases result <;> rfl

theorem Moment.call?_eq_none {client : Client V κ σ} {μ : Moment V κ σ}
    (apart : ∀ code, μ.frame ≠ .client code) : μ.call? client = none := by
  unfold call?
  split
  next code _ frame => exact absurd frame (apart code)
  next => rfl

namespace Replica

/-- What a step of a reading keeps to: how it changes results, and which calls it makes. -/
structure Behaves (members : List (Member V)) (asked : ResultId → Prop)
    (μ : Moment (Option V) (Work V) Unit) : Prop where
  heeds : Heeds members asked μ.store μ.frame
  rule : ∀ c, μ.call? client = some c → c.Layered μ.store ∧ c.Blind members.length μ.store

section

variable {members : List (Member V)} {asked : ResultId → Prop} {m i : ResultId} {member : Member V}
  {μ : Moment (Option V) (Work V) Unit} {e : Effect (Option V) (Work V) Unit}
  {calls : List (Call (Option V) (Work V))}

/-- A frame without client code makes no calls of its own. -/
theorem Behaves.silent (heeds : Heeds members asked μ.store μ.frame)
    (apart : ∀ code, μ.frame ≠ .client code) : Behaves members asked μ := by
  refine ⟨heeds, fun c made => ?_⟩
  rw [Moment.call?_eq_none apart] at made
  cases made

theorem Behaves.of_looks (looks : μ.frame.Looks members.length i) : Behaves members asked μ := by
  refine .silent ?_ looks.not_client
  generalize μ.frame = frame at looks ⊢
  cases frame with
  | call c =>
    cases c with
    | register r task =>
      obtain ⟨bound, rfl, same⟩ := looks
      exact ⟨same, bound⟩
    | create | complete | build | cancel => exact looks.elim
    | _ => trivial
  | commit merge index => exact List.ne_nil_of_length_pos (Nat.zero_lt_of_lt looks.1)
  | _ => trivial

theorem Replies.behaves (asked : ResultId → Prop)
    (replies : Replies members.length i member μ.store ⟨μ.result, μ.frame :: μ.below⟩)
    (position : members[i]? = some member) (there : i < μ.store.results.length)
    (own : ∀ x, μ.store.results[i]? = some x → x.kind = .settable) :
    Behaves members asked μ ∧ μ.frame.Modest := by
  have modest {frame : Frame (Option V) (Work V)} (unasking : frame.Unasking)
      (made : ∀ a, frame.made? (.ok a) = none) : frame.Modest :=
    ⟨unasking, fun result => by cases result <;> first | exact made _ | rfl⟩
  obtain ⟨s, t, result, frame, below⟩ := μ
  dsimp only at *
  generalize same : Thread.mk result (frame :: below) = thread at replies
  cases replies with
  | begins =>
    cases same
    exact ⟨.silent trivial (by simp), modest ⟨by simp, by simp⟩ fun _ => rfl⟩
  | delays =>
    cases same
    refine ⟨⟨trivial, fun c made => ?_⟩, modest ⟨by simp, by simp⟩ fun _ => rfl⟩
    cases made
    exact ⟨.inr trivial, trivial, fun _ => rfl⟩
  | sleeps =>
    cases same
    exact ⟨.silent trivial (by simp), modest ⟨by simp, by simp⟩ fun _ => rfl⟩
  | sleeping =>
    cases same
    exact ⟨.silent trivial (by simp), modest ⟨by simp, by simp⟩ fun _ => rfl⟩
  | wakes =>
    cases same
    refine ⟨⟨trivial, fun c made => ?_⟩, modest ⟨by simp, by simp⟩ fun _ => rfl⟩
    simp only [Moment.call?, client, Work.resume] at made
    cases replied : member.state? with
    | none =>
      have replied : member.replica.state? member.origin = none := replied
      rw [replied] at made
      cases made
    | some state =>
      have ended := member.terminal replied
      have replied : member.replica.state? member.origin = some state := replied
      rw [replied] at made
      cases made
      have takes : s.Takes i state := by
        refine ⟨s.results[i], List.getElem?_eq_getElem there, ?_⟩
        rw [Result.Takes, own _ (List.getElem?_eq_getElem there)]
        exact ended
      exact ⟨.inl takes, takes, fun _ => rfl⟩
  | @completes state replied =>
    cases same
    refine ⟨.silent (fun member' position' => ?_) (by simp), modest ⟨by simp, by simp⟩ fun _ => rfl⟩
    cases position.symm.trans position'
    exact replied
  | @delivers a above all terminal =>
    cases above with
    | nil =>
      cases same
      refine ⟨⟨trivial, fun c made => ?_⟩, modest ⟨by simp, by simp⟩ fun _ => rfl⟩
      cases made
    | cons f above =>
      cases same
      have looks := all frame List.mem_cons_self
      exact ⟨.of_looks looks, looks.modest⟩
  | ended => cases same

theorem Replies.later {thread : Thread (Option V) (Work V)} {s s' : Records V}
    (replies : Replies m i member s thread) (later : s.Later s') :
    Replies m i member s' thread := by
  cases replies with
  | begins => exact .begins
  | delays => exact .delays
  | sleeps => exact .sleeps
  | sleeping => exact .sleeping
  | wakes => exact .wakes
  | completes replied => exact .completes replied
  | delivers above terminal => exact .delivers above (later.terminal terminal)
  | ended finished => exact .ended (finished.imp_right later.terminal)

/-- A replica has no callbacks for the result of another. -/
theorem Replies.watches {thread : Thread (Option V) (Work V)} {s : Records V} {j : ResultId}
    (replies : Replies m i member s thread) (other : i ≠ j) {f : Frame (Option V) (Work V)}
    (included : f ∈ thread.frames) : f.watches m j = 0 := by
  cases replies with
  | delivers above =>
    rcases List.mem_append.mp included with included | included
    · exact (above f included).watches other
    · rw [List.mem_singleton.mp included]
      rfl
  | ended => cases included
  | _ =>
    simp only [List.mem_cons, List.not_mem_nil, or_false] at included
    rcases included with rfl | rfl <;> rfl

theorem Replies.step
    (replies : Replies m i member μ.store ⟨μ.result, μ.frame :: μ.below⟩)
    (yields : μ.Yields client e calls) (looksOn : μ.LooksOn m e)
    (own : ∀ x, μ.store.results[i]? = some x →
      ∀ task ∈ x.cell.queue, task = ⟨.observe m i, .inline⟩ ∧ i < m) :
    calls = [] ∧ Replies m i member e.store ⟨e.result, e.frames ++ μ.below⟩ := by
  have later := yields.touches.later
  obtain ⟨s, t, result, frame, below⟩ := μ
  dsimp only at *
  generalize same : Thread.mk result (frame :: below) = thread at replies
  cases replies with
  | begins =>
    cases same
    obtain ⟨rfl, effect⟩ := yields.effect (by simp) (by simp)
    cases effect
    exact ⟨rfl, .delays⟩
  | delays =>
    cases same
    obtain ⟨rfl, effect⟩ := yields.effect (by simp) (by simp)
    cases effect
    exact ⟨rfl, .sleeps⟩
  | sleeps =>
    cases same
    obtain ⟨rfl, effect⟩ := yields.effect (by simp) (by simp)
    cases effect
    exact ⟨rfl, .sleeping⟩
  | sleeping =>
    cases same
    obtain ⟨rfl, effect⟩ := yields.effect (by simp) (by simp)
    simp only [Store.resume, Store.proceed] at effect
    split at effect <;> cases effect
    exact ⟨rfl, .wakes⟩
  | wakes =>
    cases same
    obtain ⟨rfl, effect⟩ := yields.effect (by simp) (by simp)
    refine ⟨rfl, ?_⟩
    simp only [Store.resume, Store.proceed, client, Work.resume] at effect
    cases replied : member.state? with
    | none =>
      have replied : member.replica.state? member.origin = none := replied
      rw [replied] at effect
      cases effect
      exact .ended (.inl replied)
    | some state =>
      have replied : member.replica.state? member.origin = some state := replied
      rw [replied] at effect
      cases effect
      exact .completes replied
  | @completes state replied =>
    cases same
    obtain ⟨rfl, effect⟩ := yields.effect (by simp) (by simp)
    refine ⟨rfl, ?_⟩
    obtain ⟨x, found, -, effect⟩ := Store.locking_eq_some effect
    unfold Store.completing at effect
    split at effect
    next ended =>
      cases effect
      have terminal := (Cell.transition_eq_none_iff _ _).mp ended
      -- the result was cancelled in the meantime
      have above : ∀ f ∈ ([] : List (Frame (Option V) (Work V))), f.Looks m i := by simp
      refine .delivers above ⟨_, Store.state?_there found, ?_⟩
      rintro pending
      rw [pending] at terminal
      cases terminal
    next cell tasks next =>
      obtain ⟨-, rfl, rfl⟩ := (Cell.transition_eq_some_iff _ _ _ _).mp next
      cases effect
      have above : ∀ f ∈ ([.deliver i x.cell.queue none (.flag true)] :
          List (Frame (Option V) (Work V))), f.Looks m i := by
        intro f included
        rw [List.mem_singleton.mp included]
        exact ⟨rfl, fun task queued => (own x found task queued).symm⟩
      refine .delivers above ⟨state, Store.state?_set found, ?_⟩
      rintro rfl
      cases member.terminal replied
  | @delivers a above all terminal =>
    cases above with
    | nil =>
      cases same
      obtain ⟨rfl, effect⟩ := yields.effect (by simp) (by simp)
      cases effect
      exact ⟨rfl, .ended (.inr (later.terminal terminal))⟩
    | cons f above =>
      cases same
      have looks := all frame List.mem_cons_self
      obtain ⟨rfl, -⟩ := yields.effect looks.apart.1 looks.apart.2
      obtain ⟨⟨b, answered⟩, next⟩ := looksOn i a looks rfl
      refine ⟨rfl, ?_⟩
      rw [answered, List.append_eq, ← List.append_assoc]
      refine .delivers (fun f included => ?_) (later.terminal terminal)
      rcases List.mem_append.mp included with included | included
      · exact next f included
      · exact all f (List.mem_cons_of_mem _ included)
  | ended => cases same

variable {cancelling : Prop}

theorem Outside.of_looks {frame : Frame (Option V) (Work V)} (may : cancelling)
    (looks : frame.Looks m i) : Outside m cancelling frame := by
  cases frame with
  | call c =>
    cases c with
    | get | cancel => exact looks.elim
    | _ => exact ⟨may, i, looks⟩
  | read | wait | sweep => exact looks.elim
  | _ => exact ⟨may, i, looks⟩

/-- Without a cancel nothing from outside has callbacks of the merge. -/
theorem Outside.unwatched {frame : Frame (Option V) (Work V)} (outside : Outside m False frame)
    (j : ResultId) : frame.watches m j = 0 := by
  cases frame with
  | call c =>
    cases c with
    | get => rfl
    | _ => exact outside.1.elim
  | read | wait => rfl
  | _ => exact outside.1.elim

theorem Outside.behaves (asked : ResultId → Prop)
    (outside : Outside members.length cancelling μ.frame)
    (noted : ∀ r, μ.frame = .call (.cancel r) → asked r) :
    Behaves members asked μ ∧ (∀ result, μ.frame.made? result = none) ∧
      ((∃ r, μ.frame = .call (.cancel r)) → cancelling) := by
  obtain ⟨s, t, result, frame, below⟩ := μ
  dsimp only at *
  have looking {i : ResultId} (looks : frame.Looks members.length i) :
      Behaves members asked ⟨s, t, result, frame, below⟩ ∧
        (∀ result, frame.made? result = none) ∧
        ((∃ r, frame = .call (.cancel r)) → cancelling) :=
    ⟨.of_looks looks, looks.modest.2, fun ⟨r, same⟩ => absurd same (looks.modest.1.1 r)⟩
  cases frame with
  | call c =>
    cases c with
    | get r timeout =>
      exact ⟨.silent trivial (by simp), fun result => by cases result <;> rfl, by simp⟩
    | cancel r =>
      exact ⟨.silent (noted r rfl) (by simp), fun result => by cases result <;> rfl,
        fun _ => outside.1⟩
    | _ =>
      obtain ⟨-, i, looks⟩ := outside
      exact looking looks
  | read | wait | sweep =>
    exact ⟨.silent trivial (by simp), fun result => by cases result <;> rfl, by simp⟩
  | _ =>
    obtain ⟨-, i, looks⟩ := outside
    exact looking looks

/-- A thread that was begun from outside goes on without a panic. -/
theorem Outside.step {a : Answer (Option V)} (outside : Outside members.length cancelling μ.frame)
    (answered : μ.result = .ok a) (yields : μ.Yields client e calls)
    (looksOn : μ.LooksOn members.length e) (answers : Answers members asked μ.store)
    (own : ∀ (r : ResultId) x, μ.store.results[r]? = some x → x.isForeign = false)
    (record : cancelling → ∀ cell merge,
      μ.store.results[members.length]? = some ⟨cell, .merge merge⟩ →
        ∀ i ∈ merge.gathering.sources, i < members.length) :
    calls = [] ∧ (∃ b, e.result = .ok b) ∧
      ∀ f ∈ e.frames, Outside members.length cancelling f := by
  have looking {i : ResultId} (may : cancelling) (looks : μ.frame.Looks members.length i) :
      calls = [] ∧ (∃ b, e.result = .ok b) ∧
        ∀ f ∈ e.frames, Outside members.length cancelling f := by
    obtain ⟨rfl, -⟩ := yields.effect looks.apart.1 looks.apart.2
    obtain ⟨ok, next⟩ := looksOn i a looks answered
    exact ⟨rfl, ok, fun f member => .of_looks may (next f member)⟩
  obtain ⟨s, t, result, frame, below⟩ := μ
  dsimp only at *
  subst answered
  -- a result that ends hands its callbacks over, and they let the merge look at it
  have delivers {r : ResultId} {x : Result (Option V) (Work V)} {state : State (Option V)}
      (may : cancelling) (found : s.results[r]? = some x)
      (effect : s.completing r x state (.flag true) = some e) :
      (∃ b, e.result = .ok b) ∧
        ∀ f ∈ e.frames, Outside members.length cancelling f := by
    unfold Store.completing at effect
    split at effect
    next => cases effect; exact ⟨⟨_, rfl⟩, by simp⟩
    next cell tasks next =>
      obtain ⟨-, -, rfl⟩ := (Cell.transition_eq_some_iff _ _ _ _).mp next
      cases effect
      refine ⟨⟨_, rfl⟩, fun f member => ?_⟩
      rw [List.mem_singleton.mp member]
      exact ⟨may, r, rfl, fun task included => (answers.queued r x found task included).symm⟩
  cases frame with
  | call c =>
    cases c with
    | get r timeout =>
      obtain ⟨rfl, effect⟩ := yields.effect (by simp) (by simp)
      obtain ⟨x, found, ⟨foreign, -⟩ | ⟨-, rfl⟩⟩ := Store.enter_get_eq_some effect
      · cases (own r x found).symm.trans foreign
      refine ⟨rfl, ⟨_, rfl⟩, fun f member => ?_⟩
      rw [List.mem_singleton.mp member]
      exact outside
    | cancel r =>
      obtain ⟨may, bound⟩ := outside
      obtain ⟨rfl, effect⟩ := yields.effect (by simp) (by simp)
      refine ⟨rfl, ?_⟩
      obtain ⟨⟨cell, kind⟩, found, -, effect⟩ := Store.locking_eq_some effect
      cases kind with
      | settable => exact delivers may found effect
      | latch => cases effect; exact ⟨⟨_, rfl⟩, by simp⟩
      | merge merge =>
        simp only at effect
        split at effect
        next => cases effect; exact ⟨⟨_, rfl⟩, by simp⟩
        next cell' tasks next =>
          obtain ⟨-, -, rfl⟩ := (Cell.transition_eq_some_iff _ _ _ _).mp next
          cases effect
          refine ⟨⟨_, rfl⟩, fun f member => ?_⟩
          rw [List.mem_singleton.mp member]
          rcases Nat.lt_or_eq_of_le bound with inside | rfl
          · cases answers.own r _ found inside
          · exact ⟨may, rfl, record may _ _ found, answers.empty found⟩
      | foreign => cases own r _ found
    | _ =>
      obtain ⟨may, i, looks⟩ := outside
      exact looking may looks
  | read r timeout deadline =>
    obtain ⟨rfl, effect⟩ := yields.effect (by simp) (by simp)
    obtain ⟨x, -, -, effect⟩ := Store.locking_eq_some effect
    cases effect
    refine ⟨rfl, ⟨_, rfl⟩, fun f member => ?_⟩
    rw [List.mem_singleton.mp member]
    exact outside
  | wait r timeout deadline entry =>
    obtain ⟨rfl, effect⟩ := yields.effect (by simp) (by simp)
    refine ⟨rfl, ?_⟩
    obtain ⟨x, -, -, effect⟩ := Store.locking_eq_some effect
    split at effect
    next => cases effect; exact ⟨⟨_, rfl⟩, by simp⟩
    next => split at effect <;> cases effect; exact ⟨⟨_, rfl⟩, by simp⟩
    next => cases effect
  | sweep r rest all tasks =>
    obtain ⟨may, rfl, bound, rfl⟩ := outside
    obtain ⟨rfl, effect⟩ := yields.effect (by simp) (by simp)
    refine ⟨rfl, ?_⟩
    cases a with
    | flag b =>
      cases rest with
      | nil =>
        cases effect
        refine ⟨⟨_, rfl⟩, fun f member => ?_⟩
        rw [List.mem_singleton.mp member]
        exact ⟨may, 0, rfl, by simp⟩
      | cons source rest =>
        cases effect
        refine ⟨⟨_, rfl⟩, fun f member => ?_⟩
        simp only [List.mem_cons, List.not_mem_nil, or_false] at member
        rcases member with rfl | rfl
        · exact ⟨may, Nat.le_of_lt (bound source List.mem_cons_self)⟩
        · exact ⟨may, rfl, fun i member => bound i (List.mem_cons_of_mem _ member), rfl⟩
    | _ => cases effect
  | _ =>
    obtain ⟨may, i, looks⟩ := outside
    exact looking may looks

end

end Replica

end Quorate
