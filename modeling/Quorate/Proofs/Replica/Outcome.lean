import Quorate.Proofs.Replica.Reading

/-! What a reading comes to. The threads may take their steps in any order; when those have ended
that ever do, the replies of the replicas alone decide what the merge holds. -/

set_option autoImplicit false

namespace Quorate.Replica

variable {V : Type} {merge : List (Option V) → Outcome (Option V)} {members : List (Member V)}
  {cancels : Nat → Prop} {s : Reading V} {h : List (Moment (Option V) (Work V) Unit)} {i : Nat}
  {member : Member V} {answer : Return (Option V)}

theorem Unfolds.full (unfolds : Unfolds merge members cancels h s)
    (finished : s.answer? 0 = some answer) :
    Stage merge members cancels (fun r => ∃ μ ∈ h, μ.frame = .call (.cancel r)) members.length
      s := by
  obtain ⟨started, stage⟩ := unfolds.stage
  obtain ⟨thread, here, reads, -⟩ := stage.reader
  cases here.symm.trans (System.answer?_eq_some_iff.mp finished)
  generalize s.store.results.length = made at reads
  generalize same : Thread.mk answer [] = thread at reads
  cases reads with
  | ended => exact stage
  | attaches => simp at same
  | _ => cases same

/-- Nobody has been asked to cancel. -/
def Calm (h : List (Moment (Option V) (Work V) Unit)) : Prop :=
  ∀ μ ∈ h, ∀ r, μ.frame ≠ .call (.cancel r)

theorem Unfolds.calm (unfolds : Unfolds merge members (fun _ => False) h s) : Calm h :=
  fun μ member r frame => unfolds.only μ member r frame

section

variable (unfolds : Unfolds merge members cancels h s) (calm : Calm h)
include unfolds calm

/-- A replica's result is pending, or as the replica left it. -/
theorem Unfolds.left (position : members[i]? = some member) {state : State (Option V)}
    (here : s.store.state? i = some state) : state = .pending ∨ member.state? = some state := by
  obtain ⟨started, stage⟩ := unfolds.stage
  obtain ⟨x, there, rfl⟩ := Option.map_eq_some_iff.mp here
  rcases stage.answers.states i x member there position with
    pending | left | ⟨⟨μ, member, frame⟩, -⟩
  · exact .inl pending
  · exact .inr left
  · exact absurd frame (calm μ member i)

theorem Unfolds.gives (position : members[i]? = some member) {o : Outcome (Option V)}
    (gives : s.store.Gives i o) : member.state? = some (.ofOutcome o) := by
  obtain ⟨⟨cell, kind⟩, there, -, kept, outcome⟩ := gives
  obtain ⟨started, stage⟩ := unfolds.stage
  cases stage.answers.own i _ there (List.getElem?_eq_some_iff.mp position).1
  have kept : cell.state.isCancelled = false := kept
  have ended : cell.state = .ofOutcome o := by
    generalize cell.state = state at kept outcome
    cases state <;> cases outcome <;> first | rfl | cases kept
  rcases unfolds.left calm position (Store.state?_there there) with pending | left
  · rw [pending] at outcome
    cases outcome
  · rw [left, ← ended]

end

/-- All of some replicas reply, with these values. -/
def Reply (members : List (Member V)) (values : List (Option V)) : Prop :=
  List.Forall₂ (fun member v => member.state? = some (.succeeded v)) members values

theorem Reply.given {values : List (Option V)} (all : Reply members values) :
    ∀ member ∈ members, ∃ v, member.state? = some (.succeeded v) := by
  induction all with
  | nil => simp
  | cons replies _ ih =>
    intro member included
    rcases List.mem_cons.mp included with rfl | included
    · exact ⟨_, replies⟩
    · exact ih member included

theorem Reply.unique {values values' : List (Option V)} (all : Reply members values)
    (all' : Reply members values') : values = values' := by
  refine List.right_unique_forall₂' ?_ all all'
  intro member v v' replies replies'
  cases replies.symm.trans replies'
  rfl

/-- How the merge of some replicas stands that nobody has cancelled. -/
inductive Standing (merge : List (Option V) → Outcome (Option V)) (members : List (Member V))
    (s : Reading V) (x : Result (Option V) (Work V)) : Prop where
  | gathers {values : List (Option (Option V))} :
      x.cell.state = .pending → x.completed? = some ((values.map Option.isSome).count true) →
      values.length = members.length → none ∈ values →
      (∃ record, x.kind = .merge record ∧
        record.gathering.sources = List.range members.length) →
      (∀ (i : Nat) v, values[i]? = some (some v) → s.store.Gives i (.ok v)) →
      (∀ (i : Nat) o, i < members.length → s.weight (Frame.watches members.length i) = 0 →
        s.store.Gives i o → ∃ v, values[i]? = some (some v) ∧ o = .ok v) →
      Standing merge members s x
  | fails {member : Member V} {e : Error} : member ∈ members → member.state? = some (.failed e) →
      x.cell.state = .failed e → Standing merge members s x
  | merges {values : List (Option V)} : Reply members values →
      x.cell.state = .ofOutcome (merge values) → x.completed? = some members.length →
      Standing merge members s x

theorem Unfolds.stands (unfolds : Unfolds merge members cancels h s) (calm : Calm h)
    (some : members ≠ []) (made : members.length < s.store.results.length) :
    ∃ x, s.store.results[members.length]? = Option.some x ∧ Standing merge members s x := by
  obtain ⟨h', p, part, follows, counted⟩ := unfolds.follows some made
  obtain ⟨x, there, shows⟩ := follows.shows
  refine ⟨x, there, ?_⟩
  -- the sources of the merge are the results of the replicas, by position
  have source {i r : ResultId} (position : (List.range members.length)[i]? = Option.some r) :
      i = r ∧ ∃ member, members[i]? = Option.some member := by
    obtain ⟨bound, rfl⟩ := List.getElem?_eq_some_iff.mp position
    rw [List.getElem_range]
    exact ⟨rfl, _, List.getElem?_eq_getElem (by simpa using bound)⟩
  rcases follows.settles with
    ⟨values, rfl, gathers⟩ | ⟨event, reached, state, called, rfl⟩ | ⟨values, all, rfl, called⟩
  · have length : values.length = members.length := by
      rw [gathers.collected.length, List.length_range]
    have kind : ∃ record, x.kind = .merge record ∧
        record.gathering.sources = List.range members.length := by
      cases shows with
      | gathering => exact ⟨_, rfl, rfl⟩
    refine .gathers shows.state shows.counts length gathers.some_missing kind
      (fun i v arrived => ?_) fun i o bound unwatched gives => ?_
    · obtain ⟨r, position, gives⟩ :=
        follows.spoken i (.ok v) (gathers.collected.arrived i v arrived)
      obtain ⟨rfl, -⟩ := source position
      exact gives
    · exact follows.gathered unwatched rfl gathers (List.getElem?_range bound) gives
  · unfold Event.verdict? at called
    split at called
    next i e =>
      cases called
      obtain ⟨r, position, gives⟩ := follows.spoken i (.error e) reached
      obtain ⟨rfl, member, position⟩ := source position
      exact .fails (List.mem_of_getElem? position) (unfolds.gives calm position gives) shows.state
    next =>
      obtain ⟨μ, member, event⟩ := List.mem_filterMap.mp reached
      exact absurd (Moment.event?_cancelled event) (calm μ (part.subset member) _)
    next => cases called
  · refine .merges (List.forall₂_iff_get.mpr ⟨?_, fun i bound bound' => ?_⟩) shows.state ?_
    · rw [← all.length_eq, List.length_range]
    · have inside : i < (List.range members.length).length := by simpa using bound
      have gives := (List.forall₂_iff_get.mp all).2 i inside bound'
      simp only [List.get_eq_getElem, List.getElem_range] at gives ⊢
      exact unfolds.gives calm (List.getElem?_eq_getElem bound) gives
    · exact counted x there (by simp [called])

section

variable (unfolds : Unfolds merge members (fun _ => False) h s)
  (finished : s.answer? 0 = some answer) (position : members[i]? = some member)
  {ended : Return (Option V)} (done : s.answer? (i + 1) = some ended)
include unfolds finished position done

/-- Once the thread of a replica has ended, its result is as the replica left it. -/
theorem Unfolds.replied : s.store.state? i = some (member.state?.getD .pending) := by
  have stage := unfolds.full finished
  have bound := (List.getElem?_eq_some_iff.mp position).1
  obtain ⟨member', thread, position', here, replies⟩ := stage.replicas i bound
  cases position.symm.trans position'
  cases here.symm.trans (System.answer?_eq_some_iff.mp done)
  have silent : member.state? = none ∨ s.store.Terminal i := by
    generalize same : Thread.mk ended [] = thread at replies
    cases replies with
    | ended silent => exact silent
    | delivers => simp at same
    | _ => cases same
  rcases silent with silent | ⟨state, here, ended⟩
  · have there := List.getElem?_eq_getElem (stage.result bound)
    have here := Store.state?_there there
    rcases unfolds.left unfolds.calm position here with pending | left
    · rw [here, pending, silent]
      rfl
    · cases silent.symm.trans left
  · rcases unfolds.left unfolds.calm position here with pending | left
    · exact absurd pending ended
    · rw [here, left]
      rfl

/-- The result of a replica gives what the replica moved it to. -/
theorem Unfolds.given {o : Outcome (Option V)} (moves : member.state? = some (.ofOutcome o)) :
    s.store.Gives i o := by
  have here := unfolds.replied finished position done
  rw [moves] at here
  obtain ⟨⟨cell, kind⟩, there, same⟩ := Option.map_eq_some_iff.mp here
  cases (unfolds.full finished).answers.own i _ there (List.getElem?_eq_some_iff.mp position).1
  have same : cell.state = .ofOutcome o := same
  refine ⟨_, there, rfl, ?_, by rw [same, State.outcome?_ofOutcome]⟩
  show cell.state.isCancelled = false
  rw [same]
  cases o <;> rfl

/-- The merge has looked at the result of a replica whose thread has ended, if it will. -/
theorem Unfolds.unwatched : s.weight (Frame.watches members.length i) = 0 := by
  have stage := unfolds.full finished
  apply System.weight_eq_zero_iff.mpr
  intro thread included f here
  obtain ⟨t, selected⟩ := List.mem_iff_getElem?.mp included
  rcases Nat.lt_or_ge members.length t with outside | inside
  · exact ((stage.others t thread outside selected).2 f here).unwatched i
  · cases t with
    | zero =>
      cases selected.symm.trans (System.answer?_eq_some_iff.mp finished)
      cases here
    | succ j =>
      obtain ⟨member', thread', position', there, replies⟩ := stage.replicas j inside
      cases selected.symm.trans there
      by_cases same : j = i
      · subst same
        cases selected.symm.trans (System.answer?_eq_some_iff.mp done)
        cases here
      · exact replies.watches same here

end

/-- Whether a replica replies. -/
def Member.replies (member : Member V) : Bool :=
  match member.state? with
  | some (.succeeded _) => true
  | _ => false

theorem Member.replies_iff {member : Member V} :
    member.replies = true ↔ ∃ v, member.state? = some (.succeeded v) := by
  unfold replies
  split
  next v replies => simp [replies]
  next other =>
    simp only [Bool.false_eq_true, false_iff, not_exists]
    exact other

/-- If a replica fails, a failure decides the merge. -/
theorem Unfolds.failed (unfolds : Unfolds merge members (fun _ => False) h s)
    (finished : s.answer? 0 = some answer) (position : members[i]? = some member) {e : Error}
    (fails : member.state? = some (.failed e)) {ended : Return (Option V)}
    (done : s.answer? (i + 1) = some ended) :
    ∃ member' ∈ members, ∃ e', member'.state? = some (.failed e') ∧
      s.store.state? members.length = some (.failed e') := by
  have bound := (List.getElem?_eq_some_iff.mp position).1
  have made : members.length < s.store.results.length := by
    rw [(unfolds.over finished).2.1]
    exact Nat.lt_succ_self _
  obtain ⟨x, there, stands⟩ := unfolds.stands unfolds.calm
    (List.ne_nil_of_length_pos (Nat.zero_lt_of_lt bound)) made
  cases stands with
  | gathers pending counts length missing _ arrived heard =>
    obtain ⟨v, -, same⟩ := heard i (.error e) bound (unfolds.unwatched finished position done)
      (unfolds.given finished position done fails)
    cases same
  | fails member fails state => exact ⟨_, member, _, fails, by rw [Store.state?_there there, state]⟩
  | merges all =>
    obtain ⟨v, succeeds⟩ := all.given member (List.mem_of_getElem? position)
    cases fails.symm.trans succeeds

/-- While a replica is silent and none fails, nothing but a cancel decides the merge. -/
theorem Unfolds.pends (unfolds : Unfolds merge members cancels h s) (calm : Calm h)
    (made : members.length < s.store.results.length)
    (sound : ∀ member ∈ members, ∀ e, member.state? ≠ some (.failed e))
    (included : member ∈ members) (silent : member.replies = false) :
    ∃ x, s.store.results[members.length]? = some x ∧ x.cell.state = .pending ∧
      Standing merge members s x := by
  obtain ⟨x, there, stands⟩ := unfolds.stands calm (List.ne_nil_of_mem included) made
  refine ⟨x, there, ?_, stands⟩
  cases stands with
  | gathers pending => exact pending
  | fails member fails => exact absurd fails (sound _ member _)
  | merges all =>
    rw [Member.replies_iff.mpr (all.given member included)] at silent
    cases silent

/-- Once all have replied that do, the merge that waits for others has counted them. -/
theorem Unfolds.counts (unfolds : Unfolds merge members (fun _ => False) h s)
    (finished : s.answer? 0 = some answer)
    (done : ∀ (i : Nat) member, members[i]? = some member → member.replies = true →
      ∃ ended, s.answer? (i + 1) = some ended)
    {x : Result (Option V) (Work V)} (stands : Standing merge members s x)
    (pending : x.cell.state = .pending) :
    x.completed? = some (members.countP Member.replies) := by
  cases stands with
  | fails _ _ state => cases pending.symm.trans state
  | @merges values _ state =>
    have ended := State.isPending_ofOutcome (merge values)
    rw [← state, pending] at ended
    cases ended
  | @gathers values _ counts length _ _ arrived heard =>
    -- the merge has the value of a replica just if the replica replies
    have same : values.map Option.isSome = members.map Member.replies := by
      refine List.ext_getElem (by simp [length]) fun i bound bound' => ?_
      simp only [List.length_map] at bound bound'
      have position : members[i]? = some members[i] := List.getElem?_eq_getElem bound'
      simp only [List.getElem_map]
      cases slot : values[i] with
      | some v =>
        have gives := arrived i v (by rw [List.getElem?_eq_getElem bound, slot])
        exact (Member.replies_iff.mpr ⟨v, unfolds.gives unfolds.calm position gives⟩).symm
      | none =>
        apply Eq.symm
        apply Bool.eq_false_iff.mpr
        intro replies
        obtain ⟨v, moves⟩ := Member.replies_iff.mp replies
        obtain ⟨ended, done⟩ := done i _ position replies
        obtain ⟨w, taken, -⟩ := heard i (.ok v) bound' (unfolds.unwatched finished position done)
          (unfolds.given finished position done moves)
        rw [List.getElem?_eq_getElem bound, slot] at taken
        cases taken
    rw [counts, same, List.count_eq_countP, List.countP_map]
    congr 1
    apply List.countP_congr
    simp

/-- If all replicas reply, the merger decides the merge by their replies. -/
theorem Unfolds.merged (unfolds : Unfolds merge members (fun _ => False) h s)
    (finished : s.answer? 0 = some answer) {values : List (Option V)} (reply : Reply members values)
    (done : ∀ i < members.length, ∃ ended, s.answer? (i + 1) = some ended) :
    ∃ x, s.store.results[members.length]? = some x ∧ x.cell.state = .ofOutcome (merge values) ∧
      x.completed? = some members.length := by
  obtain ⟨-, length, settled, -⟩ := unfolds.over finished
  have made : members.length < s.store.results.length := by omega
  by_cases nobody : members = []
  · subst nobody
    cases reply
    obtain ⟨x, there, state⟩ := Option.map_eq_some_iff.mp (settled rfl)
    exact ⟨x, there, state, (unfolds.full finished).answers.uncounted rfl x there⟩
  · obtain ⟨x, there, stands⟩ := unfolds.stands unfolds.calm nobody made
    refine ⟨x, there, ?_⟩
    cases stands with
    | fails included fails =>
      obtain ⟨v, succeeds⟩ := reply.given _ included
      cases fails.symm.trans succeeds
    | merges all state counts => exact ⟨reply.unique all ▸ state, counts⟩
    | gathers pending counts length missing _ arrived heard =>
      -- the merge has heard of every replica, but one is missing
      obtain ⟨i, missing⟩ := List.mem_iff_getElem?.mp missing
      have bound : i < members.length := length ▸ (List.getElem?_eq_some_iff.mp missing).1
      have position := List.getElem?_eq_getElem bound
      obtain ⟨v, succeeds⟩ := reply.given _ (List.getElem_mem bound)
      obtain ⟨ended, done⟩ := done i bound
      obtain ⟨w, taken, -⟩ := heard i (.ok v) bound (unfolds.unwatched finished position done)
        (unfolds.given finished position done succeeds)
      cases missing.symm.trans taken

end Quorate.Replica
