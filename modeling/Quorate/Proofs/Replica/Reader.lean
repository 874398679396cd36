import Quorate.Proofs.Replica.Threads

/-! How the reader goes on. It makes a result for each replica and starts it, and then makes the
merge of the results. -/

set_option autoImplicit false

namespace Quorate.Replica

variable {V : Type} {merge : List (Option V) → Outcome (Option V)} {members : List (Member V)}
  {started made : Nat} {μ : Moment (Option V) (Work V) Unit}
  {e : Effect (Option V) (Work V) Unit} {calls : List (Call (Option V) (Work V))}

/-- The sources that are left begin with the one whose turn it is. -/
theorem range_drop {size index source : Nat} {rest : List Nat}
    (left : (List.range size).drop index = source :: rest) :
    source < size ∧ index = source ∧ rest = (List.range size).drop (source + 1) := by
  have inside : index < size := by
    apply Decidable.byContradiction
    intro beyond
    rw [List.drop_eq_nil_of_le (by simpa using beyond)] at left
    cases left
  rw [List.drop_eq_getElem_cons (by simpa using inside), List.getElem_range] at left
  cases left
  exact ⟨inside, rfl, rfl⟩

theorem Settled.later {s s' : Records V} (settled : Settled merge members s) (later : s.Later s') :
    Settled merge members s' := by
  intro none
  refine later.state? (settled none) ?_
  cases merge [] <;> nofun

/-- Another step leaves the reader where it is, unless it made a merge of no replicas. -/
theorem Reads.later {thread : Thread (Option V) (Work V)} {s s' : Records V}
    (reads : Reads merge members s started made thread) (later : s.Later s')
    (apart : members ≠ [] ∨ thread.frames = [] ∨ s'.results = s.results) :
    Reads merge members s' started made thread := by
  have still (none : members = []) (busy : thread.frames ≠ []) : s'.state? = s.state? := by
    rcases apart with some | finished | same
    · exact absurd none some
    · exact absurd finished busy
    · funext r
      rw [Store.state?, Store.state?, same]
  cases reads with
  | begins => exact .begins
  | gathers bound => exact .gathers bound
  | creates position => exact .creates position
  | starts position => exact .starts position
  | forks position => exact .forks position
  | builds => exact .builds
  | opens none pending => exact .opens none (by rw [still none (by simp), pending])
  | completes none pending => exact .completes none (by rw [still none (by simp), pending])
  | attaches above settled => exact .attaches above (settled.later later)
  | turns settled => exact .turns (settled.later later)
  | ended settled => exact .ended (settled.later later)

theorem Reads.behaves (asked : ResultId → Prop)
    (reads : Reads merge members μ.store started μ.store.results.length
      ⟨μ.result, μ.frame :: μ.below⟩) :
    Behaves members asked μ ∧ μ.frame.Unasking := by
  obtain ⟨s, t, result, frame, below⟩ := μ
  dsimp only at *
  generalize same : Thread.mk result (frame :: below) = thread at reads
  generalize length : s.results.length = made at reads
  cases reads with
  | begins =>
    cases same
    exact ⟨.silent trivial (by simp), by simp, by simp⟩
  | @gathers k a bound =>
    cases same
    refine ⟨⟨trivial, fun c called => ?_⟩, by simp, by simp⟩
    simp only [Moment.call?, client] at called
    cases left : members.drop started with
    | nil =>
      rw [left] at called
      cases called
      refine ⟨.inl ⟨⟨_, rfl⟩, fun r member => ?_⟩, trivial, fun _ => rfl⟩
      rw [length]
      exact List.mem_range.mp member
    | cons member rest =>
      rw [left] at called
      cases called
      exact ⟨.inl trivial, trivial, fun _ => rfl⟩
  | creates position =>
    cases same
    refine ⟨.silent ⟨rfl, ?_⟩ (by simp), by simp, by simp⟩
    rw [length]
    exact (List.getElem?_eq_some_iff.mp position).1
  | starts position =>
    cases same
    refine ⟨⟨trivial, fun c called => ?_⟩, by simp, by simp⟩
    cases called
    exact ⟨.inr trivial, trivial, fun _ => rfl⟩
  | forks position =>
    cases same
    exact ⟨.silent trivial (by simp), by simp, by simp⟩
  | builds =>
    cases same
    exact ⟨.silent length (by simp), by simp, by simp⟩
  | opens =>
    cases same
    exact ⟨.silent trivial (by simp), by simp, by simp⟩
  | completes =>
    cases same
    refine ⟨.silent (fun member position => ?_) (by simp), by simp, by simp⟩
    exact absurd (List.getElem?_eq_some_iff.mp position).1 (Nat.lt_irrefl _)
  | @attaches a above index looks settled =>
    cases above with
    | nil =>
      cases same
      exact ⟨.silent trivial (by simp), by simp, by simp⟩
    | cons f above =>
      cases same
      obtain ⟨i, looks⟩ := looks frame List.mem_cons_self
      exact ⟨.of_looks looks, looks.modest.1⟩
  | turns =>
    cases same
    refine ⟨⟨trivial, fun c called => ?_⟩, by simp, by simp⟩
    cases called
  | ended => cases same

section

variable {s : Records V} {a : Answer (Option V)} {index : Nat}

/-- The reader makes a result for the next replica, or the merge when there is none left. -/
theorem Reads.gathering (bound : started ≤ members.length)
    (effect : s.resume client (.ok a)
      (.client (.gather (plan merge) (members.drop started) (List.range started))) = some e) :
    Reads merge members e.store started started ⟨e.result, e.frames⟩ := by
  simp only [Store.resume, Store.proceed, client] at effect
  cases left : members.drop started with
  | nil =>
    rw [left] at effect
    cases effect
    obtain rfl : started = members.length := Nat.le_antisymm bound (List.drop_eq_nil_iff.mp left)
    exact .builds
  | cons member rest =>
    rw [left] at effect
    cases effect
    have inside : started < members.length := by
      apply Decidable.byContradiction
      intro beyond
      rw [List.drop_eq_nil_of_le (Nat.le_of_not_lt beyond)] at left
      cases left
    rw [List.drop_eq_getElem_cons inside] at left
    cases left
    exact .creates (List.getElem?_eq_getElem inside)

/-- A new merge registers with its sources; one of nothing calls its merger at once. -/
theorem Reads.building (length : s.results.length = members.length)
    (effect : s.resume client (.ok .unit)
      (.call (.build (merger merge) (List.range members.length))) = some e) :
    Reads merge members e.store members.length (members.length + 1)
      ⟨e.result, e.frames ++ [.client (.merged (plan merge))]⟩ := by
  by_cases none : members = []
  · subst none
    have made : (s.push ⟨.fresh, .merge ⟨merger merge, 0, .start [], .free⟩⟩).state? 0 =
        some .pending := by
      apply Store.state?_there (x := ⟨.fresh, .merge ⟨merger merge, 0, .start [], .free⟩⟩)
      rw [← show s.results.length = 0 from length]
      exact List.getElem?_concat_length
    cases effect
    rw [length]
    exact .opens rfl made
  · have some : (List.range members.length).isEmpty = false := by simpa using none
    simp only [Store.resume, Store.proceed, Store.enter, some, Bool.false_eq_true, if_false]
      at effect
    cases effect
    rw [length]
    have above : ∀ f ∈ ([] : List (Frame (Option V) (Work V))), ∃ i, f.Looks members.length i := by
      simp
    have attaches (s : Records V) : Reads merge members s members.length (members.length + 1)
        ⟨.ok .unit, [] ++ [.attach members.length ((List.range members.length).drop 0) 0,
          .client (.merged (plan merge))]⟩ := .attaches above fun empty => absurd empty none
    exact attaches _

/-- The merge of nothing takes the outcome of its merger: nobody else knows of it yet. -/
theorem Reads.completing (nobody : members = [])
    (pending : s.state? members.length = some .pending)
    (empty : ∀ x, s.results[members.length]? = some x → x.cell.queue = [])
    (effect : s.resume client (.ok .unit)
      (.call (.complete members.length (.ofOutcome (merge [])))) = some e) :
    Reads merge members e.store members.length (members.length + 1) ⟨e.result,
      e.frames ++ [.attach members.length [] 0, .client (.merged (plan merge))]⟩ := by
  obtain ⟨x, found, -, effect⟩ := Store.locking_eq_some effect
  unfold Store.completing at effect
  split at effect
  next ended =>
    rw [Store.state?_there found] at pending
    have terminal := (Cell.transition_eq_none_iff _ _).mp ended
    rw [Option.some.inj pending] at terminal
    cases terminal
  next cell tasks next =>
    obtain ⟨-, rfl, rfl⟩ := (Cell.transition_eq_some_iff _ _ _ _).mp next
    cases effect
    have above : ∀ f ∈ ([.deliver members.length x.cell.queue none (.flag true)] :
        List (Frame (Option V) (Work V))), ∃ i, f.Looks members.length i := by
      intro f included
      rw [List.mem_singleton.mp included, empty x found]
      exact ⟨0, rfl, by simp⟩
    have nothing : (List.range members.length).drop 0 = [] := by simp [nobody]
    rw [← nothing]
    exact .attaches above fun _ => Store.state?_set found

/-- The merge registers with its next source, or is all set. -/
theorem Reads.attaching (settled : Settled merge members e.store)
    (effect : s.resume client (.ok a)
      (.attach members.length ((List.range members.length).drop index) index) = some e) :
    Reads merge members e.store members.length (members.length + 1)
      ⟨e.result, e.frames ++ [.client (.merged (plan merge))]⟩ := by
  obtain ⟨x, found, -, effect⟩ := Store.locking_eq_some effect
  cases left : (List.range members.length).drop index with
  | nil =>
    rw [left] at effect
    cases effect
    exact .turns settled
  | cons source rest =>
    rw [left] at effect
    simp only at effect
    split at effect
    next => cases effect; exact .turns settled
    next =>
      cases effect
      obtain ⟨bound, rfl, rfl⟩ := range_drop left
      have above : ∀ f ∈ ([.call (.register index ⟨.observe members.length index, .inline⟩)] :
          List (Frame (Option V) (Work V))), ∃ i, f.Looks members.length i := by
        intro f included
        rw [List.mem_singleton.mp included]
        exact ⟨index, bound, rfl, rfl⟩
      exact .attaches above settled

end

/-- A step of the reader makes a result, or starts a replica, or does neither. -/
theorem Reads.step
    (reads : Reads merge members μ.store started μ.store.results.length
      ⟨μ.result, μ.frame :: μ.below⟩)
    (yields : μ.Yields client e calls) (looksOn : μ.LooksOn members.length e)
    (empty : ∀ x, μ.store.results[members.length]? = some x → x.cell.queue = []) :
    ∃ started', Reads merge members e.store started' e.store.results.length
        ⟨e.result, e.frames ++ μ.below⟩ ∧
      (calls = [] ∧ started' = started ∨ ∃ member, members[started]? = some member ∧
        calls = [.run (.delay started member)] ∧ started' = started + 1) := by
  have touches := yields.touches
  have later := touches.later
  have grown := touches.length
  obtain ⟨s, t, result, frame, below⟩ := μ
  dsimp only at *
  generalize same : Thread.mk result (frame :: below) = thread at reads
  generalize length : s.results.length = made at reads grown
  cases reads with
  | begins =>
    cases same
    obtain ⟨rfl, effect⟩ := yields.effect (by simp) (by simp)
    cases effect
    exact ⟨0, grown ▸ .gathers (Nat.zero_le _), .inl ⟨rfl, rfl⟩⟩
  | gathers bound =>
    cases same
    obtain ⟨rfl, effect⟩ := yields.effect (by simp) (by simp)
    have next := Reads.gathering bound effect
    rw [← List.append_nil e.frames] at next
    exact ⟨started, grown ▸ next, .inl ⟨rfl, rfl⟩⟩
  | creates position =>
    cases same
    obtain ⟨rfl, effect⟩ := yields.effect (by simp) (by simp)
    refine ⟨started, ?_, .inl ⟨rfl, rfl⟩⟩
    rw [grown]
    cases effect
    rw [length]
    exact .starts position
  | starts position =>
    cases same
    obtain ⟨rfl, effect⟩ := yields.effect (by simp) (by simp)
    refine ⟨started, ?_, .inl ⟨rfl, rfl⟩⟩
    rw [grown]
    cases effect
    have sources : List.range started ++ [started] = List.range (started + 1) :=
      List.range_succ.symm
    rw [sources]
    exact .forks position
  | forks position =>
    cases same
    cases yields with
    | resumed effect => cases effect
    | joined b answered frame => cases frame
    | @forked a c t' answered frame =>
      cases frame
      refine ⟨started + 1, ?_, .inr ⟨_, position, rfl, rfl⟩⟩
      rw [grown]
      exact .gathers (List.getElem?_eq_some_iff.mp position).1
  | builds =>
    cases same
    obtain ⟨rfl, effect⟩ := yields.effect (by simp) (by simp)
    exact ⟨members.length, grown ▸ .building length effect, .inl ⟨rfl, rfl⟩⟩
  | opens none pending =>
    cases same
    obtain ⟨rfl, effect⟩ := yields.effect (by simp) (by simp)
    cases effect
    exact ⟨members.length, grown ▸ .completes none pending, .inl ⟨rfl, rfl⟩⟩
  | completes nobody pending =>
    cases same
    obtain ⟨rfl, effect⟩ := yields.effect (by simp) (by simp)
    exact ⟨members.length, grown ▸ .completing nobody pending empty effect, .inl ⟨rfl, rfl⟩⟩
  | @attaches a above index looks settled =>
    have settled := settled.later later
    cases above with
    | nil =>
      cases same
      obtain ⟨rfl, effect⟩ := yields.effect (by simp) (by simp)
      exact ⟨members.length, grown ▸ .attaching settled effect, .inl ⟨rfl, rfl⟩⟩
    | cons f above =>
      -- a source had ended before the merge registered with it
      cases same
      obtain ⟨i, here⟩ := looks frame List.mem_cons_self
      obtain ⟨rfl, -⟩ := yields.effect here.apart.1 here.apart.2
      obtain ⟨⟨b, answered⟩, next⟩ := looksOn i a here rfl
      refine ⟨members.length, ?_, .inl ⟨rfl, rfl⟩⟩
      rw [grown, here.modest.2, answered, List.append_eq, ← List.append_assoc]
      refine .attaches (fun f included => ?_) settled
      rcases List.mem_append.mp included with included | included
      · exact ⟨i, next f included⟩
      · exact looks f (List.mem_cons_of_mem _ included)
  | turns settled =>
    cases same
    obtain ⟨rfl, effect⟩ := yields.effect (by simp) (by simp)
    cases effect
    exact ⟨members.length, grown ▸ .ended settled, .inl ⟨rfl, rfl⟩⟩
  | ended => cases same

end Quorate.Replica
