import Quorate.Proofs.Merge.Count
import Quorate.Proofs.Merge.Looking
import Quorate.Replica.Work

/-! How the threads of a reading stand. The reader starts the replicas one after the other and then
makes the merge; a replica sleeps and then ends its result, if it ever does. All else that happens
on these threads is that the merge looks at its sources. -/

set_option autoImplicit false

namespace Quorate

variable {V κ σ : Type}

/-- A result that is there has ended. -/
def Store.Terminal (s : Store V κ σ) (r : ResultId) : Prop :=
  ∃ state, s.state? r = some state ∧ state ≠ .pending

theorem Store.Later.terminal {s s' : Store V κ σ} (later : s.Later s') {r : ResultId}
    (terminal : s.Terminal r) : s'.Terminal r := by
  obtain ⟨state, here, ended⟩ := terminal
  exact ⟨state, later.state? here ended, ended⟩

/-- What a step does to a settable result. -/
theorem Result.touch_settable {x : Result V κ} (settable : x.kind = .settable) (result : Return V)
    (frame : Frame V κ) :
    (x.touch result frame).kind = .settable ∧
      ((x.touch result frame).cell.state = x.cell.state ∨
        (∃ r, frame = .call (.complete r (x.touch result frame).cell.state)) ∨
        ∃ r, frame = .call (.cancel r) ∧ (x.touch result frame).cell.state = .cancelled) := by
  obtain ⟨cell, kind⟩ := x
  cases settable
  have completed (state : State V) :
      (Result.complete (κ := κ) ⟨cell, .settable⟩ state).kind = .settable ∧
        ((Result.complete (κ := κ) ⟨cell, .settable⟩ state).cell.state = cell.state ∨
          (Result.complete (κ := κ) ⟨cell, .settable⟩ state).cell.state = state) := by
    unfold complete
    split
    next => exact ⟨rfl, .inl rfl⟩
    next same =>
      obtain ⟨-, rfl, -⟩ := (Cell.transition_eq_some_iff _ _ _ _).mp same
      exact ⟨rfl, .inr rfl⟩
  unfold touch
  split
  next a r state =>
    obtain ⟨kind, same | next⟩ := completed state
    · exact ⟨kind, .inl same⟩
    · exact ⟨kind, .inr (.inl ⟨r, by rw [next]⟩)⟩
  next => exact ⟨rfl, .inl rfl⟩
  next a r =>
    obtain ⟨kind, same | next⟩ := completed .cancelled
    · exact ⟨kind, .inl same⟩
    · exact ⟨kind, .inr (.inr ⟨r, rfl, next⟩)⟩
  next a r task =>
    unfold register
    split
    next => exact ⟨rfl, .inl rfl⟩
    next =>
      split
      next => exact ⟨rfl, .inl rfl⟩
      next same =>
        obtain ⟨-, rfl⟩ := (Cell.enqueue_eq_some_iff _ _ _).mp same
        exact ⟨rfl, .inl rfl⟩
  next => exact ⟨rfl, .inl rfl⟩
  next => exact ⟨rfl, .inl rfl⟩
  next => exact ⟨rfl, .inl rfl⟩
  next =>
    unfold mergerEnded
    split <;> exact ⟨rfl, .inl rfl⟩
  next => exact ⟨rfl, .inl rfl⟩

namespace Replica

/-- The state that a replica moves its result to, if it does. -/
def Member.state? (member : Member V) : Option (State (Option V)) :=
  member.replica.state? member.origin

theorem Member.terminal {member : Member V} {state : State (Option V)}
    (replies : member.state? = some state) : state.isPending = false := by
  unfold state? Replica.state? at replies
  split at replies
  next active =>
    rw [Fault.state?, if_pos active] at replies
    split at replies <;> cases replies <;> rfl
  next => cases replies; rfl

abbrev Records (V : Type) := Store (Option V) (Work V) Unit

/-- What the results of a reading hold: each replica has one, which is pending or as the replica
left it, or was cancelled when it was asked to, and whose only callback is the one of the merge. -/
structure Answers (members : List (Member V)) (asked : ResultId → Prop) (s : Records V) : Prop where
  queued : ∀ (r : ResultId) (x : Result (Option V) (Work V)), s.results[r]? = some x →
    ∀ task ∈ x.cell.queue, task = ⟨.observe members.length r, .inline⟩ ∧ r < members.length
  own : ∀ (r : ResultId) (x : Result (Option V) (Work V)), s.results[r]? = some x →
    r < members.length → x.kind = .settable
  states : ∀ (r : ResultId) (x : Result (Option V) (Work V)) (member : Member V),
    s.results[r]? = some x → members[r]? = some member →
    x.cell.state = .pending ∨ member.state? = some x.cell.state ∨
      asked r ∧ x.cell.state = .cancelled
  uncounted : members = [] → ∀ x : Result (Option V) (Work V),
    s.results[members.length]? = some x → x.completed? = some 0

/-- A frame of a reading that may change results. -/
def Heeds (members : List (Member V)) (asked : ResultId → Prop) (s : Records V) :
    Frame (Option V) (Work V) → Prop
  | .call (.create seed) => seed = .settable ∧ s.results.length < members.length
  | .call (.build _ _) => s.results.length = members.length
  | .call (.complete r state) => ∀ member, members[r]? = some member → member.state? = some state
  | .call (.cancel r) => asked r
  | .call (.register r task) => task = ⟨.observe members.length r, .inline⟩ ∧ r < members.length
  | .commit _ _ => members ≠ []
  | _ => True

theorem Answers.mono {members : List (Member V)} {asked asked' : ResultId → Prop} {s : Records V}
    (weaker : ∀ r, asked r → asked' r) (answers : Answers members asked s) :
    Answers members asked' s :=
  ⟨answers.queued, answers.own, fun r x member found position =>
    (answers.states r x member found position).imp_right (Or.imp_right (And.imp_left (weaker r))),
    answers.uncounted⟩

/-- The merge has no callbacks. -/
theorem Answers.empty {members : List (Member V)} {asked : ResultId → Prop} {s : Records V}
    {x : Result (Option V) (Work V)} (answers : Answers members asked s)
    (found : s.results[members.length]? = some x) : x.cell.queue = [] := by
  apply List.eq_nil_iff_forall_not_mem.mpr
  intro task member
  exact Nat.lt_irrefl _ (answers.queued _ x found task member).2

theorem Answers.step {members : List (Member V)} {asked : ResultId → Prop} {s : Records V}
    {result : Return (Option V)} {frame : Frame (Option V) (Work V)}
    {e : Effect (Option V) (Work V) Unit} (answers : Answers members asked s)
    (heeds : Heeds members asked s frame) (touches : s.Touches result frame e) :
    Answers members asked e.store := by
  constructor
  · intro r x' after task member
    cases before : s.results[r]? with
    | some x =>
      cases after.symm.trans (touches.there r x before)
      split at member
      next about =>
        rcases Result.touch_queue member with member | ⟨r', rfl⟩
        · exact answers.queued r x before task member
        · cases about
          exact heeds
      next => exact answers.queued r x before task member
    | none =>
      have made := (touches.new before after).2
      rw [Frame.made?_queue made] at member
      cases member
  · intro r x' after bound
    cases before : s.results[r]? with
    | some x =>
      cases after.symm.trans (touches.there r x before)
      have settable := answers.own r x before bound
      split
      next => exact (Result.touch_settable settable _ _).1
      next => exact settable
    | none =>
      obtain ⟨rfl, made⟩ := touches.new before after
      unfold Frame.made? at made
      split at made
      next seed =>
        obtain ⟨rfl, -⟩ := heeds
        cases made
        rfl
      next => exact absurd heeds (Nat.ne_of_lt bound)
      next => cases made
  · intro r x' member after position
    have bound := (List.getElem?_eq_some_iff.mp position).1
    cases before : s.results[r]? with
    | some x =>
      cases after.symm.trans (touches.there r x before)
      have states := answers.states r x member before position
      split
      next about =>
        rcases (Result.touch_settable (answers.own r x before bound) result frame).2 with
          same | ⟨r', completes⟩ | ⟨r', rfl, cancelled⟩
        · rwa [same]
        · rw [completes] at about heeds
          cases about
          exact .inr (.inl (heeds member position))
        · cases about
          exact .inr (.inr ⟨heeds, cancelled⟩)
      next => exact states
    | none =>
      obtain ⟨rfl, made⟩ := touches.new before after
      unfold Frame.made? at made
      split at made
      next seed =>
        obtain ⟨rfl, -⟩ := heeds
        cases made
        exact .inl rfl
      next => exact absurd heeds (Nat.ne_of_lt bound)
      next => cases made
  · intro nobody x' after
    cases before : s.results[members.length]? with
    | some x =>
      cases after.symm.trans (touches.there _ x before)
      have uncounted := answers.uncounted nobody x before
      split
      next =>
        rw [Result.completed?_touch (.inr ?_), uncounted]
        rintro merge index rfl
        exact heeds nobody
      next => exact uncounted
    | none =>
      obtain ⟨last, made⟩ := touches.new before after
      unfold Frame.made? at made
      split at made
      next seed => exact absurd heeds.2 (by rw [last]; exact Nat.lt_irrefl _)
      next => cases made; rfl
      next => cases made

variable (merge : List (Option V) → Outcome (Option V)) (members : List (Member V))

/-- A plan that ends with the merge. -/
def plan : Plan V := ⟨merge, .build⟩

def merger : Merger (Option V) (Work V) := .plain fun values => .ok (merge values)

/-- A merge of no replicas ends while it is made. -/
def Settled (s : Records V) : Prop :=
  members = [] → s.state? members.length = some (.ofOutcome (merge []))

/-- How the reader stands that has started some replicas, when some results have been made. -/
inductive Reads (s : Records V) : (started made : Nat) → Thread (Option V) (Work V) → Prop where
  | begins : Reads s 0 0 ⟨.ok .unit, [.call (.run (.gather (plan merge) members []))]⟩
  | gathers {k : Nat} {a : Answer (Option V)} : k ≤ members.length →
      Reads s k k ⟨.ok a, [.client (.gather (plan merge) (members.drop k) (List.range k))]⟩
  | creates {k : Nat} {member : Member V} : members[k]? = some member →
      Reads s k k ⟨.ok .unit, [.call (.create .settable),
        .client (.start (plan merge) member (members.drop (k + 1)) (List.range k))]⟩
  | starts {k : Nat} {member : Member V} : members[k]? = some member →
      Reads s k (k + 1) ⟨.ok (.result k),
        [.client (.start (plan merge) member (members.drop (k + 1)) (List.range k))]⟩
  | forks {k : Nat} {member : Member V} : members[k]? = some member →
      Reads s k (k + 1) ⟨.ok .unit, [.call (.fork (.run (.delay k member))),
        .client (.gather (plan merge) (members.drop (k + 1)) (List.range (k + 1)))]⟩
  | builds : Reads s members.length members.length ⟨.ok .unit,
      [.call (.build (merger merge) (List.range members.length)), .client (.merged (plan merge))]⟩
  | opens : members = [] → s.state? members.length = some .pending →
      Reads s members.length (members.length + 1) ⟨.ok (.outcome (merge [])),
        [.opening members.length, .client (.merged (plan merge))]⟩
  | completes : members = [] → s.state? members.length = some .pending →
      Reads s members.length (members.length + 1) ⟨.ok .unit,
        [.call (.complete members.length (.ofOutcome (merge []))), .attach members.length [] 0,
          .client (.merged (plan merge))]⟩
  | attaches {a : Answer (Option V)} {above : List (Frame (Option V) (Work V))} {index : Nat} :
      (∀ f ∈ above, ∃ i, f.Looks members.length i) → Settled merge members s →
      Reads s members.length (members.length + 1) ⟨.ok a, above ++
        [.attach members.length ((List.range members.length).drop index) index,
          .client (.merged (plan merge))]⟩
  | turns : Settled merge members s → Reads s members.length (members.length + 1)
      ⟨.ok (.result members.length), [.client (.merged (plan merge))]⟩
  | ended : Settled merge members s → Reads s members.length (members.length + 1)
      ⟨.ok (.result members.length), []⟩

/-- How the thread of the replica stands that replies with the result `i`. -/
inductive Replies (m i : ResultId) (member : Member V) (s : Records V) :
    Thread (Option V) (Work V) → Prop where
  | begins : Replies m i member s ⟨.ok .unit, [.call (.run (.delay i member))]⟩
  | delays {a : Answer (Option V)} : Replies m i member s ⟨.ok a, [.client (.delay i member)]⟩
  | sleeps : Replies m i member s
      ⟨.ok .unit, [.call (.sleep member.replica.delay), .client (.reply i member)]⟩
  | sleeping {a : Answer (Option V)} {deadline : Nat} :
      Replies m i member s ⟨.ok a, [.sleeping deadline, .client (.reply i member)]⟩
  | wakes {a : Answer (Option V)} : Replies m i member s ⟨.ok a, [.client (.reply i member)]⟩
  | completes {state : State (Option V)} : member.state? = some state →
      Replies m i member s ⟨.ok .unit, [.call (.complete i state), .client .finish]⟩
  | delivers {a : Answer (Option V)} {above : List (Frame (Option V) (Work V))} :
      (∀ f ∈ above, f.Looks m i) → s.Terminal i →
      Replies m i member s ⟨.ok a, above ++ [.client .finish]⟩
  | ended {a : Answer (Option V)} : member.state? = none ∨ s.Terminal i →
      Replies m i member s ⟨.ok a, []⟩

/-- A frame of a thread that was begun from outside: it reads the merge or, if it may, cancels
it. -/
def Outside (m : ResultId) (cancelling : Prop) : Frame (Option V) (Work V) → Prop
  | .call (.get r _) | .read r _ _ | .wait r _ _ _ => r = m
  | .call (.cancel r) => cancelling ∧ r ≤ m
  | .sweep r rest _ tasks => cancelling ∧ r = m ∧ (∀ i ∈ rest, i < m) ∧ tasks = []
  | frame => cancelling ∧ ∃ i, frame.Looks m i

end Replica

end Quorate
