import Quorate.Proofs.Merge.Construction

/-! Nested merges. Once no thread is at work, every merge of a network stands as its sources make
it, so the network has computed its recursive evaluation, in whatever order its leaves were
completed and its merges were built. -/

set_option autoImplicit false

namespace Quorate

variable {V κ σ : Type}

/-- How a merge stands, and what its merger was called with, when no thread is at work: what has
become of its sources decides it. -/
structure Computed (merger : Merger V κ) (sources : List ResultId) (s : Store V κ σ)
    (calls : List (List V)) (state : State V) : Prop where
  /-- If all sources have succeeded, the merger was called once, for their values in order. -/
  succeeded : ∀ values, s.Votes sources values →
    calls = [values] ∧ ∃ o, merger.outcome? values = some o ∧ state = .ofOutcome o
  /-- If a source has failed, the merge has failed with the error of one that did, without a call
  of the merger. -/
  failed : ∀ r ∈ sources, ∀ e, s.Gives r (.error e) →
    calls = [] ∧ ∃ r' ∈ sources, ∃ e', s.Gives r' (.error e') ∧ state = .failed e'
  /-- Otherwise it waits. -/
  waiting : (∀ values, ¬ s.Votes sources values) → (∀ r ∈ sources, ∀ e, ¬ s.Gives r (.error e)) →
    calls = [] ∧ state = .pending

def State.value? : State V → Option V
  | .succeeded v => some v
  | _ => none

@[simp] theorem State.value?_eq_some_iff {state : State V} {v : V} :
    state.value? = some v ↔ state = .succeeded v := by
  cases state <;> simp [value?]

/-- The value that a result has succeeded with. -/
def Store.value? (s : Store V κ σ) (r : ResultId) : Option V :=
  s.results[r]?.bind fun x => x.cell.state.value?

section

variable {s : Store V κ σ} {sources : List ResultId}

theorem Store.value?_there {r : ResultId} {x : Result V κ} (there : s.results[r]? = some x) :
    s.value? r = x.cell.state.value? := by
  rw [value?, there, Option.bind_some]

theorem Store.votes_of_given (given : ∀ r ∈ sources, ∃ v, s.Gives r (.ok v)) :
    ∃ values, s.Votes sources values := by
  induction sources with
  | nil => exact ⟨[], .nil⟩
  | cons r sources ih =>
    obtain ⟨v, gives⟩ := given r List.mem_cons_self
    obtain ⟨values, all⟩ := ih fun r member => given r (List.mem_cons_of_mem _ member)
    exact ⟨v :: values, .cons gives all⟩

variable (plain : s.Plain)
include plain

theorem Store.Plain.gives_iff {r : ResultId} {v : V} : s.Gives r (.ok v) ↔ s.value? r = some v := by
  constructor
  · rintro ⟨x, there, -, -, outcome⟩
    rw [value?_there there]
    cases state : x.cell.state <;> rw [state] at outcome <;> cases outcome
    rfl
  · intro value
    obtain ⟨x, there, state⟩ := Option.bind_eq_some_iff.mp value
    rw [State.value?_eq_some_iff] at state
    have kept : x.isCancelled = false := by
      have kind := (plain r x there).1
      unfold Result.isCancelled
      split
      next foreign => rw [foreign] at kind; exact kind.elim
      next => rfl
      next => rw [state]; rfl
    exact ⟨x, there, plain.own there, kept, by rw [state]; rfl⟩

theorem Store.Plain.votes_iff {values : List V} :
    s.Votes sources values ↔ sources.mapM s.value? = some values := by
  rw [Node.mapM_eq_some_iff]
  simp only [Store.Votes, plain.gives_iff]

end

section

variable {client : Client V κ σ} {s : System V κ σ} {h : List (Moment V κ σ)} {m : ResultId}
  {merger : Merger V κ} {sources : List ResultId}

/-- In a quiet system a merge that nobody cancelled stands as its sources make it. -/
theorem Stands.computed {merge : List V → Outcome V} {events : List (Event V)}
    {calls : List (List V)} {state : State V} (stands : Stands merge sources s events calls state)
    (quiet : s.Quiet) (calm : .cancelled ∉ events) :
    Computed (.plain fun values => .ok (merge values) : Merger V κ) sources s.store calls
      state := by
  cases stands with
  | waits idle =>
    obtain ⟨none, missing, unfailed⟩ := idle quiet
    exact ⟨fun values all => absurd all (missing values),
      fun r member e gives => absurd gives (unfailed r member e), fun _ _ => ⟨none, rfl⟩⟩
  | merged all =>
    constructor
    · intro values all'
      cases all.unique all'
      exact ⟨rfl, _, rfl, rfl⟩
    · intro r member e gives
      exact absurd gives (all.not_failed member)
    · intro missing
      exact absurd all (missing _)
  | failed member gives =>
    constructor
    · intro values all
      exact absurd gives (all.not_failed member)
    · intro r' _ e' _
      exact ⟨rfl, _, member, _, gives, rfl⟩
    · intro _ unfailed
      exact absurd gives (unfailed _ member _)
  | cancelled member => exact absurd member calm

/-- Every merge of a network stands as its sources make it. -/
theorem System.Networked.computed (networked : s.Networked client h) (quiet : s.Quiet)
    (node : (network h)[m]? = some (.merge merger sources)) :
    ∃ x, s.store.results[m]? = some x ∧
      Computed merger sources s.store (called m h) x.cell.state := by
  obtain ⟨⟨merge, rfl⟩, built, later, part, calls⟩ := networked.since m merger sources node
  obtain ⟨x, there, stands⟩ := built.stands later
  refine ⟨x, there, ?_⟩
  rw [calls]
  apply stands.computed quiet
  intro cancelled
  exact networked.calm m ((part.sublist.filterMap _).subset cancelled)

/-- The values of the results solve the equations that the nodes state. -/
theorem System.Networked.solves (networked : s.Networked client h) (plain : s.store.Plain)
    (quiet : s.Quiet) {node : Node V κ} (there : (network h)[m]? = some node) :
    s.store.value? m = node.value (s.store.value? m) s.store.value? := by
  cases node with
  | leaf => rfl
  | merge merger sources =>
    obtain ⟨x, found, computed⟩ := networked.computed quiet there
    rw [Store.value?_there found, Node.value]
    cases given : sources.mapM s.store.value? with
    | some values =>
      obtain ⟨-, o, outcome, state⟩ := computed.succeeded values (plain.votes_iff.mpr given)
      rw [state, Option.bind_some, outcome]
      cases o <;> rfl
    | none =>
      -- a failed or a pending merge has no value
      have missing (values : List V) (all : s.store.Votes sources values) : False := by
        cases given.symm.trans (plain.votes_iff.mp all)
      rw [Option.bind_none]
      by_cases failure : ∃ r ∈ sources, ∃ e, s.store.Gives r (.error e)
      · obtain ⟨r, member, e, gives⟩ := failure
        obtain ⟨-, r', -, e', -, state⟩ := computed.failed r member e gives
        rw [state]
        rfl
      · have unfailed (r : ResultId) (member : r ∈ sources) (e : Error) :
            ¬ s.store.Gives r (.error e) := fun gives => failure ⟨r, member, e, gives⟩
        rw [(computed.waiting missing unfailed).2]
        rfl

end

section

variable {client : Client V κ σ} {s : System V κ σ} {h : List (Moment V κ σ)}
  (networked : s.Networked client h) (plain : s.store.Plain) (quiet : s.Quiet)
include networked plain quiet

/-- The values of the results are those of the recursive evaluation from the leaves. -/
theorem System.Networked.evaluate {leaf : ResultId → Option V}
    (leaves : ∀ r, (network h)[r]? = some .leaf → s.store.value? r = leaf r) :
    Quorate.evaluate leaf (network h) =
      (List.range s.store.results.length).map s.store.value? := by
  rw [← networked.length]
  apply evaluate_unique networked.first
  intro m node there
  have solves := networked.solves plain quiet there
  cases node with
  | leaf => exact leaves m there
  | merge merger sources => exact solves

/-- If nothing failed on the way, every result of a network has a value. -/
theorem System.Networked.total
    (leaves : ∀ r, (network h)[r]? = some .leaf → ∃ v, s.store.Gives r (.ok v))
    (returned : ∀ m merger sources, (network h)[m]? = some (.merge merger sources) →
      ∀ values ∈ called m h, ∃ v, merger.outcome? values = some (.ok v))
    (m : Nat) (bound : m < s.store.results.length) : ∃ v, s.store.Gives m (.ok v) := by
  -- by induction along the network: the sources of a merge come before it
  induction m using Nat.strongRecOn with
  | ind m ih =>
    have inside : m < (network h).length := by rw [networked.length]; exact bound
    have there := List.getElem?_eq_getElem inside
    cases node : (network h)[m] with
    | leaf => exact leaves m (node ▸ there)
    | merge merger sources =>
      rw [node] at there
      obtain ⟨values, all⟩ : ∃ values, s.store.Votes sources values := by
        apply Store.votes_of_given
        intro r member
        have earlier : r < m := networked.first m _ there r member
        exact ih r earlier (Nat.lt_trans earlier bound)
      obtain ⟨x, found, computed⟩ := networked.computed quiet there
      obtain ⟨once, o, outcome, state⟩ := computed.succeeded values all
      obtain ⟨v, answer⟩ := returned m _ _ there values (by rw [once]; exact List.mem_cons_self)
      cases outcome.symm.trans answer
      refine ⟨v, plain.gives_iff.mpr ?_⟩
      rw [Store.value?_there found, state]
      rfl

end

/-- What a network has computed when all threads have ended. -/
structure Evaluated (h : List (Moment V κ σ)) (s : System V κ σ) : Prop where
  merges : ∀ m merger sources, (network h)[m]? = some (.merge merger sources) →
    ∃ x, s.store.results[m]? = some x ∧
      Computed merger sources s.store (called m h) x.cell.state
  /-- The values of the leaves determine the values of all results, by recursive evaluation. -/
  values : ∀ leaf : ResultId → Option V,
    (∀ r, (network h)[r]? = some .leaf → s.store.value? r = leaf r) →
    evaluate leaf (network h) = (List.range s.store.results.length).map s.store.value?
  /-- If all leaves have succeeded and all mergers have returned values, every result holds the
  value of its recursive evaluation. -/
  total : (∀ r, (network h)[r]? = some .leaf → ∃ v, s.store.Gives r (.ok v)) →
    (∀ m merger sources, (network h)[m]? = some (.merge merger sources) →
      ∀ values ∈ called m h, ∃ v, merger.outcome? values = some (.ok v)) →
    ∀ m < s.store.results.length, ∃ v,
      (evaluate s.store.value? (network h))[m]? = some (some v) ∧ s.store.Gives m (.ok v)
  /-- A run that constructs the same network in another order, and so under other names, computes
  the same values from the same leaves. -/
  order : ∀ {client : Client V κ σ} {memory : σ} {h' : List (Moment V κ σ)} {s' : System V κ σ},
    Run client Call.Steady ⟨.empty memory, []⟩ h' s' → s'.Quiet →
    ∀ name : ResultId → ResultId,
      (∀ m node, (network h)[m]? = some node →
        (network h')[name m]? = some (node.rename name)) →
      (∀ r, (network h)[r]? = some .leaf → s'.store.value? (name r) = s.store.value? r) →
      ∀ m < s.store.results.length, s'.store.value? (name m) = s.store.value? m

/-- However its leaves are completed and its merges are built, a network of merges ends all calls,
and has then computed its recursive evaluation. -/
theorem nested_merges_evaluate {client : Client V κ σ} {memory : σ} {h : List (Moment V κ σ)}
    {s : System V κ σ} (run : Run client Call.Steady ⟨.empty memory, []⟩ h s) :
    s.Ends client ∧ (network h).length = s.store.results.length ∧ (s.Quiet → Evaluated h s) := by
  have networked := run.networked
  have ready := (run.mono fun _ _ => Call.Steady.plain).ready (System.ready_empty memory)
  have plain := ready.plain.store
  refine ⟨ready.ends, networked.length, fun quiet => ?_⟩
  have evaluated : evaluate s.store.value? (network h) =
      (List.range s.store.results.length).map s.store.value? :=
    networked.evaluate plain quiet fun _ _ => rfl
  constructor
  · intro m merger sources node
    exact networked.computed quiet node
  · intro leaf leaves
    exact networked.evaluate plain quiet leaves
  · intro leaves returned m bound
    obtain ⟨v, gives⟩ := networked.total plain quiet leaves returned m bound
    refine ⟨v, ?_, gives⟩
    rw [evaluated, List.getElem?_map, List.getElem?_range bound, Option.map_some,
      plain.gives_iff.mp gives]
  · intro client' memory' h' s' run' quiet' name nodes leaves m bound
    have networked' := run'.networked
    have plain' := (run'.mono fun _ _ => Call.Steady.plain).plain (System.plain_empty memory')
    -- under the old names, the values of the other run solve the same equations
    have same : evaluate s.store.value? (network h) =
        (List.range (network h).length).map (s'.store.value? ∘ name) := by
      apply evaluate_unique networked.first
      intro m node there
      have solves := networked'.solves plain'.store quiet' (nodes m node there)
      cases node with
      | leaf => exact leaves m there
      | merge merger sources => rwa [Node.value_rename] at solves
    rw [evaluated, networked.length] at same
    have here := congrArg (fun values => values[m]?) same
    simpa [bound] using here.symm

namespace Shared

def client : Client Nat Unit Unit := .panicking Nat "unused"

/-- The values as the digits of a number. -/
def digits : Merger Nat Unit :=
  .plain fun values => .ok (.ok (values.foldl (fun n d => 10 * n + d) 0))

/-- Two leaves, and a merge of both. -/
def inner : List (Moment Nat Unit Unit) × System Nat Unit Unit :=
  let (h, s) := (System.mk (.empty ()) []).call client (.create .settable) 1
  let (h', s) := s.call client (.create .settable) 1
  let (h'', s) := s.call client (.build digits [0, 1]) 6
  (h ++ h' ++ h'', s)

/-- One of the leaves succeeds. -/
def half : List (Moment Nat Unit Unit) × System Nat Unit Unit :=
  inner.2.call client (.complete 1 (.succeeded 2)) 8

/-- A merge of the first merge, twice, and of a leaf between. -/
def outer : List (Moment Nat Unit Unit) × System Nat Unit Unit :=
  half.2.call client (.build digits [2, 0, 2]) 8

/-- The other leaf succeeds. -/
def whole : List (Moment Nat Unit Unit) × System Nat Unit Unit :=
  outer.2.call client (.complete 0 (.succeeded 1)) 28

def history : List (Moment Nat Unit Unit) := inner.1 ++ half.1 ++ outer.1 ++ whole.1

theorem merged_through_both :
    Run client Call.Steady ⟨.empty (), []⟩ history whole.2 ∧ whole.2.Quiet ∧
      Evaluated history whole.2 ∧ called 3 history = [[12, 1, 12]] ∧
      whole.2.store.value? 3 = some 1222 := by
  have silent (μ : Moment Nat Unit Unit) (c : Call Nat Unit) (made : μ.call? client = some c) :
      c.Steady μ.store := by
    rw [client, Client.panicking_call?] at made
    cases made
  have total : digits.Total := ⟨_, rfl⟩
  have create (s : System Nat Unit Unit) :=
    Run.call silent s (c := .create .settable) trivial 1
  have made : Run client Call.Steady ⟨.empty (), []⟩ inner.1 inner.2 :=
    ((create _).trans (create _)).trans
      (Run.call silent _ (c := .build digits [0, 1]) ⟨total, by decide⟩ 6)
  have run : Run client Call.Steady ⟨.empty (), []⟩ history whole.2 :=
    ((made.trans (Run.call silent inner.2 (c := .complete 1 (.succeeded 2)) ⟨_, rfl, rfl⟩ 8)).trans
      (Run.call silent half.2 (c := .build digits [2, 0, 2]) ⟨total, by decide⟩ 8)).trans
      (Run.call silent outer.2 (c := .complete 0 (.succeeded 1)) ⟨_, rfl, rfl⟩ 28)
  have quiet : whole.2.Quiet := by
    have ended : (whole.2.threads.all fun thread => thread.frames.isEmpty) = true := rfl
    exact fun thread member => List.isEmpty_iff.mp (List.all_eq_true.mp ended thread member)
  have nodes : network history =
      [.leaf, .leaf, .merge digits [0, 1], .merge digits [2, 0, 2]] := rfl
  have evaluated := (nested_merges_evaluate run).2.2 quiet
  obtain ⟨x, there, computed⟩ := evaluated.merges 3 digits [2, 0, 2] (by rw [nodes]; rfl)
  have all : whole.2.store.Votes [2, 0, 2] [12, 1, 12] :=
    .cons ⟨_, rfl, rfl, rfl, rfl⟩ (.cons ⟨_, rfl, rfl, rfl, rfl⟩
      (.cons ⟨_, rfl, rfl, rfl, rfl⟩ .nil))
  obtain ⟨once, o, outcome, state⟩ := computed.succeeded _ all
  cases outcome
  refine ⟨run, quiet, evaluated, once, ?_⟩
  rw [Store.value?_there there, state]
  rfl

end Shared

end Quorate
