import Mathlib.Logic.Relation
import Quorate.Proofs.Merge.Construction

/-! A network of merges between calls that are made in turns. Merges that wait know of no failed
source and hold all of their sources, and the callbacks of a merge are queued at its own sources. If
a merge has ended without a failure, its sources have too. -/

set_option autoImplicit false

namespace Quorate

variable {V κ σ : Type}

/-- The result `r` is a source of `m`. -/
def SourceOf (net : List (Node V κ)) (m r : ResultId) : Prop :=
  ∃ node, net[m]? = some node ∧ r ∈ node.sources

/-- A chain of merges leads from `m` down to `r`. -/
def Below (net : List (Node V κ)) : ResultId → ResultId → Prop := Relation.TransGen (SourceOf net)

/-- The state of a result. -/
def Store.state? (s : Store V κ σ) (r : ResultId) : Option (State V) :=
  s.results[r]?.map fun x => x.cell.state

/-- A result has ended, and not by a failure. -/
def Store.Peaceful (s : Store V κ σ) (r : ResultId) : Prop :=
  (∃ v, s.state? r = some (.succeeded v)) ∨ s.state? r = some .cancelled

theorem Store.state?_there {s : Store V κ σ} {r : ResultId} {x : Result V κ}
    (there : s.results[r]? = some x) : s.state? r = some x.cell.state := by
  rw [state?, there, Option.map_some]

/-- Calls that are made in turns: each begins when all threads have ended, and nothing else is
called until they have ended again. -/
inductive Turns (client : Client V κ σ) (memory : σ) : List (Moment V κ σ) → System V κ σ → Prop
    where
  | start : Turns client memory [] ⟨.empty memory, []⟩
  | turn {h h' : List (Moment V κ σ)} {s s' : System V κ σ} {c : Call V κ} :
      Turns client memory h s → c.Returning s.store →
      Run client (fun _ _ => False) (s.begin c) h' s' → s'.Quiet →
      Turns client memory (h ++ h') s'

/-- A callback by which a merge looks at its source `r`. -/
def Task.Awaits (net : List (Node V κ)) (r : ResultId) (task : Task κ) : Prop :=
  ∃ m i, task = ⟨.observe m i, .inline⟩ ∧
    ∀ node, net[m]? = some node → ∀ source, node.sources[i]? = some source → source = r

/-- A network between calls. -/
structure Store.Rests (net : List (Node V κ)) (s : Store V κ σ) : Prop where
  length : net.length = s.results.length
  leaf : ∀ r : ResultId, net[r]? = some .leaf →
    ∃ cell : Cell V (Task κ), s.results[r]? = some ⟨cell, .settable⟩
  merge : ∀ (m : ResultId) (merger : Merger V κ) (sources : List ResultId),
    net[m]? = some (.merge merger sources) →
    ∃ (cell : Cell V (Task κ)) (merge : Merge V κ), s.results[m]? = some ⟨cell, .merge merge⟩ ∧
      (merge.gathering.sources = sources ∨
        merge.gathering.sources = [] ∧ cell.state ≠ .pending)
  queued : ∀ (r : ResultId) (x : Result V κ), s.results[r]? = some x →
    ∀ task ∈ x.cell.queue, task.Awaits net r
  waits : ∀ m r, SourceOf net m r → s.state? m = some .pending →
    ∀ e, s.state? r ≠ some (.failed e)
  ended : ∀ m r, SourceOf net m r → s.Peaceful m → s.Peaceful r

/-- All results below one that has ended without a failure have ended without one. -/
theorem Store.Rests.below {net : List (Node V κ)} {s : Store V κ σ} (rests : s.Rests net)
    {m r : ResultId} (below : Below net m r) (peaceful : s.Peaceful m) : s.Peaceful r := by
  induction below with
  | single source => exact rests.ended _ _ source peaceful
  | tail _ source ih => exact rests.ended _ _ source ih

/-- A merger that returns leaves the merge with a decision. -/
theorem Progress.run_unbroken {merger : Merger V κ} (total : merger.Total) {p : Progress V}
    (sane : p ≠ .broken ∧ ∀ values, p ≠ .merging values) (events : List (Event V)) :
    p.run merger events ≠ .broken := by
  obtain ⟨merge, rfl⟩ := total
  induction events generalizing p with
  | nil => exact sane.1
  | cons event events ih =>
    apply ih
    have gathered (values : List (Option V)) :
        gathered (.plain fun values => .ok (merge values) : Merger V κ) values ≠ .broken ∧
          ∀ values', gathered (.plain fun values => .ok (merge values) : Merger V κ) values ≠
            .merging values' := by
      unfold Progress.gathered
      split <;> simp [handed]
    cases p with
    | gathering values =>
      cases event with
      | arrived index o =>
        cases o with
        | ok v =>
          simp only [next]
          split
          next => exact gathered _
          next => simp
        | error e => simp [next]
      | _ => simp [next]
    | opening =>
      cases event with
      | arrived index o => cases o <;> simp [next]
      | _ => simp [next]
    | merging values => exact absurd rfl (sane.2 values)
    | broken => exact absurd rfl sane.1
    | decided state =>
      cases event with
      | arrived index o => cases o <;> simp [next]
      | _ => simp [next]

theorem Progress.start_sane (size : Nat) :
    (start size : Progress V) ≠ .broken ∧
      ∀ values, (start size : Progress V) ≠ .merging values := by
  unfold start
  split <;> exact ⟨nofun, nofun⟩

section

variable {client : Client V κ σ} {s : System V κ σ} {h : List (Moment V κ σ)} {m : ResultId}
  {merger : Merger V κ} {sources : List ResultId}

theorem Since.shows (since : Since client merger sources m h s) :
    ∃ h', h' <:+ h ∧ s.store.Shows m merger sources
      ((Progress.start sources.length).run merger (h'.filterMap (Moment.event? m))) := by
  obtain ⟨built, later, part, -⟩ := since
  have before := built.fair
  exact ⟨_, part, later.fair.shows before.sound before.orderly before.shows⟩

/-- A merge whose merger returns holds its sources as long as it waits. -/
theorem Since.record (since : Since client merger sources m h s) (total : merger.Total)
    (ready : s.Ready) :
    ∃ (cell : Cell V (Task κ)) (merge : Merge V κ),
      s.store.results[m]? = some ⟨cell, .merge merge⟩ ∧
      (merge.gathering.sources = sources ∨
        merge.gathering.sources = [] ∧ cell.state ≠ .pending) := by
  obtain ⟨h', -, x, there, shows⟩ := since.shows
  have unbroken := Progress.run_unbroken total (Progress.start_sane sources.length)
    (h'.filterMap (Moment.event? m))
  generalize Progress.run _ _ _ = p at shows unbroken
  have free := ready.free there
  cases shows with
  | opening _ released none => exact ⟨_, _, there, .inl (released.trans none.symm)⟩
  | gathering => exact ⟨_, _, there, .inl rfl⟩
  | merging => cases free
  | broken => exact absurd rfl unbroken
  | decided decided terminal released =>
    refine ⟨_, _, there, .inr ⟨released, fun pending => ?_⟩⟩
    rw [← decided, pending] at terminal
    cases terminal

/-- The callbacks of a merge are queued at its own sources. -/
theorem Since.queued (since : Since client merger sources m h s) {r source : ResultId} {i : Nat}
    (position : sources[i]? = some source) {x : Result V κ} (there : s.store.results[r]? = some x)
    {task : Task κ} (member : task ∈ x.cell.queue) (watches : task.callback = .observe m i) :
    source = r := by
  obtain ⟨built, later, -, -⟩ := since
  have some : sources ≠ [] := by
    rintro rfl
    cases position
  obtain ⟨p, follows⟩ := (built.mono fun _ _ plain => plain.blind m).follows some built.own
    (later.mono fun _ _ plain => plain.blind m)
  have here := (follows.watched.hosts.queued r x there task member i watches).2
  exact Option.some.inj (position.symm.trans here)

end

section

variable {client : Client V κ σ} {s : System V κ σ} {h : List (Moment V κ σ)}

theorem Store.Gives.of_state {s : Store V κ σ} (plain : s.Plain) {r : ResultId} {e : Error}
    (failed : s.state? r = some (.failed e)) : s.Gives r (.error e) := by
  obtain ⟨x, there, state⟩ := Option.map_eq_some_iff.mp failed
  have kept : x.isCancelled = false := by
    have kind := (plain r x there).1
    unfold Result.isCancelled
    split
    next foreign => rw [foreign] at kind; exact kind.elim
    next => rfl
    next => rw [state]; rfl
  exact ⟨x, there, plain.own there, kept, by rw [state]; rfl⟩

theorem Store.Gives.state {s : Store V κ σ} {r : ResultId} {v : V} (gives : s.Gives r (.ok v)) :
    s.state? r = some (.succeeded v) := by
  obtain ⟨x, there, -, -, outcome⟩ := gives
  rw [state?_there there]
  cases state : x.cell.state <;> rw [state] at outcome <;> cases outcome
  rfl

/-- Between calls a network is at rest, provided that the sources of cancelled merges are. -/
theorem System.Laid.rests (laid : s.Laid client h) (ready : s.Ready) (quiet : s.Quiet)
    (sealed : ∀ m r, SourceOf (network h) m r → s.store.state? m = some .cancelled →
      s.store.Peaceful r) : s.store.Rests (network h) := by
  have plain := ready.plain.store
  -- what has become of a merge tells what has become of its sources
  have stands {m r : ResultId} (source : SourceOf (network h) m r) :
      ∃ merge sources events calls state, s.store.state? m = some state ∧ r ∈ sources ∧
        Stands merge sources s events calls state := by
    obtain ⟨node, there, member⟩ := source
    cases node with
    | leaf => cases member
    | merge merger sources =>
      obtain ⟨⟨merge, rfl⟩, built, later, -, -⟩ := laid.since m merger sources there
      obtain ⟨x, there, stands⟩ := built.stands later
      exact ⟨merge, sources, _, _, _, Store.state?_there there, member, stands⟩
  constructor
  · exact laid.length
  · exact laid.leaf
  · intro m merger sources there
    obtain ⟨total, since⟩ := laid.since m merger sources there
    exact since.record total ready
  · intro r x there task member
    obtain ⟨m, i, size, rfl, -⟩ := (plain r x there).2 task member
    refine ⟨m, i, rfl, fun node found source position => ?_⟩
    cases node with
    | leaf => cases position
    | merge merger sources =>
      exact (laid.since m merger sources found).2.queued position there member rfl
  · intro m r source pending e failed
    obtain ⟨merge, sources, events, calls, state, same, member, stands⟩ := stands source
    cases same.symm.trans pending
    have failed := Store.Gives.of_state plain failed
    generalize waiting : (State.pending : State V) = state at stands
    cases stands with
    | waits idle => exact (idle quiet).2.2 r member e failed
    | @merged values =>
      have terminal := State.isPending_ofOutcome (merge values)
      rw [← waiting] at terminal
      cases terminal
    | failed => cases waiting
    | cancelled => cases waiting
  · rintro m r source (⟨v, succeeded⟩ | cancelled)
    · obtain ⟨merge, sources, events, calls, state, same, member, stands⟩ := stands source
      cases same.symm.trans succeeded
      generalize ended : (State.succeeded v : State V) = state at stands
      cases stands with
      | waits => cases ended
      | merged all =>
        obtain ⟨v, gives⟩ := all.given r member
        exact .inl ⟨v, gives.state⟩
      | failed => cases ended
      | cancelled => cases ended
    · exact sealed m r source cancelled

namespace Turns

variable {memory : σ}

theorem run (turns : Turns client memory h s) :
    Run client Call.Returning ⟨.empty memory, []⟩ h s := by
  induction turns with
  | start => exact .start
  | turn _ obeyed run _ ih =>
    exact (ih.begin _ obeyed).trans (run.mono fun _ _ => False.elim)

theorem quiet (turns : Turns client memory h s) : s.Quiet := by
  cases turns with
  | start => exact fun _ member => by cases member
  | turn _ _ _ quiet => exact quiet

theorem laid (turns : Turns client memory h s) : s.Laid client h := turns.run.laid

theorem ready (turns : Turns client memory h s) : s.Ready :=
  (turns.run.mono fun _ _ => And.left).ready (System.ready_empty memory)

theorem begun (turns : Turns client memory h s) {c : Call V κ} (plain : c.Plain s.store) :
    (s.begin c).Ready := by
  have run : Run client Call.Plain s [] (s.begin c) := .begin c .start plain
  exact run.ready turns.ready

end Turns

end

end Quorate
