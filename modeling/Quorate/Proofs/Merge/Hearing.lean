import Quorate.Proofs.Merge.Nested
import Quorate.Proofs.System.Alone

/-! What a merge is told by a source that has ended, when the callback runs alone. The merge keeps a
picture of its sources until it is decided, and from then on how many values it had counted. -/

set_option autoImplicit false

namespace Quorate

variable {V κ σ : Type}

theorem set_there {A : Type} {xs : List A} {i : Nat} {x : A} (there : xs[i]? = some x) :
    xs.set i x = xs := by
  obtain ⟨bound, rfl⟩ := List.getElem?_eq_some_iff.mp there
  exact List.set_getElem_self bound

/-- What a merge knows: the states of the sources it has heard from, and what it was decided as,
with the number of values that it had counted by then. -/
structure Picture (V : Type) where
  heard : List (State V)
  decision : Option (State V × Nat)

namespace Picture

/-- The values that are there, by position. -/
def values (p : Picture V) : List (Option V) := p.heard.map State.value?

/-- The merge is told that the source at `index` has ended in a state. The first failure decides
it, and the last value does, through a call of the merger. -/
def tell (merge : List V → Outcome V) (p : Picture V) (index : Nat) (state : State V) :
    Picture V × List (List V) :=
  let heard := p.heard.set index state
  match p.decision, state with
  | none, .failed e => (⟨heard, some (.failed e, (p.values.map Option.isSome).count true)⟩, [])
  | none, .succeeded v =>
    let values := p.values.set index (some v)
    if values.all Option.isSome then
      (⟨heard, some (.ofOutcome (merge (values.filterMap id)), values.length)⟩,
        [values.filterMap id])
    else (⟨heard, none⟩, [])
  | decision, _ => (⟨heard, decision⟩, [])

/-- The state that a reader of the merge sees. -/
def state (p : Picture V) : State V := p.decision.elim .pending Prod.fst

/-- How many values the merge has counted. -/
def count (p : Picture V) : Nat :=
  p.decision.elim ((p.values.map Option.isSome).count true) Prod.snd

variable {merge : List V → Outcome V} {p : Picture V} {index : Nat} {state : State V}

@[simp] theorem tell_heard : (p.tell merge index state).1.heard = p.heard.set index state := by
  unfold tell
  split
  next => rfl
  next => dsimp only; split <;> rfl
  next => rfl

theorem tell_last {heard : List (State V)} {v : V}
    (all : ((heard.map State.value?).set index (some v)).all Option.isSome = true) :
    tell merge ⟨heard, none⟩ index (.succeeded v) =
      let values := (heard.map State.value?).set index (some v)
      (⟨heard.set index (.succeeded v),
        some (.ofOutcome (merge (values.filterMap id)), values.length)⟩, [values.filterMap id]) :=
  if_pos all

theorem tell_more {heard : List (State V)} {v : V}
    (missing : ¬ ((heard.map State.value?).set index (some v)).all Option.isSome = true) :
    tell merge ⟨heard, none⟩ index (.succeeded v) =
      (⟨heard.set index (.succeeded v), none⟩, []) :=
  if_neg missing

/-- A merge that is decided learns nothing new. -/
theorem tell_decided {d : State V × Nat} (decided : p.decision = some d) :
    p.tell merge index state = (⟨p.heard.set index state, some d⟩, []) := by
  unfold tell
  rw [decided]

end Picture

/-- A merge of `size` sources by a merger that returns, while its merger does not run. -/
def Merge.total (merge : List V → Outcome V) (size : Nat) (gathering : Gathering V) : Merge V κ :=
  ⟨.plain fun values => .ok (merge values), size, gathering, .free⟩

/-- A merge over `sources` is as its picture says. Nobody has registered callbacks on it. -/
inductive Result.Pictured (merge : List V → Outcome V) (sources : List ResultId) :
    Picture V → Result V κ → Prop where
  | waits {heard : List (State V)} {completed : BitSet} : heard.length = sources.length →
      completed.Holds ((heard.map State.value?).map Option.isSome) →
      Pictured merge sources ⟨heard, none⟩
        ⟨.fresh, .merge (.total merge sources.length
          ⟨completed, heard.map State.value?, sources⟩)⟩
  | decided {heard : List (State V)} {state : State V} {gathering : Gathering V} {told : Bool}
      {count : Nat} : state.isPending = false → gathering.sources = [] →
      gathering.completed.cardinality = count →
      Pictured merge sources ⟨heard, some (state, count)⟩
        ⟨⟨state, [], true, told⟩, .merge (.total merge sources.length gathering)⟩

section

variable {merge : List V → Outcome V} {sources : List ResultId} {p : Picture V} {x : Result V κ}

namespace Result.Pictured

/-- A new merge waits for all of its sources. -/
theorem start : Pictured (κ := κ) merge sources ⟨List.replicate sources.length .pending, none⟩
    ⟨.fresh, .merge (.total merge sources.length (.start sources))⟩ := by
  have slots : (List.replicate sources.length (.pending : State V)).map State.value? =
      List.replicate sources.length none := by
    simp [State.value?]
  unfold Gathering.start
  rw [← slots]
  refine .waits (by simp) ?_
  rw [slots, List.map_replicate]
  exact BitSet.holds_empty sources.length

theorem state (pictured : x.Pictured merge sources p) : x.cell.state = p.state := by
  cases pictured <;> rfl

theorem completed? (pictured : x.Pictured merge sources p) : x.completed? = some p.count := by
  cases pictured with
  | waits _ holds => exact congrArg some holds.cardinality
  | decided _ _ counted => exact congrArg some counted

theorem free (pictured : x.Pictured merge sources p) : x.isHeld = false := by
  cases pictured <;> rfl

theorem isDone (pictured : x.Pictured merge sources p) : x.isDone = p.decision.isSome := by
  cases pictured with
  | waits => rfl
  | decided ended => simp [Result.isDone, ended]

/-- Once a merge is decided, it does not matter what its sources are. -/
theorem other {heard heard' : List (State V)} {d : State V × Nat}
    (pictured : x.Pictured merge sources ⟨heard, some d⟩) :
    x.Pictured merge sources ⟨heard', some d⟩ := by
  cases pictured with
  | decided ended released counted => exact .decided ended released counted

/-- A source that was cancelled is as one that is still pending. -/
theorem unmoved {heard : List (State V)} {i : Nat}
    (pictured : x.Pictured merge sources ⟨heard, none⟩) (missing : heard[i]? = some .pending) :
    x.Pictured merge sources ⟨heard.set i .cancelled, none⟩ := by
  cases pictured with
  | waits length holds =>
    have same : (heard.set i .cancelled).map State.value? = heard.map State.value? := by
      rw [List.map_set]
      exact set_there (by simp [missing, State.value?])
    rw [← same] at holds ⊢
    exact .waits (by simpa using length) holds

theorem notify {heard : List (State V)} {d : State V × Nat}
    (pictured : x.Pictured merge sources ⟨heard, some d⟩) :
    x.notify.Pictured merge sources ⟨heard, some d⟩ := by
  cases pictured with
  | decided ended released counted => exact .decided ended released counted

end Result.Pictured

end

namespace Frame

variable {client : Client V κ σ} {rs : List (Result V κ)} {a : Answer V} {m r : ResultId}
  {index : Nat} {x : Result V κ}

theorem does_perform (callback : Callback κ) :
    (call (.perform ⟨callback, .inline⟩)).Does client rs (.ok a) rs (.ok .unit) [start callback] :=
  ⟨by simp, fun s same => ⟨s, rfl, same⟩⟩

theorem does_observe :
    (start (.observe m index)).Does client rs (.ok a) rs (.ok .unit) [lookup m index] :=
  ⟨by simp, fun s same => ⟨s, rfl, same⟩⟩

section

variable {frame : Frame V κ} {y : Result V κ} {result : Return V} {frames : List (Frame V κ)}
  {f : Store V κ σ → Result V κ → Option (Effect V κ σ)}
  (own : ∀ code, frame ≠ .client code) (there : rs[r]? = some x) (free : x.isHeld = false)
  (locks : ∀ s : Store V κ σ, s.proceed client a frame = s.locking r (f s))
include own there free locks

/-- A frame that looks at a result under its lock. -/
theorem Does.looking (looks : ∀ s : Store V κ σ, f s x = some ⟨s, result, frames⟩) :
    frame.Does client rs (.ok a) rs result frames := by
  refine ⟨own, fun s same => ⟨s, ?_, same⟩⟩
  show s.proceed client a frame = _
  rw [locks, Store.locking_free (same ▸ there) free, looks]

/-- A frame that changes a result under its lock. -/
theorem Does.setting (sets : ∀ s : Store V κ σ, f s x = some ⟨s.set r y, result, frames⟩) :
    frame.Does client rs (.ok a) (rs.set r y) result frames := by
  refine ⟨own, fun s same => ⟨s.set r y, ?_, by rw [Store.set_results, same]⟩⟩
  show s.proceed client a frame = _
  rw [locks, Store.locking_free (same ▸ there) free, sets]

end

/-- The last callback was delivered. -/
theorem does_notify {reply : Answer V} (there : rs[r]? = some x) (free : x.isHeld = false) :
    (deliver r [] none reply).Does client rs (.ok a) (rs.set r x.notify) (.ok reply) [] := by
  refine ⟨by simp, fun s same => ⟨s.set r x.notify, ?_, by simp [same]⟩⟩
  subst same
  simp [Store.resume, Store.proceed, there, free, Store.answering, Result.notify]

theorem does_deliver {task : Task κ} {tasks : List (Task κ)} {reply : Answer V} :
    (deliver r (task :: tasks) none reply).Does client rs (.ok a) rs (.ok .unit)
      [call (.perform task), deliver r tasks none reply] :=
  ⟨by simp, fun s same => ⟨s, rfl, same⟩⟩

/-- A source that was cancelled has nothing to tell. -/
theorem does_skip (there : rs[r]? = some x) (settable : x.kind = .settable)
    (withdrawn : x.cell.state = .cancelled) :
    (query m index r).Does client rs (.ok a) rs (.ok .unit) [] := by
  refine .looking (by simp) there (by simp [Result.isHeld, settable]) (fun _ => rfl) fun s => ?_
  simp [Result.isDone, Result.isCancelled, settable, withdrawn, State.isPending, State.isCancelled,
    Store.answering]

/-- A source that has succeeded or failed tells its outcome. -/
theorem does_ask {o : Outcome V} (there : rs[r]? = some x) (settable : x.kind = .settable)
    (kept : x.cell.state ≠ .cancelled) (outcome : x.cell.state.outcome? = some o) :
    (query m index r).Does client rs (.ok a) rs (.ok (.outcome o)) [commit m index] := by
  refine .looking (by simp) there (by simp [Result.isHeld, settable]) (fun _ => rfl) fun s => ?_
  cases state : x.cell.state with
  | pending => rw [state] at outcome; cases outcome
  | cancelled => exact absurd state kept
  | succeeded v =>
    rw [state] at outcome
    simp [Result.isDone, Result.isCancelled, Result.isForeign, settable, state, State.isPending,
      State.isCancelled, outcome]
  | failed e =>
    rw [state] at outcome
    simp [Result.isDone, Result.isCancelled, Result.isForeign, settable, state, State.isPending,
      State.isCancelled, outcome]

variable {size : Nat} {gathering g : Gathering V} {cell cell' : Cell V (Task κ)} {o : Outcome V}
  {merge : List V → Outcome V}

/-- A value is recorded, and more values are missing. -/
theorem does_record (there : rs[m]? = some ⟨cell, .merge (.total merge size gathering)⟩)
    (arrival : Gathering.arrive cell gathering size index o = .recorded g) :
    (commit m index).Does client rs (.ok (.outcome o))
      (rs.set m ⟨cell, .merge (.total merge size g)⟩) (.ok .unit) [] := by
  refine .setting (by simp) there rfl (fun _ => rfl) fun s => ?_
  simp [Merge.total, arrival, Store.answering]

/-- The source has failed, and the merge with it. -/
theorem does_fail {tasks : List (Task κ)}
    (there : rs[m]? = some ⟨cell, .merge (.total merge size gathering)⟩)
    (arrival : Gathering.arrive cell gathering size index o = .failed cell' g tasks) :
    (commit m index).Does client rs (.ok (.outcome o))
      (rs.set m ⟨cell', .merge (.total merge size g)⟩) (.ok .unit)
      [deliver m tasks none .unit] := by
  refine .setting (by simp) there rfl (fun _ => rfl) fun s => ?_
  simp [Merge.total, arrival, Store.continuing]

/-- The last value has come, and the merger decides. -/
theorem does_merge {values : List V}
    (there : rs[m]? = some ⟨cell, .merge (.total merge size gathering)⟩)
    (pending : cell.state.isPending = true)
    (arrival : Gathering.arrive cell gathering size index o = .complete values g) :
    (commit m index).Does client rs (.ok (.outcome o))
      (rs.set m ⟨⟨.ofOutcome (merge values), [], true, cell.notified⟩,
        .merge (.total merge size g)⟩) (.ok .unit) [deliver m cell.queue none .unit] := by
  refine .setting (by simp) there rfl (fun _ => rfl) fun s => ?_
  simp [Merge.total, arrival, Store.merged, Store.completing, Cell.transition, pending,
    Store.continuing]

end Frame

section

variable {m : ResultId} {μ : Moment V κ σ}

/-- The merger of a merge is called by the construction of the merge or when a source tells it
something. -/
theorem Moment.invoked?_apart (commit : ∀ merge index, μ.frame ≠ .commit merge index)
    (build : ∀ merger sources, μ.frame ≠ .call (.build merger sources)) : μ.invoked? m = none := by
  unfold invoked? merged? node?
  split
  next =>
    split
    next => rfl
    next frame => exact absurd frame (build _ _)
    next => rfl
  next =>
    split
    next frame _ => exact absurd frame (commit _ _)
    next => rfl

theorem Moment.invoked?_silent {frame : Frame V κ}
    (commit : ∀ merge index, frame ≠ .commit merge index)
    (build : ∀ merger sources, frame ≠ .call (.build merger sources)) {rs : List (Result V κ)}
    {result : Return V} :
    ∀ μ : Moment V κ σ, μ.store.results = rs → μ.result = result → μ.frame = frame →
      μ.invoked? m = none :=
  fun _ _ _ same => invoked?_apart (same ▸ commit) (same ▸ build)

end

section

variable {client : Client V κ σ} {merge : List V → Outcome V} {sources : List ResultId}
  {p : Picture V} {x : Result V κ} {rs rs₁ rs' : List (Result V κ)} {m r : ResultId} {i : Nat}
  {result result₁ answer : Return V} {frame : Frame V κ} {frames below : List (Frame V κ)}
  {seen : List (List V)}

/-- A step in which no merger is called. -/
theorem Executes.quietly (does : frame.Does client rs result rs₁ result₁ frames)
    (rest : Executes client (Moment.invoked? m) rs₁ result₁ (frames ++ below) seen rs' answer)
    (commit : ∀ merge index, frame ≠ .commit merge index := by simp)
    (build : ∀ merger sources, frame ≠ .call (.build merger sources) := by simp) :
    Executes client (Moment.invoked? m) rs result (frame :: below) seen rs' answer :=
  .silent does (Moment.invoked?_silent commit build) rest

/-- A merge that was decided tells its readers. -/
theorem Executes.tells {d : State V × Nat} {heard : List (State V)} {a reply : Answer V}
    (there : rs[m]? = some x) (pictured : x.Pictured merge sources ⟨heard, some d⟩) :
    Executes client (Moment.invoked? m) rs (.ok a) [.deliver m [] none reply] []
      (rs.set m x.notify) (.ok reply) :=
  .quietly (Frame.does_notify there pictured.free) .done

/-- A merge that is decided has no sources to look at. -/
theorem Executes.deaf {d : State V × Nat} {heard : List (State V)} {a : Answer V}
    (there : rs[m]? = some x) (pictured : x.Pictured merge sources ⟨heard, some d⟩) :
    Executes client (Moment.invoked? m) rs (.ok a) [.call (.perform ⟨.observe m i, .inline⟩)] []
      rs (.ok .unit) := by
  have misses : (Frame.lookup m i).Does client rs (.ok .unit) rs (.ok .unit) [] := by
    refine .looking (by simp) there pictured.free (fun _ => rfl) fun s => ?_
    cases pictured with
    | decided _ released => simp [Merge.total, released, Store.answering]
  exact .quietly (Frame.does_perform _) (.quietly Frame.does_observe (.quietly misses .done))

/-- What the merger of `m` is called with when the outcome of a source comes in. -/
theorem Moment.invoked?_commit {size : Nat} {gathering : Gathering V} {cell : Cell V (Task κ)}
    {o : Outcome V} {sight : Option (List V)}
    (there : rs[m]? = some ⟨cell, .merge (.total merge size gathering)⟩)
    (arrives : (match Gathering.arrive cell gathering size i o with
      | .complete values _ => some values
      | _ => none) = sight) :
    ∀ μ : Moment V κ σ, μ.store.results = rs → μ.result = .ok (.outcome o) →
      μ.frame = .commit m i → μ.invoked? m = sight := by
  intro μ same answered frame
  rw [Moment.invoked?_there (by rw [same]; exact (List.getElem?_eq_some_iff.mp there).1)]
  simp only [Moment.merged?, answered, frame, same, there, if_true]
  exact arrives

/-- A merge that has been decided by an outcome of a source tells its readers. -/
theorem Executes.decides {heard : List (State V)} {d : State V × Nat} {y : Result V κ}
    {o : Outcome V} {sight : Option (List V)} (bound : m < rs.length)
    (decided : y.Pictured merge sources ⟨heard, some d⟩)
    (does : (Frame.commit m i).Does client rs (.ok (.outcome o)) (rs.set m y) (.ok .unit)
      [.deliver m [] none .unit])
    (sees : ∀ μ : Moment V κ σ, μ.store.results = rs → μ.result = .ok (.outcome o) →
      μ.frame = .commit m i → μ.invoked? m = sight) :
    ∃ x', x'.Pictured merge sources ⟨heard, some d⟩ ∧
      Executes client (Moment.invoked? m) rs (.ok (.outcome o)) [.commit m i] sight.toList
        (rs.set m x') (.ok .unit) := by
  have tells : Executes client (Moment.invoked? m) (rs.set m y) (.ok .unit)
      [.deliver m [] none .unit] [] ((rs.set m y).set m y.notify) (.ok .unit) :=
    .tells (List.getElem?_set_self bound) decided
  rw [List.set_set] at tells
  refine ⟨_, decided.notify, ?_⟩
  rw [← List.append_nil sight.toList]
  exact .step does sees tells

variable (client)

/-- What a merge is told by the outcome of a source. -/
theorem Executes.commits {heard : List (State V)} (there : rs[m]? = some x)
    (pictured : x.Pictured merge sources ⟨heard, none⟩) (missing : heard[i]? = some .pending)
    {state : State V} {o : Outcome V} (outcome : state.outcome? = some o)
    (kept : state ≠ .cancelled) :
    ∃ x', x'.Pictured merge sources (Picture.tell merge ⟨heard, none⟩ i state).1 ∧
      Executes client (Moment.invoked? m) rs (.ok (.outcome o)) [.commit m i]
        (Picture.tell merge ⟨heard, none⟩ i state).2 (rs.set m x') (.ok .unit) := by
  have bound := (List.getElem?_eq_some_iff.mp there).1
  cases pictured with
  | @waits _ completed length holds =>
    have slot : (heard.map State.value?)[i]? = some none := by simp [missing, State.value?]
    have slots : (heard.map State.value?).length = sources.length := by simp [length]
    cases state with
    | pending => cases outcome
    | cancelled => exact absurd rfl kept
    | failed e =>
      cases outcome
      have arrival : Gathering.arrive (.fresh : Cell V (Task κ))
          ⟨completed, heard.map State.value?, sources⟩ sources.length i (.error e) =
            .failed ⟨.failed e, [], true, false⟩ ⟨completed, heard.map State.value?, []⟩ [] :=
        Gathering.arrive_error rfl e
      exact Executes.decides bound (.decided rfl rfl holds.cardinality)
        (Frame.does_fail there arrival) (Moment.invoked?_commit there (by rw [arrival]))
    | succeeded v =>
      cases outcome
      obtain ⟨completed', holds', arrival⟩ :=
        Progress.Shows.arrive_missing (rfl : (.fresh : Cell V (Task κ)).state = .pending) holds
          slots slot v
      have values : (heard.set i (.succeeded v)).map State.value? =
          (heard.map State.value?).set i (some v) := by simp [List.map_set, State.value?]
      by_cases all : ((heard.map State.value?).set i (some v)).all Option.isSome = true
      · rw [Picture.tell_last all]
        rw [if_pos all] at arrival
        exact Executes.decides bound
          (.decided (by simp) rfl ((Progress.Shows.cardinality_eq holds').mpr all))
          (Frame.does_merge there rfl arrival) (Moment.invoked?_commit there (by rw [arrival]))
      · rw [Picture.tell_more all]
        rw [if_neg all] at arrival
        refine ⟨_, .waits (by simpa using length) (by rw [values]; exact holds'), ?_⟩
        rw [values]
        exact .step (Frame.does_record there arrival)
          (Moment.invoked?_commit there (by rw [arrival])) .done

/-- What a merge is told by a source of its own that has ended. -/
theorem Executes.hears {a : Answer V} {y : Result V κ} (there : rs[m]? = some x)
    (pictured : x.Pictured merge sources p) (missing : p.heard[i]? = some .pending)
    (source : sources[i]? = some r) (found : rs[r]? = some y) (settable : y.kind = .settable)
    (ended : y.cell.state.isPending = false) :
    ∃ x', x'.Pictured merge sources (p.tell merge i y.cell.state).1 ∧
      Executes client (Moment.invoked? m) rs (.ok a) [.call (.perform ⟨.observe m i, .inline⟩)]
        (p.tell merge i y.cell.state).2 (rs.set m x') (.ok .unit) := by
  obtain ⟨heard, decision⟩ := p
  cases decision with
  | some d =>
    rw [Picture.tell_decided rfl]
    refine ⟨x, pictured.other, ?_⟩
    rw [set_there there]
    exact .deaf there pictured
  | none =>
    have finds : (Frame.lookup m i).Does client rs (.ok .unit) rs (.ok .unit) [.query m i r] := by
      refine .looking (by simp) there pictured.free (fun _ => rfl) fun s => ?_
      cases pictured with
      | waits => simp [Merge.total, source, Store.continuing]
    -- what the source has ended in decides what the merge learns from it
    suffices queries : ∃ x',
        x'.Pictured merge sources (Picture.tell merge ⟨heard, none⟩ i y.cell.state).1 ∧
        Executes client (Moment.invoked? m) rs (.ok .unit) [.query m i r]
          (Picture.tell merge ⟨heard, none⟩ i y.cell.state).2 (rs.set m x') (.ok .unit) by
      obtain ⟨x', pictured', rest⟩ := queries
      exact ⟨x', pictured', .quietly (Frame.does_perform _)
        (.quietly Frame.does_observe (.quietly finds rest))⟩
    by_cases withdrawn : y.cell.state = .cancelled
    · have skips : (Frame.query m i r).Does client rs (.ok .unit) rs (.ok .unit) [] :=
        Frame.does_skip found settable withdrawn
      rw [withdrawn]
      refine ⟨x, pictured.unmoved missing, ?_⟩
      rw [set_there there]
      exact .quietly skips .done
    · obtain ⟨o, outcome⟩ := State.exists_outcome ended
      obtain ⟨x', pictured', commits⟩ :=
        Executes.commits client there pictured missing outcome withdrawn
      exact ⟨x', pictured', .quietly (Frame.does_ask found settable withdrawn outcome) commits⟩

end

end Quorate
