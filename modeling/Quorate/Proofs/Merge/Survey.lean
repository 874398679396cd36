import Quorate.Proofs.Merge.Tableau

/-! A merge surveys its sources: it is told what they have ended in, in their order, by registering
with each of them while it is built or by the callbacks that it has registered before. -/

set_option autoImplicit false

namespace Quorate

variable {V κ σ : Type}

namespace Picture

/-- A new merge has heard of nothing. Without sources its merger decides at once. -/
def start (merge : List V → Outcome V) (size : Nat) : Picture V × List (List V) :=
  if size = 0 then (⟨[], some (.ofOutcome (merge []), 0)⟩, [[]])
  else (⟨List.replicate size .pending, none⟩, [])

/-- The merge is told the states of its sources from `index` on. -/
def survey (merge : List V → Outcome V) (p : Picture V) (index : Nat) :
    List (State V) → Picture V × List (List V)
  | [] => (p, [])
  | state :: states =>
    let told := p.tell merge index state
    let rest := told.1.survey merge (index + 1) states
    (rest.1, told.2 ++ rest.2)

variable {merge : List V → Outcome V} {p : Picture V} {index : Nat}

theorem start_heard (size : Nat) : (start merge size).1.heard = List.replicate size .pending := by
  unfold start
  split
  next none => rw [none]; rfl
  next => rfl

/-- A source that is pending has nothing to tell. -/
theorem tell_pending (missing : p.heard[index]? = some .pending) :
    p.tell merge index .pending = (p, []) := by
  obtain ⟨heard, decision⟩ := p
  have same : heard.set index .pending = heard := set_there missing
  cases decision <;> simp [tell, same]

theorem survey_pending {size : Nat}
    (missing : ∀ j, index ≤ j → j < index + size → p.heard[j]? = some .pending) :
    p.survey merge index (List.replicate size .pending) = (p, []) := by
  induction size generalizing index with
  | zero => rfl
  | succ size ih =>
    have here : p.tell merge index .pending = (p, []) :=
      tell_pending (missing index (Nat.le_refl _) (by omega))
    have rest : p.survey merge (index + 1) (List.replicate size .pending) = (p, []) :=
      ih fun j low high => missing j (by omega) (by omega)
    simp [List.replicate_succ, survey, here, rest]

end Picture

theorem drop_eq_cons {A : Type} {xs left : List A} {x : A} {i : Nat}
    (rest : xs.drop i = x :: left) : xs[i]? = some x ∧ xs.drop (i + 1) = left :=
  ⟨by rw [← List.head?_drop, rest, List.head?_cons], by rw [← List.tail_drop, rest, List.tail_cons]⟩

/-- The sources that end, in their order, with the states that they end in. -/
def endings (sources : List ResultId) (states : List (State V)) : List (ResultId × State V) :=
  (sources.zip states).filter fun q => !q.2.isPending

/-- A source is made to end. -/
def Call.ending (q : ResultId × State V) : Call V κ := .complete q.1 q.2

/-- A source that stands as it was given, if the merge `m` has yet to come to it. The merge has
come to the sources before `next`. -/
inductive Result.Attended (m : ResultId) (p : Picture V) (states : List (State V)) (next i : Nat) :
    Result V κ → Prop where
  | met {y : Result V κ} : i < next → y.Watched m p i → Attended m p states next i y
  | ahead {state : State V} : next ≤ i → p.heard[i]? = some .pending → states[i]? = some state →
      Attended m p states next i (.source state [])

/-- A merge registers with its sources, and has come to the source at `next`. -/
structure Attaching (merge : List V → Outcome V) (sources : List ResultId) (m : ResultId)
    (states : List (State V)) (next : Nat) (p : Picture V) (rs : List (Result V κ)) : Prop where
  merge : ∃ x, rs[m]? = some x ∧ x.Pictured merge sources p
  sources : Seated sources rs (Result.Attended m p states next)

section

variable {client : Client V κ σ} {merge : List V → Outcome V} {sources : List ResultId}
  {p : Picture V} {x y : Result V κ} {rs : List (Result V κ)} {m r : ResultId} {i next : Nat}
  {a : Answer V} {state : State V} {states : List (State V)}

/-- The merger of a merge without sources is called when the merge is built. -/
theorem Moment.invoked?_build {merger : Merger V κ} (last : m = rs.length) :
    ∀ μ : Moment V κ σ, μ.store.results = rs → μ.result = .ok a →
      μ.frame = .call (.build merger sources) → μ.invoked? m = atOnce sources := by
  intro μ same answered frame
  simp [Moment.invoked?, Moment.node?, same, answered, frame, last]

theorem Result.Attended.tell {j : Nat} (attended : y.Attended m p states next j)
    (other : j ≠ next) : y.Attended m (p.tell merge next state).1 states (next + 1) j := by
  cases attended with
  | met before watched => exact .met (Nat.lt_succ_of_lt before) (watched.tell other)
  | ahead after missing given =>
    refine .ahead (Nat.lt_of_le_of_ne after (Ne.symm other)) ?_ given
    rw [Picture.tell_heard, List.getElem?_set_ne (Ne.symm other), missing]

/-- The source that the merge has come to. -/
theorem Attaching.here (attaching : Attaching merge sources m states next p rs)
    (source : sources[next]? = some r) (given : states[next]? = some state) :
    rs[r]? = some (.source state []) ∧ p.heard[next]? = some .pending := by
  obtain ⟨y, found, attended⟩ := attaching.sources next r source
  cases attended with
  | met before => exact absurd before (Nat.lt_irrefl next)
  | ahead _ missing given' =>
    cases given.symm.trans given'
    exact ⟨found, missing⟩

/-- A source without the callback of the merge has told it already what it has ended in, or has
nobody to tell, the merge being decided. -/
theorem Result.watched_told (missing : p.heard[i]? = some .pending)
    (known : state.isPending = false ∨ p.decision ≠ none) :
    Result.Watched (κ := κ) m (p.tell merge i state).1 i (.source state []) := by
  have heard : (p.tell merge i state).1.heard[i]? = some state := by
    rw [Picture.tell_heard]
    exact List.getElem?_set_self (List.getElem?_eq_some_iff.mp missing).1
  cases ended : state.isPending with
  | false => exact .ended heard ended
  | true =>
    obtain rfl := (State.isPending_iff state).mp ended
    have decided := known.resolve_left (by simp [ended])
    exact .spared heard (by rw [Picture.tell_keeps decided]; exact decided)

/-- A merge has come to all of its sources. -/
theorem Attaching.finish (attaching : Attaching merge sources m states next p rs)
    (past : states.length ≤ next) : Tableau merge sources m p rs := by
  refine ⟨attaching.merge, fun i r source => ?_⟩
  obtain ⟨y, found, attended⟩ := attaching.sources i r source
  cases attended with
  | met _ watched => exact ⟨y, found, watched⟩
  | ahead after _ given =>
    have bound := (List.getElem?_eq_some_iff.mp given).1
    omega

/-- Once a merge is decided, it does not come to further sources. -/
theorem Attaching.spares {d : State V × Nat} {left : List (State V)}
    (rest : states.drop next = left) (attaching : Attaching merge sources m states next p rs)
    (decided : p.decision = some d) :
    Tableau merge sources m (p.survey merge next left).1 rs ∧
      (p.survey merge next left).2 = [] := by
  -- no frame is at work for this: what is told to a decided merge is only noted in the picture
  induction left generalizing next p with
  | nil => exact ⟨attaching.finish (List.drop_eq_nil_iff.mp rest), rfl⟩
  | cons state left ih =>
    obtain ⟨given, rest'⟩ := drop_eq_cons rest
    have told : p.tell merge next state = (⟨p.heard.set next state, some d⟩, []) :=
      Picture.tell_decided decided
    have known : p.decision ≠ none := by simp [decided]
    obtain ⟨x, there, pictured⟩ := attaching.merge
    have attaching' :
        Attaching merge sources m states (next + 1) (p.tell merge next state).1 rs := by
      refine ⟨⟨x, there, ?_⟩, fun j r source => ?_⟩
      · rw [told]
        obtain ⟨heard, decision⟩ := p
        cases decided
        exact pictured.other
      · obtain ⟨y, found, attended⟩ := attaching.sources j r source
        by_cases same : j = next
        · subst same
          obtain ⟨here, missing⟩ := attaching.here source given
          cases here.symm.trans found
          exact ⟨_, found, .met (Nat.lt_succ_self j) (Result.watched_told missing (.inr known))⟩
        · exact ⟨y, found, attended.tell same⟩
    obtain ⟨tableau, none⟩ := ih rest' attaching' (by rw [told])
    refine ⟨tableau, ?_⟩
    show (p.tell merge next state).2 ++ _ = []
    rw [none, told]
    rfl

/-- A merge has come to the end of its sources. -/
theorem Frame.does_end (there : rs[m]? = some x) (free : x.isHeld = false) :
    (attach m [] next).Does client rs (.ok a) rs (.ok (.result m)) [] :=
  .looking (by simp) there free (fun _ => rfl) fun s => rfl

/-- Without sources the merger decides the merge while it is built. -/
theorem Executes.opens (last : m = rs.length) :
    ∃ rs', Executes client (Moment.invoked? m) rs (.ok .unit)
        [.call (.build (.plain fun values => .ok (merge values)) [])] [[]] rs' (.ok (.result m)) ∧
      Tableau merge [] m ⟨[], some (.ofOutcome (merge []), 0)⟩ rs' := by
  let kind : Kind V κ := .merge (.total merge 0 (.start []))
  let y : Result V κ := ⟨⟨.ofOutcome (merge []), [], true, false⟩, kind⟩
  have builds : (Frame.call (.build (.plain fun values => .ok (merge values)) [])).Does client rs
      (.ok .unit) (rs ++ [⟨.fresh, kind⟩]) (.ok (.outcome (merge []))) [.opening m] := by
    refine ⟨by simp, fun s same => ⟨s.push ⟨.fresh, kind⟩, ?_, by rw [Store.push, same]⟩⟩
    rw [last, ← same]
    rfl
  have there : (rs ++ [⟨.fresh, kind⟩])[m]? = some ⟨.fresh, kind⟩ := by
    rw [last]
    exact List.getElem?_concat_length
  -- from here on only the place of the merge matters
  generalize rs ++ [⟨.fresh, kind⟩] = rs₁ at builds there
  have opens : (Frame.opening m).Does client rs₁ (.ok (.outcome (merge []))) rs₁ (.ok .unit)
      [.call (.complete m (.ofOutcome (merge []))), .attach m [] 0] :=
    ⟨by simp, fun s same => ⟨s, rfl, same⟩⟩
  have completes : (Frame.call (.complete m (.ofOutcome (merge [])))).Does client rs₁ (.ok .unit)
      (rs₁.set m y) (.ok .unit) [.deliver m [] none (.flag true)] :=
    .setting (by simp) there rfl (fun _ => rfl) fun s => rfl
  have pictured : y.Pictured merge [] ⟨[], some (.ofOutcome (merge []), 0)⟩ :=
    .decided (by simp) rfl rfl
  have bound := (List.getElem?_eq_some_iff.mp there).1
  have tells : Executes client (Moment.invoked? m) (rs₁.set m y) (.ok .unit)
      [.deliver m [] none (.flag true)] [] ((rs₁.set m y).set m y.notify) (.ok (.flag true)) :=
    .tells (List.getElem?_set_self bound) pictured
  rw [List.set_set] at tells
  have there' : (rs₁.set m y.notify)[m]? = some y.notify := List.getElem?_set_self bound
  refine ⟨rs₁.set m y.notify, ?_, ⟨y.notify, there', pictured.notify⟩,
    fun i r source => by simp at source⟩
  exact .step builds (Moment.invoked?_build last) (.quietly opens (.quietly completes
    (tells.append (.quietly (Frame.does_end there' rfl) .done))))

section

variable (client) (merge) (distinct : sources.Nodup) (outside : m ∉ sources)
include distinct outside

/-- A merge registers with one more source, or is told at once what has become of it. -/
theorem Attaching.registers (attaching : Attaching merge sources m states next p rs)
    (source : sources[next]? = some r) (given : states[next]? = some state) :
    ∃ rs', Executes client (Moment.invoked? m) rs (.ok a)
        [.call (.register r ⟨.observe m next, .inline⟩)] (p.tell merge next state).2 rs'
        (.ok .unit) ∧
      Attaching merge sources m states (next + 1) (p.tell merge next state).1 rs' := by
  obtain ⟨x, there, pictured⟩ := attaching.merge
  obtain ⟨found, missing⟩ := attaching.here source given
  have apart : r ≠ m := fun same => outside (same ▸ List.mem_of_getElem? source)
  have bound := (List.getElem?_eq_some_iff.mp there).1
  let task : Task κ := ⟨.observe m next, .inline⟩
  cases ended : state.isPending with
  | true =>
    obtain rfl := (State.isPending_iff state).mp ended
    have waits : (Frame.call (.register r task)).Does client rs (.ok a)
        (rs.set r (.source .pending [task])) (.ok .unit) [] :=
      .setting (by simp) found rfl (fun _ => rfl) fun s => rfl
    refine ⟨rs.set r (.source .pending [task]), .quietly waits ?_,
      ⟨x, by rw [List.getElem?_set_ne apart, there], ?_⟩, ?_⟩
    · rw [Picture.tell_pending missing]
      exact .done
    · rw [Picture.tell_pending missing]
      exact pictured
    · refine attaching.sources.set distinct source (fun j y other attended => attended.tell other)
        (.met (Nat.lt_succ_self next) (.waits ?_))
      rw [Picture.tell_pending missing, missing]
  | false =>
    -- the source hands the callback back, and it runs before the next source is looked at
    have runs : (Frame.call (.register r task)).Does client rs (.ok a) rs (.ok .unit)
        [.call (.perform task)] := by
      refine .looking (by simp) found rfl (fun _ => rfl) fun s => ?_
      simp [Result.source, Result.isForeign, Cell.enqueue, ended, Store.continuing]
    obtain ⟨x', pictured', hears⟩ :=
      Executes.hears client there pictured missing source found rfl ended
    have same : (rs.set m x').set r (.source state []) = rs.set m x' :=
      set_there (by rw [List.getElem?_set_ne (Ne.symm apart), found])
    have seated : Seated sources ((rs.set m x').set r (.source state []))
        (Result.Attended m (p.tell merge next state).1 states (next + 1)) :=
      (attaching.sources.apart outside fun _ _ => id).set distinct source
        (fun j y other attended => attended.tell other)
        (.met (Nat.lt_succ_self next) (Result.watched_told missing (.inl ended)))
    rw [same] at seated
    exact ⟨rs.set m x', .quietly runs hears, ⟨x', List.getElem?_set_self bound, pictured'⟩, seated⟩

/-- A merge comes to the sources that are left, until it is decided. -/
theorem Attaching.attaches {left : List ResultId} {given : List (State V)}
    (length : left.length = given.length) (sources' : sources.drop next = left)
    (states' : states.drop next = given) (attaching : Attaching merge sources m states next p rs) :
    ∃ rs', Executes client (Moment.invoked? m) rs (.ok a) [.attach m left next]
        (p.survey merge next given).2 rs' (.ok (.result m)) ∧
      Tableau merge sources m (p.survey merge next given).1 rs' := by
  induction left generalizing next p rs given a with
  | nil =>
    obtain ⟨x, there, pictured⟩ := attaching.merge
    obtain rfl : given = [] := List.length_eq_zero_iff.mp length.symm
    exact ⟨rs, .quietly (Frame.does_end there pictured.free) .done,
      attaching.finish (List.drop_eq_nil_iff.mp states')⟩
  | cons r left ih =>
    obtain ⟨x, there, pictured⟩ := attaching.merge
    cases decision : p.decision with
    | some d =>
      have stops : (Frame.attach m (r :: left) next).Does client rs (.ok a) rs (.ok (.result m))
          [] := by
        refine .looking (by simp) there pictured.free (fun _ => rfl) fun s => ?_
        simp [pictured.isDone, decision, Store.answering]
      obtain ⟨tableau, none⟩ := attaching.spares states' decision
      rw [none]
      exact ⟨rs, .quietly stops .done, tableau⟩
    | none =>
      have goes : (Frame.attach m (r :: left) next).Does client rs (.ok a) rs (.ok .unit)
          [.call (.register r ⟨.observe m next, .inline⟩), .attach m left (next + 1)] := by
        refine .looking (by simp) there pictured.free (fun _ => rfl) fun s => ?_
        simp [pictured.isDone, decision, Store.continuing]
      cases given with
      | nil => cases length
      | cons state given =>
        obtain ⟨source, sources'⟩ := drop_eq_cons sources'
        obtain ⟨here, states'⟩ := drop_eq_cons states'
        obtain ⟨rs₁, registers, attaching'⟩ :=
          attaching.registers client merge distinct outside source here
        obtain ⟨rs', rest, tableau⟩ := ih (by simpa using length) sources' states' attaching'
        exact ⟨rs', .quietly goes (registers.append rest), tableau⟩

/-- A merge is built over sources that stand as they were given. -/
theorem Seated.builds
    (seated : Seated sources rs fun i y => ∃ state, states[i]? = some state ∧ y = .source state [])
    (length : sources.length = states.length) (last : m = rs.length) :
    ∃ rs', Executes client (Moment.invoked? m) rs (.ok .unit)
        [.call (.build (.plain fun values => .ok (merge values)) sources)]
        ((Picture.start merge sources.length).2 ++
          ((Picture.start merge sources.length).1.survey merge 0 states).2) rs'
        (.ok (.result m)) ∧
      Tableau merge sources m ((Picture.start merge sources.length).1.survey merge 0 states).1
        rs' := by
  cases sources with
  | nil =>
    obtain rfl : states = [] := List.length_eq_zero_iff.mp length.symm
    exact Executes.opens last
  | cons r left =>
    let x : Result V κ := ⟨.fresh, .merge (.total merge (r :: left).length (.start (r :: left)))⟩
    let p : Picture V := ⟨List.replicate (r :: left).length .pending, none⟩
    have builds : (Frame.call (.build (.plain fun values => .ok (merge values)) (r :: left))).Does
        client rs (.ok .unit) (rs ++ [x]) (.ok .unit) [.attach m (r :: left) 0] := by
      refine ⟨by simp, fun s same => ⟨s.push x, ?_, by rw [Store.push, same]⟩⟩
      rw [last, ← same]
      rfl
    have there : (rs ++ [x])[m]? = some x := by
      rw [last]
      exact List.getElem?_concat_length
    have attaching : Attaching merge (r :: left) m states 0 p (rs ++ [x]) := by
      refine ⟨⟨x, there, .start⟩, fun i r' source => ?_⟩
      obtain ⟨y, found, state, given, rfl⟩ := seated i r' source
      have bound := (List.getElem?_eq_some_iff.mp found).1
      have inside := (List.getElem?_eq_some_iff.mp source).1
      refine ⟨_, by rw [List.getElem?_append_left bound, found], .ahead (Nat.zero_le i) ?_ given⟩
      rw [List.getElem?_replicate_of_lt inside]
    obtain ⟨rs', attaches, tableau⟩ :=
      attaching.attaches client merge distinct outside length rfl rfl
    exact ⟨rs', .step builds (Moment.invoked?_build last) attaches, tableau⟩

/-- Sources that end one after the other, in their order, tell the merge. -/
theorem Tableau.completes {left : List ResultId} {given : List (State V)}
    (length : left.length = given.length) (rest : sources.drop next = left)
    (missing : ∀ j, next ≤ j → j < sources.length → p.heard[j]? = some .pending)
    (tableau : Tableau merge sources m p rs) :
    ∃ rs', Series client (Moment.invoked? m) rs ((endings left given).map Call.ending)
        (List.replicate (endings left given).length (.ok (.flag true)))
        (p.survey merge next given).2 rs' ∧
      Tableau merge sources m (p.survey merge next given).1 rs' := by
  induction left generalizing next p rs given with
  | nil =>
    obtain rfl : given = [] := List.length_eq_zero_iff.mp length.symm
    exact ⟨rs, .done, tableau⟩
  | cons r left ih =>
    cases given with
    | nil => cases length
    | cons state given =>
      obtain ⟨source, rest⟩ := drop_eq_cons rest
      have bound := (List.getElem?_eq_some_iff.mp source).1
      have here := missing next (Nat.le_refl _) bound
      cases ended : state.isPending with
      | true =>
        -- nobody completes this source, and a survey learns nothing from it
        obtain rfl := (State.isPending_iff state).mp ended
        have same : p.survey merge next (.pending :: given) = p.survey merge (next + 1) given := by
          rw [Picture.survey, Picture.tell_pending here]
          rfl
        have same' : endings (r :: left) (.pending :: given) = endings left given := rfl
        rw [same, same']
        exact ih (by simpa using length) rest (fun j low => missing j (by omega)) tableau
      | false =>
        obtain ⟨rs₁, executes, tableau₁⟩ := tableau.settles client merge distinct outside source
          here (.complete ended)
        have missing' (j : Nat) (low : next + 1 ≤ j) (high : j < sources.length) :
            (p.tell merge next state).1.heard[j]? = some .pending := by
          rw [Picture.tell_heard, List.getElem?_set_ne (by omega)]
          exact missing j (by omega) high
        obtain ⟨rs', series, tableau'⟩ := ih (by simpa using length) rest missing' tableau₁
        have same : endings (r :: left) (state :: given) = (r, state) :: endings left given := by
          simp [endings, ended]
        rw [same]
        exact ⟨rs', .call executes series, tableau'⟩

end

end

end Quorate
