import Quorate.Proofs.Merge.Survey
import Quorate.Proofs.Merge.Turns

/-! A merge may be built before its sources end or afterwards. Either way it is told the states of
its sources in their order, so it comes to the same picture of them. -/

set_option autoImplicit false

namespace Quorate

variable {V κ σ : Type}

section

variable {client : Client V κ σ} {rs : List (Result V κ)} {m : ResultId}

/-- Sources that nobody watches end in any order. -/
theorem Series.settles {early : List (ResultId × State V)}
    (distinct : (early.map Prod.fst).Nodup)
    (fresh : ∀ q ∈ early, q.2.isPending = false ∧ rs[q.1]? = some (.source .pending [])) :
    ∃ rs', Series client (Moment.invoked? m) rs (early.map Call.ending)
        (List.replicate early.length (.ok (.flag true))) [] rs' ∧ rs'.length = rs.length ∧
      (∀ q ∈ early, rs'[q.1]? = some (.source q.2 [])) ∧
      ∀ r, r ∉ early.map Prod.fst → rs'[r]? = rs[r]? := by
  induction early generalizing rs with
  | nil => exact ⟨rs, .done, rfl, fun q member => (List.not_mem_nil member).elim, fun _ _ => rfl⟩
  | cons q early ih =>
    obtain ⟨first, distinct⟩ := List.nodup_cons.mp distinct
    obtain ⟨ended, found⟩ := fresh q List.mem_cons_self
    have apart (r : ResultId) (member : r ∈ early.map Prod.fst) : q.1 ≠ r :=
      fun same => first (same ▸ member)
    have bound := (List.getElem?_eq_some_iff.mp found).1
    have ends : Executes client (Moment.invoked? m) rs (.ok .unit) [.call (.ending q)] []
        (rs.set q.1 (.source q.2 [])) (.ok (.flag true)) :=
      Call.Settles.unwatched (.complete ended) found
    have fresh' (q' : ResultId × State V) (member : q' ∈ early) : q'.2.isPending = false ∧
        (rs.set q.1 (.source q.2 []))[q'.1]? = some (.source .pending []) := by
      rw [List.getElem?_set_ne (apart _ (List.mem_map_of_mem member))]
      exact fresh q' (List.mem_cons_of_mem _ member)
    obtain ⟨rs', series, length, all, others⟩ := ih distinct fresh'
    refine ⟨rs', .call ends series, by simpa using length, ?_, ?_⟩
    · intro q' member
      rcases List.mem_cons.mp member with rfl | member
      · rw [others _ first]
        exact List.getElem?_set_self bound
      · exact all q' member
    · intro r absent
      simp only [List.map_cons, List.mem_cons, not_or] at absent
      rw [others r absent.2, List.getElem?_set_ne (Ne.symm absent.1)]

end

section

variable {sources : List ResultId} {states : List (State V)} {r : ResultId} {state : State V}

theorem mem_endings_iff : (r, state) ∈ endings sources states ↔
    ∃ i : Nat, sources[i]? = some r ∧ states[i]? = some state ∧ state.isPending = false := by
  rw [endings, List.mem_filter, List.mem_iff_getElem?]
  simp only [List.getElem?_zip_eq_some, Bool.not_eq_true']
  constructor
  · rintro ⟨⟨i, source, given⟩, ended⟩
    exact ⟨i, source, given, ended⟩
  · rintro ⟨i, source, given, ended⟩
    exact ⟨⟨i, source, given⟩, ended⟩

/-- A source ends once. -/
theorem nodup_endings (distinct : sources.Nodup) (length : sources.length = states.length) :
    ((endings sources states).map Prod.fst).Nodup := by
  have part : ((endings sources states).map Prod.fst).Sublist ((sources.zip states).map Prod.fst) :=
    List.filter_sublist.map Prod.fst
  rw [List.map_fst_zip (Nat.le_of_eq length)] at part
  exact distinct.sublist part

/-- After the sources have ended in some order, each stands as it was given. -/
theorem Series.seated {client : Client V κ σ} {m : ResultId} {rs : List (Result V κ)}
    {early : List (ResultId × State V)} (distinct : sources.Nodup)
    (length : sources.length = states.length) (order : early.Perm (endings sources states))
    (fresh : ∀ r ∈ sources, rs[r]? = some ⟨.fresh, .settable⟩) :
    ∃ rs', Series client (Moment.invoked? m) rs (early.map Call.ending)
        (List.replicate (endings sources states).length (.ok (.flag true))) [] rs' ∧
      rs'.length = rs.length ∧
      Seated sources rs' fun i y => ∃ state, states[i]? = some state ∧ y = .source state [] := by
  obtain ⟨rs', series, same, ends, others⟩ :=
    Series.settles ((order.map Prod.fst).nodup_iff.mpr (nodup_endings distinct length))
      fun q member => by
        obtain ⟨i, source, given, ended⟩ := mem_endings_iff.mp (order.mem_iff.mp member)
        exact ⟨ended, fresh _ (List.mem_of_getElem? source)⟩
  rw [order.length_eq] at series
  refine ⟨rs', series, same, fun i r source => ?_⟩
  have bound := (List.getElem?_eq_some_iff.mp source).1
  have given : states[i]? = some states[i] := List.getElem?_eq_getElem (length ▸ bound)
  cases ended : states[i].isPending with
  | false =>
    have member := order.mem_iff.mpr (mem_endings_iff.mpr ⟨i, source, given, ended⟩)
    exact ⟨_, ends _ member, states[i], given, rfl⟩
  | true =>
    -- a source that stays pending ends nowhere else either, as there are no two of it
    have absent : r ∉ early.map Prod.fst := by
      intro member
      obtain ⟨⟨r', state⟩, among, rfl⟩ := List.mem_map.mp member
      obtain ⟨j, source', given', ended'⟩ := mem_endings_iff.mp (order.mem_iff.mp among)
      cases (List.getElem?_inj bound distinct).mp (source.trans source'.symm)
      cases given.symm.trans given'
      rw [ended] at ended'
      cases ended'
    have here := (others r absent).trans (fresh r (List.mem_of_getElem? source))
    refine ⟨_, here, states[i], given, ?_⟩
    rw [(State.isPending_iff _).mp ended]
    rfl

end

/-- A merge and its sources stand alike in two stores. -/
structure Store.Alike (m : ResultId) (sources : List ResultId) (s s' : Store V κ σ) : Prop where
  merge : ∃ x x' count, s.results[m]? = some x ∧ s'.results[m]? = some x' ∧
    x.cell.state = x'.cell.state ∧ x.completed? = some count ∧ x'.completed? = some count
  sources : ∀ r ∈ sources, ∃ state, s.state? r = some state ∧ s'.state? r = some state

section

variable {client : Client V κ σ} {merge : List V → Outcome V} {sources : List ResultId}
  {p : Picture V} {m : ResultId}

theorem Result.Watched.state {y : Result V κ} {i : Nat} (watched : y.Watched m p i) :
    p.heard[i]? = some y.cell.state := by
  cases watched with
  | waits heard => exact heard
  | spared heard => exact heard
  | ended heard => exact heard

/-- A picture says all that can be seen of a merge and of its sources. -/
theorem Tableau.alike {s s' : Store V κ σ} (tableau : Tableau merge sources m p s.results)
    (tableau' : Tableau merge sources m p s'.results) : s.Alike m sources s' := by
  obtain ⟨x, there, pictured⟩ := tableau.merge
  obtain ⟨x', there', pictured'⟩ := tableau'.merge
  refine ⟨⟨x, x', p.count, there, there', ?_, pictured.completed?, pictured'.completed?⟩, ?_⟩
  · rw [pictured.state, pictured'.state]
  · intro r member
    obtain ⟨i, source⟩ := List.mem_iff_getElem?.mp member
    obtain ⟨y, found, watched⟩ := tableau.sources i r source
    obtain ⟨y', found', watched'⟩ := tableau'.sources i r source
    have same := watched.state.symm.trans watched'.state
    exact ⟨y.cell.state, by rw [Store.state?, found]; rfl, by
      rw [Store.state?, found', Option.map_some, Option.some.inj same]⟩

/-- It makes no difference whether a merge of different sources is built before some of them end,
one after the other in their order, or afterwards, whatever the order they have ended in: it stands
alike, its merger was called alike, and it reacts alike to whatever is done next to its sources or
to it. -/
theorem build_commutes_with_endings {s : System V κ σ} {merger : Merger V κ}
    (total : merger.Total) (quiet : s.Quiet) (distinct : sources.Nodup)
    (fresh : ∀ r ∈ sources, s.store.results[r]? = some ⟨.fresh, .settable⟩)
    {states : List (State V)} (length : sources.length = states.length)
    {early : List (ResultId × State V)} (order : early.Perm (endings sources states))
    (last : m = s.store.results.length) {further : List (Call V κ)}
    (stirs : ∀ c ∈ further, c.Stirs sources m) :
    (∃ answers h s', InTurn client s
      (early.map Call.ending ++ .build merger sources :: further) answers h s') ∧
    (∃ answers h s', InTurn client s
      (.build merger sources :: ((endings sources states).map Call.ending ++ further)) answers
        h s') ∧
    ∀ answers h s₁ answers' h' s₂,
      InTurn client s (early.map Call.ending ++ .build merger sources :: further) answers h s₁ →
      InTurn client s
        (.build merger sources :: ((endings sources states).map Call.ending ++ further)) answers'
          h' s₂ →
      called m h = called m h' ∧ s₁.store.Alike m sources s₂.store ∧
        ∃ ended reactions, (∀ a ∈ ended, a = .ok (.flag true)) ∧
          answers = ended ++ .ok (.result m) :: reactions ∧
          answers' = .ok (.result m) :: (ended ++ reactions) := by
  obtain ⟨merge, rfl⟩ := total
  have outside : m ∉ sources := fun member =>
    absurd last (Nat.ne_of_lt (List.getElem?_eq_some_iff.mp (fresh m member)).1)
  let start := Picture.start merge sources.length
  obtain ⟨p, seen, reactions, reacts⟩ := Picture.reacts client merge distinct outside stirs
    (start.1.survey merge 0 states).1
  -- the sources end, and a merge that is built then is told so as it registers with them
  obtain ⟨rs₁, ends, same, seated⟩ := Series.seated distinct length order fresh
  obtain ⟨rs₂, builds, tableau⟩ :=
    seated.builds client merge distinct outside length (last.trans same.symm)
  obtain ⟨rs₃, rest, tableau⟩ := reacts rs₂ tableau
  have first := ends.append (.call builds rest)
  -- a merge that is built before is told so one by one
  have pending : Seated sources s.store.results fun i y => ∃ state,
      (List.replicate sources.length (.pending : State V))[i]? = some state ∧
        y = .source state [] := fun i r source =>
    ⟨_, fresh r (List.mem_of_getElem? source), .pending,
      List.getElem?_replicate_of_lt (List.getElem?_eq_some_iff.mp source).1, rfl⟩
  have missing (j : Nat) (bound : j < sources.length) : start.1.heard[j]? = some .pending := by
    rw [Picture.start_heard, List.getElem?_replicate_of_lt bound]
  obtain ⟨rs₁', builds', tableau'⟩ := pending.builds client merge distinct outside (by simp) last
  rw [Picture.survey_pending fun j _ bound => missing j (by simpa using bound)] at builds' tableau'
  obtain ⟨rs₂', completes, tableau'⟩ := tableau'.completes client merge distinct outside length
    (sources.drop_zero) fun j _ => missing j
  obtain ⟨rs₃', rest', tableau'⟩ := reacts rs₂' tableau'
  have second := Series.call builds' (completes.append rest')
  refine ⟨?_, ?_, ?_⟩
  · obtain ⟨h, s', turns⟩ := first.runs quiet rfl
    exact ⟨_, h, s', turns⟩
  · obtain ⟨h, s', turns⟩ := second.runs quiet rfl
    exact ⟨_, h, s', turns⟩
  · intro answers h s₁ answers' h' s₂ turns turns'
    obtain ⟨rfl, sees, results, -⟩ := turns.ran quiet first
    obtain ⟨rfl, sees', results', -⟩ := turns'.ran quiet second
    subst results results'
    refine ⟨?_, tableau.alike tableau', _, reactions, fun a => List.eq_of_mem_replicate, rfl, rfl⟩
    show List.filterMap _ h = List.filterMap _ h'
    rw [sees, sees']
    simp [start]

end

namespace Shared

/-- Three results that nobody has completed so far. -/
def leaves : System Nat Unit Unit := ⟨⟨List.replicate 3 ⟨.fresh, .settable⟩, [], 0, ()⟩, []⟩

/-- What becomes of them first. -/
def states : List (State Nat) := [.succeeded 1, .pending, .succeeded 3]

/-- The last one completes, and it is too late to cancel the merge. -/
def further : List (Call Nat Unit) := [.complete 1 (.succeeded 2), .cancel 3]

def afterwards : List (Return Nat) × List (Moment Nat Unit Unit) × System Nat Unit Unit :=
  (leaves.turns client 30 ([(2, .succeeded 3), (0, .succeeded 1)].map Call.ending ++
    .build digits [0, 1, 2] :: further)).getD ([], [], leaves)

def before : List (Return Nat) × List (Moment Nat Unit Unit) × System Nat Unit Unit :=
  (leaves.turns client 30 (.build digits [0, 1, 2] ::
    ((endings [0, 1, 2] states).map Call.ending ++ further))).getD ([], [], leaves)

theorem same_digits_either_way :
    afterwards.1 = [.ok (.flag true), .ok (.flag true), .ok (.result 3), .ok (.flag true),
      .ok (.flag false)] ∧
    before.1 = [.ok (.result 3), .ok (.flag true), .ok (.flag true), .ok (.flag true),
      .ok (.flag false)] ∧
    called 3 afterwards.2.1 = [[1, 2, 3]] ∧ called 3 before.2.1 = [[1, 2, 3]] ∧
    afterwards.2.2.store.state? 3 = some (.succeeded 123) ∧
    afterwards.2.2.store.Alike 3 [0, 1, 2] before.2.2.store := by
  have quiet : leaves.Quiet := fun _ member => (List.not_mem_nil member).elim
  have fresh : ∀ r ∈ [0, 1, 2], leaves.store.results[r]? = some ⟨.fresh, .settable⟩ := by
    intro r member
    simp only [List.mem_cons, List.not_mem_nil, or_false] at member
    rcases member with rfl | rfl | rfl <;> rfl
  have stirs : ∀ c ∈ further, c.Stirs [0, 1, 2] 3 := by
    intro c member
    simp only [further, List.mem_cons, List.not_mem_nil, or_false] at member
    rcases member with rfl | rfl
    · exact .source (by decide) (.complete rfl)
    · exact .merge
  have order : List.Perm [(2, .succeeded 3), (0, .succeeded 1)] (endings [0, 1, 2] states) :=
    .swap _ _ _
  have total : digits.Total := ⟨_, rfl⟩
  obtain ⟨-, -, agree⟩ :=
    build_commutes_with_endings total quiet (by decide) fresh rfl order rfl stirs
  have run : leaves.turns client 30 ([(2, .succeeded 3), (0, .succeeded 1)].map Call.ending ++
    .build digits [0, 1, 2] :: further) = some afterwards := rfl
  have run' : leaves.turns client 30 (.build digits [0, 1, 2] ::
    ((endings [0, 1, 2] states).map Call.ending ++ further)) = some before := rfl
  obtain ⟨same, alike, -⟩ := agree _ _ _ _ _ _
    (.of_turns (fun _ => Client.panicking_call? _) run)
    (.of_turns (fun _ => Client.panicking_call? _) run')
  have once : called 3 afterwards.2.1 = [[1, 2, 3]] := rfl
  exact ⟨rfl, rfl, once, same ▸ once, rfl, alike⟩

end Shared

end Quorate
