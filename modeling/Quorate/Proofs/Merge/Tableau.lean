import Quorate.Proofs.Merge.Hearing

/-! A merge over settable sources that nobody else watches, while no thread is at work. The picture
that the merge has of its sources determines how they all react to a call. -/

set_option autoImplicit false

namespace Quorate

variable {V κ σ : Type}

/-- A settable result that has told everybody if it has ended. -/
def Result.source (state : State V) (queue : List (Task κ)) : Result V κ :=
  ⟨⟨state, queue, !state.isPending, !state.isPending⟩, .settable⟩

/-- A source stands as the merge `m` has it in its picture. While it is pending, it keeps the
callback of the merge, unless the merge was decided before it came to register it. -/
inductive Result.Watched (m : ResultId) (p : Picture V) (index : Nat) : Result V κ → Prop where
  | waits : p.heard[index]? = some .pending →
      Watched m p index (.source .pending [⟨.observe m index, .inline⟩])
  | spared : p.heard[index]? = some .pending → p.decision ≠ none →
      Watched m p index (.source .pending [])
  | ended {state : State V} : p.heard[index]? = some state → state.isPending = false →
      Watched m p index (.source state [])

/-- Every source stands as `P` says of its index. -/
def Seated (sources : List ResultId) (rs : List (Result V κ)) (P : Nat → Result V κ → Prop) :
    Prop :=
  ∀ (i : Nat) (r : ResultId), sources[i]? = some r → ∃ y, rs[r]? = some y ∧ P i y

/-- A merge and its sources stand as a picture says. -/
structure Tableau (merge : List V → Outcome V) (sources : List ResultId) (m : ResultId)
    (p : Picture V) (rs : List (Result V κ)) : Prop where
  merge : ∃ x, rs[m]? = some x ∧ x.Pictured merge sources p
  sources : Seated sources rs (Result.Watched m p)

/-- A call that makes a settable result end in a state. -/
inductive Call.Settles (r : ResultId) : State V → Call V κ → Prop where
  | complete {state : State V} : state.isPending = false → Settles r state (.complete r state)
  | cancel : Settles r .cancelled (.cancel r)

/-- A source is completed or cancelled, or the merge is cancelled. -/
inductive Call.Stirs (sources : List ResultId) (m : ResultId) : Call V κ → Prop where
  | source {r : ResultId} {state : State V} {c : Call V κ} : r ∈ sources → c.Settles r state →
      Stirs sources m c
  | merge : Stirs sources m (.cancel m)

section

variable {client : Client V κ σ} {merge : List V → Outcome V} {sources : List ResultId}
  {p : Picture V} {x y : Result V κ} {rs : List (Result V κ)} {m r : ResultId} {i : Nat}
  {a : Answer V} {c : Call V κ} {state state' : State V} {P Q : Nat → Result V κ → Prop}

namespace Seated

theorem set (seated : Seated sources rs P) (distinct : sources.Nodup)
    (source : sources[i]? = some r) (others : ∀ j y, j ≠ i → P j y → Q j y) (own : Q i y) :
    Seated sources (rs.set r y) Q := by
  intro j r' source'
  obtain ⟨z, found, stands⟩ := seated j r' source'
  by_cases same : j = i
  · subst same
    cases source.symm.trans source'
    exact ⟨y, List.getElem?_set_self (List.getElem?_eq_some_iff.mp found).1, own⟩
  · have apart : r ≠ r' := by
      rintro rfl
      have bound := (List.getElem?_eq_some_iff.mp source').1
      exact same ((List.getElem?_inj bound distinct).mp (source'.trans source.symm))
    exact ⟨z, by rw [List.getElem?_set_ne apart, found], others j z same stands⟩

theorem apart (seated : Seated sources rs P) (outside : m ∉ sources)
    (others : ∀ j y, P j y → Q j y) : Seated sources (rs.set m x) Q := by
  intro j r source
  obtain ⟨z, found, stands⟩ := seated j r source
  have apart : m ≠ r := fun same => outside (same ▸ List.mem_of_getElem? source)
  exact ⟨z, by rw [List.getElem?_set_ne apart, found], others j z stands⟩

end Seated

theorem Picture.tell_keeps (decided : p.decision ≠ none) :
    (p.tell merge i state).1.decision = p.decision := by
  obtain ⟨d, decided⟩ := Option.ne_none_iff_exists'.mp decided
  rw [Picture.tell_decided decided, decided]

/-- What a merge is told about one source does not concern the others. -/
theorem Result.Watched.tell {j : Nat} (watched : y.Watched m p j) (other : j ≠ i) :
    y.Watched m (p.tell merge i state).1 j := by
  have same : (p.tell merge i state).1.heard[j]? = p.heard[j]? := by
    rw [Picture.tell_heard, List.getElem?_set_ne (Ne.symm other)]
  cases watched with
  | waits heard => exact .waits (same.trans heard)
  | spared heard decided =>
    exact .spared (same.trans heard) (by rw [Picture.tell_keeps decided]; exact decided)
  | ended heard ended => exact .ended (same.trans heard) ended

namespace Call.Settles

theorem ended (settles : c.Settles r state) : state.isPending = false := by
  cases settles with
  | complete ended => exact ended
  | cancel => rfl

theorem no_build (settles : c.Settles r state) (merger : Merger V κ) (sources : List ResultId) :
    Frame.call c ≠ .call (.build merger sources) := by
  cases settles <;> simp

/-- A source that is pending ends. -/
theorem does (settles : c.Settles r state) {queue : List (Task κ)}
    (found : rs[r]? = some (.source .pending queue)) :
    (Frame.call c).Does client rs (.ok a) (rs.set r ⟨⟨state, [], true, false⟩, .settable⟩)
      (.ok .unit) [.deliver r queue none (.flag true)] := by
  cases settles with
  | complete => exact .setting (by simp) found rfl (fun _ => rfl) fun s => rfl
  | cancel => exact .setting (by simp) found rfl (fun _ => rfl) fun s => rfl

/-- A source has ended, and its readers are told. -/
theorem told (settles : c.Settles r state) :
    Result.notify ⟨⟨state, [], true, false⟩, .settable⟩ = (.source state [] : Result V κ) := by
  simp [Result.notify, Cell.notify, Result.source, settles.ended]

/-- A source that nobody watches has nobody to tell. -/
theorem unwatched (settles : c.Settles r state) (found : rs[r]? = some (.source .pending [])) :
    Executes client (Moment.invoked? m) rs (.ok a) [.call c] [] (rs.set r (.source state []))
      (.ok (.flag true)) := by
  let ending : Result V κ := ⟨⟨state, [], true, false⟩, .settable⟩
  have found' : (rs.set r ending)[r]? = some ending :=
    List.getElem?_set_self (List.getElem?_eq_some_iff.mp found).1
  have tells : (Frame.deliver r [] none (.flag true)).Does client (rs.set r ending) (.ok .unit)
      ((rs.set r ending).set r ending.notify) (.ok (.flag true)) [] := Frame.does_notify found' rfl
  rw [settles.told, List.set_set] at tells
  exact .quietly (settles.does found) (.quietly tells .done) (by simp) settles.no_build

/-- A source ends once only. -/
theorem late (settles : c.Settles r state) (found : rs[r]? = some (.source state' []))
    (ended : state'.isPending = false) :
    (Frame.call c).Does client rs (.ok a) rs (.ok (.flag false)) [] := by
  have stays (state : State V) : (Result.source (κ := κ) state' []).cell.transition state = none :=
    (Cell.transition_eq_none_iff _ _).mpr ended
  cases settles with
  | complete =>
    refine .looking (by simp) found rfl (fun _ => rfl) fun s => ?_
    simp [Store.completing, stays, Store.answering]
  | cancel =>
    refine .looking (by simp) found rfl (fun _ => rfl) fun s => ?_
    simp [Result.source, Store.completing, Cell.transition, ended, Store.answering]

end Call.Settles

section

variable (client) (merge) (distinct : sources.Nodup) (outside : m ∉ sources)
include distinct outside

/-- A pending source ends and tells the merge. -/
theorem Tableau.settles (tableau : Tableau merge sources m p rs) (source : sources[i]? = some r)
    (missing : p.heard[i]? = some .pending) (settles : c.Settles r state) :
    ∃ rs', Executes client (Moment.invoked? m) rs (.ok a) [.call c] (p.tell merge i state).2 rs'
        (.ok (.flag true)) ∧
      Tableau merge sources m (p.tell merge i state).1 rs' := by
  obtain ⟨x, there, pictured⟩ := tableau.merge
  obtain ⟨y, found, watched⟩ := tableau.sources i r source
  have apart : r ≠ m := fun same => outside (same ▸ List.mem_of_getElem? source)
  have bound := (List.getElem?_eq_some_iff.mp found).1
  let ending : Result V κ := ⟨⟨state, [], true, false⟩, .settable⟩
  have there' : (rs.set r ending)[m]? = some x := by rw [List.getElem?_set_ne apart, there]
  have found' : (rs.set r ending)[r]? = some ending := List.getElem?_set_self bound
  -- the last thing to happen is that the readers of the source are told
  have tells (x' : Result V κ) : Executes client (Moment.invoked? m)
      ((rs.set r ending).set m x') (.ok .unit) [.deliver r [] none (.flag true)] []
      ((rs.set m x').set r (.source state [])) (.ok (.flag true)) := by
    have does : (Frame.deliver r [] none (.flag true)).Does client ((rs.set r ending).set m x')
        (.ok .unit) (((rs.set r ending).set m x').set r ending.notify) (.ok (.flag true)) [] :=
      Frame.does_notify (by rw [List.getElem?_set_ne (Ne.symm apart), found']) rfl
    have same : ((rs.set r ending).set m x').set r (.source state []) =
        (rs.set m x').set r (.source state []) := by
      rw [List.set_comm _ _ apart, List.set_set]
    rw [settles.told, same] at does
    exact .quietly does .done
  suffices delivers : ∃ x', x'.Pictured merge sources (p.tell merge i state).1 ∧
      Executes client (Moment.invoked? m) rs (.ok a) [.call c] (p.tell merge i state).2
        ((rs.set m x').set r (.source state [])) (.ok (.flag true)) by
    obtain ⟨x', pictured', executes⟩ := delivers
    refine ⟨_, executes, ⟨x', ?_, pictured'⟩, ?_⟩
    · rw [List.getElem?_set_ne apart]
      exact List.getElem?_set_self (List.getElem?_eq_some_iff.mp there).1
    · refine (tableau.sources.apart outside fun _ _ => id).set distinct source
        (fun j y other watched => watched.tell other) (.ended ?_ settles.ended)
      rw [Picture.tell_heard]
      exact List.getElem?_set_self (List.getElem?_eq_some_iff.mp missing).1
  cases watched with
  | waits =>
    -- the callback runs while the source has ended but has not told its readers
    obtain ⟨x', pictured', hears⟩ :=
      Executes.hears client there' pictured missing source found' rfl settles.ended
    refine ⟨x', pictured', .quietly (settles.does found) (.quietly Frame.does_deliver ?_)
      (by simp) settles.no_build⟩
    rw [← List.append_nil (p.tell merge i state).2]
    exact hears.append (tells x')
  | spared _ decided =>
    obtain ⟨d, decided⟩ := Option.ne_none_iff_exists'.mp decided
    rw [Picture.tell_decided decided]
    obtain ⟨heard, decision⟩ := p
    cases decided
    refine ⟨x, pictured.other, ?_⟩
    rw [set_there there]
    exact settles.unwatched found
  | ended heard ended =>
    cases missing.symm.trans heard
    cases ended

/-- How a source reacts to a call does not depend on more than the picture. -/
theorem Call.Settles.reacts (p : Picture V) (member : r ∈ sources) (settles : c.Settles r state) :
    ∃ p' seen b, (∀ d, p.decision = some d → p'.decision = some d ∧ seen = []) ∧
      ∀ (rs : List (Result V κ)) (a : Answer V), Tableau merge sources m p rs →
        ∃ rs', Executes client (Moment.invoked? m) rs (.ok a) [.call c] seen rs'
            (.ok (.flag b)) ∧
          Tableau merge sources m p' rs' := by
  obtain ⟨i, source⟩ := List.mem_iff_getElem?.mp member
  by_cases missing : p.heard[i]? = some .pending
  · refine ⟨(p.tell merge i state).1, (p.tell merge i state).2, true, fun d decided => ?_,
      fun rs a tableau => tableau.settles client merge distinct outside source missing settles⟩
    rw [Picture.tell_decided decided]
    exact ⟨rfl, rfl⟩
  · refine ⟨p, [], false, fun d decided => ⟨decided, rfl⟩, fun rs a tableau => ?_⟩
    obtain ⟨y, found, watched⟩ := tableau.sources i r source
    cases watched with
    | waits heard => exact absurd heard missing
    | spared heard => exact absurd heard missing
    | ended _ ended =>
      exact ⟨rs, .quietly (settles.late found ended) .done (by simp) settles.no_build, tableau⟩

/-- A merge that was cancelled cancels its sources one by one. -/
theorem Picture.sweeps {rest : List ResultId} (within : ∀ r ∈ rest, r ∈ sources)
    {p : Picture V} {d : State V × Nat} (decided : p.decision = some d) (all b : Bool) :
    ∃ p' f, ∀ rs : List (Result V κ), Tableau merge sources m p rs →
      ∃ rs', Executes client (Moment.invoked? m) rs (.ok (.flag b)) [.sweep m rest all []] [] rs'
          (.ok (.flag f)) ∧
        Tableau merge sources m p' rs' := by
  -- the merge stays decided, so none of the sources that are cancelled can reach it
  induction rest generalizing p all b with
  | nil =>
    refine ⟨p, all && b, fun rs tableau => ?_⟩
    obtain ⟨x, there, pictured⟩ := tableau.merge
    obtain ⟨heard, decision⟩ := p
    cases decided
    have does : (Frame.sweep m [] all []).Does client rs (.ok (.flag b)) rs (.ok .unit)
        [.deliver m [] none (.flag (all && b))] := ⟨by simp, fun s same => ⟨s, rfl, same⟩⟩
    have bound := (List.getElem?_eq_some_iff.mp there).1
    exact ⟨_, .quietly does (.tells there pictured),
      ⟨_, List.getElem?_set_self bound, pictured.notify⟩,
      tableau.sources.apart outside fun _ _ => id⟩
  | cons r rest ih =>
    obtain ⟨p₁, seen, b₁, keeps, reacts⟩ := Call.Settles.reacts client merge distinct outside p
      (within r List.mem_cons_self) .cancel
    obtain ⟨decided₁, rfl⟩ := keeps d decided
    obtain ⟨p', f, sweeps⟩ := ih (fun r' member => within r' (List.mem_cons_of_mem _ member))
      decided₁ (all && b) b₁
    refine ⟨p', f, fun rs tableau => ?_⟩
    have does : (Frame.sweep m (r :: rest) all []).Does client rs (.ok (.flag b)) rs (.ok .unit)
        [.call (.cancel r), .sweep m rest (all && b) []] :=
      ⟨by simp, fun s same => ⟨s, rfl, same⟩⟩
    obtain ⟨rs₁, cancels, tableau₁⟩ := reacts rs .unit tableau
    obtain ⟨rs', rest, tableau'⟩ := sweeps rs₁ tableau₁
    exact ⟨rs', .quietly does (cancels.append rest), tableau'⟩

/-- How a merge reacts to being cancelled. -/
theorem Picture.cancels (p : Picture V) :
    ∃ p' answer, ∀ (rs : List (Result V κ)) (a : Answer V), Tableau merge sources m p rs →
      ∃ rs', Executes client (Moment.invoked? m) rs (.ok a) [.call (.cancel m)] [] rs'
          (.ok answer) ∧
        Tableau merge sources m p' rs' := by
  obtain ⟨heard, decision⟩ := p
  cases decision with
  | some d =>
    refine ⟨⟨heard, some d⟩, .flag false, fun rs a tableau => ?_⟩
    obtain ⟨x, there, pictured⟩ := tableau.merge
    have late : (Frame.call (.cancel m)).Does client rs (.ok a) rs (.ok (.flag false)) [] := by
      refine .looking (by simp) there pictured.free (fun _ => rfl) fun s => ?_
      cases pictured with
      | decided ended => simp [Cell.transition, ended, Store.answering]
    exact ⟨rs, .quietly late .done, tableau⟩
  | none =>
    let p₁ : Picture V := ⟨heard, some (.cancelled, Picture.count ⟨heard, none⟩)⟩
    obtain ⟨p', f, sweeps⟩ := Picture.sweeps client merge distinct outside (fun _ => id)
      (rfl : p₁.decision = some _) true true
    refine ⟨p', .flag f, fun rs a tableau => ?_⟩
    obtain ⟨x, there, pictured⟩ := tableau.merge
    have bound := (List.getElem?_eq_some_iff.mp there).1
    cases pictured with
    | @waits _ completed length holds =>
      let y : Result V κ := ⟨⟨.cancelled, [], true, false⟩, .merge (.total merge sources.length
        ⟨completed, heard.map State.value?, []⟩)⟩
      have does : (Frame.call (.cancel m)).Does client rs (.ok a) (rs.set m y) (.ok (.flag true))
          [.sweep m sources true []] :=
        .setting (by simp) there rfl (fun _ => rfl) fun s => rfl
      have pictured' : y.Pictured merge sources p₁ := .decided rfl rfl holds.cardinality
      obtain ⟨rs', rest, tableau'⟩ := sweeps (rs.set m y)
        ⟨⟨y, List.getElem?_set_self bound, pictured'⟩,
          tableau.sources.apart outside fun j z watched => by
            cases watched with
            | waits heard => exact .waits heard
            | spared _ decided => exact absurd rfl decided
            | ended heard ended => exact .ended heard ended⟩
      exact ⟨rs', .quietly does rest, tableau'⟩

theorem Call.Stirs.reacts (stirs : c.Stirs sources m) (p : Picture V) :
    ∃ p' seen answer, ∀ (rs : List (Result V κ)) (a : Answer V), Tableau merge sources m p rs →
      ∃ rs', Executes client (Moment.invoked? m) rs (.ok a) [.call c] seen rs' (.ok answer) ∧
        Tableau merge sources m p' rs' := by
  cases stirs with
  | source member settles =>
    obtain ⟨p', seen, b, -, reacts⟩ := settles.reacts client merge distinct outside p member
    exact ⟨p', seen, .flag b, reacts⟩
  | merge =>
    obtain ⟨p', answer, cancels⟩ := p.cancels client merge distinct outside
    exact ⟨p', [], answer, cancels⟩

/-- Merges with the same picture react alike to any calls that are made in turns. -/
theorem Picture.reacts {calls : List (Call V κ)} (stirs : ∀ c ∈ calls, c.Stirs sources m)
    (p : Picture V) :
    ∃ p' seen answers, ∀ rs : List (Result V κ), Tableau merge sources m p rs →
      ∃ rs', Series client (Moment.invoked? m) rs calls answers seen rs' ∧
        Tableau merge sources m p' rs' := by
  induction calls generalizing p with
  | nil => exact ⟨p, [], [], fun rs tableau => ⟨rs, .done, tableau⟩⟩
  | cons c calls ih =>
    obtain ⟨p₁, seen, answer, first⟩ :=
      (stirs c List.mem_cons_self).reacts client merge distinct outside p
    obtain ⟨p', seen', answers, rest⟩ :=
      ih (fun c' member => stirs c' (List.mem_cons_of_mem _ member)) p₁
    refine ⟨p', seen ++ seen', .ok answer :: answers, fun rs tableau => ?_⟩
    obtain ⟨rs₁, executes, tableau₁⟩ := first rs .unit tableau
    obtain ⟨rs', series, tableau'⟩ := rest rs₁ tableau₁
    exact ⟨rs', .call executes series, tableau'⟩

end

end

end Quorate
