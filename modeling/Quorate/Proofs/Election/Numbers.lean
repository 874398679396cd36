import Mathlib.Data.Set.Function
import Quorate.Proofs.Election.Alike

/-! Elections over numbers are elections by codes. Their pairing pass marks "no candidate" by the
absent number, which no vote holds, so at every step it stands where the pass over codes stands.
Which numbers are used is open: the answer names a position, and it stays under any relabelling. -/

set_option autoImplicit false

namespace Quorate.Election

variable {N : Type} [BEq N]

/-- The votes as an election by codes takes them, where the absent number is no vote. -/
def present (absent : N) (votes : List N) : List (Option N) :=
  votes.map fun v => if v == absent then none else some v

/-- A number stands at a position and at none before it. -/
def StandsFirst (votes : List N) (v : N) (i : Nat) : Prop :=
  votes[i]? = some v ∧ ∀ j < i, votes[j]? ≠ some v

/-- Two elections over the same numbers gave one answer: the first position of the number elected,
nobody, or the same error. -/
inductive SameElected (votes : List N) :
    Except Error (Option Nat) → Except Error (Option (Ballot N)) → Prop where
  | winner {i : Nat} {w : Ballot N} (first : StandsFirst votes w.value i) :
    SameElected votes (.ok (some i)) (.ok (some w))
  | nobody : SameElected votes (.ok none) (.ok none)
  | error (e : Error) : SameElected votes (.error e) (.error e)

omit [BEq N] in
theorem SameElected.of_answers {votes : List N} {threshold groups : Nat} {i : Option Nat}
    {w : Option (Ballot N)} (same : Option.Rel (fun i w => StandsFirst votes w.value i) i w) :
    SameElected votes (answer threshold groups i) (answer threshold groups w) := by
  cases same with
  | some first => exact .winner first
  | none =>
    simp only [answer_none]
    split
    · exact .error _
    · exact .nobody

section

variable [LawfulBEq N] {absent : N} {votes : List N}

theorem filterMap_present (absent : N) (votes : List N) :
    (present absent votes).filterMap id = votes.filter (· != absent) := by
  unfold present
  rw [List.filterMap_map, ← List.filterMap_eq_filter]
  apply List.filterMap_congr
  intro v _
  by_cases skipped : v = absent <;> simp [Option.guard, skipped]

theorem findIdx?_standsFirst {v : N} {i : Nat} (found : votes.findIdx? (· == v) = some i) :
    StandsFirst votes v i := by
  obtain ⟨bound, here, before⟩ := List.findIdx?_eq_some_iff_getElem.mp found
  constructor
  · rw [List.getElem?_eq_getElem bound, eq_of_beq here]
  · intro j earlier same
    obtain ⟨bound', same⟩ := List.getElem?_eq_some_iff.mp same
    exact before j earlier (by simp [same])

variable {voter : Voter N} {numbers : Set N} {p : Pairing N} {q : SentinelPairing N}

/-- The pass over codes and the pass over numbers stand alike: both without a candidate, or with the
same number as far ahead. -/
inductive Mirrors (voter : Voter N) (absent : N) (numbers : Set N) :
    Pairing N → SentinelPairing N → Prop where
  | nobody : Mirrors voter absent numbers ⟨none, 0⟩ ⟨absent, 0⟩
  | leader (b : Ballot N) (count : Nat) (here : b.value ∈ numbers) :
    Mirrors voter absent numbers ⟨some (b, voter b.value), count⟩ ⟨b.value, count⟩

theorem Mirrors.next (apart : Set.InjOn voter numbers) (outside : absent ∉ numbers)
    (mirrors : Mirrors voter absent numbers p q) {b : Ballot N} (here : b.value ∈ numbers) :
    Mirrors voter absent numbers (p.next voter b) (q.next absent b.value) := by
  have named {v : N} (here : v ∈ numbers) : (v == absent) = false :=
    beq_eq_false_iff_ne.mpr (ne_of_mem_of_not_mem here outside)
  cases mirrors with
  | nobody =>
    simp only [Pairing.next, SentinelPairing.next, named here, beq_self_eq_true, if_true,
      Bool.false_eq_true, if_false]
    exact .leader b 1 here
  | leader a count leads =>
    -- the codes agree exactly if the numbers do
    have same : voter a.value = voter b.value ↔ a.value = b.value := apart.eq_iff leads here
    simp only [Pairing.next, SentinelPairing.next, named here, named leads, Bool.false_eq_true,
      if_false]
    by_cases agrees : a.value = b.value
    · rw [if_pos (same.mpr agrees), if_pos (beq_iff_eq.mpr agrees)]
      exact .leader a (count + 1) leads
    · rw [if_neg (mt same.mp agrees), if_neg (mt eq_of_beq agrees)]
      split
      · exact .nobody
      · exact .leader a (count - 1) leads

theorem Mirrors.foldl (apart : Set.InjOn voter numbers) (outside : absent ∉ numbers)
    {votes : List N} (cast : ∀ v ∈ votes, v ≠ absent → v ∈ numbers) (start : Nat)
    (mirrors : Mirrors voter absent numbers p q) :
    Mirrors voter absent numbers
      ((ballotsFrom start (present absent votes)).foldl (Pairing.next voter) p)
      (votes.foldl (SentinelPairing.next absent) q) := by
  induction votes generalizing start p q with
  | nil => exact mirrors
  | cons v rest ih =>
    have cast' : ∀ w ∈ rest, w ≠ absent → w ∈ numbers :=
      fun w member => cast w (List.mem_cons_of_mem v member)
    by_cases skipped : v = absent
    · subst skipped
      simpa [present, ballotsFrom] using ih cast' (start + 1) mirrors
    · have here : (⟨start, v⟩ : Ballot N).value ∈ numbers := cast v List.mem_cons_self skipped
      have step := mirrors.next apart outside here
      simpa [present, ballotsFrom, skipped] using ih cast' (start + 1) step

theorem run_mirrors (apart : Set.InjOn voter {v | v ∈ votes ∧ v ≠ absent}) :
    Mirrors voter absent {v | v ∈ votes ∧ v ≠ absent}
      (Pairing.run voter (ballots (present absent votes))) (SentinelPairing.run absent votes) :=
  Mirrors.foldl apart (fun inside => inside.2 rfl) (fun _ member other => ⟨member, other⟩) 0 .nobody

/-- Passes that stand alike elect the same number. -/
theorem Mirrors.elected (threshold : Nat)
    (mirrors : Mirrors voter absent {v | v ∈ votes ∧ v ≠ absent} p q) :
    Option.Rel (fun i w => StandsFirst votes w.value i) (q.elected absent threshold votes)
      (confirmed threshold (ballots (present absent votes)) p) := by
  cases mirrors with
  | nobody =>
    have loses : (⟨absent, 0⟩ : SentinelPairing N).wins absent threshold votes = false := by
      simp [SentinelPairing.wins]
    simp only [SentinelPairing.elected, loses, confirmed]
    exact .none
  | leader b count here =>
    obtain ⟨cast, other⟩ := here
    have support : support b.value (ballots (present absent votes)) =
        votes.countP (· == b.value) := by
      rw [support_ballots, filterMap_present, countP_present other]
    have wins : (⟨b.value, count⟩ : SentinelPairing N).wins absent threshold votes = true ↔
        threshold ≤ count ∨ threshold ≤ votes.countP (· == b.value) := by
      simp [SentinelPairing.wins, other]
    obtain ⟨i, found⟩ := exists_findIdx? cast
    simp only [SentinelPairing.elected, confirmed, support, wins, found]
    split
    · exact .some (findIdx?_standsFirst found)
    · exact .none

end

section

variable {M : Type} [BEq M] [LawfulBEq N] [LawfulBEq M] {f : N → M} {absent : N} {votes : List N}

/-- The same pairing over other numbers. -/
def SentinelPairing.relabel (f : N → M) (q : SentinelPairing N) : SentinelPairing M :=
  ⟨f q.leader, q.count⟩

theorem SentinelPairing.next_relabel (apart : Function.Injective f) (q : SentinelPairing N)
    (vote : N) :
    (q.relabel f).next (f absent) (f vote) = (q.next absent vote).relabel f := by
  unfold SentinelPairing.next
  simp only [apply_ite (SentinelPairing.relabel f)]
  simp only [SentinelPairing.relabel, apart.beq_eq]
  rfl

theorem SentinelPairing.run_relabel (apart : Function.Injective f) (absent : N) (votes : List N) :
    SentinelPairing.run (f absent) (votes.map f) =
      (SentinelPairing.run absent votes).relabel f := by
  unfold SentinelPairing.run
  rw [List.foldl_map]
  show List.foldl _ (SentinelPairing.relabel f ⟨absent, 0⟩) votes = _
  exact List.foldl_hom (SentinelPairing.relabel f) (next_relabel apart)

theorem SentinelPairing.wins_relabel (apart : Function.Injective f) (threshold : Nat)
    (q : SentinelPairing N) :
    (q.relabel f).wins (f absent) threshold (votes.map f) = q.wins absent threshold votes := by
  simp only [SentinelPairing.wins, SentinelPairing.relabel, List.countP_map, Function.comp_def,
    bne, apart.beq_eq]
  rfl

theorem presentUpTo_relabel (apart : Function.Injective f) (limit : Nat) (seen : List N) :
    presentUpTo (f absent) limit (seen.map f) (votes.map f) =
      (presentUpTo absent limit seen votes).map f := by
  induction votes generalizing seen with
  | nil => rfl
  | cons v rest ih =>
    have known : (seen.map f).contains (f v) = seen.contains v := by
      simp [apart.eq_iff]
    rw [List.map_cons, presentUpTo, presentUpTo, known, apart.beq_eq, List.length_map]
    simp only [apply_ite (List.map f), ← ih, List.map_cons]

theorem electAmong_relabel (apart : Function.Injective f) (threshold : Nat) (absent : N)
    (votes : List N) :
    electAmong threshold (f absent) (votes.map f) = electAmong threshold absent votes := by
  rcases Nat.eq_zero_or_pos threshold with rfl | positive
  · rfl
  · have counted : presentUpTo (f absent) (threshold + 1) [] (votes.map f) =
        (presentUpTo absent (threshold + 1) [] votes).map f :=
      presentUpTo_relabel apart (threshold + 1) []
    have found (v : N) : (votes.map f).findIdx? (· == f v) = votes.findIdx? (· == v) := by
      simp only [List.findIdx?_map, Function.comp_def, apart.beq_eq]
    rw [electAmong_positive positive, electAmong_positive positive,
      SentinelPairing.run_relabel apart, SentinelPairing.wins_relabel apart, counted,
      List.length_map]
    simp only [SentinelPairing.relabel, found]

end

/-- An election over numbers answers as the election by the codes of a voter that tells the numbers
apart, and names the winner by its first position. Relabelling all numbers does not change it. -/
theorem electAmong_refines_elect [LawfulBEq N] (threshold : Nat) (absent : N) (votes : List N) :
    (∀ voter : Voter N, Set.InjOn voter {v | v ∈ votes ∧ v ≠ absent} →
      SameElected votes (electAmong threshold absent votes)
        (elect threshold voter (present absent votes))) ∧
    ∀ {M : Type} [BEq M] [LawfulBEq M] (f : N → M), Function.Injective f →
      electAmong threshold (f absent) (votes.map f) = electAmong threshold absent votes := by
  constructor
  · intro voter apart
    rcases Nat.eq_zero_or_pos threshold with rfl | positive
    · exact .error _
    · rw [electAmong_eq_answer positive voter, elect_eq_answer positive, filterMap_present]
      apply SameElected.of_answers
      exact (run_mirrors apart).elected threshold
  · intro M _ _ f apart
    exact electAmong_relabel apart threshold absent votes

theorem seven_elected_under_any_name :
    SameElected [0, 7, 5, 7] (electAmong 2 (0 : Int32) [0, 7, 5, 7])
        (elect 2 id (present 0 [0, 7, 5, 7])) ∧
      electAmong 2 (0 : Int32) [0, 7, 5, 7] = .ok (some 1) ∧
      electAmong 2 (0 : Int32).toInt64 ([0, 7, 5, 7].map Int32.toInt64) = .ok (some 1) := by
  have widened : Function.Injective Int32.toInt64 := by
    intro a b same
    have := congrArg Int64.toInt same
    rwa [Int32.toInt_toInt64, Int32.toInt_toInt64, Int32.toInt_inj] at this
  have elected : electAmong 2 (0 : Int32) [0, 7, 5, 7] = .ok (some 1) := by rfl
  obtain ⟨refines, relabelled⟩ := electAmong_refines_elect 2 (0 : Int32) [0, 7, 5, 7]
  exact ⟨refines id Function.injective_id.injOn, elected,
    (relabelled Int32.toInt64 widened).trans elected⟩

end Quorate.Election
