import Quorate.Proofs.Election.Alike

/-! Elections without a winner. Whether they are reported as fragmented depends on nothing but the
number of distinct values cast: the count by codes stops early, but not before the threshold is
passed, and it takes colliding values apart. -/

set_option autoImplicit false

namespace Quorate

section

variable {V : Type} [BEq V]

/-- Induction that takes out all values equal to the first one. -/
theorem induction_by_kind {P : List V → Prop} (nil : P [])
    (cons : ∀ v rest, P (rest.filter fun w => !w == v) → P (v :: rest)) (values : List V) :
    P values := by
  match values with
  | [] => exact nil
  | v :: rest => exact cons v rest (induction_by_kind nil cons _)
termination_by values.length
decreasing_by
  have shorter := List.length_filter_le (fun w => !w == v) rest
  simp only [List.length_cons]
  omega

theorem mem_of_mem_eraseDups {values : List V} {v : V} (member : v ∈ values.eraseDups) :
    v ∈ values := by
  induction values using induction_by_kind with
  | nil => exact member
  | cons first rest ih =>
    rw [List.eraseDups_cons] at member
    rcases List.mem_cons.mp member with rfl | member
    · exact List.mem_cons_self
    · exact List.mem_cons_of_mem first (List.mem_of_mem_filter (ih member))

variable [EquivBEq V]

theorem pairwise_eraseDups (values : List V) :
    values.eraseDups.Pairwise fun a b => (a == b) = false := by
  induction values using induction_by_kind with
  | nil => exact .nil
  | cons first rest ih =>
    rw [List.eraseDups_cons]
    refine List.pairwise_cons.mpr ⟨fun w member => ?_, ih⟩
    have other := (List.mem_filter.mp (mem_of_mem_eraseDups member)).2
    rw [BEq.comm]
    simpa using other

/-- A value is equal to one that is left. -/
theorem exists_mem_eraseDups {values : List V} {v : V} (member : v ∈ values) :
    ∃ w ∈ values.eraseDups, (v == w) = true := by
  induction values using induction_by_kind with
  | nil => cases member
  | cons first rest ih =>
    rw [List.eraseDups_cons]
    by_cases equal : (v == first) = true
    · exact ⟨first, List.mem_cons_self, equal⟩
    · have other : v ∈ rest.filter fun w => !w == first := by
        apply List.mem_filter.mpr
        constructor
        · apply (List.mem_cons.mp member).resolve_left
          rintro rfl
          exact equal (BEq.refl v)
        · simpa using equal
      obtain ⟨w, left, same⟩ := ih other
      exact ⟨w, List.mem_cons_of_mem first left, same⟩

/-- A value is known by what is equal to it. -/
theorem tellsApart_beq (values : List V) : TellsApart (fun v : V => (v == ·)) values := by
  intro a _ b _
  constructor
  · intro same
    have here : (a == b) = (b == b) := congrFun same b
    rw [here]
    exact BEq.refl b
  · intro equal
    funext w
    exact BEq.congr_left equal

/-- More values than `n` are distinct exactly if more than `n` are left without repetitions. -/
theorem moreDistinct_iff {n : Nat} {values : List V} :
    MoreDistinct n values ↔ n < values.eraseDups.length := by
  constructor
  · rintro ⟨kept, many, cast, apart⟩
    have keys := (nodup_keys_iff (tellsApart_beq values) cast).mpr apart
    have inside : (kept.map fun v => (v == ·)) ⊆ values.eraseDups.map fun v => (v == ·) := by
      intro key member
      obtain ⟨v, included, rfl⟩ := List.mem_map.mp member
      obtain ⟨w, left, equal⟩ := exists_mem_eraseDups (cast v included)
      refine List.mem_map.mpr ⟨w, left, ?_⟩
      exact ((tellsApart_beq values v (cast v included) w (mem_of_mem_eraseDups left)).mpr
        equal).symm
    have length := keys.length_le_of_subset inside
    rw [List.length_map, List.length_map] at length
    omega
  · intro many
    exact ⟨values.eraseDups, many, fun v => mem_of_mem_eraseDups, pairwise_eraseDups values⟩

/-- The count by codes passes the threshold exactly if the number of distinct values does. -/
theorem lt_distinctUpTo_iff_length {voter : Voter V} {values : List V} (sound : voter.Sound values)
    (n : Nat) : n < distinctUpTo voter (n + 1) values ↔ n < values.eraseDups.length :=
  (lt_distinctUpTo_iff (tellsApart_beq values) sound n).trans moreDistinct_iff

end

namespace Election

variable {threshold : Nat}

section

variable {N : Type} [BEq N] [LawfulBEq N] {absent : N} {votes votes' : List N}

/-- The pairing pass skips what is absent. -/
theorem SentinelPairing.run_filter (absent : N) (votes : List N) :
    run absent (votes.filter (· != absent)) = run absent votes := by
  unfold run
  rw [List.foldl_filter]
  congr 1
  funext p vote
  by_cases skipped : vote = absent
  · simp [skipped]
  · rw [if_pos (by simpa using skipped)]

/-- Positions without a vote do not decide whether someone wins. -/
theorem SentinelPairing.wins_of_filter (threshold : Nat)
    (same : votes'.filter (· != absent) = votes.filter (· != absent)) :
    (run absent votes').wins absent threshold votes' =
      (run absent votes).wins absent threshold votes := by
  have runs : run absent votes' = run absent votes := by
    rw [← run_filter absent votes', same, run_filter absent votes]
  rw [Bool.eq_iff_iff, (run_pairs absent votes').wins_iff, (run_pairs absent votes).wins_iff, runs]
  apply and_congr_right
  intro present
  rw [← countP_present present, same, countP_present present]

theorem SentinelPairing.Pairs.elected_eq_none_iff {p : SentinelPairing N}
    (pairs : p.Pairs absent votes) :
    p.elected absent threshold votes = none ↔ p.wins absent threshold votes = false := by
  unfold elected
  split
  next wins =>
    obtain ⟨i, stands⟩ := pairs.stands wins
    simp [stands, wins]
  next loses => simpa using loses

end

/-- An election without a winner is reported as fragmented exactly if more distinct values than the
threshold are cast. Positions without a vote do not change this. -/
theorem fragmented_iff_distinct {V N : Type} [BEq V] [EquivBEq V] [BEq N] [LawfulBEq N]
    (positive : 0 < threshold) :
    (∀ (voter : Voter V) (votes : List (Option V)), voter.Sound (votes.filterMap id) →
      (∀ winner, elect threshold voter votes ≠ .ok (some winner)) →
      elect threshold voter votes =
          (if threshold < (votes.filterMap id).eraseDups.length then .error (splitError threshold)
          else .ok none) ∧
        ∀ votes' : List (Option V), votes'.filterMap id = votes.filterMap id →
          elect threshold voter votes' = elect threshold voter votes) ∧
    ∀ (absent : N) (votes : List N),
      (∀ position, electAmong threshold absent votes ≠ .ok (some position)) →
      electAmong threshold absent votes =
          (if threshold < (votes.filter (· != absent)).eraseDups.length then
            .error (splitError threshold)
          else .ok none) ∧
        ∀ votes' : List N, votes'.filter (· != absent) = votes.filter (· != absent) →
          electAmong threshold absent votes' = electAmong threshold absent votes := by
  constructor
  · intro voter votes sound nobody
    rw [elect_eq_answer positive] at nobody ⊢
    have lost := answer_without_winner nobody
    constructor
    · simp only [lost, answer_none, lt_distinctUpTo_iff_length sound]
    · intro votes' same
      have lost' := confirmed_of_values voter same threshold
      rw [lost, Option.map_none, Option.map_eq_none_iff] at lost'
      rw [elect_eq_answer positive, same, lost, lost']
  · intro absent votes nobody
    have answered (votes : List N) :=
      electAmong_eq_answer positive (Voter.constant noVote) absent votes
    have pairs := SentinelPairing.run_pairs absent votes
    have sound := Voter.sound_of_lawful (Voter.constant noVote) (votes.filter (· != absent))
    rw [answered] at nobody ⊢
    have lost := answer_without_winner nobody
    constructor
    · simp only [lost, answer_none, lt_distinctUpTo_iff_length sound]
    · intro votes' same
      have loses := SentinelPairing.wins_of_filter threshold same
      rw [pairs.elected_eq_none_iff.mp lost] at loses
      rw [answered, same, lost,
        (SentinelPairing.run_pairs absent votes').elected_eq_none_iff.mpr loses]

/-- Four different votes, each of which shares its length with another one. -/
def sparseVotes : List (Option (List UInt8)) :=
  [some [1], none, some [1, 1], some [2], none, some [2, 2]]

/-- The same votes without the empty positions. -/
def denseVotes : List (Option (List UInt8)) := [some [1], some [1, 1], some [2], some [2, 2]]

theorem colliding_votes_fragmented :
    elect 3 Voter.length sparseVotes = .error (splitError 3) ∧
      elect 3 Voter.length denseVotes = elect 3 Voter.length sparseVotes ∧
      electAmong 3 (0 : Int32) [0, 1, 2, 0, 2, 1, 3] = .ok none ∧
      electAmong 3 (0 : Int32) [1, 2, 2, 1, 3, 0] =
        electAmong 3 (0 : Int32) [0, 1, 2, 0, 2, 1, 3] := by
  obtain ⟨byCodes, overNumbers⟩ := fragmented_iff_distinct (V := List UInt8) (N := Int32)
    (show 0 < 3 by decide)
  have sound : (Voter.length (V := List UInt8)).Sound (sparseVotes.filterMap id) :=
    Voter.sound_of_lawful _ _
  obtain ⟨report, dense⟩ := byCodes Voter.length sparseVotes sound (by rintro winner ⟨⟩)
  obtain ⟨nobody, moved⟩ := overNumbers 0 [0, 1, 2, 0, 2, 1, 3] (by rintro position ⟨⟩)
  exact ⟨report.trans (if_pos (by decide)), dense denseVotes (by decide),
    nobody.trans (if_neg (by decide)), moved [1, 2, 2, 1, 3, 0] (by decide)⟩

end Election

end Quorate
