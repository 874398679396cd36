import Quorate.Proofs.Election.Fragmented

/-! When more than half of the votes must agree, the order of the votes does not matter. The pairing
pass depends on it, but the counts alone decide which of its answers an election gives: a value
that reaches the threshold leaves no room for another one, nor for too many distinct values. -/

set_option autoImplicit false

namespace Quorate

variable {V : Type} [BEq V] {threshold : Nat} {values values' : List V}

theorem MoreDistinct.perm {n : Nat} (many : MoreDistinct n values) (perm : values.Perm values') :
    MoreDistinct n values' := by
  obtain ⟨kept, many, cast, apart⟩ := many
  exact ⟨kept, many, fun v member => perm.mem_iff.mp (cast v member), apart⟩

/-- Fewer votes than twice the threshold cannot put two different values at the threshold. -/
theorem TellsApart.eq_of_enough {K : Type} {key : V → K} (tells : TellsApart key values)
    (majority : values.length < 2 * threshold) {v w : V} (first : v ∈ values) (second : w ∈ values)
    (enough : threshold ≤ values.countP fun u => u == v)
    (enough' : threshold ≤ values.countP fun u => u == w) : (v == w) = true := by
  apply Decidable.byContradiction
  intro differ
  -- the votes for `w` are among those that are not for `v`
  have others : (values.countP fun u => u == w) ≤ (values.filter fun u => !(u == v)).length := by
    rw [← List.countP_eq_length_filter]
    apply List.countP_mono_left
    intro u member equal
    have named := (tells u member w second).mpr equal
    rw [Bool.not_eq_true', ← Bool.not_eq_true, ← tells u member v first, named,
      tells w second v first]
    intro same
    exact differ ((tells v first w second).mp ((tells w second v first).mpr same).symm)
  have all := length_eq_countP_add_filter values v
  omega

namespace Election

/-- An election was answered with a report of fragmented votes. -/
def NotReached {α : Type} (outcome : Except Error α) : Prop :=
  ∃ reported reason, outcome = .error (.quorumNotReached reported reason)

/-- Two elections were decided alike: by equal values, by no value, or by the same error. -/
inductive SameOutcome : Except Error (Option V) → Except Error (Option V) → Prop where
  | winner {v w : V} (equal : (v == w) = true) : SameOutcome (.ok (some v)) (.ok (some w))
  | nobody : SameOutcome (.ok none) (.ok none)
  | error (e : Error) : SameOutcome (.error e) (.error e)

/-- What the counts of the votes allow an election to answer. -/
inductive Decides (threshold : Nat) (values : List V) : Except Error (Option V) → Prop where
  | winner {v : V} (cast : v ∈ values) (enough : threshold ≤ values.countP fun w => w == v) :
    Decides threshold values (.ok (some v))
  | split (many : MoreDistinct threshold values) :
    Decides threshold values (.error (splitError threshold))
  | nobody (few : ¬ MoreDistinct threshold values)
    (short : ∀ v ∈ values, (values.countP fun w => w == v) < threshold) :
    Decides threshold values (.ok none)

namespace Decides

variable {outcome outcome' : Except Error (Option V)}

/-- The counts do not depend on the order. -/
theorem perm (decides : Decides threshold values outcome) (perm : values.Perm values') :
    Decides threshold values' outcome := by
  cases decides with
  | winner cast enough => exact .winner (perm.mem_iff.mp cast) (by rwa [← perm.countP_eq])
  | split many => exact .split (many.perm perm)
  | nobody few short =>
    refine .nobody (fun many => few (many.perm perm.symm)) fun v cast => ?_
    rw [← perm.countP_eq]
    exact short v (perm.mem_iff.mpr cast)

section

variable {K : Type} {key : V → K} (tells : TellsApart key values)
  (majority : values.length < 2 * threshold)
include tells majority

/-- The counts allow a report of fragmented votes only where they allow nothing else. -/
theorem notReached_iff (decides : Decides threshold values outcome) :
    NotReached outcome ↔ MoreDistinct threshold values := by
  cases decides with
  | winner cast enough =>
    refine ⟨?_, fun many => ?_⟩
    · rintro ⟨reported, reason, ⟨⟩⟩
    · have := many.room tells cast
      omega
  | split many => exact ⟨fun _ => many, fun _ => ⟨_, _, rfl⟩⟩
  | nobody few short =>
    refine ⟨?_, fun many => absurd many few⟩
    rintro ⟨reported, reason, ⟨⟩⟩

/-- The counts allow one answer, up to the copy of the winning value. -/
theorem unique (decides : Decides threshold values outcome)
    (decides' : Decides threshold values outcome') : SameOutcome outcome outcome' := by
  have reported := (decides.notReached_iff tells majority).trans
    (decides'.notReached_iff tells majority).symm
  cases decides with
  | winner cast enough =>
    cases decides' with
    | winner cast' enough' =>
      exact .winner (tells.eq_of_enough majority cast cast' enough enough')
    | split many => nomatch reported.mpr ⟨_, _, rfl⟩
    | nobody few short => exact absurd enough (Nat.not_le_of_lt (short _ cast))
  | split many =>
    cases decides' with
    | winner cast enough => nomatch reported.mp ⟨_, _, rfl⟩
    | split many' => exact .error _
    | nobody few short => exact absurd many few
  | nobody few short =>
    cases decides' with
    | winner cast enough => exact absurd enough (Nat.not_le_of_lt (short _ cast))
    | split many => exact absurd many few
    | nobody few' short' => exact .nobody

end

end Decides

/-- The counts decide an election. -/
theorem elect_decides {voter : Voter V} {votes : List (Option V)}
    (faithful : voter.Faithful (votes.filterMap id))
    (majority : (votes.filterMap id).length < 2 * threshold) :
    Decides threshold (votes.filterMap id)
      ((elect threshold voter votes).map (·.map Ballot.value)) := by
  have values := map_value_ballots votes
  have length : (ballots votes).length = (votes.filterMap id).length := by
    rw [← values, List.length_map]
  rw [elect_positive (by omega), values]
  cases wins : confirmed threshold (ballots votes) (Pairing.run voter (ballots votes)) with
  | some winner =>
    obtain ⟨member, enough⟩ := confirmed_sound (by rw [values]; exact faithful) wins
    refine .winner ?_ (by rwa [← support_ballots])
    rw [← values]
    exact List.mem_map_of_mem member
  | none =>
    have many := lt_distinctUpTo_iff faithful.tellsApart faithful.sound threshold
    unfold noMajority
    dsimp only
    split
    next more => exact .split (many.mp more)
    next fewer =>
      refine .nobody (fun more => fewer (many.mpr more)) fun v cast => ?_
      apply Nat.lt_of_not_le
      intro enough
      -- a value with so many votes would have won
      rw [← support_ballots] at enough
      obtain ⟨winner, won, -⟩ := confirmed_complete (by rw [values]; exact faithful)
        (by rw [values]; exact cast) enough (by omega)
      rw [wins] at won
      cases won

section

variable {N : Type} [BEq N] [LawfulBEq N] {absent : N} {votes : List N}

omit [LawfulBEq N] in
theorem electAmong_positive (positive : 0 < threshold) (absent : N) (votes : List N) :
    electAmong threshold absent votes =
      if (SentinelPairing.run absent votes).wins absent threshold votes then
        .ok (votes.findIdx? (· == (SentinelPairing.run absent votes).leader))
      else noMajority threshold (presentUpTo absent (threshold + 1) [] votes).length := by
  rw [electAmong, checkThreshold, if_neg (Nat.ne_of_gt positive)]
  rfl

/-- Only the absent number is left out of the count. -/
theorem countP_present {v : N} (present : v ≠ absent) :
    ((votes.filter (· != absent)).countP fun w => w == v) = votes.countP (· == v) := by
  rw [List.countP_filter]
  apply List.countP_congr
  intro w _
  simp only [Bool.and_eq_true, beq_iff_eq, bne_iff_ne, and_iff_left_iff_imp]
  rintro rfl
  exact present

/-- The pairing pass over numbers wins with its leader exactly if the leader has enough votes. -/
theorem SentinelPairing.Pairs.wins_iff {p : SentinelPairing N} (pairs : p.Pairs absent votes) :
    p.wins absent threshold votes = true ↔
      p.leader ≠ absent ∧ threshold ≤ votes.countP (· == p.leader) := by
  classical
  simp only [wins, Bool.and_eq_true, bne_iff_ne, Bool.or_eq_true, decide_eq_true_eq,
    and_congr_right_iff, or_iff_right_iff_imp]
  intro present ahead
  have cast : p.leader ∈ votes.filter (· != absent) :=
    List.mem_filter.mpr ⟨pairs.leads present, by simpa using present⟩
  have same := (tellsApart_id _).countP_eq cast
  rw [countP_present present, List.map_id, id] at same
  -- the count is what is left of the leader's votes
  have backed := pairs.paired.left_count_le p.leader
  rw [← same] at backed
  have spared : p.count ≤ votes.countP (· == p.leader) := by simpa [left, present] using backed
  exact Nat.le_trans ahead spared

/-- The number at the position that an election over numbers answers. -/
def numberAt (votes : List N) (outcome : Except Error (Option Nat)) : Except Error (Option N) :=
  outcome.map fun position => position.bind (votes[·]?)

theorem findIdx?_bind_getElem? {v : N} (cast : v ∈ votes) :
    (votes.findIdx? (· == v)).bind (votes[·]?) = some v := by
  cases found : votes.findIdx? (· == v) with
  | none => simpa using List.findIdx?_eq_none_iff.mp found v cast
  | some i =>
    obtain ⟨bound, here, -⟩ := List.findIdx?_eq_some_iff_getElem.mp found
    simpa [bound] using here

/-- The counts decide an election over numbers. -/
theorem electAmong_decides (majority : (votes.filter (· != absent)).length < 2 * threshold) :
    Decides threshold (votes.filter (· != absent))
      (numberAt votes (electAmong threshold absent votes)) := by
  classical
  have pairs := SentinelPairing.run_pairs absent votes
  have wins : (SentinelPairing.run absent votes).wins absent threshold votes = true ↔ _ :=
    pairs.wins_iff
  rw [electAmong_positive (by omega)]
  generalize SentinelPairing.run absent votes = p at pairs wins ⊢
  split
  next won =>
    obtain ⟨present, enough⟩ := wins.mp won
    show Decides _ _ (.ok ((votes.findIdx? (· == p.leader)).bind (votes[·]?)))
    rw [findIdx?_bind_getElem? (pairs.leads present)]
    refine .winner ?_ (by rwa [countP_present present])
    exact List.mem_filter.mpr ⟨pairs.leads present, by simpa using present⟩
  next lost =>
    have tells := tellsApart_id (votes.filter (· != absent))
    have many := lt_distinctUpTo_iff tells (Voter.sound_of_lawful (Voter.constant noVote) _)
      threshold
    rw [length_presentUpTo (Voter.constant noVote)]
    unfold noMajority
    split
    next more => exact .split (many.mp more)
    next fewer =>
      refine .nobody (fun more => fewer (many.mpr more)) fun v cast => ?_
      apply Nat.lt_of_not_le
      intro enough
      -- a number with so many votes is the leader that the pairing pass left
      have same := tells.countP_eq cast
      rw [List.map_id, id] at same
      have spared := pairs.paired.majority_left (k := v) (by omega)
      unfold SentinelPairing.left at spared
      split at spared
      next => cases spared
      next present =>
        cases List.eq_of_mem_replicate spared
        have present : p.leader ≠ absent := by simpa using present
        rw [countP_present present] at enough
        exact lost (wins.mpr ⟨present, enough⟩)

end

/-- With fewer votes than twice the threshold, an election does not depend on the order of the
votes or on the positions without one, and it reports fragmented votes exactly if more values than
the threshold are present. -/
theorem elect_order_independent {N : Type} [BEq N] [LawfulBEq N] :
    (∀ (voter : Voter V) (votes votes' : List (Option V)),
      (votes.filterMap id).Perm (votes'.filterMap id) →
      voter.Faithful (votes.filterMap id) → (votes.filterMap id).length < 2 * threshold →
      SameOutcome ((elect threshold voter votes).map (·.map Ballot.value))
          ((elect threshold voter votes').map (·.map Ballot.value)) ∧
        (NotReached (elect threshold voter votes) ↔
          MoreDistinct threshold (votes.filterMap id))) ∧
    ∀ (absent absent' : N) (votes votes' : List N),
      (votes.filter (· != absent)).Perm (votes'.filter (· != absent')) →
      (votes.filter (· != absent)).length < 2 * threshold →
      SameOutcome (numberAt votes (electAmong threshold absent votes))
          (numberAt votes' (electAmong threshold absent' votes')) ∧
        (NotReached (electAmong threshold absent votes) ↔
          MoreDistinct threshold (votes.filter (· != absent))) := by
  have reported {α β : Type} (f : α → β) (outcome : Except Error α) :
      NotReached (outcome.map f) ↔ NotReached outcome := by
    cases outcome <;> simp [NotReached, Except.map]
  constructor
  · intro voter votes votes' perm faithful majority
    have faithful' : voter.Faithful (votes'.filterMap id) := fun a first b second =>
      faithful a (perm.mem_iff.mpr first) b (perm.mem_iff.mpr second)
    have decides := elect_decides faithful majority
    have decides' := elect_decides faithful' (perm.length_eq ▸ majority)
    refine ⟨decides.unique faithful.tellsApart majority (decides'.perm perm.symm), ?_⟩
    rw [← decides.notReached_iff faithful.tellsApart majority, reported]
  · intro absent absent' votes votes' perm majority
    have tells := tellsApart_id (votes.filter (· != absent))
    have decides := electAmong_decides majority
    have decides' := electAmong_decides (perm.length_eq ▸ majority)
    refine ⟨decides.unique tells majority (decides'.perm perm.symm), ?_⟩
    rw [← decides.notReached_iff tells majority, numberAt, reported]

/-- Two equal votes and a different one, with a position that has no vote. -/
def orderedVotes : List (Option (List UInt8)) := [some [1], none, some [1], some [2, 2]]

/-- The same votes in another order. -/
def reorderedVotes : List (Option (List UInt8)) := [some [2, 2], some [1], some [1]]

theorem reordered_alike :
    (orderedVotes.filterMap id).Perm (reorderedVotes.filterMap id) ∧
      (Voter.length (V := List UInt8)).Faithful (orderedVotes.filterMap id) ∧
      (orderedVotes.filterMap id).length < 2 * 2 ∧
      SameOutcome ((elect 2 Voter.length orderedVotes).map (·.map Ballot.value))
        ((elect 2 Voter.length reorderedVotes).map (·.map Ballot.value)) ∧
      SameOutcome (numberAt [0, 5, 5, 7] (electAmong 2 (0 : Int32) [0, 5, 5, 7]))
        (numberAt [7, 5, -1, 5] (electAmong 2 (-1 : Int32) [7, 5, -1, 5])) := by
  have perm : (orderedVotes.filterMap id).Perm (reorderedVotes.filterMap id) := by decide
  have faithful : (Voter.length (V := List UInt8)).Faithful (orderedVotes.filterMap id) := by
    unfold Voter.Faithful
    decide
  refine ⟨perm, faithful, by decide, ?_, ?_⟩
  · exact (elect_order_independent (N := Int32).1 _ _ _ perm faithful (by decide)).1
  · exact (elect_order_independent (V := List UInt8).2 0 (-1) [0, 5, 5, 7] [7, 5, -1, 5]
      (by decide) (show _ < 2 * 2 by decide)).1

end Election

end Quorate
