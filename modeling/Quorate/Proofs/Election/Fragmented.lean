import Quorate.Proofs.Election.Distinct
import Quorate.Proofs.Election.Sentinel
import Quorate.Proofs.Election.Winner

/-! What a report of fragmented votes says. Only the candidate that the pairing pass left is
recounted, so a value that was paired off may have reached the threshold; but then it has at most
half of the votes. -/

set_option autoImplicit false

namespace Quorate

variable {V : Type}

/-- The candidate that the pairing pass left. -/
def Pairing.survivor (p : Pairing V) : Option V := p.leader.map fun top => top.1.value

/-- The candidate that the pairing pass left. -/
def Election.SentinelPairing.survivor [BEq V] (absent : V) (p : SentinelPairing V) : Option V :=
  if p.leader == absent then none else some p.leader

variable [BEq V] {threshold : Nat} {values : List V} {survivor : Option V}

/-- The values cast are too many different ones, and none of them is known to have won. -/
structure Fragmented (threshold : Nat) (values : List V) (survivor : Option V) : Prop where
  distinct : MoreDistinct threshold values
  /-- The recount of the survivor stayed below the threshold. -/
  recounted : ∀ v, survivor = some v → (values.countP fun w => w == v) < threshold
  /-- A value that reached the threshold was paired off with other votes. -/
  halved : ∀ v ∈ values, threshold ≤ (values.countP fun w => w == v) →
    2 * (values.countP fun w => w == v) ≤ values.length

/-- Where more than half of the votes must agree, no value reached the threshold. -/
theorem Fragmented.nobody (fragmented : Fragmented threshold values survivor)
    (majority : values.length < 2 * threshold) :
    ∀ v ∈ values, (values.countP fun w => w == v) < threshold := by
  intro v here
  apply Nat.lt_of_not_le
  intro enough
  have := fragmented.halved v here enough
  omega

section

variable {K : Type} [DecidableEq K] {key : V → K}

theorem TellsApart.countP_eq (tells : TellsApart key values) {v : V} (here : v ∈ values) :
    (values.countP fun w => w == v) = (values.map key).count (key v) := by
  rw [List.count, List.countP_map]
  apply List.countP_congr
  intro w member
  simp [tells w member v here]

/-- The survivor is all that is left over, so every other value was paired off. -/
theorem Fragmented.of_paired (tells : TellsApart key values) {left : List K}
    (paired : PairedOff (values.map key) left) (distinct : MoreDistinct threshold values)
    (cast : ∀ v, survivor = some v → v ∈ values)
    (leads : ∀ k ∈ left, ∃ v, survivor = some v ∧ key v = k)
    (recounted : ∀ v, survivor = some v → (values.countP fun w => w == v) < threshold) :
    Fragmented threshold values survivor := by
  refine ⟨distinct, recounted, fun v here enough => ?_⟩
  have spared : key v ∉ left := by
    intro member
    obtain ⟨w, survives, same⟩ := leads (key v) member
    have fewer := recounted w survives
    rw [tells.countP_eq (cast w survives), same, ← tells.countP_eq here] at fewer
    omega
  have most := paired.count_le (key v)
  rw [List.count_eq_zero_of_not_mem spared, ← tells.countP_eq here, List.length_map] at most
  omega

end

namespace Election

theorem elect_split {voter : Voter V} {votes : List (Option V)} {reported : Nat} {reason : String}
    (split : elect threshold voter votes = .error (.quorumNotReached reported reason)) :
    confirmed threshold (ballots votes) (Pairing.run voter (ballots votes)) = none ∧
      threshold < distinctUpTo voter (threshold + 1) (votes.filterMap id) := by
  rcases Nat.eq_zero_or_pos threshold with rfl | positive
  · cases split
  · rw [elect_positive positive] at split
    split at split
    next => cases split
    next unconfirmed =>
      refine ⟨unconfirmed, ?_⟩
      rw [← map_value_ballots]
      unfold noMajority at split
      split at split
      next many => exact many
      next => cases split

theorem elect_fragmented {voter : Voter V} {votes : List (Option V)}
    (faithful : voter.Faithful (votes.filterMap id)) {reported : Nat} {reason : String}
    (split : elect threshold voter votes = .error (.quorumNotReached reported reason)) :
    Fragmented threshold (votes.filterMap id) (Pairing.run voter (ballots votes)).survivor := by
  obtain ⟨unconfirmed, many⟩ := elect_split split
  have pairs := Pairing.run_pairs voter (ballots votes)
  generalize Pairing.run voter (ballots votes) = p at unconfirmed pairs ⊢
  have values := map_value_ballots votes
  have codes : codes voter (ballots votes) = (votes.filterMap id).map voter := by
    rw [← values, List.map_map]
    rfl
  have paired := pairs.paired
  rw [codes] at paired
  apply Fragmented.of_paired faithful.tellsApart paired
  · exact (lt_distinctUpTo_iff faithful.tellsApart faithful.sound threshold).mp many
  · intro v survives
    obtain ⟨⟨leader, code⟩, top, rfl⟩ := Option.map_eq_some_iff.mp survives
    rw [← values]
    exact List.mem_map_of_mem (pairs.leads leader code top).1
  · intro code member
    unfold Pairing.left at member
    split at member
    next => cases member
    next leader code' top =>
      refine ⟨leader.value, by rw [Pairing.survivor, top]; rfl, ?_⟩
      rw [← (pairs.leads leader code' top).2]
      exact (List.eq_of_mem_replicate member).symm
  · intro v survives
    obtain ⟨⟨leader, code⟩, top, rfl⟩ := Option.map_eq_some_iff.mp survives
    unfold confirmed at unconfirmed
    simp only [top, ite_eq_right_iff, reduceCtorEq, imp_false, not_or, Nat.not_le] at unconfirmed
    rw [← values, List.countP_map]
    exact unconfirmed.2

theorem electAmong_split [LawfulBEq V] (voter : Voter V) {absent : V} {votes : List V}
    {reported : Nat} {reason : String}
    (split : electAmong threshold absent votes = .error (.quorumNotReached reported reason)) :
    (SentinelPairing.run absent votes).wins absent threshold votes = false ∧
      threshold < distinctUpTo voter (threshold + 1) (votes.filter (· != absent)) := by
  rcases Nat.eq_zero_or_pos threshold with rfl | positive
  · cases split
  · rw [electAmong, checkThreshold, if_neg (Nat.ne_of_gt positive)] at split
    change (if _ then _ else _) = _ at split
    split at split
    next => cases split
    next loses =>
      refine ⟨by simpa using loses, ?_⟩
      rw [← length_presentUpTo]
      unfold noMajority at split
      split at split
      next many => exact many
      next => cases split

theorem electAmong_fragmented [LawfulBEq V] {absent : V} {votes : List V} {reported : Nat}
    {reason : String}
    (split : electAmong threshold absent votes = .error (.quorumNotReached reported reason)) :
    Fragmented threshold (votes.filter (· != absent))
      ((SentinelPairing.run absent votes).survivor absent) := by
  classical
  -- equality tells numbers apart, so any voter counts the distinct ones
  obtain ⟨loses, many⟩ := electAmong_split (Voter.constant noVote) split
  have pairs := SentinelPairing.run_pairs absent votes
  generalize SentinelPairing.run absent votes = p at loses pairs ⊢
  have tells := tellsApart_id (votes.filter (· != absent))
  have survives {v : V} : p.survivor absent = some v ↔ p.leader ≠ absent ∧ p.leader = v := by
    simp [SentinelPairing.survivor]
  have paired : PairedOff ((votes.filter (· != absent)).map id) (p.left absent) := by
    simpa using pairs.paired
  apply Fragmented.of_paired tells paired
  · exact (lt_distinctUpTo_iff tells (Voter.sound_of_lawful _ _) threshold).mp many
  · intro v leads
    obtain ⟨present, rfl⟩ := survives.mp leads
    exact List.mem_filter.mpr ⟨pairs.leads present, by simpa using present⟩
  · intro v member
    unfold SentinelPairing.left at member
    split at member
    next => cases member
    next present =>
      refine ⟨v, survives.mpr ⟨by simpa using present, ?_⟩, rfl⟩
      exact (List.eq_of_mem_replicate member).symm
  · intro v leads
    obtain ⟨present, rfl⟩ := survives.mp leads
    have recounted : votes.countP (· == p.leader) < threshold := by
      simp only [SentinelPairing.wins, bne, beq_eq_false_iff_ne.mpr present, Bool.not_false,
        Bool.true_and, Bool.or_eq_false_iff, decide_eq_false_iff_not, Nat.not_le] at loses
      exact loses.2
    rw [List.countP_filter]
    refine Nat.lt_of_le_of_lt (List.countP_mono_left fun w _ equal => ?_) recounted
    exact (Bool.and_eq_true_iff.mp equal).1

/-- A report of fragmented votes: more values than the threshold are present, the survivor of the
pairing pass did not reach it, and a value that did has at most half of the votes. -/
theorem quorum_not_reached_fragmented {N : Type} [BEq N] [LawfulBEq N] {reported : Nat}
    {reason : String} :
    (∀ (voter : Voter V) (votes : List (Option V)), voter.Faithful (votes.filterMap id) →
      elect threshold voter votes = .error (.quorumNotReached reported reason) →
      Fragmented threshold (votes.filterMap id) (Pairing.run voter (ballots votes)).survivor) ∧
    (∀ (absent : N) (votes : List N),
      electAmong threshold absent votes = .error (.quorumNotReached reported reason) →
      Fragmented threshold (votes.filter (· != absent))
        ((SentinelPairing.run absent votes).survivor absent)) :=
  ⟨fun _ _ faithful split => elect_fragmented faithful split,
    fun _ _ split => electAmong_fragmented split⟩

/-- Two equal votes that pair off, and three different ones. -/
def scatteredVotes : List (Option (List UInt8)) :=
  [some [1], some [1], some [2, 2], some [3, 3, 3], some [4, 4, 4, 4]]

theorem faithful_scattered :
    (Voter.length (V := List UInt8)).Faithful (scatteredVotes.filterMap id) := by
  unfold Voter.Faithful
  decide

/-- Votes can be reported as fragmented although a value that was paired off reached the
threshold. -/
theorem paired_value_not_elected :
    (Voter.length (V := List UInt8)).Faithful (scatteredVotes.filterMap id) ∧
      elect 2 Voter.length scatteredVotes = .error (splitError 2) ∧
      2 ≤ ((scatteredVotes.filterMap id).countP fun v => v == [1]) :=
  ⟨faithful_scattered, by rfl, by decide⟩

theorem scattered_fragmented :
    Fragmented 2 (scatteredVotes.filterMap id) (some [4, 4, 4, 4]) ∧
      Fragmented 2 [1, 1, 2, 3, 4] (some (4 : Int32)) :=
  ⟨quorum_not_reached_fragmented (N := Int32).1 Voter.length scatteredVotes faithful_scattered
      (by rfl),
    quorum_not_reached_fragmented (V := List UInt8).2 0 [0, 1, 1, 2, 3, 4] (by rfl)⟩

end Election

end Quorate
