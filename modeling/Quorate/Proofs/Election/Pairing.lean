import Mathlib.Data.List.Induction
import Quorate.Election.Majority
import Quorate.Proofs.Election.Margin

/-! Why the pairing pass finds a majority. Every vote that is not for the candidate took one vote
with it, so no other code can have more than half of the votes. -/

set_option autoImplicit false

namespace Quorate

variable {V : Type}

/-- The votes with a code. -/
def tally (voter : Voter V) (votes : List (Ballot V)) (code : Code) : Nat :=
  votes.countP fun b => voter b.value = code

/-- The codes of the votes, in order. -/
def codes (voter : Voter V) (votes : List (Ballot V)) : List Code :=
  votes.map fun b => voter b.value

@[simp] theorem codes_append (voter : Voter V) (votes votes' : List (Ballot V)) :
    codes voter (votes ++ votes') = codes voter votes ++ codes voter votes' :=
  List.map_append

@[simp] theorem length_codes (voter : Voter V) (votes : List (Ballot V)) :
    (codes voter votes).length = votes.length :=
  List.length_map _

theorem count_codes (voter : Voter V) (votes : List (Ballot V)) (code : Code) :
    (codes voter votes).count code = tally voter votes code :=
  count_keys _ votes code

/-- A vote leads, and its code is ahead of every other. -/
structure Leads (voter : Voter V) (votes : List (Ballot V)) (leader : Ballot V) (code : Code)
    (count : Nat) : Prop where
  cast : leader ∈ votes
  named : code = voter leader.value
  positive : 0 < count
  backed : count ≤ tally voter votes code
  ahead : 2 * tally voter votes code ≤ votes.length + count
  behind : ∀ code', code' ≠ code → 2 * tally voter votes code' + count ≤ votes.length

/-- What the pairing pass knows of the votes it has seen. -/
def Pairing.Sees (voter : Voter V) (votes : List (Ballot V)) (p : Pairing V) : Prop :=
  match p.leader with
  | none => p.count = 0 ∧ ∀ code, 2 * tally voter votes code ≤ votes.length
  | some (leader, code) => Leads voter votes leader code p.count

namespace Pairing

variable {voter : Voter V} {votes : List (Ballot V)} {p : Pairing V}

/-- The codes that the pairing pass has not paired off. -/
def left (p : Pairing V) : List Code :=
  match p.leader with
  | none => []
  | some (_, code) => List.replicate p.count code

/-- The pairing invariant: the votes seen are `count` votes with the code of the leader, which is
one of them, and pairs of votes with different codes. -/
structure Pairs (voter : Voter V) (votes : List (Ballot V)) (p : Pairing V) : Prop where
  counted : p.leader = none ↔ p.count = 0
  leads : ∀ leader code, p.leader = some (leader, code) →
    leader ∈ votes ∧ code = voter leader.value
  paired : PairedOff (codes voter votes) p.left

theorem Pairs.next (pairs : p.Pairs voter votes) (b : Ballot V) :
    (p.next voter b).Pairs voter (votes ++ [b]) := by
  obtain ⟨leader, count⟩ := p
  obtain ⟨counted, leads, paired⟩ := pairs
  cases leader with
  | none =>
    -- all votes so far are paired off, so the new one leads
    refine ⟨by simp [Pairing.next], ?_, ?_⟩
    · rintro leader code ⟨⟩
      exact ⟨by simp, rfl⟩
    · rw [codes_append]
      exact paired.keep (voter b.value)
  | some top =>
    obtain ⟨leader, code⟩ := top
    obtain ⟨cast, named⟩ := leads leader code rfl
    have seen : leader ∈ votes ++ [b] := List.mem_append_left _ cast
    have positive : count ≠ 0 := fun none => by simpa using counted.mpr none
    unfold Pairing.next
    dsimp only
    split
    next agrees =>
      refine ⟨by simp, ?_, ?_⟩
      · rintro leader code ⟨⟩
        exact ⟨seen, named⟩
      · rw [codes_append]
        exact agrees ▸ paired.keep code
    next differs =>
      -- the vote takes one vote of the leader with it
      have fewer : PairedOff (codes voter (votes ++ [b])) (List.replicate (count - 1) code) := by
        obtain ⟨n, rfl⟩ := Nat.exists_eq_succ_of_ne_zero positive
        rw [codes_append]
        exact paired.pair differs
      split
      next last =>
        rw [last] at fewer
        exact ⟨by simp, by rintro leader code ⟨⟩, fewer⟩
      next more =>
        refine ⟨by simpa using more, ?_, fewer⟩
        rintro leader code ⟨⟩
        exact ⟨seen, named⟩

theorem run_pairs (voter : Voter V) (votes : List (Ballot V)) :
    (run voter votes).Pairs voter votes := by
  induction votes using List.reverseRecOn with
  | nil => exact ⟨by simp [run, empty], by simp [run, empty], .nil⟩
  | append_singleton seen b ih =>
    rw [run, List.foldl_append]
    exact ih.next b

/-- A code has what is left of it, and at most half of the other votes. -/
theorem Pairs.tally_le (pairs : p.Pairs voter votes) (code : Code) :
    2 * tally voter votes code + p.left.length ≤ votes.length + 2 * p.left.count code := by
  have most := pairs.paired.count_le code
  rwa [count_codes, length_codes] at most

/-- A code that more than half of the votes have leads in the end. -/
theorem Pairs.leads_of_majority (pairs : p.Pairs voter votes) {code : Code}
    (most : votes.length < 2 * tally voter votes code) :
    ∃ leader, p.leader = some (leader, code) ∧ leader ∈ votes ∧ voter leader.value = code := by
  rw [← count_codes, ← length_codes voter] at most
  have spared := pairs.paired.majority_left most
  unfold left at spared
  split at spared
  next => cases spared
  next leader code' top =>
    cases List.eq_of_mem_replicate spared
    obtain ⟨cast, named⟩ := pairs.leads leader code top
    exact ⟨leader, top, cast, named.symm⟩

theorem Pairs.sees (pairs : p.Pairs voter votes) : p.Sees voter votes := by
  have most := pairs.tally_le
  obtain ⟨leader, count⟩ := p
  obtain ⟨counted, leads, paired⟩ := pairs
  cases leader with
  | none => exact ⟨counted.mp rfl, most⟩
  | some top =>
    obtain ⟨leader, code⟩ := top
    obtain ⟨cast, named⟩ := leads leader code rfl
    have positive : count ≠ 0 := fun none => by simpa using counted.mpr none
    have backed : count ≤ tally voter votes code := by
      simpa [left, count_codes] using paired.left_count_le code
    have ahead : 2 * tally voter votes code + count ≤ votes.length + 2 * count := by
      simpa [left] using most code
    refine ⟨cast, named, Nat.pos_of_ne_zero positive, backed, by simpa using by omega, ?_⟩
    intro other differs
    simpa [left, List.count_replicate, differs.symm] using most other

theorem run_sees (voter : Voter V) (votes : List (Ballot V)) :
    (run voter votes).Sees voter votes :=
  (run_pairs voter votes).sees

end Pairing

/-- Among some values, the codes of a voter are equal exactly where the values are. -/
def Voter.Faithful [BEq V] (voter : Voter V) (values : List V) : Prop :=
  ∀ a ∈ values, ∀ b ∈ values, voter a = voter b ↔ (a == b) = true

/-- Among some values, equal ones have equal codes. Unequal ones may share a code. -/
def Voter.Sound [BEq V] (voter : Voter V) (values : List V) : Prop :=
  ∀ a ∈ values, ∀ b ∈ values, (a == b) = true → voter a = voter b

theorem Voter.Faithful.sound [BEq V] {voter : Voter V} {values : List V}
    (faithful : voter.Faithful values) : voter.Sound values :=
  fun a first b second => (faithful a first b second).mpr

/-- Where equality is lawful, a voter cannot give equal values different codes. -/
theorem Voter.sound_of_lawful [BEq V] [LawfulBEq V] (voter : Voter V) (values : List V) :
    voter.Sound values :=
  fun _ _ _ _ equal => congrArg voter (eq_of_beq equal)

namespace Election

variable [BEq V] {voter : Voter V} {votes : List (Ballot V)} {threshold : Nat}

theorem support_eq_tally (faithful : voter.Faithful (votes.map Ballot.value)) {v : V}
    (cast : v ∈ votes.map Ballot.value) : support v votes = tally voter votes (voter v) := by
  apply List.countP_congr
  intro b member
  have equal := faithful b.value (List.mem_map_of_mem member) v cast
  simp [equal]

/-- The winner was cast, and enough votes are equal to it. -/
theorem confirmed_sound (faithful : voter.Faithful (votes.map Ballot.value)) {winner : Ballot V}
    (wins : confirmed threshold votes (Pairing.run voter votes) = some winner) :
    winner ∈ votes ∧ threshold ≤ support winner.value votes := by
  have sees := Pairing.run_sees voter votes
  unfold confirmed at wins
  unfold Pairing.Sees at sees
  split at wins
  next => cases wins
  next candidate code top =>
    simp only [top] at sees
    split at wins
    next enough =>
      cases wins
      refine ⟨sees.cast, ?_⟩
      rw [support_eq_tally faithful (List.mem_map_of_mem sees.cast), ← sees.named]
      rcases enough with counted | recounted
      · exact Nat.le_trans counted sees.backed
      · rwa [support_eq_tally faithful (List.mem_map_of_mem sees.cast), ← sees.named] at recounted
    next => cases wins

/-- A code that more than half of the votes have is the code of a candidate, who is confirmed if
enough votes are equal to it. -/
theorem confirmed_of_majority {code : Code} (most : votes.length < 2 * tally voter votes code)
    (enough : ∀ b ∈ votes, voter b.value = code → threshold ≤ support b.value votes) :
    ∃ winner, confirmed threshold votes (Pairing.run voter votes) = some winner ∧
      winner ∈ votes ∧ voter winner.value = code := by
  obtain ⟨leader, top, cast, named⟩ := (Pairing.run_pairs voter votes).leads_of_majority most
  refine ⟨leader, ?_, cast, named⟩
  unfold confirmed
  simp only [top]
  exact if_pos (.inr (enough leader cast named))

/-- A value that more than half of the votes hold wins. -/
theorem confirmed_complete (faithful : voter.Faithful (votes.map Ballot.value)) {v : V}
    (cast : v ∈ votes.map Ballot.value) (enough : threshold ≤ support v votes)
    (majority : votes.length < 2 * threshold) :
    ∃ winner, confirmed threshold votes (Pairing.run voter votes) = some winner ∧
      winner ∈ votes ∧ (winner.value == v) = true := by
  rw [support_eq_tally faithful cast] at enough
  have most : votes.length < 2 * tally voter votes (voter v) := by omega
  have all (b : Ballot V) (member : b ∈ votes) (named : voter b.value = voter v) :
      threshold ≤ support b.value votes := by
    rw [support_eq_tally faithful (List.mem_map_of_mem member), named]
    exact enough
  obtain ⟨winner, wins, member, named⟩ := confirmed_of_majority most all
  exact ⟨winner, wins, member, (faithful _ (List.mem_map_of_mem member) v cast).mp named⟩

end Election

end Quorate
