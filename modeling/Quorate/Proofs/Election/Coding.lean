import Quorate.Config.Basic
import Quorate.Proofs.Election.Alike

/-! The codes of a voter count only by which votes share one. Two voters that agree on this elect
the same vote, so replies without collisions are merged alike by their hash and by their bytes. -/

set_option autoImplicit false

namespace Quorate

section

variable {V : Type}

/-- Among some values, two share a code of one voter exactly if they share one of the other. -/
def Voter.AgreesWith (voter voter' : Voter V) (values : List V) : Prop :=
  ∀ a ∈ values, ∀ b ∈ values, voter a = voter b ↔ voter' a = voter' b

variable [BEq V] {voter voter' : Voter V} {values : List V}

/-- Voters whose codes are equal exactly where the values are agree with each other. -/
theorem Voter.Faithful.agreesWith (faithful : voter.Faithful values)
    (faithful' : voter'.Faithful values) : voter.AgreesWith voter' values :=
  fun a first b second => (faithful a first b second).trans (faithful' a first b second).symm

/-- Where equality is lawful, only collisions keep a voter from being faithful. -/
theorem Voter.faithful_of_lawful [LawfulBEq V]
    (apart : ∀ a ∈ values, ∀ b ∈ values, voter a = voter b → a = b) : voter.Faithful values := by
  intro a first b second
  rw [beq_iff_eq]
  exact ⟨apart a first b second, congrArg voter⟩

theorem alreadyKept_congr (agrees : voter.AgreesWith voter' values) {kept : List V}
    (within : ∀ v ∈ kept, v ∈ values) {v : V} (here : v ∈ values) :
    alreadyKept voter kept v = alreadyKept voter' kept v := by
  rw [Bool.eq_iff_iff]
  simp only [alreadyKept, List.any_eq_true, Bool.and_eq_true, beq_iff_eq]
  apply exists_congr
  intro k
  apply and_congr_right
  intro member
  rw [agrees k (within k member) v here]

/-- The codes decide only where an equal value is looked for. -/
theorem representatives_congr (agrees : voter.AgreesWith voter' values) (limit : Nat)
    {votes kept : List V} (cast : ∀ v ∈ votes, v ∈ values) (within : ∀ v ∈ kept, v ∈ values) :
    representatives voter limit kept votes = representatives voter' limit kept votes := by
  induction votes generalizing kept with
  | nil => rfl
  | cons v rest ih =>
    have here : v ∈ values := cast v List.mem_cons_self
    have cast : ∀ w ∈ rest, w ∈ values := fun w member => cast w (List.mem_cons_of_mem _ member)
    have within' : ∀ w ∈ kept ++ [v], w ∈ values :=
      List.forall_mem_append.mpr ⟨within, List.forall_mem_singleton.mpr here⟩
    simp only [representatives, alreadyKept_congr agrees within here, ih cast within,
      ih cast within']

theorem distinctUpTo_congr (agrees : voter.AgreesWith voter' values) (limit : Nat) :
    distinctUpTo voter limit values = distinctUpTo voter' limit values := by
  unfold distinctUpTo
  rw [representatives_congr agrees limit (fun _ => id) (by simp)]

end

namespace Election

variable {V : Type} [BEq V] {voter voter' : Voter V} {threshold : Nat}

theorem elect_congr {votes : List (Option V)}
    (agrees : voter.AgreesWith voter' (votes.filterMap id)) :
    elect threshold voter votes = elect threshold voter' votes := by
  rcases Nat.eq_zero_or_pos threshold with rfl | positive
  · rfl
  · -- each vote corresponds to itself
    let matched (a b : Ballot V) : Prop := a ∈ ballots votes ∧ a = b
    have value {a : Ballot V} (member : a ∈ ballots votes) : a.value ∈ votes.filterMap id := by
      rw [← map_value_ballots]
      exact List.mem_map_of_mem member
    have share : Pairing.ShareAlike voter voter' matched := by
      rintro a b c d ⟨first, rfl⟩ ⟨second, rfl⟩
      exact agrees _ (value first) _ (value second)
    have cast : List.Forall₂ matched (ballots votes) (ballots votes) :=
      List.forall₂_same.mpr fun a member => ⟨member, rfl⟩
    have support (a b : Ballot V) (same : matched a b) :
        support a.value (ballots votes) = support b.value (ballots votes) := by
      rw [same.2]
    have winners := map_eq_of_rel (f := id) (g := id) (fun _ _ same => same.2)
      ((Pairing.run_alike share cast).confirmed support threshold)
    rw [Option.map_id_apply, Option.map_id_apply] at winners
    rw [elect_eq_answer positive, elect_eq_answer positive, distinctUpTo_congr agrees, winners]

end Election

theorem ThresholdMerger.merge_congr {V : Type} [BEq V] {m m' : ThresholdMerger V}
    (same : m.threshold = m'.threshold) {replies : List (Option V)}
    (agrees : m.voter.AgreesWith m'.voter (replies.filterMap id)) :
    m.merge replies = m'.merge replies := by
  obtain ⟨threshold, voter, positive⟩ := m
  obtain ⟨threshold', voter', positive'⟩ := m'
  obtain rfl : threshold = threshold' := same
  unfold ThresholdMerger.merge
  rw [Election.elect_congr agrees]
  rfl

/-- A configured threshold can be used with any coding. -/
theorem Config.replyMerger_threshold {V : Type} [Hashed V] [Raw V] {c : Config} {threshold : Nat}
    {coding : Coding} (rule : c.merger = .threshold threshold coding) (positive : 0 < threshold) :
    c.replyMerger = .ok (.threshold ⟨threshold, coding.voter (V := V), positive⟩) := by
  simp only [Config.replyMerger, rule, ThresholdMerger.make?, dif_pos positive]
  rfl

/-- An election looks at codes only to see which votes share one. So configurations that differ in
what votes are compared by merge replies alike on which neither coding collides: both are faithful
to the values there, which for a lawful equality says that unequal values have different codes. -/
theorem codes_matter_by_sharing {V : Type} [BEq V] {threshold : Nat} :
    (∀ (voter voter' : Voter V) (votes : List (Option V)),
      voter.AgreesWith voter' (votes.filterMap id) →
      Election.elect threshold voter votes = Election.elect threshold voter' votes) ∧
    ∀ [Hashed V] [Raw V] (c c' : Config), 0 < threshold →
      c.merger = .threshold threshold .hash → c'.merger = .threshold threshold .bytes →
      ∃ m m' : ReplyMerger V, c.replyMerger = .ok m ∧ c'.replyMerger = .ok m' ∧
        ∀ replies : List (Option V), (Voter.hash (V := V)).Faithful (replies.filterMap id) →
          (Voter.content (V := V)).Faithful (replies.filterMap id) →
          m.merge replies = m'.merge replies := by
  constructor
  · intro voter voter' votes agrees
    exact Election.elect_congr agrees
  · intro _ _ c c' positive rule rule'
    refine ⟨_, _, Config.replyMerger_threshold rule positive,
      Config.replyMerger_threshold rule' positive, ?_⟩
    intro replies hashed content
    apply ThresholdMerger.merge_congr
    · rfl
    · exact hashed.agreesWith content

/-- Three replies of which two are equal. -/
def codedReplies : List (Option (List UInt8)) := [some [7], some [1, 2], none, some [7]]

/-- A read of four replicas of which two must agree. -/
def readByCode (coding : Coding) : Config := ⟨4, 100, .threshold 2 coding⟩

theorem coded_replies_merged_alike :
    (Voter.hash (V := List UInt8)).AgreesWith Voter.content (codedReplies.filterMap id) ∧
      Election.elect 2 Voter.hash codedReplies = Election.elect 2 Voter.content codedReplies ∧
      ∃ m m' : ReplyMerger (List UInt8), (readByCode .hash).replyMerger = .ok m ∧
        (readByCode .bytes).replyMerger = .ok m' ∧
        m.merge codedReplies = m'.merge codedReplies := by
  have hashed : (Voter.hash (V := List UInt8)).Faithful (codedReplies.filterMap id) := by
    apply Voter.faithful_of_lawful
    decide +kernel
  have content : (Voter.content (V := List UInt8)).Faithful (codedReplies.filterMap id) := by
    apply Voter.faithful_of_lawful
    decide +kernel
  have agrees := hashed.agreesWith content
  obtain ⟨m, m', made, made', alike⟩ := (codes_matter_by_sharing (V := List UInt8)).2
    (readByCode .hash) (readByCode .bytes) (show 0 < 2 by decide) rfl rfl
  exact ⟨agrees, codes_matter_by_sharing.1 _ _ _ agrees, m, m', made, made',
    alike codedReplies hashed content⟩

end Quorate
