import Quorate.Election.Sentinel
import Quorate.Proofs.Election.Pairing

/-! Counting distinct values by one representative of each. Where keys tell the values apart, the
count reaches its limit exactly if there are so many distinct values. -/

set_option autoImplicit false

namespace Quorate

variable {V : Type} [BEq V]

/-- More than `n` of the values are different from each other. -/
def MoreDistinct (n : Nat) (values : List V) : Prop :=
  ∃ kept : List V, n < kept.length ∧ (∀ v ∈ kept, v ∈ values) ∧
    kept.Pairwise fun a b => (a == b) = false

/-- Among some values, keys are equal exactly where the values are. -/
def TellsApart {K : Type} (key : V → K) (values : List V) : Prop :=
  ∀ a ∈ values, ∀ b ∈ values, key a = key b ↔ (a == b) = true

theorem Voter.Faithful.tellsApart {voter : Voter V} {values : List V}
    (faithful : voter.Faithful values) : TellsApart voter values :=
  faithful

theorem tellsApart_id [LawfulBEq V] (values : List V) : TellsApart id values :=
  fun _ _ _ _ => beq_iff_eq.symm

section

variable {K : Type} {key : V → K} {voter : Voter V} {values kept : List V}

theorem nodup_keys_iff (tells : TellsApart key values) (within : ∀ v ∈ kept, v ∈ values) :
    (kept.map key).Nodup ↔ kept.Pairwise fun a b => (a == b) = false := by
  rw [List.Nodup, List.pairwise_map]
  refine ⟨fun apart => apart.imp_of_mem ?_, fun apart => apart.imp_of_mem ?_⟩
  · intro a b first second other
    rw [← Bool.not_eq_true, ← tells a (within a first) b (within b second)]
    exact other
  · intro a b first second other
    rw [Ne, tells a (within a first) b (within b second), other]
    simp

theorem alreadyKept_iff (tells : TellsApart key values) (sound : voter.Sound values)
    (within : ∀ v ∈ kept, v ∈ values) {v : V} (here : v ∈ values) :
    alreadyKept voter kept v = true ↔ key v ∈ kept.map key := by
  simp only [alreadyKept, List.any_eq_true, Bool.and_eq_true, beq_iff_eq, List.mem_map]
  constructor
  · rintro ⟨k, member, -, equal⟩
    exact ⟨k, member, (tells k (within k member) v here).mpr equal⟩
  · rintro ⟨k, member, same⟩
    have equal := (tells k (within k member) v here).mp same
    exact ⟨k, member, sound k (within k member) v here equal, equal⟩

/-- The representatives of some votes, after those that are kept already. -/
structure Represents (key : V → K) (limit : Nat) (kept votes result : List V) : Prop where
  within : ∀ v ∈ result, v ∈ kept ∨ v ∈ votes
  apart : (result.map key).Nodup
  all : limit ≤ result.length ∨ ∀ v, v ∈ kept ∨ v ∈ votes → key v ∈ result.map key

theorem representatives_spec (tells : TellsApart key values) (sound : voter.Sound values)
    (limit : Nat) {votes : List V} (cast : ∀ v ∈ votes, v ∈ values)
    (within : ∀ v ∈ kept, v ∈ values) (apart : (kept.map key).Nodup) :
    Represents key limit kept votes (representatives voter limit kept votes) := by
  induction votes generalizing kept with
  | nil =>
    refine ⟨fun v member => .inl member, apart, .inr fun v member => ?_⟩
    exact List.mem_map_of_mem (member.resolve_right (by simp))
  | cons v rest ih =>
    have here : v ∈ values := cast v List.mem_cons_self
    have cast : ∀ w ∈ rest, w ∈ values := fun w member => cast w (List.mem_cons_of_mem _ member)
    have known := alreadyKept_iff tells sound within here
    unfold representatives
    split
    next again =>
      -- an equal value is kept already
      obtain ⟨inside, apart', all⟩ := ih cast within apart
      refine ⟨fun w member => (inside w member).imp_right (List.mem_cons_of_mem _), apart', ?_⟩
      apply all.imp_right
      intro all w member
      rcases member with member | member
      · exact all w (.inl member)
      · rcases List.mem_cons.mp member with rfl | member
        · obtain ⟨k, member, same⟩ := List.mem_map.mp (known.mp again)
          rw [← same]
          exact all k (.inl member)
        · exact all w (.inr member)
    next new =>
      have fresh : ((kept ++ [v]).map key).Nodup := by
        rw [List.map_append, List.map_singleton, List.nodup_append]
        refine ⟨apart, by simp, fun k member other single => ?_⟩
        rw [List.mem_singleton.mp single]
        rintro rfl
        exact new (known.mpr member)
      have within' : ∀ w ∈ kept ++ [v], w ∈ values := by
        intro w member
        rcases List.mem_append.mp member with member | member
        · exact within w member
        · rw [List.mem_singleton.mp member]
          exact here
      split
      next full =>
        -- the count stops here, whatever the rest may hold
        refine ⟨fun w member => ?_, fresh, .inl (by simpa using full)⟩
        rcases List.mem_append.mp member with member | member
        · exact .inl member
        · rw [List.mem_singleton.mp member]
          exact .inr List.mem_cons_self
      next =>
        obtain ⟨inside, apart', all⟩ := ih cast within' fresh
        refine ⟨fun w member => ?_, apart', all.imp_right fun all w member => ?_⟩
        · rcases inside w member with member | member
          · rcases List.mem_append.mp member with member | member
            · exact .inl member
            · rw [List.mem_singleton.mp member]
              exact .inr List.mem_cons_self
          · exact .inr (List.mem_cons_of_mem _ member)
        · rcases member with member | member
          · exact all w (.inl (List.mem_append_left _ member))
          · rcases List.mem_cons.mp member with rfl | member
            · exact all w (.inl (by simp))
            · exact all w (.inr member)

/-- The count passes a number exactly if more values than that are distinct. -/
theorem lt_distinctUpTo_iff (tells : TellsApart key values) (sound : voter.Sound values) (n : Nat) :
    n < distinctUpTo voter (n + 1) values ↔ MoreDistinct n values := by
  have spec : Represents key (n + 1) [] values (representatives voter (n + 1) [] values) :=
    representatives_spec tells sound (n + 1) (fun _ => id) (by simp) (by simp)
  have within : ∀ v ∈ representatives voter (n + 1) [] values, v ∈ values :=
    fun v member => (spec.within v member).resolve_left (by simp)
  refine ⟨fun many => ⟨_, many, within, (nodup_keys_iff tells within).mp spec.apart⟩, ?_⟩
  rintro ⟨kept, many, cast, apart⟩
  rcases spec.all with full | all
  · exact full
  · -- the keys of distinct values are distinct, and all of them are represented
    have inside : kept.map key ⊆ (representatives voter (n + 1) [] values).map key := by
      intro k member
      obtain ⟨v, included, rfl⟩ := List.mem_map.mp member
      exact all v (.inr (cast v included))
    have keys := ((nodup_keys_iff tells cast).mpr apart).length_le_of_subset inside
    simp only [List.length_map] at keys
    exact Nat.lt_of_lt_of_le many keys

theorem length_eq_countP_add_filter (values : List V) (v : V) :
    values.length =
      (values.countP fun w => w == v) + (values.filter fun w => !(w == v)).length := by
  rw [← List.countP_eq_length_filter, List.length_eq_countP_add_countP fun w => w == v]
  simp

/-- Distinct values leave room for no large majority. -/
theorem MoreDistinct.room {n : Nat} (many : MoreDistinct n values) (tells : TellsApart key values)
    {v : V} (here : v ∈ values) : (values.countP fun w => w == v) + n ≤ values.length := by
  classical
  obtain ⟨kept, many, cast, apart⟩ := many
  have keys := (nodup_keys_iff tells cast).mpr apart
  have alike (w : V) (member : w ∈ values) : (w == v) = true ↔ key w = key v :=
    (tells w member v here).symm
  have single : (kept.countP fun w => w == v) ≤ 1 := by
    have once := List.nodup_iff_count.mp keys (key v)
    rw [List.count, List.countP_map] at once
    refine Nat.le_trans (Nat.le_of_eq (List.countP_congr fun w member => ?_)) once
    simp [alike w (cast w member)]
  -- the other distinct values are among the votes that are not for `v`
  have others : (kept.filter fun w => !(w == v)).length ≤
      (values.filter fun w => !(w == v)).length := by
    have apart : ((kept.filter fun w => !(w == v)).map key).Nodup :=
      keys.sublist (List.filter_sublist.map key)
    have inside : (kept.filter fun w => !(w == v)).map key ⊆
        (values.filter fun w => !(w == v)).map key := by
      intro k member
      obtain ⟨w, included, rfl⟩ := List.mem_map.mp member
      obtain ⟨member, other⟩ := List.mem_filter.mp included
      exact List.mem_map_of_mem (List.mem_filter.mpr ⟨cast w member, other⟩)
    simpa using apart.length_le_of_subset inside
  have all := length_eq_countP_add_filter values v
  have distinct := length_eq_countP_add_filter kept v
  omega

/-- Numbers are told apart by equality alone, as values are by a voter. -/
theorem presentUpTo_eq [LawfulBEq V] (voter : Voter V) (absent : V) (limit : Nat)
    (seen votes : List V) :
    presentUpTo absent limit seen votes =
      (representatives voter limit seen.reverse (votes.filter (· != absent))).reverse := by
  induction votes generalizing seen with
  | nil => simp [presentUpTo, representatives]
  | cons v rest ih =>
    have known : alreadyKept voter seen.reverse v = seen.contains v := by
      rw [Bool.eq_iff_iff, alreadyKept_iff (tellsApart_id (v :: seen.reverse))
        (voter.sound_of_lawful _) (fun _ => List.mem_cons_of_mem v) List.mem_cons_self]
      simp
    unfold presentUpTo
    cases skipped : v == absent with
    | true =>
      rw [List.filter_cons_of_neg (by simpa using skipped)]
      exact ih seen
    | false =>
      rw [List.filter_cons_of_pos (by simpa using skipped)]
      simp only [Bool.false_or, representatives, known, List.length_reverse]
      split
      · exact ih seen
      · split
        · simp
        · rw [ih (v :: seen), List.reverse_cons]

theorem length_presentUpTo [LawfulBEq V] (voter : Voter V) (absent : V) (limit : Nat)
    (votes : List V) :
    (presentUpTo absent limit [] votes).length =
      distinctUpTo voter limit (votes.filter (· != absent)) := by
  rw [presentUpTo_eq voter, List.length_reverse]
  rfl

end

section

variable {voter : Voter V} {limit limit' : Nat} {kept : List V}

/-- What is kept stays in front. -/
theorem prefix_representatives (voter : Voter V) (limit : Nat) (kept votes : List V) :
    kept <+: representatives voter limit kept votes := by
  induction votes generalizing kept with
  | nil => exact List.prefix_rfl
  | cons v rest ih =>
    have longer : kept <+: kept ++ [v] := List.prefix_append kept [v]
    unfold representatives
    split
    · exact ih kept
    · split
      · exact longer
      · exact longer.trans (ih (kept ++ [v]))

/-- A lower limit stops the same search earlier, whatever the codes and the equality are. -/
theorem representatives_eq_take (room : kept.length < limit) (le : limit ≤ limit')
    (votes : List V) :
    representatives voter limit kept votes =
      (representatives voter limit' kept votes).take limit := by
  induction votes generalizing kept with
  | nil => exact (List.take_of_length_le (Nat.le_of_lt room)).symm
  | cons v rest ih =>
    have length : (kept ++ [v]).length = kept.length + 1 := by simp
    unfold representatives
    split
    next => exact ih room
    next =>
      by_cases full : limit ≤ kept.length + 1
      · -- the lower limit is reached here; the higher one keeps at least as much
        have front : kept ++ [v] <+: if limit' ≤ kept.length + 1 then kept ++ [v]
            else representatives voter limit' (kept ++ [v]) rest := by
          split
          · exact List.prefix_rfl
          · exact prefix_representatives voter limit' _ rest
        have reached : (kept ++ [v]).length = limit := by omega
        rw [if_pos full, ← reached]
        exact List.prefix_iff_eq_take.mp front
      · rw [if_neg full, if_neg (by omega)]
        exact ih (by omega)

/-- Counting up to a limit is counting up to a higher one, as far as the limit. -/
theorem distinctUpTo_eq_min (voter : Voter V) (positive : 0 < limit) (le : limit ≤ limit')
    (values : List V) :
    distinctUpTo voter limit values = min limit (distinctUpTo voter limit' values) := by
  rw [distinctUpTo, representatives_eq_take positive le, List.length_take, distinctUpTo]

end

end Quorate
