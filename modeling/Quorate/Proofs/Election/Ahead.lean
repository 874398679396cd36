import Quorate.Proofs.Election.Pairing
import Quorate.Proofs.Election.Sentinel

/-! What the pairing passes know after each vote: their candidate is ahead by the count, and all
other votes are pairs of votes that differ. Both passes keep this, each with its own way to have no
candidate. -/

set_option autoImplicit false

namespace Quorate

theorem ballotsFrom_append {V : Type} (seen rest : List (Option V)) (start : Nat) :
    ballotsFrom start (seen ++ rest) =
      ballotsFrom start seen ++ ballotsFrom (start + seen.length) rest := by
  induction seen generalizing start with
  | nil => rfl
  | cons vote seen ih =>
    have shifted : start + (seen.length + 1) = start + 1 + seen.length := by omega
    cases vote <;> simp [ballotsFrom, ih, shifted]

/-- A pass over `votes` that compares them by key is ahead by `count` votes for its candidate, if it
has one. -/
structure Ahead {A K : Type} [DecidableEq K] (key : A → K) (votes : List A) (candidate : Option A)
    (count : Nat) : Prop where
  /-- The count is positive where there is a candidate, so that it can be lowered. -/
  counted : candidate.isSome = true ↔ 1 ≤ count
  /-- The candidate was cast, and so many votes have its key. -/
  cast : ∀ c ∈ candidate, c ∈ votes ∧ count ≤ votes.countP fun v => key v = key c
  /-- The votes are `count` votes with the key of the candidate and disjoint pairs of votes with
  different keys. -/
  split : ∃ (own : List A) (pairs : List (A × A)), own.length = count ∧
    (∀ v ∈ own, ∃ c ∈ candidate, key v = key c) ∧ (∀ pair ∈ pairs, key pair.1 ≠ key pair.2) ∧
    votes.Perm (own ++ pairs.flatMap fun pair => [pair.1, pair.2])
  /-- Any other key has at most half of the votes that the candidate is not ahead by. -/
  others : ∀ k, (∀ c ∈ candidate, key c ≠ k) →
    votes.countP (fun v => key v = k) ≤ (votes.length - count) / 2

theorem Ahead.of_pairedOff {A K : Type} [DecidableEq K] {key : A → K} {votes : List A}
    {candidate : Option A} {count : Nat} (counted : candidate = none ↔ count = 0)
    (cast : ∀ c ∈ candidate, c ∈ votes)
    (paired : PairedOff (votes.map key)
      (candidate.elim [] fun c => List.replicate count (key c))) :
    Ahead key votes candidate count := by
  have half := paired.count_le
  refine ⟨?_, ?_, ?_, ?_⟩
  · rw [Option.isSome_iff_ne_none, Ne, counted]
    omega
  · intro c top
    cases top
    refine ⟨cast c rfl, ?_⟩
    have backed := paired.left_count_le (key c)
    simpa [count_keys] using backed
  · -- keys that are paired off come from votes that are
    obtain ⟨own, pairs, keys, differ, perm⟩ := paired.of_keys
    refine ⟨own, pairs, ?_, ?_, differ, perm⟩
    · rw [← List.length_map (f := key), keys]
      cases candidate with
      | none => exact (counted.mp rfl).symm
      | some c => exact List.length_replicate
    · intro v member
      have mine : key v ∈ own.map key := List.mem_map_of_mem member
      rw [keys] at mine
      cases candidate with
      | none => cases mine
      | some c => exact ⟨c, rfl, List.eq_of_mem_replicate mine⟩
  · -- a key that is not ahead is in pairs only, and once in each of them at most
    intro k other
    have most := half k
    rw [count_keys, List.length_map] at most
    cases candidate with
    | none =>
      have none : count = 0 := counted.mp rfl
      simp only [Option.elim_none, List.length_nil, List.count_nil] at most
      omega
    | some c =>
      have apart : key c ≠ k := other c rfl
      simp only [Option.elim_some, List.length_replicate, List.count_replicate, beq_iff_eq, apart,
        if_false] at most
      omega

theorem Pairing.Pairs.ahead {V : Type} {voter : Voter V} {votes : List (Ballot V)} {p : Pairing V}
    (pairs : p.Pairs voter votes) :
    Ahead (fun b => voter b.value) votes (p.leader.map Prod.fst) p.count := by
  obtain ⟨leader, count⟩ := p
  obtain ⟨counted, leads, paired⟩ := pairs
  refine .of_pairedOff (by simpa using counted) ?_ ?_
  · intro c top
    obtain ⟨⟨b, code⟩, found, rfl⟩ := Option.map_eq_some_iff.mp top
    exact (leads b code found).1
  · cases leader with
    | none => exact paired
    | some top =>
      obtain ⟨b, code⟩ := top
      obtain ⟨-, rfl⟩ := leads b code rfl
      exact paired

namespace Election

/-- The number that leads a pairing, unless it is the one that stands for none. -/
def SentinelPairing.candidate? {N : Type} [DecidableEq N] (absent : N) (p : SentinelPairing N) :
    Option N :=
  if p.leader = absent then none else some p.leader

theorem SentinelPairing.Pairs.ahead {N : Type} [DecidableEq N] {absent : N} {votes : List N}
    {p : SentinelPairing N} (pairs : p.Pairs absent votes) :
    Ahead id (votes.filter (· != absent)) (p.candidate? absent) p.count := by
  obtain ⟨leader, count⟩ := p
  obtain ⟨counted, leads, paired⟩ := pairs
  by_cases none : leader = absent
  · refine .of_pairedOff ?_ ?_ ?_
    · simpa [candidate?, none] using counted
    · simp [candidate?, none]
    · simpa [candidate?, none, left] using paired
  · refine .of_pairedOff ?_ ?_ ?_
    · simpa [candidate?, none] using counted
    · simpa [candidate?, none] using leads none
    · simpa [candidate?, none, left] using paired

/-- After every part of the votes the pairing pass is ahead for its candidate: by code where votes
have codes, and by value among plain numbers, where the absent one stands for no candidate. -/
theorem pairing_ahead_after_every_prefix {V N : Type} [DecidableEq N] (voter : Voter V)
    (absent : N) :
    (∀ seen rest : List (Option V), ∃ p, Pairing.run voter (ballots seen) = p ∧
      Pairing.run voter (ballots (seen ++ rest)) =
        (ballotsFrom seen.length rest).foldl (Pairing.next voter) p ∧
      (∀ leader code, p.leader = some (leader, code) → code = voter leader.value) ∧
      Ahead (fun b => voter b.value) (ballots seen) (p.leader.map Prod.fst) p.count) ∧
    ∀ seen rest : List N, ∃ p, SentinelPairing.run absent seen = p ∧
      SentinelPairing.run absent (seen ++ rest) = rest.foldl (SentinelPairing.next absent) p ∧
      Ahead id (seen.filter (· != absent)) (p.candidate? absent) p.count := by
  constructor
  · intro seen rest
    have pairs := Pairing.run_pairs voter (ballots seen)
    refine ⟨_, rfl, ?_, fun leader code top => (pairs.leads leader code top).2, pairs.ahead⟩
    rw [ballots, ballotsFrom_append, Nat.zero_add, Pairing.run, List.foldl_append]
    rfl
  · intro seen rest
    refine ⟨_, rfl, ?_, (SentinelPairing.run_pairs absent seen).ahead⟩
    rw [SentinelPairing.run, List.foldl_append]
    rfl

end Election
end Quorate
