import Mathlib.Data.List.Forall2
import Quorate.Proofs.Read.Delays
import Quorate.Proofs.Read.Waiting

/-! The replicas that accepted arguments ask for. There is one for each reply, and it replies with
it unless its index is named to fail; the random delays have no part in that. -/

set_option autoImplicit false

namespace Quorate.Read

open Replica

theorem number?_lt {text : String} {n : Nat} (read : number? text = some n) : n < 2 ^ 64 := by
  simp only [number?, Option.ite_none_left_eq_some, Option.ite_none_right_eq_some,
    Option.some.injEq] at read
  obtain ⟨-, bound, rfl⟩ := read
  exact bound

/-- The limit of the delays fits in 64 bits, as far as it was read. -/
def Draft.Fits (d : Draft) : Prop := ∀ n, d.maxDelayMs = some n → n < 2 ^ 64

theorem Draft.Fits.set {d d' : Draft} (fits : d.Fits) {setting : Setting} {value : String}
    (same : d.set setting value = some d') : d'.Fits := by
  cases setting with
  | configPath =>
    simp only [Draft.set] at same
    split at same <;> cases same
    exact fits
  | reply =>
    cases same
    exact fits
  | fail =>
    obtain ⟨n, -, rfl⟩ := Option.map_eq_some_iff.mp same
    exact fits
  | maxDelayMs =>
    simp only [Draft.set] at same
    split at same
    next => cases same
    next =>
      obtain ⟨n, read, rfl⟩ := Option.map_eq_some_iff.mp same
      intro n' same
      cases same
      exact number?_lt read

theorem Draft.Fits.finish {d : Draft} (fits : d.Fits) {args : Arguments}
    (same : d.finish = .ok args) : args.maxDelayMs < 2 ^ 64 := by
  unfold Draft.finish at same
  split at same
  next => cases same
  next =>
    cases same
    show d.maxDelayMs.getD 50 < 2 ^ 64
    cases limit : d.maxDelayMs with
    | none => decide
    | some n => exact fits n limit

theorem readFrom_limit {d : Draft} {waiting : Option Setting} {argv : List String}
    {args : Arguments} (fits : d.Fits) (accepted : readFrom d waiting argv = .ok args) :
    args.maxDelayMs < 2 ^ 64 := by
  fun_induction readFrom d waiting argv with
  | case1 d => exact fits.finish accepted
  | case3 d setting value argv _ d' same ih => exact ih (fits.set same) accepted
  | case8 d arg argv _ _ ih => exact ih fits accepted
  | case9 d arg argv setting _ ih => exact ih fits accepted
  | case10 d arg argv setting value _ d' same ih => exact ih (fits.set same) accepted
  | case12 d arg argv => exact fits.finish accepted
  | _ => cases accepted

theorem limit_of_accepted {argv : List String} {args : Arguments}
    (accepted : Arguments.ofList? argv = .ok args) : args.maxDelayMs < 2 ^ 64 :=
  readFrom_limit (by nofun) accepted

/-- The replica at a position: it replies with its reply, or fails if its index is named to. -/
def Simulates (args : Arguments) (indexed : String × Nat) (member : Member Payload) : Prop :=
  member.state? = some (if indexed.2 ∈ args.failing
    then .failed (Fault.mocked ("replica " ++ toString indexed.2))
    else .succeeded (payload? indexed.1))

theorem memberAt_simulates (args : Arguments) (draw : Nat → Nat) (indexed : String × Nat) :
    Simulates args indexed (memberAt args draw indexed) := by
  unfold Simulates
  by_cases named : indexed.2 ∈ args.failing <;>
    simp [memberAt, named, Member.state?, Replica.state?, Fault.state?, Fault.never]

theorem members_simulate {args : Arguments} (fits : args.maxDelayMs < 2 ^ 64) (draw : Nat → Nat) :
    ∃ ms, members args draw = .ok ms ∧
      List.Forall₂ (Simulates args) args.replies.zipIdx ms := by
  refine ⟨_, members_eq_map fits draw, List.forall₂_map_right_iff.mpr ?_⟩
  exact List.forall₂_same.mpr fun indexed _ => memberAt_simulates args draw indexed

section

variable {args : Arguments} {ms : List (Member Payload)}
  (all : List.Forall₂ (Simulates args) args.replies.zipIdx ms)
include all

theorem simulates_length : ms.length = args.replies.length := by
  rw [← all.length_eq, List.length_zipIdx]

theorem simulates_ne_nil (some : args.replies ≠ []) : ms ≠ [] := by
  rintro rfl
  exact some (List.length_eq_zero_iff.mp (simulates_length all).symm)

theorem simulates_at {i : Nat} {reply : String} (here : args.replies[i]? = some reply) :
    ∃ member ∈ ms, Simulates args (reply, i) member := by
  have position : args.replies.zipIdx[i]? = some (reply, i) := by simp [here]
  obtain ⟨inside, same⟩ := List.getElem?_eq_some_iff.mp position
  have inside' : i < ms.length := all.length_eq ▸ inside
  have simulates := (List.forall₂_iff_get.mp all).2 i inside inside'
  simp only [List.get_eq_getElem, same] at simulates
  exact ⟨_, List.getElem_mem inside', simulates⟩

theorem simulates_of_mem {member : Member Payload} (included : member ∈ ms) :
    ∃ indexed, Simulates args indexed member := by
  obtain ⟨i, inside', rfl⟩ := List.mem_iff_getElem.mp included
  have inside : i < args.replies.zipIdx.length := all.length_eq ▸ inside'
  exact ⟨_, (List.forall₂_iff_get.mp all).2 i inside inside'⟩

/-- If nobody is named to fail, every replica gives its reply. -/
theorem reply_of_simulates (nobody : args.failing = []) :
    Reply ms (args.replies.map payload?) := by
  have replies : args.replies.map payload? =
      args.replies.zipIdx.map (payload? ∘ Prod.fst) := by
    rw [← List.map_map, List.zipIdx_map_fst]
  rw [replies, Reply, List.forall₂_map_right_iff]
  refine (all.imp fun indexed member simulates => ?_).flip
  rw [Simulates, nobody, if_neg List.not_mem_nil] at simulates
  exact simulates

/-- The merge of the replicas fails with the error of one that is named to, if there is one, and
else is decided by the replies alone. -/
theorem comesTo_of_simulates {merge : List (Option Payload) → Outcome (Option Payload)}
    {o : Outcome (Option Payload)} (known : ∀ i ∈ args.failing, i < args.replies.length)
    (comes : ComesTo merge ms o) :
    (∃ i ∈ args.failing, o = .error (Fault.mocked ("replica " ++ toString i))) ∨
      args.failing = [] ∧ o = merge (args.replies.map payload?) := by
  cases comes with
  | fails included fails =>
    obtain ⟨⟨reply, i⟩, simulates⟩ := simulates_of_mem all included
    have state := fails.symm.trans simulates
    split at state
    next named => cases state; exact .inl ⟨i, named, rfl⟩
    next => cases state
  | merges replied =>
    right
    have nobody : args.failing = [] := by
      refine List.eq_nil_iff_forall_not_mem.mpr fun i named => ?_
      obtain ⟨member, included, simulates⟩ :=
        simulates_at all (List.getElem?_eq_getElem (known i named))
      obtain ⟨v, succeeds⟩ := replied.given member included
      have state := succeeds.symm.trans simulates
      rw [if_pos named] at state
      cases state
    exact ⟨nobody, by rw [replied.unique (reply_of_simulates all nobody)]⟩

end

end Quorate.Read
