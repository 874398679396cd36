import Quorate.Config.Load
import Quorate.Proofs.Election.Coding
import Quorate.Proofs.Merge.Threshold
import Quorate.Result.Cell

/-! Configurations under which a read can succeed. Loading lets only these through, and then there
is a merger that finds no fault with as many replies as there are replicas. -/

set_option autoImplicit false

namespace Quorate

variable {V : Type}

theorem eq_ok_of_toOption {ε α : Type} {e : Except ε α} {a : α} (same : e.toOption = some a) :
    e = .ok a := by
  cases e <;> cases same
  rfl

namespace Config

/-- There is a replica, and no more replies have to agree than there are replicas. -/
structure Feasible (c : Config) : Prop where
  replicas : 1 ≤ c.replicas
  threshold : ∀ threshold coding, c.merger = .threshold threshold coding →
    1 ≤ threshold ∧ threshold ≤ c.replicas

variable {c : Config}

theorem feasible_first (rule : c.merger = .first) : c.Feasible ↔ c.replicas ≠ 0 := by
  refine ⟨fun feasible => Nat.pos_iff_ne_zero.mp feasible.replicas, fun positive => ?_⟩
  refine ⟨Nat.pos_of_ne_zero positive, fun threshold coding other => ?_⟩
  cases rule.symm.trans other

theorem feasible_threshold {threshold : Nat} {coding : Coding}
    (rule : c.merger = .threshold threshold coding) :
    c.Feasible ↔ c.replicas ≠ 0 ∧ ¬ (threshold = 0 ∨ c.replicas < threshold) := by
  constructor
  · intro feasible
    have positive := feasible.replicas
    have bounds := feasible.threshold threshold coding rule
    omega
  · intro ⟨positive, bounds⟩
    refine ⟨by omega, fun threshold' coding' same => ?_⟩
    cases rule.symm.trans same
    omega

theorem validate_eq_ok_iff : c.validate = .ok () ↔ c.Feasible := by
  unfold validate
  split
  next none => exact ⟨nofun, fun feasible => absurd feasible.replicas (by omega)⟩
  next positive =>
    split
    next rule => simpa [feasible_first rule] using positive
    next threshold coding rule =>
      rw [feasible_threshold rule]
      split
      next out => exact ⟨nofun, fun feasible => absurd out feasible.2⟩
      next within => exact ⟨fun _ => ⟨positive, within⟩, fun _ => rfl⟩

theorem load_eq_ok_iff {file : Except ReadFailure ByteArray} :
    load file = .ok c ↔ decode file = .ok c ∧ c.Feasible := by
  unfold load
  cases decode file with
  | error failure => exact ⟨nofun, fun both => nomatch both.1⟩
  | ok c' =>
    simp only [bind, Except.bind]
    cases valid : c'.validate with
    | error e =>
      refine ⟨nofun, fun ⟨same, feasible⟩ => ?_⟩
      cases same
      cases valid.symm.trans (validate_eq_ok_iff.mpr feasible)
    | ok =>
      refine ⟨fun same => ?_, And.left⟩
      cases same
      exact ⟨rfl, validate_eq_ok_iff.mp valid⟩

theorem decode_text (text : String) :
    decode (.ok text.toUTF8) = (ofJson? text).mapError .fault := by
  have read : textOfBytes? text.toUTF8 = .ok text := by
    simp [textOfBytes?, String.fromUTF8?, String.fromUTF8, text.isValidUTF8]
  simp only [decode, read]

theorem load_text (text : String) :
    load (.ok text.toUTF8) = .ok c ↔ ofJson? text = .ok c ∧ c.Feasible := by
  rw [load_eq_ok_iff, decode_text]
  cases ofJson? text <;> simp [Except.mapError]

end Config

/-- The first reply with a value is one of the replies. -/
theorem mem_of_firstReply {replies : List (Option V)} {v : V}
    (found : firstReply replies = some v) : some v ∈ replies := by
  obtain ⟨reply, member, rfl⟩ := List.exists_of_findSome?_eq_some found
  exact member

/-- What the merge of some replies can come to under a configuration. -/
inductive Config.Allows (c : Config) (replies : List (Option V)) : Outcome (Option V) → Prop where
  /-- A value that is returned is one of the replies. -/
  | winner {v : V} : some v ∈ replies → Allows c replies (.ok (some v))
  | nobody : Allows c replies (.ok none)
  /-- Only where replies have to agree can they be too fragmented. -/
  | split {threshold : Nat} {coding : Coding} {reason : String} :
      c.merger = .threshold threshold coding →
      Allows c replies (.error (.quorumNotReached threshold reason))

section

variable [BEq V] {c : Config} {replies : List (Option V)}

theorem Config.allows_first (c : Config) (replies : List (Option V)) :
    c.Allows replies (ReplyMerger.first.merge replies) := by
  show c.Allows replies (.ok (firstReply replies))
  cases found : firstReply replies with
  | none => exact .nobody
  | some v => exact .winner (mem_of_firstReply found)

/-- Empty replies count toward the number of replies that a merge asks for, so none are too few. -/
theorem Config.allows_threshold {m : ThresholdMerger V} {coding : Coding}
    (rule : c.merger = .threshold m.threshold coding) (enough : m.threshold ≤ replies.length) :
    c.Allows replies (m.merge replies) := by
  rw [ThresholdMerger.merge_enough enough]
  split
  next winner wins =>
    obtain ⟨⟨code, leads⟩, -⟩ := Election.confirmed_eq_some wins
    have sees := Pairing.run_sees m.voter (ballots replies)
    unfold Pairing.Sees at sees
    rw [leads] at sees
    exact .winner (List.mem_of_getElem? (mem_ballots sees.cast))
  next =>
    split
    next => exact .split rule
    next => exact .nobody

theorem Config.Feasible.merger [Hashed V] [Raw V] (feasible : c.Feasible) :
    ∃ m : ReplyMerger V, c.replyMerger = .ok m ∧
      ∀ replies : List (Option V), replies.length = c.replicas →
        c.Allows replies (m.merge replies) := by
  cases rule : c.merger with
  | first =>
    refine ⟨.first, by simp only [replyMerger, rule], fun replies _ => c.allows_first replies⟩
  | threshold threshold coding =>
    obtain ⟨positive, within⟩ := feasible.threshold threshold coding rule
    refine ⟨_, replyMerger_threshold rule positive, fun replies all => ?_⟩
    have enough : threshold ≤ replies.length := by rw [all]; exact within
    exact allows_threshold rule enough

end

/-- A text is loaded just if it is the JSON of a feasible configuration, and then there is a merger
that takes the replies of all replicas: it answers one of them, nothing, or that they are too
fragmented. -/
theorem loaded_merger_usable (text : String) :
    (∀ c, Config.load (.ok text.toUTF8) = .ok c ↔ Config.ofJson? text = .ok c ∧ c.Feasible) ∧
      ∀ c, Config.load (.ok text.toUTF8) = .ok c → ∀ {V : Type} [BEq V] [Hashed V] [Raw V],
        ∃ m : ReplyMerger V, c.replyMerger = .ok m ∧
          ∀ replies : List (Option V), replies.length = c.replicas →
            c.Allows replies (m.merge replies) :=
  ⟨fun _ => Config.load_text text, fun _ loaded => ((Config.load_text text).mp loaded).2.merger⟩

namespace Scattered

/-- A read of three replicas of which two must agree. -/
def text : String :=
  "\x7b\"replicas\": 3, \"get_timeout_ms\": 5, \"merger\": " ++
    "\x7b\"threshold\": \x7b\"threshold\": 2\x7d\x7d\x7d"

def config : Config := ⟨3, 5, .threshold 2 .hash⟩

/-- All three replicas disagree. -/
def replies : List (Option String) := [some "a", some "b", some "c"]

theorem read_as_too_fragmented :
    Config.load (.ok text.toUTF8) = .ok config ∧
      ∃ m : ReplyMerger String, config.replyMerger = .ok m ∧
        config.Allows replies (m.merge replies) ∧ m.merge replies = .error (Election.splitError 2) := by
  have read : (Config.ofJson? text).toOption = some config := by decide +kernel
  have feasible : config.Feasible := by
    rw [Config.feasible_threshold rfl]
    decide
  have loaded : Config.load (.ok text.toUTF8) = .ok config :=
    ((loaded_merger_usable text).1 config).mpr ⟨eq_ok_of_toOption read, feasible⟩
  obtain ⟨m, made, allows⟩ := (loaded_merger_usable text).2 config loaded (V := String)
  refine ⟨loaded, m, made, allows replies rfl, ?_⟩
  cases made.symm.trans (Config.replyMerger_threshold rfl (by decide))
  show ThresholdMerger.merge _ _ = _
  decide +kernel

end Scattered

end Quorate
