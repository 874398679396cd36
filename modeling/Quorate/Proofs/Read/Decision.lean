import Quorate.Proofs.Config.Feasible
import Quorate.Proofs.Read.Phases
import Quorate.Proofs.Read.Replies
import Quorate.Proofs.System.Fuel

/-! What decides a quorum read. The schedule of its threads and the random delays have a part in
whether the merge is in time, and in which of several failing replicas is reported. All else is up
to the configuration and the arguments. -/

set_option autoImplicit false

namespace Quorate.Read

open Replica

section

variable {argv : List String} {files : String → Except ReadFailure ByteArray}
  {file : Except ReadFailure ByteArray} {draw : Nat → Nat} {c : Config} {args : Arguments}
  {merger : ReplyMerger Payload} {exit : Exit}
  {h : List (Moment (Option Payload) (Work Payload) Unit)} {s : Reading Payload}
  {answer : Return (Option Payload)}

/-- How the command ends after the steps `h`, whatever their order. -/
inductive Ends (args : Arguments) (file : Except ReadFailure ByteArray) (draw : Nat → Nat) :
    List (Moment (Option Payload) (Work Payload) Unit) → Exit → Prop where
  | unread {exit : Exit} : prepare args file draw = .error exit → Ends args file draw [] exit
  | read {r s : Reading Payload} {h : List (Moment (Option Payload) (Work Payload) Unit)}
      {answer : Return (Option Payload)} : prepare args file draw = .ok r →
      Schedule client Call.Never r h s → s.answer? 0 = some answer →
      Ends args file draw h (.ofReturn? (some answer))

/-- What a reply stands for. An empty one has no value. -/
def value? (reply : String) : Option Payload := if reply = "" then none else some ⟨reply⟩

/-- What some replies are merged to, all of them given. -/
def verdict (merger : ReplyMerger Payload) (replies : List String) : Exit :=
  match merger with
  | .first => ⟨0, (replies.find? (· ≠ "")).getD "no winner" ++ "\n", ""⟩
  | .threshold m =>
    match m.merge (replies.map value?) with
    | .ok (some winner) => ⟨0, winner.text ++ "\n", ""⟩
    | .ok none => ⟨0, "no winner\n", ""⟩
    | .error e => ⟨1, "", "Error: quorum read failed: " ++ e.message ++ "\n"⟩

/-- How the command may end if the merge is in time. -/
inductive Decided (c : Config) (args : Arguments) : Exit → Prop where
  | miscounted : args.replies.length ≠ c.replicas →
      Decided c args ⟨1, "", "Error: expected " ++ toString c.replicas ++
        " replies (one per replica), got " ++ toString args.replies.length ++ "\n"⟩
  /-- The first unknown replica is reported. -/
  | unknown {before after : List Nat} {i : Nat} : args.replies.length = c.replicas →
      args.failing = before ++ i :: after → (∀ j ∈ before, j < c.replicas) → c.replicas ≤ i →
      Decided c args ⟨1, "", "Error: --fail " ++ toString i ++
        " is not a valid replica index\n"⟩
  | failed {i : Nat} : args.replies.length = c.replicas → (∀ j ∈ args.failing, j < c.replicas) →
      i ∈ args.failing → Decided c args ⟨1, "",
        "Error: quorum read failed: Io \x7b reason: \"Mocked error on replica " ++ toString i ++
          "\" \x7d\n"⟩
  | replied {merger : ReplyMerger Payload} : args.replies.length = c.replicas →
      args.failing = [] → c.replyMerger = .ok merger →
      Decided c args (verdict merger args.replies)

/-- How the command ends if the merge is not in time. -/
structure TimedOut (c : Config) (args : Arguments)
    (h : List (Moment (Option Payload) (Work Payload) Unit)) (exit : Exit) : Prop where
  exit : exit = ⟨1, "", "Error: quorum read timed out\n"⟩
  /-- The time that the configuration gives was up, and the merge had not ended. -/
  givesUp : GivesUp args.replies.length ⟨c.getTimeoutMs * 1000000⟩ h
  late : ¬ InTime args.replies.length ⟨c.getTimeoutMs * 1000000⟩ h

/-! The texts that the command puts together. -/

theorem failing_read (message : String) : Exit.failing ("quorum read failed: " ++ message) =
    ⟨1, "", "Error: quorum read failed: " ++ message ++ "\n"⟩ := by
  rw [Exit.failing, ← String.append_assoc]
  rfl

theorem failing_expected (expected got : Nat) : Exit.failing ("expected " ++ toString expected ++
      " replies (one per replica), got " ++ toString got) =
    ⟨1, "", "Error: expected " ++ toString expected ++ " replies (one per replica), got " ++
      toString got ++ "\n"⟩ := by
  simp only [Exit.failing, ← String.append_assoc]
  rfl

theorem failing_unknown (i : Nat) :
    Exit.failing ("--fail " ++ toString i ++ " is not a valid replica index") =
      ⟨1, "", "Error: --fail " ++ toString i ++ " is not a valid replica index\n"⟩ := by
  rw [Exit.failing, ← String.append_assoc, ← String.append_assoc, String.append_assoc]
  rfl

/-- A character that can be printed stands for itself, but for quotes and backslashes. -/
theorem escape_printable {c : Char} (printable : 0x20 ≤ c.toNat ∧ c.toNat < 0x7f)
    (quote : c ≠ '"') (backslash : c ≠ '\\') : Text.escape c = [c] := by
  have apart (c' : Char) (low : c'.toNat < 0x20) : c ≠ c' := by
    rintro rfl
    omega
  have shown : Text.isHidden c = false := by
    simp [Text.isHidden, Nat.not_lt.mpr printable.1, Nat.not_le.mpr printable.2]
  simp only [Text.escape, if_neg (apart '\x00' (by decide)), if_neg (apart '\t' (by decide)),
    if_neg (apart '\r' (by decide)), if_neg (apart '\n' (by decide)), if_neg quote,
    if_neg backslash, shown, Bool.false_eq_true, if_false]

theorem escape_digit {c : Char} (digit : c.isDigit) : Text.escape c = [c] := by
  have bounds : 48 ≤ c.toNat ∧ c.toNat ≤ 57 := by
    simpa [Char.isDigit, Char.le_def, UInt32.le_iff_toNat_le] using digit
  apply escape_printable (by omega)
  · rintro rfl
    exact absurd bounds (by decide)
  · rintro rfl
    exact absurd bounds (by decide)

theorem quoted_plain {s : String} (plain : ∀ c ∈ s.toList, Text.escape c = [c]) :
    Text.quoted s = "\"" ++ s ++ "\"" := by
  have same : s.toList.flatMap Text.escape = s.toList := by
    rw [List.flatMap_congr plain, List.flatMap_singleton']
  rw [Text.quoted, same, String.ofList_toList]

/-- Nothing in the message of a replica that fails has to be escaped. -/
theorem mocked_message (i : Nat) : (Fault.mocked ("replica " ++ toString i)).message =
    "Io \x7b reason: \"Mocked error on replica " ++ toString i ++ "\" \x7d" := by
  have words : ("Mocked error on replica ".toList.all fun c =>
      (0x20 ≤ c.toNat && c.toNat < 0x7f) && c != '"' && c != '\\') = true := rfl
  have plain : ∀ c ∈ ("Mocked error on replica " ++ toString i).toList, Text.escape c = [c] := by
    intro c member
    rw [String.toList_append] at member
    rcases List.mem_append.mp member with member | member
    · have word := List.all_eq_true.mp words c member
      simp only [Bool.and_eq_true, decide_eq_true_eq, bne_iff_ne] at word
      exact escape_printable word.1.1 word.1.2 word.2
    · have digit : c ∈ Nat.toDigits 10 i := by simpa using member
      exact escape_digit (Nat.isDigit_of_mem_toDigits (Nat.zero_lt_succ 9) (Nat.le_refl 10) digit)
  have origin : "Mocked error on " ++ ("replica " ++ toString i) =
      "Mocked error on replica " ++ toString i := by
    rw [← String.append_assoc]
    rfl
  rw [Fault.mocked, origin, ← String.toList_inj]
  simp only [Error.message, Error.fields, Error.name, quoted_plain plain]
  simp

theorem failing_mocked (i : Nat) :
    Exit.failing ("quorum read failed: " ++ (Fault.mocked ("replica " ++ toString i)).message) =
      ⟨1, "", "Error: quorum read failed: Io \x7b reason: \"Mocked error on replica " ++
        toString i ++ "\" \x7d\n"⟩ := by
  rw [failing_read, mocked_message]
  refine congrArg (Exit.mk 1 "") ?_
  rw [← String.toList_inj]
  simp

theorem payload?_eq : payload? = value? := by
  funext reply
  simp [payload?, value?]

theorem firstReply_values (replies : List String) :
    firstReply (replies.map value?) = (replies.find? (· ≠ "")).map Payload.mk := by
  have same : value? = fun reply => (Option.guard (· ≠ "") reply).map Payload.mk := by
    funext reply
    by_cases empty : reply = "" <;> simp [value?, empty]
  rw [firstReply, List.findSome?_map, List.find?_eq_findSome?_guard, List.map_findSome?, same]
  rfl

/-- The replies are merged to the verdict. -/
theorem verdict_eq (merger : ReplyMerger Payload) (replies : List String) :
    Exit.ofAnswer (.outcome (merger.merge (replies.map value?))) = verdict merger replies := by
  cases merger with
  | first =>
    simp only [ReplyMerger.merge, firstReply_values, verdict]
    cases replies.find? (· ≠ "") <;> rfl
  | threshold m =>
    simp only [ReplyMerger.merge, verdict]
    rcases m.merge (replies.map value?) with e | winner | winner
    · exact failing_read e.message
    · rfl
    · rfl

theorem decided_of_objection {message : String} (objects : objection? c args = some message) :
    Decided c args (.failing message) := by
  unfold objection? at objects
  split at objects
  next miscounted =>
    cases objects
    rw [failing_expected]
    exact .miscounted miscounted
  next counted =>
    obtain ⟨i, found, rfl⟩ := Option.map_eq_some_iff.mp objects
    obtain ⟨beyond, before, after, same, known⟩ := List.find?_eq_some_iff_append.mp found
    rw [failing_unknown]
    refine .unknown (Decidable.not_not.mp counted) same (fun j earlier => ?_)
      (of_decide_eq_true beyond)
    simpa using known j earlier

theorem known_of_no_objection (content : objection? c args = none) :
    args.replies.length = c.replicas ∧ ∀ i ∈ args.failing, i < c.replicas := by
  unfold objection? at content
  split at content
  next => cases content
  next counted =>
    have nobody := List.find?_eq_none.mp (Option.map_eq_none_iff.mp content)
    exact ⟨Decidable.not_not.mp counted, fun i named => by simpa using nobody i named⟩

/-- Nothing is reported to be an invalid argument, neither to the merger nor of the merge. -/
def Valid (exit : Exit) : Prop :=
  ∀ reason, exit ≠ ⟨1, "", "Error: " ++ (Error.invalidArgument reason).message ++ "\n"⟩ ∧
    exit ≠ ⟨1, "",
      "Error: quorum read failed: " ++ (Error.invalidArgument reason).message ++ "\n"⟩

theorem valid_of_success {out : String} : Valid ⟨0, out, ""⟩ := by
  refine fun reason => ⟨fun same => ?_, fun same => ?_⟩ <;>
    cases congrArg Exit.code same

/-- The message of an error begins with its name. -/
theorem message_name (e : Error) : ∃ rest, e.message.toList = e.name.toList ++ rest := by
  unfold Error.message
  cases e <;> simp [Error.fields, Error.name]

/-- An invalid argument would show in the first letters of its name. -/
theorem valid_of_text {text : String} (direct : text.toList.take 9 ≠ "Error: In".toList)
    (merged : text.toList.take 29 ≠ "Error: quorum read failed: In".toList) :
    Valid ⟨1, "", text⟩ := by
  intro reason
  obtain ⟨rest, message⟩ := message_name (.invalidArgument reason)
  refine ⟨fun same => direct ?_, fun same => merged ?_⟩
  · have text : text = _ := congrArg Exit.err same
    simp [text, message, Error.name]
  · have text : text = _ := congrArg Exit.err same
    simp [text, message, Error.name]

theorem valid_split (threshold : Nat) (reason : String) : Valid ⟨1, "",
    "Error: quorum read failed: " ++ (Error.quorumNotReached threshold reason).message ++
      "\n"⟩ := by
  obtain ⟨rest, message⟩ := message_name (.quorumNotReached threshold reason)
  exact valid_of_text (by simp) (by simp [message, Error.name])

/-- Under a configuration that loads, only too fragmented votes keep a merge from its verdict. -/
theorem valid_verdict (feasible : c.Feasible) (made : c.replyMerger = .ok merger)
    {replies : List String} (counted : replies.length = c.replicas) :
    Valid (verdict merger replies) := by
  obtain ⟨merger', made', allows⟩ := feasible.merger (V := Payload)
  cases made.symm.trans made'
  have allows := allows (replies.map value?) (by simpa using counted)
  rw [← verdict_eq]
  generalize merger.merge (replies.map value?) = o at allows
  cases allows with
  | winner => exact valid_of_success
  | nobody => exact valid_of_success
  | split =>
    rw [Exit.ofAnswer, failing_read]
    exact valid_split _ _

theorem Decided.valid (decided : Decided c args exit) (feasible : c.Feasible) : Valid exit := by
  cases decided with
  | miscounted => exact valid_of_text (by simp) (by simp)
  | unknown => exact valid_of_text (by simp) (by simp)
  | failed => exact valid_of_text (by simp) (by simp)
  | replied counted _ made => exact valid_verdict feasible made counted

/-- A command whose configuration loads begins to read unless its arguments are objected to. -/
inductive Prepares (c : Config) (args : Arguments) : Except Exit (Reading Payload) → Prop where
  | objects {message : String} : objection? c args = some message →
      Prepares c args (.error (.failing message))
  | reads {ms : List (Member Payload)} {merger : ReplyMerger Payload} :
      objection? c args = none → c.replyMerger = .ok merger →
      List.Forall₂ (Simulates args) args.replies.zipIdx ms →
      Prepares c args (.ok (reading (plan c merger) ms))

theorem prepares (fits : args.maxDelayMs < 2 ^ 64) (loads : Config.load file = .ok c)
    (draw : Nat → Nat) : Prepares c args (prepare args file draw) := by
  obtain ⟨-, feasible⟩ := Config.load_eq_ok_iff.mp loads
  obtain ⟨merger, made, -⟩ := feasible.merger (V := Payload)
  obtain ⟨ms, same, all⟩ := members_simulate fits draw
  cases objects : objection? c args with
  | some message =>
    simp only [prepare, loads, objects]
    exact .objects objects
  | none =>
    simp only [prepare, loads, objects, made, same]
    exact .reads objects made all

section

variable {ms : List (Member Payload)} (given : args.replies ≠ [])
  (all : List.Forall₂ (Simulates args) args.replies.zipIdx ms)
include given all

theorem reading_bounded (schedule : Schedule client Call.Never (reading (plan c merger) ms) h s) :
    h.length ≤ 28 * args.replies.length + 23 := by
  obtain ⟨rest, few, -⟩ := shadows_of_schedule (simulates_ne_nil all given) schedule
  rw [simulates_length all] at few
  omega

theorem reading_moves (schedule : Schedule client Call.Never (reading (plan c merger) ms) h s)
    (busy : s.answer? 0 = none) : s.Moves client 0 := by
  obtain ⟨rest, -, shadows⟩ := shadows_of_schedule (simulates_ne_nil all given) schedule
  exact shadows.moves busy

/-- There is fuel for every reading. -/
theorem reading_ends (c : Config) (merger : ReplyMerger Payload) : ∃ h answer,
    Schedule client Call.Never (reading (plan c merger) ms) h
        ((reading (plan c merger) ms).run client (args.replies.length * patience)) ∧
      ((reading (plan c merger) ms).run client (args.replies.length * patience)).answer? 0 =
        some answer := by
  refine System.run_ends (fun _ _ => reading_bounded given all)
    (fun _ _ => reading_moves given all) ?_
  have waiting : (reading (plan c merger) ms).waiting = 0 := rfl
  have fuel : patience = 1000000000 := by decide
  have positive := List.length_pos_iff.mpr given
  rw [waiting, fuel]
  omega

/-- The answer of the reader is decided, or the reader has given up. -/
theorem decided_of_schedule (content : objection? c args = none) (made : c.replyMerger = .ok merger)
    (schedule : Schedule client Call.Never (reading (plan c merger) ms) h s)
    (ended : s.answer? 0 = some answer) :
    Decided c args (.ofReturn? (some answer)) ∨ TimedOut c args h (.ofReturn? (some answer)) := by
  obtain ⟨counted, known⟩ := known_of_no_objection content
  obtain ⟨rest, -, shadows⟩ := shadows_of_schedule (simulates_ne_nil all given) schedule
  obtain ⟨a, rfl, concludes⟩ := shadows.ended ended
  cases concludes with
  | outcome comes =>
    left
    rcases comesTo_of_simulates all (counted ▸ known) comes with ⟨i, named, rfl⟩ | ⟨nobody, rfl⟩
    · show Decided c args (.failing ("quorum read failed: " ++ (Fault.mocked _).message))
      rw [failing_mocked]
      exact .failed counted known named
    · show Decided c args (Exit.ofAnswer (.outcome (merger.merge _)))
      rw [payload?_eq, verdict_eq]
      exact .replied counted nobody made
  | pending givesUp =>
    rw [simulates_length all] at givesUp
    exact .inr ⟨rfl, givesUp, givesUp.not_inTime schedule⟩

end

section

variable (feasible : c.Feasible)
include feasible

/-- A configuration that loads asks for a reply. -/
theorem given_of_no_objection (content : objection? c args = none) : args.replies ≠ [] := by
  have counted := (known_of_no_objection content).1
  have positive := feasible.replicas
  exact List.length_pos_iff.mp (counted ▸ positive)

theorem decided_of_ends (prepared : Prepares c args (prepare args file draw))
    (ends : Ends args file draw h exit) : Decided c args exit ∨ TimedOut c args h exit := by
  cases ends with
  | unread refused =>
    rw [refused] at prepared
    cases prepared with
    | objects objects => exact .inl (decided_of_objection objects)
  | read reads schedule ended =>
    rw [reads] at prepared
    cases prepared with
    | reads content made all =>
      exact decided_of_schedule (given_of_no_objection feasible content) all content made
        schedule ended

theorem fragmented_of_error (made : c.replyMerger = .ok merger)
    (counted : args.replies.length = c.replicas) {e : Error}
    (fails : merger.merge (args.replies.map value?) = .error e) :
    ∃ threshold coding reason, c.merger = .threshold threshold coding ∧
      e = .quorumNotReached threshold reason := by
  obtain ⟨merger', made', allows⟩ := feasible.merger (V := Payload)
  cases made.symm.trans made'
  have allows := allows (args.replies.map value?) (by simpa using counted)
  rw [fails] at allows
  cases allows with
  | split rule => exact ⟨_, _, _, rule, rfl⟩

/-- What the command does is one of the ways in which it can end. -/
theorem ends_of_run (accepted : Arguments.ofList? argv = .ok args)
    (prepared : Prepares c args (prepare args (files args.configPath) draw)) :
    ∃ h, Ends args (files args.configPath) draw h (run argv files draw) := by
  simp only [run, accepted, execute]
  generalize found : prepare args (files args.configPath) draw = preparation at prepared
  cases prepared with
  | objects objects => exact ⟨[], .unread found⟩
  | @reads _ merger content _ all =>
    obtain ⟨h, answer, schedule, ended⟩ :=
      reading_ends (given_of_no_objection feasible content) all c merger
    refine ⟨h, ?_⟩
    simp only [System.result?_eq, ended]
    exact .read found schedule ended

end

/-- What there is to know about the command, given its configuration and its arguments. -/
structure Conducted (argv : List String) (files : String → Except ReadFailure ByteArray)
    (draw : Nat → Nat) (c : Config) (args : Arguments) : Prop where
  /-- If the merge is in time, neither the schedule nor the delays have more of a say than which of
  the replicas that fail is reported. -/
  decided : ∀ h exit, Ends args (files args.configPath) draw h exit →
    InTime args.replies.length ⟨c.getTimeoutMs * 1000000⟩ h → Decided c args exit
  /-- All that may happen besides is that the time is up when the reader is polled and the merge has
  not ended by then. -/
  late : ∀ h exit, Ends args (files args.configPath) draw h exit →
    Decided c args exit ∨ TimedOut c args h exit
  /-- A merge of all the replies fails only if the votes are too fragmented. -/
  fragmented : ∀ merger e, c.replyMerger = .ok merger → args.replies.length = c.replicas →
    merger.merge (args.replies.map value?) = .error e →
      ∃ threshold coding reason, c.merger = .threshold threshold coding ∧
        e = .quorumNotReached threshold reason
  valid : ∀ h exit, Ends args (files args.configPath) draw h exit → Valid exit
  bounded : ∀ r, prepare args (files args.configPath) draw = .ok r → r.Bounded client
  /-- Whatever has happened, the reader can go on until it ends. -/
  moves : ∀ r h s, prepare args (files args.configPath) draw = .ok r →
    Schedule client Call.Never r h s → s.answer? 0 = none → s.Moves client 0
  /-- One of these ways is the way of the command. -/
  runs : ∃ h, Ends args (files args.configPath) draw h (run argv files draw)

end

namespace Agreed

def argv : List String :=
  ["--config-path", "quorum.json", "--reply", "b", "--reply=", "--reply", "b"]

/-- Two of three replicas must agree. -/
def text : String :=
  "\x7b\"replicas\": 3, \"get_timeout_ms\": 5, \"merger\": " ++
    "\x7b\"threshold\": \x7b\"threshold\": 2, \"voter\": \"bytes\"\x7d\x7d\x7d"

def files (_ : String) : Except ReadFailure ByteArray := .ok text.toUTF8

def config : Config := ⟨3, 5, .threshold 2 .bytes⟩

def args : Arguments := ⟨"quorum.json", ["b", "", "b"], [], 50, false⟩

/-- The replicas, none of which takes its time. -/
def prompt : List (Member Payload) :=
  [⟨⟨some ⟨"b"⟩, ⟨0⟩, .never⟩, "replica 0"⟩, ⟨⟨none, ⟨0⟩, .never⟩, "replica 1"⟩,
    ⟨⟨some ⟨"b"⟩, ⟨0⟩, .never⟩, "replica 2"⟩]

def merger : ThresholdMerger Payload := ⟨2, Coding.bytes.voter, Nat.two_pos⟩

/-- The last replica is the first to reply. -/
def driven : List (Moment (Option Payload) (Work Payload) Unit) × Reading Payload :=
  (reading (plan config (.threshold merger)) prompt).drive client
    (List.replicate 26 0 ++ List.replicate 15 3 ++ List.replicate 15 2 ++ List.replicate 15 1 ++
      [0, 0])

theorem accepted : Arguments.ofList? argv = .ok args := eq_ok_of_toOption (by decide +kernel)

theorem loaded : Config.load (files args.configPath) = .ok config := by
  refine (Config.load_text text).mpr ⟨eq_ok_of_toOption (by decide +kernel), ?_⟩
  rw [Config.feasible_threshold rfl]
  decide

theorem prepared : prepare args (files args.configPath) (fun _ => 0) =
    .ok (reading (plan config (.threshold merger)) prompt) := by
  simp only [prepare, loaded]
  rfl

theorem ends : Ends args (files args.configPath) (fun _ => 0) driven.1 ⟨0, "b\n", ""⟩ := by
  have answered : (driven.2.answer? 0).isSome := by decide +kernel
  have prints : Exit.ofReturn? (driven.2.answer? 0) = ⟨0, "b\n", ""⟩ := by decide +kernel
  obtain ⟨answer, ended⟩ := Option.isSome_iff_exists.mp answered
  rw [← prints, ended]
  exact .read prepared (.drive _ _) ended

end Agreed

end Quorate.Read
