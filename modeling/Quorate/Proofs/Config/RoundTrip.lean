import Quorate.Config.Reader
import Quorate.Proofs.Json.Reading
import Quorate.Proofs.Json.Writing

/-! A configuration is read back from its JSON, and from every other text that carries its fields:
in another order, with other spellings and blanks, among members of other names, and without a voter
where votes are compared by their hashes. -/

set_option autoImplicit false

namespace Quorate

open Json

/-- The fields of a merge by threshold. Hashes are the usual voter and need not be named. -/
def MergeRule.votes (threshold : Nat) (coding : Coding) : List Field :=
  [⟨"threshold", True, Decimal threshold⟩, ⟨"voter", coding ≠ .hash, Quotes coding.name⟩]

/-- The texts of a merge rule: a name, or an object of which the only member has the name. -/
inductive MergeRule.Text : MergeRule → List Char → Prop where
  | first {cs : List Char} : Quotes "first" cs → Text .first cs
  | threshold {threshold : Nat} {coding : Coding} {members : List (String × List Char)}
      {record cs : List Char} : Carries (votes threshold coding) members → Object members record →
      Object [("threshold", record)] cs → Text (.threshold threshold coding) cs

namespace Config

def parts (c : Config) : List Field :=
  [⟨"replicas", True, Decimal c.replicas⟩, ⟨"get_timeout_ms", True, Decimal c.getTimeoutMs⟩,
    ⟨"merger", True, c.merger.Text⟩]

/-- The texts of a configuration. -/
inductive Text (c : Config) : List Char → Prop where
  | mk {members : List (String × List Char)} {before object behind : List Char} : Blank before →
      Carries c.parts members → Object members object → Blank behind →
      Text c (before ++ (object ++ behind))

/-- All numbers of a configuration have 64 bits. -/
structure Fits (c : Config) : Prop where
  replicas : c.replicas < 2 ^ 64
  getTimeoutMs : c.getTimeoutMs < 2 ^ 64
  threshold : ∀ threshold coding, c.merger = .threshold threshold coding → threshold < 2 ^ 64

end Config

theorem Coding.gives {coding : Coding} {cs : List Char} (quotes : Quotes coding.name cs) :
    Gives Coding.read coding cs := by
  cases coding with
  | hash => exact quotes.gives (v := Coding.variants) rfl rfl
  | bytes => exact quotes.gives (v := Coding.variants) rfl rfl

namespace MergeRule

variable {threshold : Nat} {coding : Coding}

/-- What was read of a merge by threshold once members of these names were seen. -/
def draft (threshold : Nat) (coding : Coding) (seen : List String) : Draft where
  threshold := if "threshold" ∈ seen then some threshold else none
  coding := if "voter" ∈ seen then some coding else none

theorem draft_makes (fits : threshold ≤ largest) :
    Makes fields (votes threshold coding) (.threshold threshold coding)
      (draft threshold coding) where
  empty := rfl
  field := by
    intro g known seen value fresh holds
    simp only [votes, List.mem_cons, List.not_mem_nil, or_false] at known
    rcases known with rfl | rfl
    · cases holds
      exact .once (fun n => { draft threshold coding seen with threshold := some n })
        (fun _ => by simp [fields, draft, fresh]) (readNat_decimal fits "usize") (by simp [draft])
    · exact .once (fun b => { draft threshold coding seen with coding := some b })
        (fun _ => by simp [fields, draft, fresh]) (Coding.gives holds) (by simp [draft])
  other := by
    intro name value seen unknown written
    simp only [votes, List.forall_mem_cons, List.not_mem_nil, false_implies, implies_true,
      and_true] at unknown
    exact .skip (fun _ => by simp [fields, unknown]) written
      (by simp [draft, unknown.1.symm, unknown.2.symm])
  finish := by
    intro seen needed
    simp only [votes, List.forall_mem_cons] at needed
    have threshold := needed.1 trivial
    by_cases named : "voter" ∈ seen
    · simp [fields, Draft.finish, draft, threshold, named, required, Except.map]
    · obtain rfl : coding = .hash := by_contra fun other => named (needed.2.1 other)
      simp [fields, Draft.finish, draft, threshold, named, required, Except.map]

theorem Text.gives {rule : MergeRule} {cs : List Char} (text : rule.Text cs)
    (fits : ∀ threshold coding, rule = .threshold threshold coding → threshold ≤ largest) :
    Gives read rule cs := by
  cases text with
  | first quotes => exact quotes.gives (v := variants) rfl rfl
  | @threshold threshold coding _ _ _ carries record object =>
    have content := (draft_makes (fits threshold coding rfl)).gives carries record
    exact object.gives (v := variants) rfl content

end MergeRule

namespace Config

variable {c : Config}

/-- What was read of a configuration once members of these names were seen. -/
def draft (c : Config) (seen : List String) : Draft where
  replicas := if "replicas" ∈ seen then some c.replicas else none
  getTimeoutMs := if "get_timeout_ms" ∈ seen then some c.getTimeoutMs else none
  merger := if "merger" ∈ seen then some c.merger else none

theorem Fits.merger (fits : c.Fits) {cs : List Char} (text : c.merger.Text cs) :
    Gives MergeRule.read c.merger cs :=
  text.gives fun threshold coding rule => Nat.le_pred_of_lt (fits.threshold threshold coding rule)

theorem Fits.draft_makes (fits : c.Fits) : Makes fields c.parts c (draft c) where
  empty := rfl
  field := by
    intro g known seen value fresh holds
    simp only [parts, List.mem_cons, List.not_mem_nil, or_false] at known
    rcases known with rfl | rfl | rfl
    · cases holds
      exact .once (fun n => { draft c seen with replicas := some n })
        (fun _ => by simp [fields, draft, fresh])
        (readNat_decimal (Nat.le_pred_of_lt fits.replicas) "usize") (by simp [draft])
    · cases holds
      exact .once (fun n => { draft c seen with getTimeoutMs := some n })
        (fun _ => by simp [fields, draft, fresh])
        (readNat_decimal (Nat.le_pred_of_lt fits.getTimeoutMs) "u64") (by simp [draft])
    · exact .once (fun m => { draft c seen with merger := some m })
        (fun _ => by simp [fields, draft, fresh]) (fits.merger holds) (by simp [draft])
  other := by
    intro name value seen unknown written
    simp only [parts, List.forall_mem_cons, List.not_mem_nil, false_implies, implies_true,
      and_true] at unknown
    exact .skip (fun _ => by simp [fields, unknown]) written
      (by simp [draft, unknown.1.symm, unknown.2.1.symm, unknown.2.2.symm])
  finish := by
    intro seen needed
    simp only [parts, List.forall_mem_cons] at needed
    simp [fields, Draft.finish, draft, needed, required, bind, Except.bind]

theorem Text.read {cs : List Char} (text : c.Text cs) (fits : c.Fits) :
    readAll (readRecord fields) cs = .ok c := by
  obtain ⟨blank, carries, object, blank'⟩ := text
  exact (fits.draft_makes.gives carries object).readAll blank blank'

end Config

theorem MergeRule.carries_votes (threshold : Nat) (coding : Coding) :
    Carries (votes threshold coding)
      (listed [("threshold", toString threshold), ("voter", quoted coding.name)]) where
  held := by simp [votes, listed, Decimal, quotes_quoted]
  needed := by simp [votes, listed]
  once := by simp [votes, listed]
  other := by simp [votes, listed]

theorem Config.carries_parts {c : Config} {merger : String} (holds : c.merger.Text merger.toList) :
    Carries c.parts (listed [("replicas", toString c.replicas),
      ("get_timeout_ms", toString c.getTimeoutMs), ("merger", merger)]) where
  held := by simp [parts, listed, Decimal, holds]
  needed := by simp [parts, listed]
  once := by simp [parts, listed]
  other := by simp [parts, listed]

theorem Config.text_json (c : Config) : c.Text c.json.toList := by
  have text {merger : String} (holds : c.merger.Text merger.toList) :
      c.Text (Error.jsonObject [("replicas", toString c.replicas),
        ("get_timeout_ms", toString c.getTimeoutMs), ("merger", merger)]).toList := by
    have text := Text.mk blank_nil (carries_parts holds) (object_jsonObject _) blank_nil
    rwa [List.nil_append, List.append_nil] at text
  obtain ⟨replicas, getTimeoutMs, merger⟩ := c
  cases merger with
  | first => exact text (.first (quotes_quoted "first"))
  | threshold threshold coding =>
    exact text (.threshold (MergeRule.carries_votes threshold coding) (object_jsonObject _)
      (object_jsonObject [("threshold", _)]))

/-- A configuration is written as one of its texts, and all its texts are read as it. -/
theorem texts_read_back (c : Config) (fits : c.Fits) :
    c.Text c.json.toList ∧ Config.ofJson? c.json = .ok c ∧
      ∀ text : String, c.Text text.toList → Config.ofJson? text = .ok c :=
  ⟨c.text_json, c.text_json.read fits, fun _ text => text.read fits⟩

namespace Reordered

def config : Config := ⟨3, 18446744073709551615, .threshold 2 .hash⟩

/-- The value of a remark, which is a list of an object and a number. -/
def remark : List Char := "[\x7b\"voter\":null\x7d, -1.5e3]".toList

/-- A threshold with an escape in its name, and no voter. -/
def record : List Char := "\x7b\"thr\\u0065shold\":2\x7d".toList

def rule : List Char := "\x7b\"threshold\": ".toList ++ (record ++ ['\x7d'])

def members : List (String × List Char) :=
  [("note", remark), ("merger", rule), ("get_timeout_ms", "18446744073709551615".toList),
    ("replicas", ['3'])]

/-- The fields in reverse behind a remark. -/
def object : List Char :=
  "\x7b\"note\":".toList ++ (remark ++ " ,\"merger\":".toList ++ (rule ++
    ",\"get_timeout_ms\":18446744073709551615,\"replicas\":3\x7d".toList))

def text : String := String.ofList (' ' :: object)

theorem remark_written : Written .value remark := by
  have space : Blank [' '] := by simp [Blank]
  have voter : Written .members "\"voter\":null".toList :=
    .member (spells_flatMap "voter".toList).content (.word (by decide : "null".toList ∈ words))
      (.mk blank_nil blank_nil blank_nil blank_nil)
  have whole : Whole ['1'] := .digits (by decide) (by decide) nofun
  have fraction : Fraction ['.', '5'] := .point ⟨by decide, by simp [Digit]⟩
  have exponent : Exponent ['e', '3'] := .mark (.inl rfl) (.inl rfl) ⟨by decide, by simp [Digit]⟩
  have number : Written .value "-1.5e3".toList := .number (.mk (.inr rfl) whole fraction exponent)
  exact .list (.nextItem blank_nil (.object voter) blank_nil (.item space number blank_nil))

theorem rule_text : config.merger.Text rule := by
  have space : Blank [' '] := by simp [Blank]
  have unit : CodeUnit 0x65 "0065".toList :=
    .mk (hexDigit_digit 0) (hexDigit_digit 0) (hexDigit_digit 6) (hexDigit_digit 5)
  have escaped : Spells "threshold".toList "thr\\u0065shold".toList :=
    (((Spells.unit unit (.inl (by decide)) (spells_flatMap "shold".toList)).escape 'r').escape
      'h').escape 't'
  have votes : Carries (MergeRule.votes 2 .hash) [("threshold", ['2'])] := by
    constructor <;> simp [MergeRule.votes, Decimal]
    rfl
  have object : Object [("threshold", ['2'])] record :=
    .members (.last escaped (.mk blank_nil blank_nil blank_nil blank_nil))
  have tagged : Object [("threshold", record)] rule :=
    .members (.last (spells_flatMap "threshold".toList) (.mk blank_nil blank_nil space blank_nil))
  exact .threshold votes object tagged

theorem text_of_config : config.Text text.toList := by
  have space : Blank [' '] := by simp [Blank]
  have carries : Carries config.parts members := by
    constructor
    · simp [Config.parts, members, Decimal, rule_text]
      decide
    · simp [Config.parts, members]
    · simp [Config.parts, members]
    · simp [Config.parts, members, remark_written]
  have object : Object members object := .members
    (.more (spells_flatMap "note".toList) (.mk blank_nil blank_nil blank_nil space)
      (.more (spells_flatMap "merger".toList) (.mk blank_nil blank_nil blank_nil blank_nil)
        (.more (spells_flatMap "get_timeout_ms".toList) (.mk blank_nil blank_nil blank_nil blank_nil)
          (.last (spells_flatMap "replicas".toList) (.mk blank_nil blank_nil blank_nil blank_nil)))))
  have text := Config.Text.mk space carries object blank_nil
  simpa [Reordered.text] using text

theorem read_as_configured :
    config.Fits ∧ config.Text text.toList ∧ Config.ofJson? text = .ok config := by
  have fits : config.Fits := ⟨by decide, by decide, by rintro _ _ ⟨⟩; decide⟩
  exact ⟨fits, text_of_config, (texts_read_back config fits).2.2 text text_of_config⟩

end Reordered

end Quorate
