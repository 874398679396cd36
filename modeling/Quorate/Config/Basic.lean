import Quorate.Merge.Threshold

/-!
The configuration of a quorum read: how many replicas a read goes to, how long it waits for them,
and how their replies are merged.
-/

set_option autoImplicit false

namespace Quorate

/-- What votes are compared by. -/
inductive Coding where
  | hash
  | bytes
  deriving DecidableEq, Repr, Inhabited

namespace Coding

def name : Coding → String
  | .hash => "hash"
  | .bytes => "bytes"

def title : Coding → String
  | .hash => "Hash"
  | .bytes => "Bytes"

def voter {V : Type} [Hashed V] [Raw V] : Coding → Voter V
  | .hash => .hash
  | .bytes => .content

end Coding

inductive MergeRule where
  /-- At least `threshold` replies must agree. -/
  | threshold (threshold : Nat) (coding : Coding)
  /-- The first reply with a value, in order of the replicas. -/
  | first
  deriving DecidableEq, Repr, Inhabited

structure Config where
  replicas : Nat
  getTimeoutMs : Nat
  merger : MergeRule
  deriving DecidableEq, Repr, Inhabited

/-- A way to merge the replies of a read. -/
inductive ReplyMerger (V : Type) where
  | threshold (merger : ThresholdMerger V)
  | first

def ReplyMerger.merge {V : Type} [BEq V] : ReplyMerger V → List (Option V) → Except Error (Option V)
  | .threshold m, replies => m.merge replies
  | .first, replies => .ok (firstReply replies)

namespace Config

def timeout (c : Config) : Duration := .ofMillis c.getTimeoutMs

/-- Refuse a configuration under which no read could succeed. -/
def validate (c : Config) : Except Error Unit :=
  if c.replicas = 0 then .error (.invalidConfig "replicas must be at least 1")
  else match c.merger with
    | .first => .ok ()
    | .threshold threshold _ =>
      if threshold = 0 ∨ c.replicas < threshold then
        .error (.invalidConfig ("threshold (" ++ toString threshold ++
          ") must be between 1 and replicas (" ++ toString c.replicas ++ ")"))
      else .ok ()

def replyMerger {V : Type} [Hashed V] [Raw V] (c : Config) : Except Error (ReplyMerger V) :=
  match c.merger with
  | .first => .ok .first
  | .threshold threshold coding => (ThresholdMerger.make? threshold coding.voter).map .threshold

/-- The configuration as one line of text. -/
def describe (c : Config) : String :=
  let merger := match c.merger with
    | .first => "First"
    | .threshold threshold coding =>
      "Threshold(ThresholdConfig \x7b threshold: " ++ toString threshold ++ ", voter: " ++
        coding.title ++ " \x7d)"
  "Config \x7b replicas: " ++ toString c.replicas ++ ", get_timeout_ms: " ++
    toString c.getTimeoutMs ++ ", merger: " ++ merger ++ " \x7d"

def json (c : Config) : String :=
  let merger := match c.merger with
    | .first => Json.quoted "first"
    | .threshold threshold coding =>
      Error.jsonObject [("threshold", Error.jsonObject
        [("threshold", toString threshold), ("voter", Json.quoted coding.name)])]
  Error.jsonObject [("replicas", toString c.replicas),
    ("get_timeout_ms", toString c.getTimeoutMs), ("merger", merger)]

end Config

end Quorate
