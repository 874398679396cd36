import Quorate.Config.Load
import Quorate.Read.Arguments
import Quorate.Replica.Work

/-!
The quorum read command: it loads a configuration, reads from as many replicas as it says, and
prints the merged reply. The file that holds the configuration and the draws of the random delays
are given from outside.
-/

set_option autoImplicit false

namespace Quorate.Read

open Replica

/-- How the command ends. What it logs on the way, in lines of text or of JSON among its output, is
left out, as it is when logging is switched off. -/
structure Exit where
  code : UInt32
  out : String
  err : String
  deriving DecidableEq, Repr

namespace Exit

def printing (line : String) : Exit := ⟨0, line ++ "\n", ""⟩

def failing (message : String) : Exit := ⟨1, "", "Error: " ++ message ++ "\n"⟩

def ofRefusal : Refusal → Exit
  | .help => ⟨0, help, ""⟩
  | .usage => ⟨2, "", "error: see --help\n"⟩

/-- How a read ends, by the answer of its reader. -/
def ofAnswer : Answer (Option Payload) → Exit
  | .outcome (.ok (some winner)) => printing winner.text
  | .outcome (.ok none) => printing "no winner"
  | .outcome (.error e) => failing ("quorum read failed: " ++ e.message)
  | _ => failing "quorum read timed out"

/-- How a read ends, by what its reader ended with, if it has ended. -/
def ofReturn? : Option (Return (Option Payload)) → Exit
  | some (.ok a) => ofAnswer a
  | some (.error p) => ⟨101, "", p ++ "\n"⟩
  | none => failing "quorum read timed out"

end Exit

/-- The reply of a replica, given as text. -/
def payload? (reply : String) : Option Payload := if reply.isEmpty then none else some ⟨reply⟩

/-- The replicas to read from. Replica `index` takes the draw of that index. -/
def members (args : Arguments) (draw : Nat → Nat) : Except Panic (List (Member Payload)) :=
  args.replies.zipIdx.mapM fun (reply, index) => do
    let delay ← drawDelay (.ofMillis args.maxDelayMs) (draw index)
    let fault : Fault := if args.failing.contains index then ⟨true, .fail⟩ else .never
    .ok ⟨⟨payload? reply, delay, fault⟩, "replica " ++ toString index⟩

/-- What is wrong with the arguments under a configuration. -/
def objection? (c : Config) (args : Arguments) : Option String :=
  if args.replies.length ≠ c.replicas then
    some ("expected " ++ toString c.replicas ++ " replies (one per replica), got " ++
      toString args.replies.length)
  else (args.failing.find? fun i => c.replicas ≤ i).map fun i =>
    "--fail " ++ toString i ++ " is not a valid replica index"

/-- The read that a configuration and arguments ask for. -/
def plan (c : Config) (merger : ReplyMerger Payload) : Plan Payload :=
  ⟨merger.merge, .read c.timeout⟩

/-- The reading that arguments ask for, or how the command ends without one. -/
def prepare (args : Arguments) (file : Except ReadFailure ByteArray) (draw : Nat → Nat) :
    Except Exit (Reading Payload) :=
  match Config.load file with
  | .error _ => .error (.failing ("unable to load " ++ args.configPath))
  | .ok c =>
    match objection? c args with
    | some message => .error (.failing message)
    | none =>
      match c.replyMerger (V := Payload), members args draw with
      | .error e, _ => .error (.failing e.message)
      | .ok _, .error p => .error ⟨101, "", p ++ "\n"⟩
      | .ok merger, .ok members => .ok (reading (plan c merger) members)

/-- Every replica may take its share of the steps. -/
def execute (args : Arguments) (file : Except ReadFailure ByteArray) (draw : Nat → Nat) : Exit :=
  match prepare args file draw with
  | .error exit => exit
  | .ok reading => .ofReturn? (reading.run client (args.replies.length * patience)).result?

/-- The command, given its arguments and the files. -/
def run (args : List String) (files : String → Except ReadFailure ByteArray) (draw : Nat → Nat) :
    Exit :=
  match Arguments.ofList? args with
  | .error refusal => .ofRefusal refusal
  | .ok args => execute args (files args.configPath) draw

end Quorate.Read
