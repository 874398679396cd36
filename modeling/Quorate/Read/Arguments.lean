/-!
The arguments of the quorum read command. They are read from left to right; the first that cannot
be understood ends the reading, and so does a request for help.
-/

set_option autoImplicit false

namespace Quorate.Read

structure Arguments where
  configPath : String
  /-- One reply for each replica. An empty one means no value. -/
  replies : List String
  /-- The replicas that fail instead of replying. -/
  failing : List Nat
  /-- The limit of the delays. -/
  maxDelayMs : Nat
  /-- Whether log lines are JSON. What the command prints does not depend on it. -/
  jsonLogs : Bool
  deriving DecidableEq, Repr

/-- Why there are no arguments to go by. -/
inductive Refusal where
  | help
  | usage
  deriving DecidableEq, Repr

/-- The arguments, as far as they were read. -/
structure Draft where
  configPath : Option String
  replies : List String
  failing : List Nat
  maxDelayMs : Option Nat
  jsonLogs : Bool

inductive Setting where
  | configPath
  | reply
  | fail
  | maxDelayMs
  deriving DecidableEq, Repr

def Setting.ofName? : String → Option Setting
  | "config-path" => some .configPath
  | "reply" => some .reply
  | "fail" => some .fail
  | "max-delay-ms" => some .maxDelayMs
  | _ => none

/-- A number of 64 bits in decimal digits, perhaps with a plus sign. -/
def number? (text : String) : Option Nat :=
  let digits := match text.toList with
    | '+' :: digits => digits
    | digits => digits
  if digits.isEmpty || !digits.all Char.isDigit then none
  else
    let n := digits.foldl (fun n c => n * 10 + (c.toNat - 48)) 0
    if n < Nat.pow 2 64 then some n else none

namespace Draft

def empty : Draft := ⟨none, [], [], none, false⟩

/-- Take in a value. A setting that is no list can be given once. -/
def set (d : Draft) (setting : Setting) (value : String) : Option Draft :=
  match setting with
  | .configPath =>
    if value.isEmpty || d.configPath.isSome then none else some { d with configPath := some value }
  | .reply => some { d with replies := d.replies ++ [value] }
  | .fail => (number? value).map fun n => { d with failing := d.failing ++ [n] }
  | .maxDelayMs =>
    if d.maxDelayMs.isSome then none
    else (number? value).map fun n => { d with maxDelayMs := some n }

def finish (d : Draft) : Except Refusal Arguments :=
  match d.configPath with
  | none => .error .usage
  | some configPath => .ok ⟨configPath, d.replies, d.failing, d.maxDelayMs.getD 50, d.jsonLogs⟩

end Draft

/-- Whether an argument can be a value of the setting before it. -/
def isValue (arg : String) : Bool := arg = "-" || !arg.startsWith "-"

/-- Split an argument at its first equals sign. -/
def splitValue (cs : List Char) : String × Option String :=
  match cs.span (· != '=') with
  | (name, []) => (String.ofList name, none)
  | (name, _ :: value) => (String.ofList name, some (String.ofList value))

/-- What an argument says by itself. -/
inductive Word where
  | help
  | jsonLogs
  /-- A setting, and its value if that is part of the argument. -/
  | setting (setting : Setting) (value : Option String)
  /-- No settings follow. -/
  | stop
  | unknown
  deriving DecidableEq, Repr

def Word.ofArgument (arg : String) : Word :=
  match arg.toList with
  | ['-', '-'] => .stop
  | '-' :: '-' :: cs =>
    match splitValue cs with
    | ("help", none) => .help
    | ("json-logs", none) => .jsonLogs
    | (name, value) =>
      match Setting.ofName? name with
      | some which => .setting which value
      | none => .unknown
  | '-' :: 'h' :: _ => .help
  | _ => .unknown

/-- Read arguments on top of those read before. A setting may be waiting for its value. -/
def readFrom (d : Draft) : Option Setting → List String → Except Refusal Arguments
  | none, [] => d.finish
  | some _, [] => .error .usage
  | some setting, value :: args =>
    if isValue value then
      match d.set setting value with
      | some d => readFrom d none args
      | none => .error .usage
    else .error .usage
  | none, arg :: args =>
    match Word.ofArgument arg with
    | .help => .error .help
    | .jsonLogs =>
      if d.jsonLogs then .error .usage else readFrom { d with jsonLogs := true } none args
    | .setting setting none => readFrom d (some setting) args
    | .setting setting (some value) =>
      match d.set setting value with
      | some d => readFrom d none args
      | none => .error .usage
    | .stop => if args.isEmpty then d.finish else .error .usage
    | .unknown => .error .usage

def Arguments.ofList? (args : List String) : Except Refusal Arguments := readFrom .empty none args

/-- What the command answers to a request for help. -/
def help : String :=
  "Simulates a quorum read over in-process replicas

Usage: quorum-read [OPTIONS] --config-path <CONFIG_PATH>

Options:
      --config-path <CONFIG_PATH>    " ++ "
      --reply <REPLIES>              Value returned by each replica, in replica order. " ++
    "An empty string means \"no value\"
      --fail <FAILING>               Index of a replica that fails instead of replying
      --max-delay-ms <MAX_DELAY_MS>  [default: 50]
      --json-logs                    " ++ "
  -h, --help                         Print help
"

end Quorate.Read
