import Quorate.Read.Command

/-!
The program: it reads the file that the arguments name, draws the delays, and prints.
-/

set_option autoImplicit false

namespace Quorate

/-- The cause of a failure to read a file. -/
def ReadFailure.ofError : IO.Error → ReadFailure
  | .noFileOrDirectory .. => .notFound
  | e => .other (toString e)

def readFile (path : String) : IO (Except ReadFailure ByteArray) := do
  try
    let bytes ← IO.FS.readBinFile path
    return .ok bytes
  catch e => return .error (.ofError e)

/-- Draws for the first replicas, each below `choices`; the others take zero. -/
def draws (count choices : Nat) : IO (Nat → Nat) := do
  let drawn ← (List.range count).mapM fun _ => IO.rand 0 (choices - 1)
  return fun index => drawn.getD index 0

/-- Run the command on the files of the system. -/
def runCommand (args : List String) : IO Read.Exit := do
  match Read.Arguments.ofList? args with
  | .error _ => return Read.run args (fun _ => .error .notFound) fun _ => 0
  | .ok parsed =>
    let file ← readFile parsed.configPath
    let draw ← draws parsed.replies.length (Replica.choices (.ofMillis parsed.maxDelayMs))
    return Read.run args (fun _ => file) draw

end Quorate

def main (args : List String) : IO UInt32 := do
  let exit ← Quorate.runCommand args
  IO.print exit.out
  IO.eprint exit.err
  return exit.code
