import Quorate.Config.Reader

/-!
Loading a configuration from a file: the file is read, its bytes are taken as text, the text as a
configuration, and the configuration is validated. Each of the four can fail.
-/

set_option autoImplicit false

namespace Quorate

/-- Why a file cannot be read. -/
inductive ReadFailure where
  | notFound
  | notDirectory
  | isDirectory
  | nameTooLong
  | nulInName
  | other (reason : String)
  deriving DecidableEq, Repr

def ReadFailure.reason : ReadFailure → String
  | .notFound => "No such file or directory (os error 2)"
  | .notDirectory => "Not a directory (os error 20)"
  | .isDirectory => "Is a directory (os error 21)"
  | .nameTooLong => "File name too long (os error 36)"
  | .nulInName => "file name contained an unexpected NUL byte"
  | .other reason => reason

inductive LoadFailure where
  /-- The text is not the JSON of a configuration. -/
  | fault (f : Json.Fault)
  /-- The file cannot be read, or its configuration is refused. -/
  | error (e : Error)

namespace Config

/-- The text that a file holds. -/
def textOfBytes? (bytes : ByteArray) : Except Error String :=
  match String.fromUTF8? bytes with
  | some text => .ok text
  | none => .error (.io "stream did not contain valid UTF-8")

/-- The configuration in a file, whether it is valid or not. -/
def decode (file : Except ReadFailure ByteArray) : Except LoadFailure Config :=
  match file with
  | .error failure => .error (.error (.io failure.reason))
  | .ok bytes => match textOfBytes? bytes with
    | .error e => .error (.error e)
    | .ok text => (ofJson? text).mapError .fault

/-- The valid configuration in a file. -/
def load (file : Except ReadFailure ByteArray) : Except LoadFailure Config := do
  let c ← decode file
  match c.validate with
  | .error e => .error (.error e)
  | .ok () => .ok c

end Config

end Quorate
