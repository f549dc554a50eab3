import UnitScript.Command.Basic

/-!
# The program

Reads the script that the arguments name and writes what the command yields.
-/

namespace UnitScript

open Command
open File (ReadError)

/-- The number of a system error, which some calls give negated in 32 bits. -/
def errorNumber (code : UInt32) : Nat :=
  if code.toNat < 2147483648 then code.toNat else 4294967296 - code.toNat

/-- The cause of an input error. -/
def readError : IO.Error → ReadError
  | .noFileOrDirectory _ code reason
  | .interrupted _ code reason
  | .alreadyExists _ code reason
  | .invalidArgument _ code reason
  | .permissionDenied _ code reason
  | .resourceExhausted _ code reason
  | .inappropriateType _ code reason
  | .noSuchThing _ code reason
  | .otherError code reason
  | .resourceBusy code reason
  | .resourceVanished code reason
  | .unsupportedOperation code reason
  | .hardwareFault code reason
  | .unsatisfiedConstraints code reason
  | .illegalOperation code reason
  | .protocolError code reason
  | .timeExpired code reason => .ofSystem (errorNumber code) reason
  | error => .other (toString error)

/-- The text of a file. -/
def readScript (path : String) : IO (Except ReadError String) := do
  try
    return File.decode (← IO.FS.readBinFile path)
  catch error =>
    return .error (readError error)

/-- Runs the command with the files of the system. -/
def runCommand (arguments : List String) : IO Result := do
  match prepare "metra" arguments with
  | .ok arguments => return finish arguments (← readScript arguments.path)
  | .error result => return result

end UnitScript

/-- The program. -/
def main (arguments : List String) : IO UInt32 := do
  let result ← UnitScript.runCommand arguments
  (← IO.getStdout).putStr result.stdout
  (← IO.getStderr).putStr result.stderr
  return result.code.toUInt32
