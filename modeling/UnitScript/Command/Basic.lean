import UnitScript.Command.Arguments
import UnitScript.Command.Report
import UnitScript.File.Basic
import UnitScript.Json.Writer
import UnitScript.Outcome.Record

/-!
# The command

`Command.run` is the command without its surroundings: it is given the
arguments and a way to read files, and yields what is written and the exit
code.  The code is `0` for a script that ran to its end, `1` for one that did
not or could not be read, and `2` for wrong arguments.
-/

namespace UnitScript.Command

open File (ReadError)

/-- What the command writes, and its exit code. -/
structure Result where
  code : Nat
  stdout : String
  stderr : String
deriving DecidableEq

/-- How the command is used. -/
def usage (program : String) : String :=
  "Metra script runner\nUsage: " ++ program ++ " <file> [--json] [--step-limit N]\n"

/-- What is written for a script that was run. -/
def report (arguments : Arguments) (text : String) : Result :=
  let source : Source := ⟨arguments.path, text⟩
  let outcome := source.run arguments.limits
  let code := if outcome.succeeded then 0 else 1
  if arguments.json then ⟨code, outcome.toJson.pretty ++ "\n", ""⟩
  else ⟨code, outcome.displayedText, outcome.diagnosticText source⟩

/-- The script that the arguments name, or the result for wrong arguments. -/
def prepare (program : String) (arguments : List String) : Except Result Arguments :=
  match Arguments.parse arguments with
  | .ok arguments => .ok arguments
  | .error error => .error ⟨2, "", "Error: " ++ error.message ++ "\n" ++ usage program⟩

/-- Runs the script whose content was read, or reports that it could not be. -/
def finish (arguments : Arguments) (content : Except ReadError String) : Result :=
  match content with
  | .ok text => report arguments text
  | .error error =>
      ⟨1, "", "Error: failed to read " ++ arguments.path ++ ": " ++ error.message ++ "\n"⟩

/-- The command: `read` gives the text of a file. -/
def run (program : String) (read : String → Except ReadError String) (arguments : List String) :
    Result :=
  match prepare program arguments with
  | .ok arguments => finish arguments (read arguments.path)
  | .error result => result

end UnitScript.Command
