import UnitScript.Session.Basic

/-!
# Command line arguments

The command takes one script, the flag `--json`, and the option
`--step-limit` with a number.  They may come in any order and be repeated,
except for the script; the last limit counts.

* `Arguments.parse` reads the arguments, or says why they are wrong.
* `readLimit` reads a number that fits in 64 bits.
-/

namespace UnitScript.Command

/-- What the command is asked to do. -/
structure Arguments where
  path : String
  json : Bool
  limits : Limits
deriving DecidableEq

/-- Why a text is no limit. -/
inductive LimitError where
  | empty
  | invalidDigit
  | tooLarge
deriving DecidableEq

/-- The wording of a limit error. -/
def LimitError.message : LimitError → String
  | .empty => "cannot parse integer from empty string"
  | .invalidDigit => "invalid digit found in string"
  | .tooLarge => "number too large to fit in target type"

/-- Why the arguments are wrong. -/
inductive UsageError where
  | missingLimit
  | invalidLimit (text : String) (error : LimitError)
  | unknownOption (option : String)
  | unexpectedArgument (argument : String)
  | noScript
deriving DecidableEq

/-- The wording of a usage error. -/
def UsageError.message : UsageError → String
  | .missingLimit => "--step-limit needs a value"
  | .invalidLimit text error => "invalid step limit '" ++ text ++ "': " ++ error.message
  | .unknownOption option => "unknown option '" ++ option ++ "'"
  | .unexpectedArgument argument => "unexpected argument '" ++ argument ++ "'"
  | .noScript => "no script given"

/-- Reads digits from left to right onto `value`.  A character that is no
digit counts before a number that is too large. -/
def readDigits (value : Nat) : List Char → Except LimitError Nat
  | [] => .ok value
  | c :: rest =>
      if c.isDigit then
        let next := 10 * value + (c.toNat - '0'.toNat)
        if next < 18446744073709551616 then readDigits next rest else .error .tooLarge
      else
        .error .invalidDigit

/-- Reads a number that fits in 64 bits, perhaps with a plus sign before it. -/
def readLimit (text : String) : Except LimitError Nat :=
  match text.toList with
  | [] => .error .empty
  | ['+'] => .error .invalidDigit
  | '+' :: digits => readDigits 0 digits
  | digits => readDigits 0 digits

/-- Whether an argument is an option. -/
def isOption (argument : String) : Bool :=
  match argument.toList with
  | '-' :: '-' :: _ => true
  | _ => false

namespace Arguments

/-- Reads arguments from left to right; `path`, `json` and `limits` are what
was read so far. -/
def parseFrom (path : Option String) (json : Bool) (limits : Limits) :
    List String → Except UsageError Arguments
  | [] =>
      match path with
      | some path => .ok ⟨path, json, limits⟩
      | none => .error .noScript
  | "--json" :: rest => parseFrom path true limits rest
  | ["--step-limit"] => .error .missingLimit
  | "--step-limit" :: text :: rest =>
      match readLimit text with
      | .ok steps => parseFrom path json { limits with steps := steps } rest
      | .error error => .error (.invalidLimit text error)
  | argument :: rest =>
      if isOption argument then .error (.unknownOption argument)
      else
        match path with
        | none => parseFrom (some argument) json limits rest
        | some _ => .error (.unexpectedArgument argument)

/-- Reads the arguments of the command. -/
def parse (arguments : List String) : Except UsageError Arguments :=
  parseFrom none false {} arguments

end Arguments

end UnitScript.Command
