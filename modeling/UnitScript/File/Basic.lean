/-!
# Reading a text file

A file cannot be read because the system refuses it or because its content is
not UTF-8.

* `SystemError` lists the usual causes of a refusal, each with the number and
  the wording the system has for it.
* `ReadError.message` is the wording of any failure.
* `decode` turns the content of a file into text.
-/

namespace UnitScript.File

/-- Why the system refuses to read a file. -/
inductive SystemError where
  | notFound
  | permissionDenied
  | notDirectory
  | isDirectory
  | nameTooLong
deriving DecidableEq

namespace SystemError

/-- Every cause. -/
def all : List SystemError :=
  [.notFound, .permissionDenied, .notDirectory, .isDirectory, .nameTooLong]

/-- The number of a cause. -/
def number : SystemError → Nat
  | .notFound => 2
  | .permissionDenied => 13
  | .notDirectory => 20
  | .isDirectory => 21
  | .nameTooLong => 36

/-- The wording of a cause. -/
def reason : SystemError → String
  | .notFound => "No such file or directory"
  | .permissionDenied => "Permission denied"
  | .notDirectory => "Not a directory"
  | .isDirectory => "Is a directory"
  | .nameTooLong => "File name too long"

/-- The cause with a number. -/
def ofNumber? (n : Nat) : Option SystemError :=
  all.find? fun cause => cause.number == n

/-- A cause is found by its number. -/
theorem ofNumber?_number (cause : SystemError) : ofNumber? cause.number = some cause := by
  cases cause <;> rfl

end SystemError

/-- Why a file cannot be read. -/
inductive ReadError where
  | notText
  | system (cause : SystemError)
  /-- Any other failure, in the wording of the system. -/
  | other (reason : String)
deriving DecidableEq

namespace ReadError

/-- A refusal by the system, in its wording. -/
def systemMessage (number : Nat) (reason : String) : String :=
  reason ++ " (os error " ++ toString number ++ ")"

/-- The wording of a read error. -/
def message : ReadError → String
  | .notText => "stream did not contain valid UTF-8"
  | .system cause => systemMessage cause.number cause.reason
  | .other reason => reason

/-- A refusal with the number and the reason that the system gives. -/
def ofSystem (number : Nat) (reason : String) : ReadError :=
  match SystemError.ofNumber? number with
  | some cause => .system cause
  | none => .other (systemMessage number reason)

end ReadError

/-- The text of a file, which must be UTF-8. -/
def decode (content : ByteArray) : Except ReadError String :=
  match String.fromUTF8? content with
  | some text => .ok text
  | none => .error .notText

end UnitScript.File
