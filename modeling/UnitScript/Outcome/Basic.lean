import UnitScript.Program.Check
import UnitScript.Program.Parser
import UnitScript.Session.Basic
import UnitScript.Token.Lexer

/-!
# Running a script

`Source.run` takes a script through all stages: tokens, program, unit check,
execution.  Execution only starts when the stages before it found no error.
The `Outcome` is everything there is to know about the run.

* `Outcome.succeeded` says whether there was neither an error nor a fault.
* `Snapshot` is a global variable at the end of the run.
-/

namespace UnitScript

/-- A global variable at the end of a run, as it is displayed. -/
structure Snapshot where
  name : String
  value : String
  unit : Option String
deriving DecidableEq

/-- What came of running a script. -/
structure Outcome where
  file : String
  /-- Whether execution started. -/
  executed : Bool
  output : List String
  diagnostics : Diagnostics
  /-- The global variables in the order of their names. -/
  globals : List Snapshot
  /-- Why execution stopped early. -/
  fault : Option String
  /-- How many statements were executed. -/
  steps : Nat
deriving DecidableEq

namespace Outcome

/-- The outcome of a script that was not executed. -/
def notExecuted (file : String) (diagnostics : Diagnostics) : Outcome :=
  ⟨file, false, [], diagnostics, [], none, 0⟩

/-- Whether there was neither an error nor a fault. -/
def succeeded (outcome : Outcome) : Bool :=
  !outcome.diagnostics.hasErrors && outcome.fault.isNone

end Outcome

namespace Session

variable {π ρ : Type} [StringPool π ρ] [DecidableEq ρ] [ToString ρ]

/-- A variable as it is displayed: a string by its content. -/
def snapshotOf (pool : π) (name : String) (held : Variable ρ) : Snapshot where
  name := name
  value :=
    match held.value with
    | .pointer r =>
        match StringPool.text r pool with
        | .ok text => text
        | .error _ => held.value.text
    | value => value.text
  unit := held.unit.bind (·.label)

/-- The global variables as they are displayed. -/
def snapshot (session : Session π ρ) : List Snapshot :=
  match session.scopes.globalScope with
  | .ok scope => scope.entries.map fun (name, held) => snapshotOf session.store.pool name held
  | .error _ => []

/-- Executes statements up to the first fault, which is given with the
statement it arose in. -/
def runAll : List Stmt → Session π ρ → Option (Stmt × Fault) × Session π ρ
  | [], session => (none, session)
  | statement :: later, session =>
      match exec statement session with
      | .ok _ session => runAll later session
      | .error fault session => (some (statement, fault), session)

/-- The issue that a fault is reported as. -/
def faultIssue (fault : Fault) : Issue := ⟨.runtimeFault, .error, fault.message, none⟩

/-- The outcome of executing statements in a fresh session.  `before` is what
the stages before execution found. -/
def outcome (statements : List Stmt) (before : Diagnostics) (session : Session π ρ) : Outcome :=
  let (stopped, session) := runAll statements session
  let diagnostics := before ++ session.store.log
  { file := session.source.name
    executed := true
    output := session.output.toList
    diagnostics :=
      match stopped with
      | some (statement, fault) =>
          diagnostics.report session.source (faultIssue fault) statement.span
      | none => diagnostics
    globals := session.snapshot
    fault := stopped.map fun (_, fault) => fault.message
    steps := session.steps }

end Session

/-- Runs a script with the standard units. -/
def Source.run (source : Source) (limits : Limits) : Outcome :=
  let lexed := source.lex
  let parsed := Program.parse source lexed.tokens
  let read : Diagnostics := ∅ ++ lexed.log ++ parsed.log
  match parsed.program with
  | none => .notExecuted source.name read
  | some program =>
      let checked := read ++ program.check Registry.standard source
      if checked.hasErrors then .notExecuted source.name checked
      else
        Session.outcome program.statements checked
          (Session.start source limits Registry.standard Heap.empty)

end UnitScript
