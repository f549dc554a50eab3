import UnitScript.Outcome.Basic

/-!
# The report of a run

The displayed lines of a run go to the standard output.  Its diagnostics go to
the standard error, each with the source line it is about and carets under the
part that is meant.
-/

namespace UnitScript

/-- A diagnostic with its source line, carets and suggestion. -/
def Diagnostic.render (source : Source) (d : Diagnostic) : String :=
  let number := toString d.span.first.line
  let gutter := String.ofList (List.replicate number.length ' ')
  let help :=
    match d.suggestion with
    | some suggestion => "\n" ++ gutter ++ " = help: " ++ suggestion
    | none => ""
  d.text ++ "\n" ++ gutter ++ " |\n" ++ number ++ " | " ++ d.sourceLine ++ "\n" ++ gutter ++ " | "
    ++ source.underline d.span ++ help

namespace Outcome

/-- Lines, each with its end. -/
def unlines (lines : List String) : String := String.join (lines.map (· ++ "\n"))

/-- What a run displayed. -/
def displayedText (o : Outcome) : String := unlines o.output

/-- What is wrong with a script, and how many errors are not shown. -/
def diagnosticText (source : Source) (o : Outcome) : String :=
  let hidden := o.diagnostics.hiddenErrors
  unlines (o.diagnostics.kept.map (Diagnostic.render source))
    ++ (if 0 < hidden then "... and " ++ toString hidden ++ " more errors\n" else "")

end Outcome

end UnitScript
