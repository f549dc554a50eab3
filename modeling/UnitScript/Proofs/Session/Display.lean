import UnitScript.Proofs.Session.Changes
import UnitScript.Proofs.StepLimit

/-!
# What is displayed

A session keeps the lines it displays up to a limit and counts the rest.  Nothing else
reads them, so under another limit everything is the same but the lines that are kept.

* `Display` is what was displayed.  `Display.kept_addAll` and `Display.total_addAll` say
  what becomes of more lines.
* `rendered` are the lines that a statement renders, without the display.
* `exec_withDisplay` is the result about a statement: from another display it does the
  same, and adds what it renders.  `performAll_withDisplay` carries it through calls.
* `output_cap_truncates` is the result about whole runs.
-/

namespace UnitScript

/-- What was displayed: how many lines are kept at most, those that were kept, and how
many were not. -/
structure Display where
  cap : Nat
  kept : Array String
  dropped : Nat

namespace Display

/-- A line is kept, or counted when enough were kept. -/
def add (display : Display) (line : String) : Display :=
  if display.kept.size < display.cap then { display with kept := display.kept.push line }
  else { display with dropped := display.dropped + 1 }

def addAll (display : Display) (lines : List String) : Display := lines.foldl add display

theorem addAll_append (display : Display) (lines later : List String) :
    display.addAll (lines ++ later) = (display.addAll lines).addAll later :=
  List.foldl_append

/-- The first lines are kept, as long as there is room. -/
theorem kept_addAll (display : Display) (lines : List String) :
    (display.addAll lines).kept.toList =
      display.kept.toList ++ lines.take (display.cap - display.kept.size) := by
  induction lines generalizing display with
  | nil => simp [addAll]
  | cons line later ih =>
    rw [addAll, List.foldl_cons, ← addAll, ih]
    unfold add
    split
    · next hroom =>
      obtain ⟨room, hroom⟩ : ∃ n, display.cap - display.kept.size = n + 1 :=
        Nat.exists_eq_add_one_of_ne_zero (by omega)
      have hless : display.cap - (display.kept.size + 1) = room := by omega
      simp [hroom, hless]
    · next hfull =>
      have hnone : display.cap - display.kept.size = 0 := by omega
      simp [hnone]

/-- Every line is kept or counted. -/
theorem total_addAll (display : Display) (lines : List String) :
    (display.addAll lines).kept.size + (display.addAll lines).dropped =
      display.kept.size + display.dropped + lines.length := by
  induction lines generalizing display with
  | nil => rfl
  | cons line later ih =>
    rw [addAll, List.foldl_cons, ← addAll, ih, List.length_cons]
    unfold add
    split
    · simp only [Array.size_push]
      omega
    · simp only
      omega

end Display

namespace Session

variable {π ρ : Type}

/-- The session with another display. -/
def withDisplay (display : Display) (session : Session π ρ) : Session π ρ :=
  { session with
    limits := { session.limits with lines := display.cap }
    output := display.kept
    dropped := display.dropped }

/-- What the session has displayed. -/
def shown (session : Session π ρ) : Display :=
  ⟨session.limits.lines, session.output, session.dropped⟩

theorem aside_withDisplay (display : Display) :
    Aside (withDisplay display : Session π ρ → Session π ρ) :=
  ⟨fun _ => rfl, fun _ => rfl, fun _ _ => rfl, fun _ _ => rfl⟩

theorem ignores_tick (display : Display) :
    Ignores (withDisplay display) (tick : Run π ρ Unit) := by
  intro session
  show (if session.limits.steps < session.steps + 1 then _ else _) = _
  simp only [tick]
  split <;> rfl

/-- A displayed line goes to the display. -/
theorem emit_withDisplay (line : String) (display : Display) (session : Session π ρ) :
    emit line (session.withDisplay display) =
      onSession (withDisplay (display.add line)) (emit line session) := by
  have hsilent : onSession (withDisplay (display.add line)) (emit line session) =
      .ok () (session.withDisplay (display.add line)) := by
    unfold emit
    split <;> rfl
  rw [hsilent]
  show (if display.kept.size < display.cap then _ else _) = _
  unfold Display.add
  split <;> rfl

variable [StringPool π ρ] [DecidableEq ρ] [ToString ρ]

/-! ## Lines that are rendered -/

mutual

/-- The lines that a statement renders when it is executed. -/
def rendered : Stmt → Session π ρ → List String
  | .assign _ _ _, _ => []
  | .display value, session =>
      match (do tick; render value : Run π ρ String) session with
      | .ok line _ => [line]
      | .error _ _ => []
  | .block body _, session =>
      match (do tick; openScope : Run π ρ Unit) session with
      | .ok _ opened => renderedAll body opened
      | .error _ _ => []

/-- The lines that statements render when they are executed up to the first fault. -/
def renderedAll : List Stmt → Session π ρ → List String
  | [], _ => []
  | statement :: later, session =>
      rendered statement session ++
        match exec statement session with
        | .ok _ reached => renderedAll later reached
        | .error _ _ => []

end

/-! ## Statements from another display -/

mutual

/-- From another display a statement does the same, and displays what it renders. -/
theorem exec_withDisplay (statement : Stmt) (display : Display) (session : Session π ρ) :
    exec statement (session.withDisplay display) =
      onSession (withDisplay (display.addAll (rendered statement session)))
        (exec statement session) := by
  cases statement with
  | assign target value span =>
    have hassign : Ignores (withDisplay display)
        (do tick; let _ ← assign target.text value : Run π ρ Unit) :=
      (ignores_tick display).bind fun _ =>
        (ignores_assign (aside_withDisplay display) target.text value).bind fun _ => ignores_pure ()
    unfold exec rendered
    exact hassign session
  | display value =>
    have hrender : Ignores (withDisplay display) (do tick; render value : Run π ρ String) :=
      (ignores_tick display).bind fun _ => ignores_render (aside_withDisplay display) value
    have hexec : (exec (.display value) : Run π ρ Unit) =
        (do tick; render value) >>= emit := by
      rw [exec, bind_assoc]
    rw [hexec, rendered]
    generalize (do tick; render value : Run π ρ String) = front at hrender
    rw [bind_eq, bind_eq, hrender]
    cases front session with
    | ok line reached => exact emit_withDisplay line display reached
    | error fault reached => rfl
  | block body span =>
    have hopen : Ignores (withDisplay display) (do tick; openScope : Run π ρ Unit) :=
      (ignores_tick display).bind fun _ _ => rfl
    have hexec : (exec (.block body span) : Run π ρ Unit) =
        (do tick; openScope) >>= fun _ => thenAlways (execAll body) closeScope := by
      rw [exec, bind_assoc]
    rw [hexec, rendered]
    generalize (do tick; openScope : Run π ρ Unit) = front at hopen
    rw [bind_eq, bind_eq, hopen]
    cases front session with
    | ok _ opened =>
      exact onSession_thenAlways (execAll_withDisplay body display opened)
        (ignores_closeScope (aside_withDisplay _))
    | error fault reached => rfl

/-- From another display statements do the same, and display what they render. -/
theorem execAll_withDisplay (statements : List Stmt) (display : Display)
    (session : Session π ρ) :
    execAll statements (session.withDisplay display) =
      onSession (withDisplay (display.addAll (renderedAll statements session)))
        (execAll statements session) := by
  cases statements with
  | nil =>
    unfold execAll renderedAll
    rfl
  | cons statement later =>
    rw [execAll, renderedAll, bind_eq, bind_eq, exec_withDisplay statement display session]
    cases exec statement session with
    | ok _ reached =>
      rw [Display.addAll_append]
      exact execAll_withDisplay later _ reached
    | error fault reached =>
      rw [List.append_nil]
      rfl

end

end Session

/-! ## Calls from another display -/

variable {π ρ : Type} [StringPool π ρ] [DecidableEq ρ] [ToString ρ]

/-- The lines of the expression statements that a call renders. -/
def Call.rendered : Call → Session π ρ → List String
  | .exec statement, session => Session.rendered statement session
  | .execProgram program, session => Session.renderedAll program.statements session
  | _, _ => []

theorem Call.run_withDisplay (call : Call) (display : Display) (session : Session π ρ) :
    call.run (session.withDisplay display) =
      Session.onSession (Session.withDisplay (display.addAll (call.rendered session)))
        (call.run session) := by
  have haside := Session.aside_withDisplay (π := π) (ρ := ρ) display
  have hevaluating {α : Type} (eval : Context ρ → Eval π α) :
      Session.Ignores (Session.withDisplay display)
        (do let _ ← Session.evaluating eval : Run π ρ Unit) :=
    (Session.ignores_evaluating haside eval).bind fun _ => Session.ignores_pure ()
  cases call with
  | exec statement => exact Session.exec_withDisplay statement display session
  | execProgram program => exact Session.execAll_withDisplay program.statements display session
  | assign name value =>
    exact ((Session.ignores_assign haside name value).bind fun _ => Session.ignores_pure ()) session
  | evaluate value =>
    exact (((Session.ignores_evaluating haside _).bind fun _ => Session.ignores_pure _).bind
      fun _ => Session.ignores_pure ()) session
  | quantity value =>
    exact (((Session.ignores_evaluating haside _).bind fun _ => Session.ignores_pure _).bind
      fun _ => Session.ignores_pure ()) session
  | render value => exact hevaluating _ session
  | measure unit => exact hevaluating _ session
  | openScope => rfl
  | closeScope => exact Session.ignores_closeScope haside session

namespace Session

/-- The lines of the expression statements that calls render. -/
def renderedCalls : List Call → Session π ρ → List String
  | [], _ => []
  | call :: later, session => call.rendered session ++ renderedCalls later (session.perform call)

/-- From another display calls do the same, and display what they render. -/
theorem performAll_withDisplay (calls : List Call) (display : Display) (session : Session π ρ) :
    (session.withDisplay display).performAll calls =
      (session.performAll calls).withDisplay
        (display.addAll (renderedCalls calls session)) := by
  induction calls generalizing display session with
  | nil => rfl
  | cons call later ih =>
    have hcall : (session.withDisplay display).perform call =
        (session.perform call).withDisplay (display.addAll (call.rendered session)) := by
      rw [perform, call.run_withDisplay, final_onSession]
      rfl
    show ((session.withDisplay display).perform call).performAll later = _
    rw [hcall, ih, renderedCalls, Display.addAll_append]
    rfl

/-- What calls have displayed is what they rendered. -/
theorem shown_performAll (calls : List Call) (session : Session π ρ) :
    (session.performAll calls).shown = session.shown.addAll (renderedCalls calls session) :=
  congrArg shown (performAll_withDisplay calls session.shown session)

/-! ## Runs from another display -/

theorem runAll_withDisplay (statements : List Stmt) (display : Display) (session : Session π ρ) :
    runAll statements (session.withDisplay display) =
      ((runAll statements session).1,
        (runAll statements session).2.withDisplay
          (display.addAll (renderedAll statements session))) := by
  induction statements generalizing display session with
  | nil =>
    unfold renderedAll
    rfl
  | cons statement later ih =>
    rw [runAll, runAll, renderedAll, exec_withDisplay]
    cases exec statement session with
    | ok _ reached =>
      rw [Display.addAll_append]
      exact ih _ reached
    | error fault reached =>
      rw [List.append_nil]
      rfl

/-- The outcome from another display differs in the output only. -/
theorem outcome_withDisplay (statements : List Stmt) (before : Diagnostics) (display : Display)
    (session : Session π ρ) :
    outcome statements before (session.withDisplay display) =
      { outcome statements before session with
        output := (display.addAll (renderedAll statements session)).kept.toList } := by
  unfold outcome
  rw [runAll_withDisplay]
  rfl

end Session

/-! ## The result -/

/-- The limit of displayed lines changes nothing but the lines that are kept: under a
lower one a run is the same, and its output is where that under the higher one begins.
And in every session, the lines that were kept and those that were only counted are the
lines of the expression statements that were rendered, whatever calls were made and
whether they stopped with a fault or not. -/
theorem Source.output_cap_truncates (source : Source) (steps : Nat) {lines more : Nat}
    (hle : lines ≤ more) :
    source.run ⟨steps, lines⟩ =
      { source.run ⟨steps, more⟩ with
        output := (source.run ⟨steps, more⟩).output.take lines } ∧
    ∀ registry calls,
      let fresh : Session Heap Pointer :=
        Session.start source ⟨steps, lines⟩ registry Heap.empty
      let reached := fresh.performAll calls
      reached.output.size + reached.dropped = (Session.renderedCalls calls fresh).length := by
  constructor
  · rcases source.run_eq with ⟨log, hrun⟩ | ⟨program, _, _, hrun⟩
    · rw [hrun, hrun]
      simp [Outcome.notExecuted]
    · let session : Session Heap Pointer :=
        Session.start source ⟨steps, more⟩ Registry.standard Heap.empty
      have hcap (cap : Nat) :
          Session.outcome program.statements (source.found program)
              (session.withDisplay ⟨cap, #[], 0⟩) =
            { Session.outcome program.statements (source.found program) session with
              output := (Session.renderedAll program.statements session).take cap } := by
        rw [Session.outcome_withDisplay, Display.kept_addAll]
        rfl
      have hmore : (Session.outcome program.statements (source.found program) session).output =
          (Session.renderedAll program.statements session).take more :=
        congrArg Outcome.output (hcap more)
      rw [hrun, hrun, hmore, List.take_take, Nat.min_eq_left hle]
      exact hcap lines
  · intro registry calls fresh reached
    have hshown := Session.shown_performAll calls fresh
    have htotal := Display.total_addAll fresh.shown (Session.renderedCalls calls fresh)
    rw [← hshown] at htotal
    exact htotal.trans (Nat.zero_add _)

/-- The second line is displayed in a block that stops behind it.  Under a limit of one it
is only counted. -/
theorem Source.output_cap_truncates_stopped :
    let source : Source := ⟨"s", "x = 1\nx\n\x7b\nx + 1\ny\n\x7d\nx"⟩
    let one : Stmt := .display (.literal (.integer 1) (.point .origin))
    let fresh : Session Heap Pointer := Session.start source ⟨9, 1⟩ Registry.standard Heap.empty
    1 ≤ 3 ∧ (source.run ⟨9, 3⟩).output = ["1", "2"] ∧ (source.run ⟨9, 3⟩).fault.isSome = true ∧
      source.run ⟨9, 1⟩ = { source.run ⟨9, 3⟩ with output := ["1"] } ∧
      (fresh.performAll [.exec one, .exec one]).output.size +
        (fresh.performAll [.exec one, .exec one]).dropped = 2 := by
  intro source one fresh
  have houtput : (source.run ⟨9, 3⟩).output = ["1", "2"] := by decide +kernel
  obtain ⟨hrun, htotal⟩ := output_cap_truncates source 9 (show 1 ≤ 3 by decide)
  rw [houtput] at hrun
  exact ⟨by decide, houtput, by decide +kernel, hrun, htotal Registry.standard _⟩

end UnitScript
