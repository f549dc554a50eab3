import UnitScript.Proofs.Token.Positions

/-!
# Reading line by line

What stands behind a newline has no effect on how the text in front of it is
read, and what stands in front of it only moves the lines behind it down.

* `Cursor.placed` puts a cursor into a larger text: more lines above it, and a text
  behind it that starts with a newline.  The `_placed` lemmas say that every step of
  reading is the same there.
* `Lexes.placed` says so of reading to the end, and goes on with what is read
  behind.
* `lex_by_lines` is the result for two texts with a newline in between.
-/

namespace UnitScript

/-! ## Lines above -/

/-- The position with more lines above it. -/
def Position.down (lines : Nat) (p : Position) : Position := ⟨p.line + lines, p.column⟩

/-- The span with more lines above it. -/
def Span.down (lines : Nat) (span : Span) : Span := ⟨span.first.down lines, span.last.down lines⟩

/-- The complaint with more lines above it. -/
def Complaint.down (lines : Nat) (complaint : Complaint) : Complaint :=
  ⟨complaint.problem, complaint.span.down lines⟩

/-- The token with more lines above it. -/
def Token.down (lines : Nat) (token : Token) : Token := ⟨token.kind, token.span.down lines⟩

/-- The diagnostic with more lines above it.  It quotes the same line. -/
def Diagnostic.down (lines : Nat) (d : Diagnostic) : Diagnostic :=
  { d with span := d.span.down lines }

/-- A line ends in front of the text. -/
def Text.EndsLine (text : List Char) : Prop := text = [] ∨ ∃ more, text = '\n' :: more

namespace Cursor

open Text

/-- The cursor in a text that goes on with `tail`, with more lines above it. -/
def placed (lines : Nat) (tail : List Char) (cursor : Cursor) : Cursor :=
  ⟨cursor.rest ++ tail, cursor.position.down lines⟩

/-- A token that is read in a larger text. -/
def Scan.placed (lines : Nat) (tail : List Char) (scan : Scan) : Scan :=
  ⟨scan.kind, scan.complaints.map (·.down lines), scan.cursor.placed lines tail⟩

/-! ## Steps in a larger text -/

section Placed

variable (lines : Nat) {tail : List Char} (cursor : Cursor)

theorem moveTo_placed (rest : List Char) (width : Nat) :
    (cursor.placed lines tail).moveTo (rest ++ tail) width =
      (cursor.moveTo rest width).placed lines tail := rfl

theorem rest_placed_nil {cursor : Cursor} (h : cursor.rest = []) :
    (cursor.placed lines tail).rest = tail := by
  rw [placed, h, List.nil_append]

variable {c : Char} {more : List Char}

theorem rest_placed_cons {cursor : Cursor} (h : cursor.rest = c :: more) :
    (cursor.placed lines tail).rest = c :: (more ++ tail) := by
  rw [placed, h, List.cons_append]

theorem next_placed {cursor : Cursor} (h : cursor.rest = c :: more) :
    (cursor.placed lines tail).next = cursor.next.placed lines tail := by
  rw [next, rest_placed_cons lines h, next, h]
  exact moveTo_placed lines cursor more 1

theorem nextLine_placed {cursor : Cursor} (h : cursor.rest = c :: more) :
    (cursor.placed lines tail).nextLine = cursor.nextLine.placed lines tail := by
  rw [nextLine, rest_placed_cons lines h, nextLine, h]
  simp only [placed, Position.down, List.tail_cons, Nat.add_right_comm]

variable (htail : EndsLine tail)

include htail

theorem takeWhile_placed {p : Char → Bool} (hp : p '\n' = false) (rest : List Char) :
    (rest ++ tail).takeWhile p = rest.takeWhile p ∧
      (rest ++ tail).dropWhile p = rest.dropWhile p ++ tail := by
  induction rest with
  | nil =>
    rcases htail with rfl | ⟨more, rfl⟩
    · exact ⟨rfl, rfl⟩
    · rw [List.nil_append, List.takeWhile_cons, List.dropWhile_cons, hp]
      exact ⟨rfl, rfl⟩
  | cons c rest ih =>
    rw [List.cons_append, List.takeWhile_cons, List.dropWhile_cons, List.takeWhile_cons,
      List.dropWhile_cons]
    cases p c with
    | true => exact ⟨congrArg (c :: ·) ih.1, ih.2⟩
    | false => exact ⟨rfl, rfl⟩

theorem skipWhile_placed {p : Char → Bool} (hp : p '\n' = false) :
    (cursor.placed lines tail).skipWhile p = (cursor.skipWhile p).placed lines tail := by
  obtain ⟨htake, hdrop⟩ := takeWhile_placed htail hp cursor.rest
  rw [skipWhile, placed, htake, hdrop]
  exact moveTo_placed lines cursor _ _

theorem skipBytesWhile_placed {p : Char → Bool} (hp : p '\n' = false) :
    (cursor.placed lines tail).skipBytesWhile p = (cursor.skipBytesWhile p).placed lines tail := by
  obtain ⟨htake, hdrop⟩ := takeWhile_placed htail hp cursor.rest
  rw [skipBytesWhile, placed, htake, hdrop]
  exact moveTo_placed lines cursor _ _

/-- What the next character is does not depend on what stands behind the line. -/
theorem head?_placed {c : Char} (hc : c ≠ '\n') (rest : List Char) :
    (rest ++ tail).head? = some c ↔ rest.head? = some c := by
  cases rest with
  | cons d rest => exact Iff.rfl
  | nil =>
    rcases htail with rfl | ⟨more, rfl⟩
    · exact Iff.rfl
    · simp [hc.symm]

theorem skipBlanks_placed :
    (cursor.placed lines tail).skipBlanks = cursor.skipBlanks.placed lines tail := by
  -- a comment starts in the larger text where it starts in the line
  have hcomment (rest : List Char) :
      (∃ more, rest ++ tail = '/' :: '/' :: more) ↔ ∃ more, rest = '/' :: '/' :: more := by
    rcases rest with _ | ⟨c, _ | ⟨d, more⟩⟩
    · rcases htail with rfl | ⟨more, rfl⟩ <;> simp
    · rcases htail with rfl | ⟨more, rfl⟩ <;> simp
    · simp
  have hblanks := skipWhile_placed lines cursor htail (p := isBlank) (by decide)
  have hskip := skipBytesWhile_placed lines (cursor.skipWhile isBlank) htail (p := (· != '\n'))
    (by decide)
  unfold skipBlanks
  simp only [hblanks]
  by_cases h : ∃ more, (cursor.skipWhile isBlank).rest = '/' :: '/' :: more
  · obtain ⟨more, hmore⟩ := h
    simp only [placed, hmore] at hskip ⊢
    exact hskip
  · have h' := mt (hcomment (cursor.skipWhile isBlank).rest).1 h
    split
    · next more hmore => exact absurd ⟨more, hmore⟩ h'
    · split
      · next more hmore => exact absurd ⟨more, hmore⟩ h
      · rfl

theorem scanWord_placed :
    (cursor.placed lines tail).scanWord = cursor.scanWord.placed lines tail := by
  have hword : continuesWord '\n' = false := by decide
  have hskip := skipWhile_placed lines cursor htail hword
  have htake := (takeWhile_placed htail hword cursor.rest).1
  rw [scanWord, hskip]
  simp only [placed, htake]
  rfl

theorem continuesReal_placed (rest : List Char) :
    continuesReal (rest ++ tail) = continuesReal rest := by
  rcases rest with _ | ⟨c, _ | ⟨d, more⟩⟩
  · rcases htail with rfl | ⟨more, rfl⟩ <;> rfl
  · rcases htail with rfl | ⟨more, rfl⟩
    · rfl
    · by_cases hc : c = '.'
      · subst hc
        rfl
      · simp [continuesReal, hc]
  · by_cases hc : c = '.'
    · subst hc
      rfl
    · simp [continuesReal, hc]

theorem scanNumber_placed :
    (cursor.placed lines tail).scanNumber = cursor.scanNumber.placed lines tail := by
  have hdigit : Char.isDigit '\n' = false := by decide
  have hskip := skipWhile_placed lines cursor htail hdigit
  have htake := (takeWhile_placed htail hdigit cursor.rest).1
  rw [scanNumber_eq, scanNumber_eq, hskip]
  have hcontinues := continuesReal_placed htail (cursor.skipWhile Char.isDigit).rest
  change continuesReal ((cursor.skipWhile Char.isDigit).placed lines tail).rest = _ at hcontinues
  rw [hcontinues]
  split
  · next hreal =>
      obtain ⟨c, more, hrest⟩ : ∃ c more, (cursor.skipWhile Char.isDigit).rest = c :: more := by
        refine List.exists_cons_of_ne_nil fun hnil => ?_
        rw [hnil] at hreal
        cases hreal
      have hfraction := takeWhile_placed htail hdigit (cursor.skipWhile Char.isDigit).next.rest
      rw [scanReal, hskip, next_placed lines hrest, skipWhile_placed lines _ htail hdigit]
      simp only [placed, htake, hfraction.1]
      rfl
  · rw [scanInteger, scanInteger, hskip]
    simp only [placed, htake]
    split <;> rfl

theorem scanEscape_placed (quote : Char) {cursor : Cursor} (h : cursor.rest = c :: more) :
    scanEscape quote (cursor.placed lines tail) =
      ((scanEscape quote cursor).1, (scanEscape quote cursor).2.1.map (·.down lines),
        (scanEscape quote cursor).2.2.placed lines tail) := by
  unfold scanEscape
  rw [next_placed lines h]
  cases hrest : cursor.next.rest with
  | nil =>
    simp only [rest_placed_nil lines hrest, hrest]
    rcases htail with rfl | ⟨later, rfl⟩ <;> rfl
  | cons d later =>
    simp only [rest_placed_cons lines hrest, next_placed lines hrest, hrest]
    split
    · rfl
    · cases escape? quote d with
      | some value => rfl
      | none => rfl

/-- The inside of a string ends with the line at the latest, and the fuel does not
matter as long as there is enough for the line. -/
theorem scanStringBody_placed (opening : Position) (fuel fuel' : Nat) (cursor : Cursor)
    (hfuel : cursor.rest.length ≤ fuel) (hfuel' : cursor.rest.length ≤ fuel') :
    scanStringBody (opening.down lines) fuel' (cursor.placed lines tail) =
      ((scanStringBody opening fuel cursor).1,
        (scanStringBody opening fuel cursor).2.1.map (·.down lines),
        (scanStringBody opening fuel cursor).2.2.placed lines tail) := by
  induction fuel generalizing fuel' cursor with
  | zero =>
    have hrest : cursor.rest = [] := List.length_eq_zero_iff.1 (Nat.le_zero.1 hfuel)
    cases fuel' with
    | zero => rfl
    | succ fuel' =>
      rw [scanStringBody, scanStringBody, rest_placed_nil lines hrest]
      rcases htail with rfl | ⟨more, rfl⟩ <;> rfl
  | succ fuel ih =>
    cases hrest : cursor.rest with
    | nil =>
      cases fuel' with
      | zero =>
        rw [scanStringBody, scanStringBody, hrest]
        rfl
      | succ fuel' =>
        rw [scanStringBody, scanStringBody, rest_placed_nil lines hrest, hrest]
        rcases htail with rfl | ⟨more, rfl⟩ <;> rfl
    | cons c more =>
      rw [hrest, List.length_cons] at hfuel hfuel'
      obtain ⟨fuel', rfl⟩ := Nat.exists_eq_add_one_of_ne_zero (Nat.ne_of_gt (Nat.zero_lt_of_lt hfuel'))
      rw [scanStringBody, scanStringBody]
      simp only [rest_placed_cons lines hrest, hrest, next_placed lines hrest]
      split
      · rfl
      split
      · rfl
      split
      · next hbackslash =>
          subst hbackslash
          obtain ⟨piece, hpiece, hpasses, _⟩ := passes_scanEscape '"' hrest
          have hshorter : (scanEscape '"' cursor).2.2.rest.length ≤ more.length := by
            have hlength := hpasses.length
            have hpos := List.length_pos_iff.2 hpiece
            rw [hrest, List.length_cons] at hlength
            omega
          simp only [scanEscape_placed lines htail '"' hrest]
          rw [ih fuel' (scanEscape '"' cursor).2.2 (by omega) (by omega)]
          simp only [List.map_append]
      · have hshorter : cursor.next.rest.length = more.length := by
          rw [next, moveTo, hrest, List.tail_cons]
        rw [ih fuel' cursor.next (by omega) (by omega)]

theorem scanString_placed {cursor : Cursor} (h : cursor.rest = c :: more) :
    (cursor.placed lines tail).scanString = cursor.scanString.placed lines tail := by
  have hshorter : cursor.next.rest.length ≤ cursor.rest.length := by
    rw [next, moveTo, List.length_tail]
    exact Nat.sub_le _ _
  have hlonger : cursor.rest.length ≤ (cursor.placed lines tail).rest.length := by
    rw [placed, List.length_append]
    exact Nat.le_add_right _ _
  have hbody : scanStringBody (cursor.placed lines tail).position
      (cursor.placed lines tail).rest.length (cursor.next.placed lines tail) = _ :=
    scanStringBody_placed lines htail cursor.position cursor.rest.length
      (cursor.placed lines tail).rest.length cursor.next hshorter (hshorter.trans hlonger)
  unfold scanString
  rw [next_placed lines h, hbody]
  rfl

theorem scanCharacterBody_placed :
    scanCharacterBody (cursor.placed lines tail) =
      (cursor.scanCharacterBody.1, cursor.scanCharacterBody.2.1.map (·.down lines),
        cursor.scanCharacterBody.2.2.placed lines tail) := by
  unfold scanCharacterBody
  cases hrest : cursor.rest with
  | nil =>
    rw [rest_placed_nil lines hrest]
    rcases htail with rfl | ⟨more, rfl⟩ <;> rfl
  | cons c more =>
    simp only [rest_placed_cons lines hrest, scanEscape_placed lines htail '\'' hrest,
      next_placed lines hrest]
    split
    · rfl
    · split <;> rfl

theorem closeQuote?_placed :
    (cursor.placed lines tail).closeQuote? = cursor.closeQuote?.map (·.placed lines tail) := by
  unfold closeQuote?
  cases hrest : cursor.rest with
  | nil =>
    rw [rest_placed_nil lines hrest]
    rcases htail with rfl | ⟨more, rfl⟩ <;> rfl
  | cons c more =>
    rw [rest_placed_cons lines hrest, next_placed lines hrest]
    by_cases hc : c = '\''
    · subst hc
      rfl
    · simp [hc]

theorem scanCharacter_placed {cursor : Cursor} (h : cursor.rest = c :: more) :
    (cursor.placed lines tail).scanCharacter = cursor.scanCharacter.placed lines tail := by
  unfold scanCharacter
  rw [next_placed lines h, scanCharacterBody_placed lines _ htail]
  generalize cursor.next.scanCharacterBody = result
  obtain ⟨value, complaints, behind⟩ := result
  have hskip := skipBytesWhile_placed lines behind htail
    (p := fun c => c != '\'' && c != '\n') (by decide)
  simp only [closeQuote?_placed lines _ htail, hskip]
  cases behind.closeQuote? with
  | some closed => rfl
  | none =>
    simp only [Option.map_none, Scan.placed, List.map_append]
    cases (behind.skipBytesWhile fun c => c != '\'' && c != '\n').closeQuote? with
    | some closed => rfl
    | none => rfl

/-- A token is read in the same way in a larger text. -/
theorem scan_placed {cursor : Cursor} (hrest : cursor.rest = c :: more) :
    (cursor.placed lines tail).scan c = (cursor.scan c).placed lines tail := by
  have hnext : (cursor.placed lines tail).next = cursor.next.placed lines tail :=
    next_placed lines hrest
  have hequal : (cursor.next.placed lines tail).rest.head? = some '=' ↔
      cursor.next.rest.head? = some '=' :=
    head?_placed htail (by decide) cursor.next.rest
  have hpair (h : cursor.next.rest.head? = some '=') :
      (cursor.next.placed lines tail).next = cursor.next.next.placed lines tail := by
    obtain ⟨later, hlater⟩ := List.head?_eq_some_iff.1 h
    exact next_placed lines hlater
  unfold scan
  split
  · rw [nextLine_placed lines hrest]
    rfl
  cases sign? c with
  | some kind =>
    rw [hnext]
    rfl
  | none =>
    simp only [hnext, hequal]
    split
    · split
      · next h =>
          rw [hpair h]
          rfl
      · rfl
    split
    · next h =>
        have h := (Bool.and_eq_true_iff.1 h).2
        rw [hpair (by simpa using h)]
        rfl
    split
    · exact scanNumber_placed lines cursor htail
    split
    · exact scanWord_placed lines cursor htail
    split
    · exact scanString_placed lines htail hrest
    split
    · exact scanCharacter_placed lines htail hrest
    · rfl

end Placed

/-! ## Reading to the end -/

theorem skipBlanks_of_endsLine {cursor : Cursor} (h : EndsLine cursor.rest) :
    cursor.skipBlanks = cursor := by
  obtain ⟨rest, position⟩ := cursor
  rcases h with rfl | ⟨more, rfl⟩
  · rfl
  · exact skipBlanks_eq (by decide) (fun hslash => absurd hslash (by decide)) position

/-- What is read from a cursor is also read from it in a larger text, and behind
it what is read from the end of the line on. -/
theorem Lexes.placed (lines : Nat) {tail : List Char} (htail : EndsLine tail) {cursor : Cursor}
    {tokens : List Token} {complaints : List Complaint} (h : Lexes false cursor tokens complaints) :
    ∃ body finish, tokens = body ++ [endToken finish] ∧
      ∀ later laterComplaints,
        Lexes false ⟨tail, finish.position.down lines⟩ later laterComplaints →
        Lexes false (cursor.placed lines tail) (body.map (·.down lines) ++ later)
          (complaints.map (·.down lines) ++ laterComplaints) := by
  generalize hstopped : false = stopped at h
  induction h with
  | stop cursor => cases hstopped
  | @finish cursor hrest =>
    refine ⟨[], cursor.skipBlanks, rfl, fun later laterComplaints hlater => hlater.of_skipBlanks ?_⟩
    rw [skipBlanks_placed lines cursor htail, skipBlanks_of_endsLine htail]
    rw [Cursor.placed, hrest, List.nil_append]
  | @token _ cursor c rest kind tokens complaints hrest hkind _ ih =>
    subst hstopped
    obtain ⟨body, finish, rfl, hplaced⟩ := ih rfl
    refine ⟨_ :: body, finish, (List.cons_append).symm, fun later laterComplaints hlater => ?_⟩
    have hskip := skipBlanks_placed lines cursor htail
    have hscan := scan_placed lines htail hrest
    have htoken : Lexes false (cursor.placed lines tail) _ _ := .token
      (by rw [hskip]; exact rest_placed_cons lines hrest) (by rw [hskip, hscan]; exact hkind)
      (by rw [hskip, hscan]; exact hplaced later laterComplaints hlater)
    rw [hskip, hscan] at htoken
    rw [List.map_append, List.append_assoc]
    exact htoken
  | @skip _ cursor c rest tokens complaints hrest hkind _ ih =>
    subst hstopped
    obtain ⟨body, finish, htokens, hplaced⟩ := ih rfl
    refine ⟨body, finish, htokens, fun later laterComplaints hlater => ?_⟩
    have hskip := skipBlanks_placed lines cursor htail
    have hscan := scan_placed lines htail hrest
    have hnone : Lexes false (cursor.placed lines tail) _ _ := .skip
      (by rw [hskip]; exact rest_placed_cons lines hrest) (by rw [hskip, hscan]; exact hkind)
      (by rw [hskip, hscan]; exact hplaced later laterComplaints hlater)
    rw [hskip, hscan] at hnone
    rw [List.map_append, List.append_assoc]
    exact hnone

/-- What is read from a text is read below a line that ends at `finish`, behind
the newline. -/
theorem Lexes.behind_newline {text : String} {tokens : List Token} {complaints : List Complaint}
    (h : Lexes false (.start text) tokens complaints) (finish : Position) :
    Lexes false ⟨'\n' :: text.toList, finish⟩
      (⟨.newline, finish, finish.line + 1, 1⟩ :: tokens.map (·.down finish.line))
      (complaints.map (·.down finish.line)) := by
  have hskip : skipBlanks ⟨'\n' :: text.toList, finish⟩ = ⟨'\n' :: text.toList, finish⟩ :=
    skipBlanks_of_endsLine (.inr ⟨text.toList, rfl⟩)
  obtain ⟨body, last, rfl, hplaced⟩ := h.placed finish.line (.inl rfl)
  have hlater := hplaced [endToken ⟨[], last.position.down finish.line⟩] [] (.finish rfl)
  have hstart : (Cursor.start text).placed finish.line [] = nextLine ⟨'\n' :: text.toList, finish⟩ := by
    simp only [Cursor.placed, start, nextLine, Position.down, Position.origin, List.append_nil,
      List.tail_cons, Nat.add_comm]
  rw [hstart] at hlater
  have htoken : Lexes false ⟨'\n' :: text.toList, finish⟩ _ _ := .token
    (by rw [hskip]) (by rw [hskip, scan_newline]; rfl) (by rw [hskip, scan_newline]; exact hlater)
  rw [hskip, scan_newline, List.append_nil] at htoken
  rw [List.map_append]
  exact htoken

/-- A complaint stays on the line of the cursor. -/
theorem Notes.line {cursor : Cursor} {complaint : Complaint} (h : Notes cursor complaint) :
    complaint.span.first.line = cursor.position.line ∧
      complaint.span.last.line = cursor.position.line := by
  obtain ⟨piece, place, hpasses, _, more, stop, _, hmore, hspan⟩ := h
  rw [hspan]
  exact ⟨hpasses.line, hmore.line.trans hpasses.line⟩

end Cursor

/-! ## Two texts -/

namespace Source

open Text Diagnostics

/-- The end of the file stands on the last line. -/
theorem line_of_finish {text : String} {body : List Token} {finish : Cursor}
    {complaints : List Complaint}
    (h : Cursor.Lexes false (.start text) (body ++ [Cursor.endToken finish]) complaints) :
    finish.position.line = text.toList.count '\n' + 1 := by
  obtain ⟨⟨places, hplaces, _, _, hlast⟩, _⟩ := h.located (.start text)
  have hreverse := List.forall₂_reverse_iff.2 hplaces
  rw [List.reverse_append, List.reverse_singleton, List.singleton_append] at hreverse
  have hlast := hlast rfl
  rw [← List.head?_reverse] at hlast
  cases hplaced : places.reverse with
  | nil =>
    rw [hplaced] at hlast
    cases hlast
  | cons place others =>
    rw [hplaced] at hreverse hlast
    cases hlast
    have hnear := (List.forall₂_cons.1 hreverse).1.1.near
    rw [List.take_length] at hnear
    exact hnear.line

/-- A text with few errors is read to its end, and all that is wrong with it are
errors inside it, which are all kept. -/
theorem lexes_of_few (source : Source) (h : source.lex.log.totalErrors < limit) :
    ∃ complaints, Cursor.Lexes false (.start source.text) source.lex.tokens complaints ∧
      (∀ complaint ∈ complaints,
        complaint.problem.severity = .error ∧ source.Covers complaint.span) ∧
      source.lex.log = ⟨complaints.map (diagnosed source), [], complaints.length, 0⟩ := by
  obtain ⟨stopped, complaints, hlexes, hlog, hstopped⟩ := source.lexes_lex
  cases stopped with
  | true =>
    have hlimit : limit ≤ source.lex.log.totalErrors := of_decide_eq_true (hstopped rfl)
    omega
  | false =>
    have hinside : ∀ complaint ∈ complaints,
        complaint.problem.severity = .error ∧ source.Covers complaint.span := by
      intro complaint hmem
      obtain ⟨offset, hpoints, _⟩ := (hlexes.located (.start source.text)).2 complaint hmem
      exact ⟨hpoints.concerns.shows.severity, covers_complaint hpoints⟩
    have herrors := fun complaint hmem => (hinside complaint hmem).1
    refine ⟨complaints, hlexes, hinside, hlog.trans (complainAll_of_errors source herrors ?_)⟩
    rw [hlog, totalErrors_complainAll, errorCount_of_errors herrors] at h
    exact Nat.le_of_lt (Nat.lt_of_le_of_lt (Nat.le_add_left _ _) h)

section Joined

variable {name a b : String}

/-- What is wrong with the upper text is reported in the same way above another
one. -/
theorem diagnosed_upper {complaint : Complaint} (h : Covers ⟨name, a⟩ complaint.span) :
    diagnosed ⟨name, a ++ "\n" ++ b⟩ complaint = diagnosed ⟨name, a⟩ complaint := by
  have hline := line?_append_upper (h.lines.trans h.lastLine) b
  rw [diagnosed, diagnose, hline]
  rfl

/-- What is wrong with the lower text is reported further down below another
one. -/
theorem diagnosed_lower {complaint : Complaint} (h : Covers ⟨name, b⟩ complaint.span) :
    diagnosed ⟨name, a ++ "\n" ++ b⟩ (complaint.down (a.toList.count '\n' + 1)) =
      (diagnosed ⟨name, b⟩ complaint).down (a.toList.count '\n' + 1) := by
  have hline := line?_append_lower name a b h.firstLine
  rw [lineCount_eq_count] at hline
  rw [diagnosed, diagnose]
  change Issue.locate _ _ _ ((line? _ (complaint.span.first.line + _)).getD "") = _
  rw [hline]
  rfl

/-- Two texts with a newline in between are read one after the other. -/
theorem lex_append (hfew : totalErrors (lex ⟨name, a⟩).log + totalErrors (lex ⟨name, b⟩).log < limit) :
    ∃ body finish,
      (lex ⟨name, a⟩).tokens = body ++ [⟨.endOfFile, .point finish⟩] ∧
      (lex ⟨name, a ++ "\n" ++ b⟩).tokens =
        body ++ ⟨.newline, finish, finish.line + 1, 1⟩ ::
          (lex ⟨name, b⟩).tokens.map (·.down (a.toList.count '\n' + 1)) ∧
      (lex ⟨name, a ++ "\n" ++ b⟩).log =
        { errors := (lex ⟨name, a⟩).log.errors ++
            (lex ⟨name, b⟩).log.errors.map (·.down (a.toList.count '\n' + 1))
          warnings := []
          totalErrors := (lex ⟨name, a⟩).log.totalErrors + (lex ⟨name, b⟩).log.totalErrors
          totalWarnings := 0 } := by
  obtain ⟨upper, hupper, hupperInside, hupperLog⟩ := lexes_of_few ⟨name, a⟩ (by omega)
  obtain ⟨lower, hlower, hlowerInside, hlowerLog⟩ := lexes_of_few ⟨name, b⟩ (by omega)
  obtain ⟨body, finish, htokens, hplaced⟩ := hupper.placed 0 (.inr ⟨b.toList, rfl⟩)
  rw [htokens] at hupper
  have hline := line_of_finish hupper
  have hwhole := hplaced _ _ (hlower.behind_newline finish.position)
  rw [hline] at hwhole
  have hstart : (Cursor.start a).placed 0 ('\n' :: b.toList) = .start (a ++ "\n" ++ b) := by
    simp only [Cursor.placed, Cursor.start, String.toList_append, List.append_assoc]
    rfl
  have hbody : body.map (·.down 0) = body := List.map_id body
  have hupperSame : upper.map (·.down 0) = upper := List.map_id upper
  rw [hstart, hbody, hupperSame] at hwhole
  have herrors : ∀ complaint ∈ upper ++ lower.map (·.down (a.toList.count '\n' + 1)),
      complaint.problem.severity = .error := by
    intro complaint hmem
    rcases List.mem_append.1 hmem with hmem | hmem
    · exact (hupperInside complaint hmem).1
    · obtain ⟨original, horiginal, rfl⟩ := List.mem_map.1 hmem
      exact (hlowerInside original horiginal).1
  have hcount : (upper ++ lower.map (·.down (a.toList.count '\n' + 1))).length < limit := by
    rw [hupperLog, hlowerLog] at hfew
    rw [List.length_append, List.length_map]
    exact hfew
  have hread : lex ⟨name, a ++ "\n" ++ b⟩ = ⟨_, complainAll ∅ _ _⟩ :=
    lexFrom_of_lexes ⟨name, a ++ "\n" ++ b⟩ hwhole (Nat.lt_succ_self _) <| by
      rw [errorCount_of_errors herrors]
      exact (Nat.zero_add _).trans_lt hcount
  refine ⟨body, finish.position, htokens, by rw [hread, hline], ?_⟩
  rw [hread, complainAll_of_errors _ herrors (Nat.le_of_lt hcount), hupperLog, hlowerLog]
  have hupperSame : upper.map (diagnosed ⟨name, a ++ "\n" ++ b⟩) = upper.map (diagnosed ⟨name, a⟩) :=
    List.map_congr_left fun complaint hmem => diagnosed_upper (hupperInside complaint hmem).2
  have hlowerSame : (lower.map (·.down (a.toList.count '\n' + 1))).map
        (diagnosed ⟨name, a ++ "\n" ++ b⟩) =
      (lower.map (diagnosed ⟨name, b⟩)).map (·.down (a.toList.count '\n' + 1)) := by
    rw [List.map_map, List.map_map]
    exact List.map_congr_left fun complaint hmem => diagnosed_lower (hlowerInside complaint hmem).2
  simp only [List.map_append, hupperSame, hlowerSame, List.length_append, List.length_map]

/-- The lexer reads line by line.  Two texts with a newline in between are read
one after the other: the tokens of the upper text without its end, the newline
there, and the tokens of the lower text further down, and the errors likewise.
That is because neither blanks and comments nor a token other than the newline
itself, with everything that is wrong with it, reach beyond their line. -/
theorem lex_by_lines (name a b : String) :
    (totalErrors (lex ⟨name, a⟩).log + totalErrors (lex ⟨name, b⟩).log < limit →
      ∃ body finish,
        (lex ⟨name, a⟩).tokens = body ++ [⟨.endOfFile, .point finish⟩] ∧
        (lex ⟨name, a ++ "\n" ++ b⟩).tokens =
          body ++ ⟨.newline, finish, finish.line + 1, 1⟩ ::
            (lex ⟨name, b⟩).tokens.map (·.down (a.toList.count '\n' + 1)) ∧
        (lex ⟨name, a ++ "\n" ++ b⟩).log =
          { errors := (lex ⟨name, a⟩).log.errors ++
              (lex ⟨name, b⟩).log.errors.map (·.down (a.toList.count '\n' + 1))
            warnings := []
            totalErrors := (lex ⟨name, a⟩).log.totalErrors + (lex ⟨name, b⟩).log.totalErrors
            totalWarnings := 0 }) ∧
    ∀ cursor : Cursor,
      (∃ piece extra, Cursor.Passes piece extra cursor cursor.skipBlanks) ∧
      ∀ c rest, cursor.rest = c :: rest → c ≠ '\n' →
        (∃ piece extra, Cursor.Passes piece extra cursor (cursor.scan c).cursor) ∧
        ∀ complaint ∈ (cursor.scan c).complaints,
          complaint.span.first.line = cursor.position.line ∧
          complaint.span.last.line = cursor.position.line := by
  refine ⟨fun hfew => ?_, fun cursor => ⟨?_, fun c rest hrest hc => ⟨?_, ?_⟩⟩⟩
  · exact lex_append hfew
  · obtain ⟨piece, extra, hpasses, _⟩ := cursor.passes_skipBlanks
    exact ⟨piece, extra, hpasses⟩
  · obtain ⟨⟨piece, extra, _, hpasses, _⟩, _⟩ := Cursor.passes_scan hrest hc
    exact ⟨piece, extra, hpasses⟩
  · exact fun complaint hmem => ((Cursor.passes_scan hrest hc).2 complaint hmem).line

/-- Neither a character literal nor a string goes on behind the end of its line. -/
theorem lex_by_lines_unclosed :
    totalErrors (lex ⟨"", "x = 'ab"⟩).log = 1 ∧ totalErrors (lex ⟨"", "\"c"⟩).log = 1 ∧
    ∃ body finish,
      (lex ⟨"", "x = 'ab"⟩).tokens = body ++ [⟨.endOfFile, .point finish⟩] ∧
      (lex ⟨"", "x = 'ab" ++ "\n" ++ "\"c"⟩).tokens =
        body ++ ⟨.newline, finish, finish.line + 1, 1⟩ ::
          (lex ⟨"", "\"c"⟩).tokens.map (·.down 1) := by
  have hupper : totalErrors (lex ⟨"", "x = 'ab"⟩).log = 1 := by decide +kernel
  have hlower : totalErrors (lex ⟨"", "\"c"⟩).log = 1 := by decide +kernel
  obtain ⟨body, finish, hbody, htokens, _⟩ :=
    (lex_by_lines "" "x = 'ab" "\"c").1 (by rw [hupper, hlower]; decide)
  exact ⟨hupper, hlower, body, finish, hbody, htokens⟩

end Joined

end Source

end UnitScript
