import UnitScript.Proofs.Lines
import UnitScript.Proofs.Token.Spelling

/-!
# How reading moves through a text

Reading goes forward, never over a newline that is not a token of its own, and
it keeps count of the columns.  Only inside comments and behind single quotes
does it count bytes.

* `Cursor.Passes` is a move over a piece of a line, with the columns that it
  counts beyond the characters.
* `passes_skipBlanks` and `passes_scan` say that reading moves like that;
  `Text.marked` is where the columns can be too large.
* `Cursor.Notes` says where a complaint points to, and `notes_scan` that all
  complaints of the lexer do.
* `Cursor.Lexes` is reading a text to its end, without the fuel and the log that
  it is computed with.  `lexes_lexFrom` and `lexFrom_of_lexes` go from one to the
  other.
-/

namespace UnitScript

/-! ## Bytes and characters -/

namespace Text

/-- How many more bytes than characters a text has. -/
def surplus (text : List Char) : Nat := byteLength text - text.length

theorem byteLength_eq (text : List Char) : byteLength text = text.length + surplus text := by
  have hle := length_le_byteLength text
  unfold surplus
  omega

@[simp] theorem surplus_nil : surplus [] = 0 := rfl

theorem surplus_append (front back : List Char) :
    surplus (front ++ back) = surplus front + surplus back := by
  have hfront := length_le_byteLength front
  have hback := length_le_byteLength back
  unfold surplus
  rw [byteLength_append, List.length_append]
  omega

theorem surplus_cons (c : Char) (rest : List Char) :
    surplus (c :: rest) = c.utf8Size - 1 + surplus rest := by
  rw [← List.singleton_append, surplus_append, surplus, byteLength_cons, byteLength_nil, Nat.add_zero,
    List.length_singleton]

/-- What follows the first single quote or the first `//` of a line. -/
def marked : List Char → List Char
  | [] => []
  | c :: rest =>
      if c = '\'' then rest
      else if c = '/' ∧ rest.head? = some '/' then rest.tail
      else marked rest

theorem surplus_marked_le (text : List Char) : surplus (marked text) ≤ surplus text := by
  induction text with
  | nil => exact Nat.le_refl 0
  | cons c rest ih =>
    have htail : surplus rest.tail ≤ surplus rest := by
      cases rest with
      | nil => exact Nat.le_refl 0
      | cons d more =>
        rw [surplus_cons]
        exact Nat.le_add_left _ _
    rw [marked, surplus_cons]
    split
    · exact Nat.le_add_left _ _
    · split
      · omega
      · omega

/-- What is marked in two parts of a line is marked in the whole. -/
theorem surplus_marked_append (front back : List Char) :
    surplus (marked front) + surplus (marked back) ≤ surplus (marked (front ++ back)) := by
  have hback := surplus_marked_le back
  induction front with
  | nil => exact Nat.le_of_eq (Nat.zero_add _)
  | cons c rest ih =>
    rw [List.cons_append, marked, marked]
    by_cases hquote : c = '\''
    · rw [if_pos hquote, if_pos hquote, surplus_append]
      omega
    rw [if_neg hquote, if_neg hquote]
    cases rest with
    | cons d more =>
      rw [List.cons_append, List.head?_cons, List.head?_cons, List.tail_cons, List.tail_cons]
      split
      · rw [surplus_append]
        omega
      · exact ih
    | nil =>
      -- a slash at the end of the first part may start a comment with the second one
      rw [if_neg (by simp), List.nil_append, marked, surplus_nil, Nat.zero_add]
      split
      · next hcomment =>
          obtain ⟨d, more, rfl⟩ : ∃ d more, back = d :: more := by
            cases back with
            | nil => cases hcomment.2
            | cons d more => exact ⟨d, more, rfl⟩
          cases hcomment.2
          rwa [surplus_cons, show '/'.utf8Size = 1 from rfl, Nat.sub_self, Nat.zero_add] at hback
      · exact Nat.le_refl _

end Text

/-- The text starts with what the problem is about.  Only the problems of single
characters and literals are found in a text. -/
def Problem.Shows : Problem → List Char → Prop
  | .unexpectedCharacter c, text => [c] <+: text
  | .unterminatedString, text => ['"'] <+: text
  | .malformedCharacter, text => ['\''] <+: text
  | .invalidEscape c, text => ['\\', c] <+: text
  | .integerTooLarge digits, text => digits.toList <+: text
  | _, _ => False

/-- Everything that is wrong with a text is an error. -/
theorem Problem.Shows.severity {problem : Problem} {text : List Char} (h : problem.Shows text) :
    problem.severity = .error := by
  cases problem <;> first | rfl | exact h.elim

namespace Cursor

open Text

/-! ## Moves on a line -/

/-- `after` is behind the characters `piece`, on the same line, and `extra`
columns were counted in addition to one for each of them. -/
structure Passes (piece : List Char) (extra : Nat) (before after : Cursor) : Prop where
  rest : before.rest = piece ++ after.rest
  inside : '\n' ∉ piece
  line : after.position.line = before.position.line
  column : after.position.column = before.position.column + piece.length + extra

namespace Passes

variable {piece more : List Char} {extra extra' : Nat} {before middle after : Cursor}

theorem refl (cursor : Cursor) : Passes [] 0 cursor cursor :=
  ⟨rfl, List.not_mem_nil, rfl, rfl⟩

theorem trans (h : Passes piece extra before middle) (h' : Passes more extra' middle after) :
    Passes (piece ++ more) (extra + extra') before after where
  rest := by rw [h.rest, h'.rest, List.append_assoc]
  inside hmem := (List.mem_append.1 hmem).elim h.inside h'.inside
  line := h'.line.trans h.line
  column := by
    rw [h'.column, h.column, List.length_append]
    omega

theorem length (h : Passes piece extra before after) :
    before.rest.length = piece.length + after.rest.length := by
  rw [h.rest, List.length_append]

end Passes

theorem passes_next {c : Char} {rest : List Char} {cursor : Cursor} (hrest : cursor.rest = c :: rest)
    (hc : c ≠ '\n') : Passes [c] 0 cursor cursor.next where
  rest := by
    rw [next, moveTo, hrest]
    rfl
  inside hmem := hc (List.mem_singleton.1 hmem).symm
  line := rfl
  column := rfl

section Runs

variable {p : Char → Bool} (hp : p '\n' = false)

include hp

theorem not_mem_takeWhile (text : List Char) : '\n' ∉ text.takeWhile p := by
  intro hmem
  have hnewline := List.all_eq_true.1 List.all_takeWhile _ hmem
  rw [hp] at hnewline
  cases hnewline

theorem passes_skipWhile (cursor : Cursor) :
    Passes (cursor.rest.takeWhile p) 0 cursor (cursor.skipWhile p) where
  rest := (List.takeWhile_append_dropWhile).symm
  inside := not_mem_takeWhile hp cursor.rest
  line := rfl
  column := rfl

theorem passes_skipBytesWhile (cursor : Cursor) :
    Passes (cursor.rest.takeWhile p) (surplus (cursor.rest.takeWhile p)) cursor
      (cursor.skipBytesWhile p) where
  rest := (List.takeWhile_append_dropWhile).symm
  inside := not_mem_takeWhile hp cursor.rest
  line := rfl
  column := by
    rw [skipBytesWhile, moveTo, byteLength_eq, Nat.add_assoc]

end Runs

/-- Blanks and a comment are passed over.  In the comment, columns count bytes;
behind it, the line ends. -/
theorem passes_skipBlanks (cursor : Cursor) :
    ∃ piece extra, Passes piece extra cursor cursor.skipBlanks ∧ extra ≤ surplus (marked piece) ∧
      ∀ c rest, cursor.skipBlanks.rest = c :: rest → c ≠ '\n' → extra = 0 := by
  have hblanks := passes_skipWhile (p := isBlank) (by decide) cursor
  unfold skipBlanks
  simp only
  split
  · next rest hrest =>
      have hcomment := passes_skipBytesWhile (p := (· != '\n')) (by decide) (cursor.skipWhile isBlank)
      refine ⟨_, _, hblanks.trans hcomment, ?_, ?_⟩
      · have hmarked := surplus_marked_append (cursor.rest.takeWhile isBlank)
          ((cursor.skipWhile isBlank).rest.takeWhile (· != '\n'))
        have hall : surplus ((cursor.skipWhile isBlank).rest.takeWhile (· != '\n')) ≤
            surplus (marked ((cursor.skipWhile isBlank).rest.takeWhile (· != '\n'))) := by
          rw [hrest]
          exact Nat.le_of_eq (by simp [marked, surplus_cons, Char.utf8Size])
        omega
      · intro c more hmore hc
        have hstop := List.head?_dropWhile_not (· != '\n') (cursor.skipWhile isBlank).rest
        change ((cursor.skipWhile isBlank).rest.dropWhile (· != '\n')) = c :: more at hmore
        rw [hmore, List.head?_cons] at hstop
        exact absurd (by simpa using hstop) hc
  · exact ⟨_, 0, hblanks, Nat.zero_le _, fun _ _ _ _ => rfl⟩

/-! ## Where complaints point to -/

/-- The complaint is about what stands at `place`, up to a place behind it on the
same line. -/
structure Concerns (place : Cursor) (complaint : Complaint) : Prop where
  shows : complaint.problem.Shows place.rest
  span : ∃ piece stop, piece ≠ [] ∧ Passes piece 0 place stop ∧
    complaint.span = stop.spanFrom place.position

/-- The complaint is about what stands at the cursor or behind it on the same
line. -/
def Notes (cursor : Cursor) (complaint : Complaint) : Prop :=
  ∃ piece place, Passes piece 0 cursor place ∧ Concerns place complaint

/-- No character literal is complained about. -/
def WellQuoted (complaints : List Complaint) : Prop :=
  ∀ complaint ∈ complaints, complaint.problem ≠ .malformedCharacter

theorem WellQuoted.left {first later : List Complaint} (h : WellQuoted (first ++ later)) :
    WellQuoted first :=
  fun complaint hmem => h complaint (List.mem_append_left later hmem)

theorem WellQuoted.right {first later : List Complaint} (h : WellQuoted (first ++ later)) :
    WellQuoted later :=
  fun complaint hmem => h complaint (List.mem_append_right first hmem)

theorem Concerns.notes {cursor : Cursor} {complaint : Complaint} (h : Concerns cursor complaint) :
    Notes cursor complaint :=
  ⟨[], cursor, .refl cursor, h⟩

theorem Notes.of_passes {piece : List Char} {cursor later : Cursor} {complaint : Complaint}
    (hpasses : Passes piece 0 cursor later) (h : Notes later complaint) : Notes cursor complaint := by
  obtain ⟨more, place, hmore, hconcerns⟩ := h
  exact ⟨piece ++ more, place, hpasses.trans hmore, hconcerns⟩

/-! ## Literals and words -/

/-- A number goes on with a fraction here: a point and a digit. -/
def continuesReal : List Char → Bool
  | '.' :: c :: _ => c.isDigit
  | _ => false

/-- Reads a number that has no fraction. -/
def scanInteger (cursor : Cursor) : Scan :=
  let whole := cursor.rest.takeWhile Char.isDigit
  let behind := cursor.skipWhile Char.isDigit
  if Number.inRange (Number.ofDigits whole) then clean (.integer (Number.ofDigits whole)) behind
  else
    ⟨some (.integer 0),
      [⟨.integerTooLarge (String.ofList whole), behind.spanFrom cursor.position⟩], behind⟩

/-- Reads a number that has a fraction. -/
def scanReal (cursor : Cursor) : Scan :=
  let point := (cursor.skipWhile Char.isDigit).next
  clean (.real (Number.readReal (cursor.rest.takeWhile Char.isDigit)
      (point.rest.takeWhile Char.isDigit)))
    (point.skipWhile Char.isDigit)

theorem scanNumber_eq (cursor : Cursor) :
    cursor.scanNumber =
      if continuesReal (cursor.skipWhile Char.isDigit).rest then cursor.scanReal
      else cursor.scanInteger := by
  unfold scanNumber
  simp only
  split
  · next c more hrest =>
      simp only [hrest, continuesReal]
      rfl
  · next hrest =>
      have hno : continuesReal (cursor.skipWhile Char.isDigit).rest = false := by
        unfold continuesReal
        split
        · next c more heq => exact absurd heq (hrest c more)
        · rfl
      rw [hno, if_neg Bool.false_ne_true]
      rfl

theorem passes_scanNumber {c : Char} {rest : List Char} {cursor : Cursor}
    (hrest : cursor.rest = c :: rest) (hc : c.isDigit = true) :
    ∃ piece, piece ≠ [] ∧ Passes piece 0 cursor cursor.scanNumber.cursor ∧
      ∀ complaint ∈ cursor.scanNumber.complaints, Concerns cursor complaint := by
  have hwhole := passes_skipWhile (p := Char.isDigit) (by decide) cursor
  have hne : cursor.rest.takeWhile Char.isDigit ≠ [] := by
    rw [hrest, List.takeWhile_cons_of_pos hc]
    exact List.cons_ne_nil _ _
  rw [scanNumber_eq]
  split
  · next hreal =>
      obtain ⟨more, hpoint⟩ : ∃ more, (cursor.skipWhile Char.isDigit).rest = '.' :: more := by
        unfold continuesReal at hreal
        split at hreal
        · next d more heq => exact ⟨d :: more, heq⟩
        · cases hreal
      have hdot := passes_next hpoint (by decide)
      have hfraction := passes_skipWhile (p := Char.isDigit) (by decide)
        (cursor.skipWhile Char.isDigit).next
      refine ⟨_, ?_, (hwhole.trans hdot).trans hfraction,
        fun _ hmem => absurd hmem List.not_mem_nil⟩
      exact fun hnil => hne (List.append_eq_nil_iff.1 (List.append_eq_nil_iff.1 hnil).1).1
  · unfold scanInteger
    refine ⟨_, hne, ?_⟩
    simp only
    split
    · exact ⟨hwhole, fun _ hmem => absurd hmem List.not_mem_nil⟩
    · refine ⟨hwhole, List.forall_mem_singleton.2 ⟨?_, _, _, hne, hwhole, rfl⟩⟩
      show (String.ofList (cursor.rest.takeWhile Char.isDigit)).toList <+: cursor.rest
      rw [String.toList_ofList]
      exact List.takeWhile_prefix Char.isDigit

theorem passes_scanWord {c : Char} {rest : List Char} {cursor : Cursor}
    (hrest : cursor.rest = c :: rest) (hc : continuesWord c = true) :
    ∃ piece, piece ≠ [] ∧ Passes piece 0 cursor cursor.scanWord.cursor := by
  refine ⟨_, ?_, passes_skipWhile (p := continuesWord) (by decide) cursor⟩
  rw [hrest, List.takeWhile_cons_of_pos hc]
  exact List.cons_ne_nil _ _

/-- An escape sequence is passed over.  A complaint about it points to it. -/
theorem passes_scanEscape (quote : Char) {rest : List Char} {cursor : Cursor}
    (hrest : cursor.rest = '\\' :: rest) :
    ∃ piece, piece ≠ [] ∧ Passes piece 0 cursor (scanEscape quote cursor).2.2 ∧
      ∀ complaint ∈ (scanEscape quote cursor).2.1, Concerns cursor complaint := by
  have hbackslash := passes_next hrest (by decide)
  have hnone : ∀ complaint ∈ ([] : List Complaint), Concerns cursor complaint :=
    fun _ hmem => absurd hmem List.not_mem_nil
  unfold scanEscape
  simp only
  split
  · exact ⟨_, List.cons_ne_nil _ _, hbackslash, hnone⟩
  · next c more hmore =>
      split
      · exact ⟨_, List.cons_ne_nil _ _, hbackslash, hnone⟩
      · next hc =>
          have hboth := hbackslash.trans (passes_next hmore hc)
          split
          · exact ⟨_, List.cons_ne_nil _ _, hboth, hnone⟩
          · refine ⟨_, List.cons_ne_nil _ _, hboth, List.forall_mem_singleton.2 ?_⟩
            refine ⟨?_, _, _, List.cons_ne_nil _ _, hboth, rfl⟩
            exact ⟨cursor.next.next.rest, hboth.rest.symm⟩

/-- The inside of a string is passed over.  A complaint points to an escape
sequence in it, or it goes from the opening quote to where the line ends. -/
theorem passes_scanStringBody (opening : Position) (fuel : Nat) (cursor : Cursor) :
    ∃ piece, Passes piece 0 cursor (scanStringBody opening fuel cursor).2.2 ∧
      ∀ complaint ∈ (scanStringBody opening fuel cursor).2.1,
        Notes cursor complaint ∨
          complaint.problem = .unterminatedString ∧
            ∃ inside stop, Passes inside 0 cursor stop ∧ complaint.span = stop.spanFrom opening := by
  have hunterminated (cursor : Cursor) :
      ∀ complaint ∈ [(⟨.unterminatedString, cursor.spanFrom opening⟩ : Complaint)],
        Notes cursor complaint ∨
          complaint.problem = .unterminatedString ∧
            ∃ inside stop, Passes inside 0 cursor stop ∧ complaint.span = stop.spanFrom opening :=
    List.forall_mem_singleton.2 (.inr ⟨rfl, [], cursor, .refl cursor, rfl⟩)
  -- a complaint about what is read later is also about what is read from here on
  have hlater {piece : List Char} {cursor later : Cursor} (hpasses : Passes piece 0 cursor later)
      {complaint : Complaint}
      (h : Notes later complaint ∨ complaint.problem = .unterminatedString ∧
        ∃ inside stop, Passes inside 0 later stop ∧ complaint.span = stop.spanFrom opening) :
      Notes cursor complaint ∨ complaint.problem = .unterminatedString ∧
        ∃ inside stop, Passes inside 0 cursor stop ∧ complaint.span = stop.spanFrom opening := by
    rcases h with h | ⟨hproblem, inside, stop, hinside, hspan⟩
    · exact .inl (h.of_passes hpasses)
    · exact .inr ⟨hproblem, piece ++ inside, stop, hpasses.trans hinside, hspan⟩
  induction fuel generalizing cursor with
  | zero => exact ⟨[], .refl cursor, hunterminated cursor⟩
  | succ fuel ih =>
    unfold scanStringBody
    split
    · exact ⟨[], .refl cursor, hunterminated cursor⟩
    · next c rest hrest =>
        split
        · exact ⟨[], .refl cursor, hunterminated cursor⟩
        · next hnewline =>
            have hnext := passes_next hrest hnewline
            split
            · exact ⟨[c], hnext, fun _ hmem => absurd hmem List.not_mem_nil⟩
            · split
              · next hbackslash =>
                  subst hbackslash
                  obtain ⟨escaped, _, hescaped, hcomplaints⟩ := passes_scanEscape '"' hrest
                  obtain ⟨piece, hpiece, hmore⟩ := ih (scanEscape '"' cursor).2.2
                  refine ⟨escaped ++ piece, hescaped.trans hpiece, ?_⟩
                  intro complaint hmem
                  rcases List.mem_append.1 hmem with hmem | hmem
                  · exact .inl (hcomplaints complaint hmem).notes
                  · exact hlater hescaped (hmore complaint hmem)
              · obtain ⟨piece, hpiece, hmore⟩ := ih cursor.next
                exact ⟨[c] ++ piece, hnext.trans hpiece,
                  fun complaint hmem => hlater hnext (hmore complaint hmem)⟩

theorem passes_scanString {rest : List Char} {cursor : Cursor} (hrest : cursor.rest = '"' :: rest) :
    ∃ piece, piece ≠ [] ∧ Passes piece 0 cursor cursor.scanString.cursor ∧
      ∀ complaint ∈ cursor.scanString.complaints, Notes cursor complaint := by
  have hquote := passes_next hrest (by decide)
  obtain ⟨piece, hpiece, hcomplaints⟩ :=
    passes_scanStringBody cursor.position cursor.rest.length cursor.next
  refine ⟨['"'] ++ piece, List.cons_ne_nil _ _, hquote.trans hpiece, ?_⟩
  intro complaint hmem
  rcases hcomplaints complaint hmem with h | ⟨hproblem, inside, stop, hinside, hspan⟩
  · exact h.of_passes hquote
  · refine Concerns.notes ⟨?_, ['"'] ++ inside, stop, List.cons_ne_nil _ _, hquote.trans hinside, hspan⟩
    rw [hproblem]
    exact ⟨rest, hrest.symm⟩

theorem passes_scanCharacterBody (cursor : Cursor) :
    ∃ piece, Passes piece 0 cursor cursor.scanCharacterBody.2.2 ∧
      ∀ complaint ∈ cursor.scanCharacterBody.2.1, Concerns cursor complaint := by
  have hnone : ∀ complaint ∈ ([] : List Complaint), Concerns cursor complaint :=
    fun _ hmem => absurd hmem List.not_mem_nil
  unfold scanCharacterBody
  split
  · exact ⟨[], .refl cursor, hnone⟩
  · next c rest hrest =>
      split
      · next hbackslash =>
          subst hbackslash
          obtain ⟨piece, _, hpiece, hcomplaints⟩ := passes_scanEscape '\'' hrest
          exact ⟨piece, hpiece, hcomplaints⟩
      · split
        · exact ⟨[], .refl cursor, hnone⟩
        · next hplain =>
            have hc : c ≠ '\n' := by
              rintro rfl
              exact hplain rfl
            exact ⟨[c], passes_next hrest hc, hnone⟩

theorem passes_closeQuote? {cursor closed : Cursor} (h : cursor.closeQuote? = some closed) :
    Passes ['\''] 0 cursor closed := by
  unfold closeQuote? at h
  split at h
  · next rest hrest =>
      cases h
      exact passes_next hrest (by decide)
  · cases h

/-- A character literal is passed over.  What is skipped of a malformed one
counts by its bytes, but that is behind the opening quote. -/
theorem passes_scanCharacter {rest : List Char} {cursor : Cursor}
    (hrest : cursor.rest = '\'' :: rest) :
    (∃ piece extra, piece ≠ [] ∧ Passes piece extra cursor cursor.scanCharacter.cursor ∧
      extra ≤ surplus (marked piece) ∧
      (WellQuoted cursor.scanCharacter.complaints → extra = 0)) ∧
      ∀ complaint ∈ cursor.scanCharacter.complaints, Notes cursor complaint := by
  have hquote := passes_next hrest (by decide)
  obtain ⟨body, hbody, hcomplaints⟩ := passes_scanCharacterBody cursor.next
  have hread := hquote.trans hbody
  unfold scanCharacter
  simp only
  generalize cursor.next.scanCharacterBody = result at hbody hcomplaints hread
  obtain ⟨value, complaints, behind⟩ := result
  have hnotes : ∀ complaint ∈ complaints, Notes cursor complaint :=
    fun complaint hmem => (hcomplaints complaint hmem).notes.of_passes hquote
  simp only at hread ⊢
  split
  · next closed hclosed =>
      exact ⟨⟨_, 0, List.cons_ne_nil _ _, hread.trans (passes_closeQuote? hclosed), Nat.zero_le _,
        fun _ => rfl⟩, hnotes⟩
  · have hskipped := passes_skipBytesWhile (p := fun c => c != '\'' && c != '\n') (by decide) behind
    have hall := hread.trans hskipped
    generalize behind.rest.takeWhile (fun c => c != '\'' && c != '\n') = skipped at hskipped hall
    have hmarked (more : List Char) :
        0 + 0 + surplus skipped ≤ surplus (marked (['\''] ++ body ++ skipped ++ more)) := by
      rw [List.append_assoc, List.append_assoc, List.singleton_append, marked, if_pos rfl,
        surplus_append, surplus_append]
      omega
    have hmalformed {extra : Nat} :
        WellQuoted (complaints ++ [⟨.malformedCharacter, behind.spanFrom cursor.position⟩]) →
          extra = 0 :=
      fun hwell => absurd rfl (hwell _ (List.mem_append_right _ List.mem_cons_self))
    refine ⟨?_, List.forall_mem_append.2 ⟨hnotes, List.forall_mem_singleton.2 ?_⟩⟩
    · simp only
      cases hclosed : (behind.skipBytesWhile fun c => c != '\'' && c != '\n').closeQuote? with
      | none =>
        have hless := hmarked []
        rw [List.append_nil] at hless
        exact ⟨_, _, List.cons_ne_nil _ _, hall, hless, hmalformed⟩
      | some closed =>
        exact ⟨_, _, List.cons_ne_nil _ _, hall.trans (passes_closeQuote? hclosed), hmarked ['\''],
          hmalformed⟩
    · exact Concerns.notes ⟨⟨rest, hrest.symm⟩, _, _, List.cons_ne_nil _ _, hread, rfl⟩

/-! ## Tokens -/

theorem scan_newline (cursor : Cursor) : cursor.scan '\n' = clean .newline cursor.nextLine := by
  rw [scan, if_pos rfl]

/-- Every token but a newline stands on one line, and so does what is skipped.
Complaints point to places on that line. -/
theorem passes_scan {c : Char} {rest : List Char} {cursor : Cursor} (hrest : cursor.rest = c :: rest)
    (hc : c ≠ '\n') :
    (∃ piece extra, piece ≠ [] ∧ Passes piece extra cursor (cursor.scan c).cursor ∧
      extra ≤ surplus (marked piece) ∧ (WellQuoted (cursor.scan c).complaints → extra = 0)) ∧
      ∀ complaint ∈ (cursor.scan c).complaints, Notes cursor complaint := by
  have hnext := passes_next hrest hc
  -- most tokens are passed over exactly, and most of them without a complaint
  have hexact {piece : List Char} {after : Cursor} {complaints : List Complaint} (hne : piece ≠ [])
      (h : Passes piece 0 cursor after) :
      ∃ piece extra, piece ≠ [] ∧ Passes piece extra cursor after ∧
        extra ≤ surplus (marked piece) ∧ (WellQuoted complaints → extra = 0) :=
    ⟨piece, 0, hne, h, Nat.zero_le _, fun _ => rfl⟩
  have hclean : ∀ complaint ∈ ([] : List Complaint), Notes cursor complaint :=
    fun _ hmem => absurd hmem List.not_mem_nil
  have hpair (h : cursor.next.rest.head? = some '=') :
      Passes ([c] ++ ['=']) 0 cursor cursor.next.next := by
    obtain ⟨more, hmore⟩ := List.head?_eq_some_iff.1 h
    exact hnext.trans (passes_next hmore (by decide))
  unfold scan
  rw [if_neg hc]
  split
  · exact ⟨hexact (List.cons_ne_nil _ _) hnext, hclean⟩
  split
  · split
    · next hequal => exact ⟨hexact (List.cons_ne_nil _ _) (hpair hequal), hclean⟩
    · exact ⟨hexact (List.cons_ne_nil _ _) hnext, hclean⟩
  split
  · next hbang =>
      have hequal : cursor.next.rest.head? = some '=' := by
        simpa using (Bool.and_eq_true_iff.1 hbang).2
      exact ⟨hexact (List.cons_ne_nil _ _) (hpair hequal), hclean⟩
  split
  · next hdigit =>
      obtain ⟨piece, hne, hpiece, hcomplaints⟩ := passes_scanNumber hrest hdigit
      exact ⟨hexact hne hpiece, fun complaint hmem => (hcomplaints complaint hmem).notes⟩
  split
  · next hstart =>
      obtain ⟨piece, hne, hpiece⟩ := passes_scanWord hrest (continuesWord_of_startsWord hstart)
      exact ⟨hexact hne hpiece, hclean⟩
  split
  · next hquote =>
      subst hquote
      obtain ⟨piece, hne, hpiece, hcomplaints⟩ := passes_scanString hrest
      exact ⟨hexact hne hpiece, hcomplaints⟩
  split
  · next hquote =>
      subst hquote
      exact passes_scanCharacter hrest
  · refine ⟨hexact (List.cons_ne_nil _ _) hnext, List.forall_mem_singleton.2 ?_⟩
    exact Concerns.notes ⟨⟨rest, hrest.symm⟩, _, _, List.cons_ne_nil _ _, hnext, rfl⟩

theorem length_skipBlanks_le (cursor : Cursor) :
    cursor.skipBlanks.rest.length ≤ cursor.rest.length := by
  obtain ⟨piece, extra, hpasses, _⟩ := cursor.passes_skipBlanks
  have hlength := hpasses.length
  omega

/-- Every turn of reading takes at least one character. -/
theorem length_scan_lt {c : Char} {rest : List Char} {cursor : Cursor}
    (hrest : cursor.rest = c :: rest) :
    (cursor.scan c).cursor.rest.length < cursor.rest.length := by
  by_cases hc : c = '\n'
  · subst hc
    rw [scan_newline, clean, nextLine, hrest]
    exact Nat.lt_succ_self _
  · obtain ⟨⟨piece, extra, hne, hpasses, _⟩, _⟩ := passes_scan hrest hc
    have hlength := hpasses.length
    have hpos := List.length_pos_iff.2 hne
    omega

/-! ## Reading a text to its end -/

/-- From the cursor on, these tokens are read, with these complaints.  Reading
may also be `stopped` somewhere, which leaves the end of the file there. -/
inductive Lexes : (stopped : Bool) → Cursor → List Token → List Complaint → Prop
  | stop (cursor : Cursor) : Lexes true cursor [cursor.endToken] []
  | finish {cursor : Cursor} (hrest : cursor.skipBlanks.rest = []) :
      Lexes false cursor [cursor.skipBlanks.endToken] []
  | token {stopped : Bool} {cursor : Cursor} {c : Char} {rest : List Char} {kind : Token.Kind}
      {tokens : List Token} {complaints : List Complaint}
      (hrest : cursor.skipBlanks.rest = c :: rest)
      (hkind : (cursor.skipBlanks.scan c).kind = some kind)
      (hlater : Lexes stopped (cursor.skipBlanks.scan c).cursor tokens complaints) :
      Lexes stopped cursor
        (⟨kind, (cursor.skipBlanks.scan c).cursor.spanFrom cursor.skipBlanks.position⟩ :: tokens)
        ((cursor.skipBlanks.scan c).complaints ++ complaints)
  | skip {stopped : Bool} {cursor : Cursor} {c : Char} {rest : List Char} {tokens : List Token}
      {complaints : List Complaint} (hrest : cursor.skipBlanks.rest = c :: rest)
      (hkind : (cursor.skipBlanks.scan c).kind = none)
      (hlater : Lexes stopped (cursor.skipBlanks.scan c).cursor tokens complaints) :
      Lexes stopped cursor tokens ((cursor.skipBlanks.scan c).complaints ++ complaints)

/-- Only what stands behind the blanks is read. -/
theorem Lexes.of_skipBlanks {cursor other : Cursor} {tokens : List Token}
    {complaints : List Complaint} (h : Lexes false cursor tokens complaints)
    (hskip : cursor.skipBlanks = other.skipBlanks) : Lexes false other tokens complaints := by
  cases h with
  | finish hrest =>
    rw [hskip] at hrest ⊢
    exact .finish hrest
  | token hrest hkind hlater =>
    rw [hskip] at hrest hkind hlater ⊢
    exact .token hrest hkind hlater
  | skip hrest hkind hlater =>
    rw [hskip] at hrest hkind hlater ⊢
    exact .skip hrest hkind hlater

end Cursor

namespace Source

variable (source : Source)

/-- What is read is read like that, and only the error limit stops it. -/
theorem lexes_lexFrom (fuel : Nat) (cursor : Cursor) (log : Diagnostics)
    (hfuel : cursor.rest.length < fuel) :
    ∃ stopped complaints,
      Cursor.Lexes stopped cursor (source.lexFrom fuel cursor log).tokens complaints ∧
      (source.lexFrom fuel cursor log).log = log.complainAll source complaints ∧
      (stopped = true → (source.lexFrom fuel cursor log).log.atErrorLimit = true) := by
  induction fuel generalizing cursor log with
  | zero => exact absurd hfuel (Nat.not_lt_zero _)
  | succ fuel ih =>
    unfold lexFrom
    split
    · next hlimit => exact ⟨true, [], .stop cursor, rfl, fun _ => hlimit⟩
    · simp only
      split
      · next hrest =>
          exact ⟨false, [], .finish hrest, rfl, fun hstopped => absurd hstopped Bool.false_ne_true⟩
      · next c rest hrest =>
          have hskipped := cursor.length_skipBlanks_le
          have hshorter := Cursor.length_scan_lt hrest
          obtain ⟨stopped, complaints, hlexes, hlog, hstopped⟩ := ih
            (cursor.skipBlanks.scan c).cursor
            (log.complainAll source (cursor.skipBlanks.scan c).complaints) (by omega)
          rw [← Diagnostics.complainAll_append] at hlog
          refine ⟨stopped, (cursor.skipBlanks.scan c).complaints ++ complaints, ?_⟩
          cases hkind : (cursor.skipBlanks.scan c).kind with
          | some kind => exact ⟨.token hrest hkind hlexes, hlog, hstopped⟩
          | none => exact ⟨.skip hrest hkind hlexes, hlog, hstopped⟩

/-- What can be read like that is read, if that does not come to the error
limit. -/
theorem lexFrom_of_lexes {cursor : Cursor} {tokens : List Token} {complaints : List Complaint}
    (h : Cursor.Lexes false cursor tokens complaints) {fuel : Nat}
    (hfuel : cursor.rest.length < fuel) {log : Diagnostics}
    (hlog : log.totalErrors + errorCount complaints < Diagnostics.limit) :
    source.lexFrom fuel cursor log = ⟨tokens, log.complainAll source complaints⟩ := by
  have hopen {log : Diagnostics} (hless : log.totalErrors < Diagnostics.limit) :
      ¬log.atErrorLimit = true := by
    unfold Diagnostics.atErrorLimit
    simpa using hless
  generalize hstopped : false = stopped at h
  induction h generalizing fuel log with
  | stop cursor => cases hstopped
  | @finish cursor hrest =>
    obtain ⟨fuel, rfl⟩ := Nat.exists_eq_add_one_of_ne_zero (Nat.ne_of_gt (Nat.zero_lt_of_lt hfuel))
    rw [lexFrom, if_neg (hopen (by omega))]
    simp only [hrest]
    rfl
  | @token _ cursor c rest kind tokens complaints hrest hkind _ ih =>
    obtain ⟨fuel, rfl⟩ := Nat.exists_eq_add_one_of_ne_zero (Nat.ne_of_gt (Nat.zero_lt_of_lt hfuel))
    have hskipped := cursor.length_skipBlanks_le
    have hshorter := Cursor.length_scan_lt hrest
    rw [errorCount_append] at hlog
    rw [lexFrom, if_neg (hopen (by omega))]
    simp only [hrest, hkind]
    rw [ih (by omega) (by rw [Diagnostics.totalErrors_complainAll]; omega) hstopped,
      Diagnostics.complainAll_append]
  | @skip _ cursor c rest tokens complaints hrest hkind _ ih =>
    obtain ⟨fuel, rfl⟩ := Nat.exists_eq_add_one_of_ne_zero (Nat.ne_of_gt (Nat.zero_lt_of_lt hfuel))
    have hskipped := cursor.length_skipBlanks_le
    have hshorter := Cursor.length_scan_lt hrest
    rw [errorCount_append] at hlog
    rw [lexFrom, if_neg (hopen (by omega))]
    simp only [hrest, hkind]
    rw [ih (by omega) (by rw [Diagnostics.totalErrors_complainAll]; omega) hstopped,
      Diagnostics.complainAll_append]

/-- A whole text is read like that. -/
theorem lexes_lex :
    ∃ stopped complaints,
      Cursor.Lexes stopped (.start source.text) source.lex.tokens complaints ∧
      source.lex.log = Diagnostics.complainAll ∅ source complaints ∧
      (stopped = true → source.lex.log.atErrorLimit = true) :=
  source.lexes_lexFrom _ _ ∅ (Nat.lt_succ_self _)

end Source

end UnitScript
