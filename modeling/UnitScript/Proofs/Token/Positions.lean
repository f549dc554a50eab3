import Mathlib.Data.List.DropRight
import Mathlib.Data.List.Forall2
import UnitScript.Proofs.Spans
import UnitScript.Proofs.Token.Scanning

/-!
# Where tokens and complaints stand

Positions are counted while a text is read.  They say where in the text a token
stands: the line is one more than the newlines in front of it, and the column is
one more than the characters between it and the last of these newlines.  Only a
character of several bytes that stands in a comment or behind a single quote
makes the columns of its line too large.

* `Position.behind` is the place behind a text, and `Position.Near` what reading
  finds instead.  `Near.eq_behind` says when they are the same.
* `Token.Occupies` and `Complaint.PointsTo` tie tokens and complaints to places of
  the text; `Lexes.located` says that whatever is read has such a place.
* `lex_located` is the result for a whole source; `covers_lex` and `marks_lex`
  say that all these spans lie inside it.
-/

namespace UnitScript

open Text

/-! ## Positions behind a text -/

/-- What follows the last newline of a text. -/
def Text.lastLine (text : List Char) : List Char := text.rtakeWhile (· != '\n')

theorem Text.lastLine_append (before : List Char) {piece : List Char} (h : '\n' ∉ piece) :
    lastLine (before ++ piece) = lastLine before ++ piece := by
  induction piece using List.reverseRecOn with
  | nil => rw [List.append_nil, List.append_nil]
  | append_singleton piece c ih =>
    rw [List.mem_append, List.mem_singleton, not_or] at h
    have hc : (c != '\n') = true := bne_iff_ne.2 (Ne.symm h.2)
    rw [← List.append_assoc, lastLine, List.rtakeWhile_concat_pos (· != '\n') _ _ hc, ← lastLine, ih h.1,
      List.append_assoc]

theorem Text.lastLine_newline (before : List Char) : lastLine (before ++ ['\n']) = [] := by
  rw [lastLine, List.rtakeWhile_concat_neg]
  decide

namespace Position

/-- The place behind a text, counted in lines and characters. -/
def behind (before : List Char) : Position :=
  ⟨before.count '\n' + 1, (lastLine before).length + 1⟩

theorem behind_append (before : List Char) {piece : List Char} (h : '\n' ∉ piece) :
    behind (before ++ piece) = ⟨(behind before).line, (behind before).column + piece.length⟩ := by
  rw [behind, List.count_append, List.count_eq_zero.2 h, Nat.add_zero, lastLine_append before h,
    List.length_append, Nat.add_right_comm]
  rfl

theorem behind_newline (before : List Char) :
    behind (before ++ ['\n']) = ⟨(behind before).line + 1, 1⟩ := by
  rw [behind, List.count_append, List.count_singleton_self, lastLine_newline]
  rfl

/-- The position is where one stands behind the text, except that its column may
also count bytes of what is marked in the last line. -/
structure Near (before : List Char) (p : Position) : Prop where
  line : p.line = (behind before).line
  least : (behind before).column ≤ p.column
  most : p.column ≤ (behind before).column + surplus (marked (lastLine before))

namespace Near

variable {before : List Char} {p : Position}

theorem origin : Near [] Position.origin := ⟨rfl, Nat.le_refl _, Nat.le_refl _⟩

theorem append (h : p.Near before) {piece : List Char} {extra : Nat} (hpiece : '\n' ∉ piece)
    (hextra : extra ≤ surplus (marked piece)) :
    Near (before ++ piece) ⟨p.line, p.column + piece.length + extra⟩ := by
  have hleast := h.least
  have hmost := h.most
  have hmarked := surplus_marked_append (lastLine before) piece
  constructor
  · rw [behind_append before hpiece]
    exact h.line
  · rw [behind_append before hpiece]
    show (behind before).column + piece.length ≤ p.column + piece.length + extra
    omega
  · rw [behind_append before hpiece, lastLine_append before hpiece]
    show p.column + piece.length + extra ≤ (behind before).column + piece.length + _
    omega

theorem newline (h : p.Near before) : Near (before ++ ['\n']) ⟨p.line + 1, 1⟩ := by
  constructor
  · rw [behind_newline, h.line]
  · rw [behind_newline]
  · rw [behind_newline]
    exact Nat.le_add_right _ _

/-- The column is right when only single bytes are marked on the line. -/
theorem eq_behind (h : p.Near before)
    (hbytes : ∀ c ∈ marked (lastLine before), c.utf8Size = 1) : p = behind before := by
  have hsurplus {text : List Char} (hbytes : ∀ c ∈ text, c.utf8Size = 1) : surplus text = 0 := by
    induction text with
    | nil => rfl
    | cons c rest ih =>
      rw [surplus_cons, hbytes c List.mem_cons_self,
        ih fun d hd => hbytes d (List.mem_cons_of_mem c hd)]
  have hleast := h.least
  have hmost := h.most
  rw [hsurplus hbytes] at hmost
  cases p with
  | mk line column =>
    rw [Position.mk.injEq]
    exact ⟨h.line, Nat.le_antisymm hmost hleast⟩

theorem one_le_line (h : p.Near before) : 1 ≤ p.line := by
  rw [h.line]
  exact Nat.le_add_left _ _

theorem one_le_column (h : p.Near before) : 1 ≤ p.column :=
  Nat.le_trans (Nat.le_add_left _ _) h.least

/-- The line is one of a text that goes on behind `before`. -/
theorem line_le_lineCount (h : p.Near before) {source : Source} {rest : List Char}
    (htext : source.text.toList = before ++ rest) :
    p.line + rest.count '\n' = source.lineCount := by
  rw [Source.lineCount_eq_count, htext, List.count_append, h.line, behind]
  show before.count '\n' + 1 + rest.count '\n' = before.count '\n' + rest.count '\n' + 1
  omega

end Near

end Position

/-! ## Cursors in a text -/

namespace Cursor

/-- A move that counts nothing but characters keeps the position right. -/
theorem Passes.position {piece before : List Char} {cursor after : Cursor}
    (h : Passes piece 0 cursor after) (hposition : cursor.position = .behind before) :
    after.position = .behind (before ++ piece) := by
  have hline := h.line
  have hcolumn := h.column
  rw [hposition] at hline hcolumn
  rw [Position.behind_append before h.inside, ← hline]
  show after.position = ⟨after.position.line, (Position.behind before).column + piece.length + 0⟩
  rw [← hcolumn]

/-- The cursor is behind the part `before` of a text, and its position says so. -/
structure StandsIn (text before : List Char) (cursor : Cursor) : Prop where
  text : text = before ++ cursor.rest
  near : cursor.position.Near before

namespace StandsIn

variable {text before : List Char} {cursor : Cursor}

theorem start (text : String) : StandsIn text.toList [] (.start text) := ⟨rfl, .origin⟩

theorem passes (h : cursor.StandsIn text before) {piece : List Char} {extra : Nat} {after : Cursor}
    (hpasses : Passes piece extra cursor after) (hextra : extra ≤ surplus (marked piece)) :
    after.StandsIn text (before ++ piece) where
  text := by rw [List.append_assoc, ← hpasses.rest, ← h.text]
  near := by
    have hnear := h.near.append hpasses.inside hextra
    rwa [← hpasses.line, ← hpasses.column] at hnear

theorem nextLine (h : cursor.StandsIn text before) {rest : List Char}
    (hrest : cursor.rest = '\n' :: rest) : cursor.nextLine.StandsIn text (before ++ ['\n']) where
  text := by rw [h.text, Cursor.nextLine, hrest, List.append_cons, List.tail_cons]
  near := h.near.newline

/-- Blanks do not move the position away from where it should be, and a comment
only where the line ends behind it. -/
theorem skipBlanks (h : cursor.StandsIn text before) :
    ∃ piece, cursor.skipBlanks.StandsIn text (before ++ piece) ∧
      ∀ c rest, cursor.skipBlanks.rest = c :: rest → c ≠ '\n' →
        cursor.position = .behind before → cursor.skipBlanks.position = .behind (before ++ piece) := by
  obtain ⟨piece, extra, hpasses, hextra, hzero⟩ := cursor.passes_skipBlanks
  refine ⟨piece, h.passes hpasses hextra, fun c rest hrest hc => ?_⟩
  rw [hzero c rest hrest hc] at hpasses
  exact hpasses.position

/-- Behind a token the cursor stands right again, and only a malformed literal
moves the position away from where it should be. -/
theorem scan (h : cursor.StandsIn text before) {c : Char} {rest : List Char}
    (hrest : cursor.rest = c :: rest) :
    ∃ piece, piece ≠ [] ∧ (cursor.scan c).cursor.StandsIn text (before ++ piece) ∧
      (WellQuoted (cursor.scan c).complaints → (c ≠ '\n' → cursor.position = .behind before) →
        (cursor.scan c).cursor.position = .behind (before ++ piece)) := by
  by_cases hc : c = '\n'
  · subst hc
    rw [scan_newline]
    refine ⟨['\n'], List.cons_ne_nil _ _, h.nextLine hrest, fun _ _ => ?_⟩
    rw [Position.behind_newline, ← h.near.line]
    rfl
  · obtain ⟨⟨piece, extra, hne, hpasses, hextra, hzero⟩, _⟩ := passes_scan hrest hc
    refine ⟨piece, hne, h.passes hpasses hextra, fun hwell hposition => ?_⟩
    rw [hzero hwell] at hpasses
    exact hpasses.position (hposition hc)

end StandsIn

end Cursor

/-! ## Places of tokens and complaints -/

/-- The token is what is read from the text between the two offsets of `place`,
and its position says where that starts.  The end of the file can stand
anywhere. -/
structure Token.Occupies (text : List Char) (place : Nat × Nat) (token : Token) : Prop where
  ordered : place.1 ≤ place.2
  inside : place.2 ≤ text.length
  near : token.span.first.Near (text.take place.1)
  reads : token = Cursor.endToken ⟨text.drop place.1, token.span.first⟩ ∨
    ∃ c rest, text.drop place.1 = c :: rest ∧ place.1 < place.2 ∧
      let scan := Cursor.scan c ⟨text.drop place.1, token.span.first⟩
      scan.kind = some token.kind ∧ scan.cursor.rest = text.drop place.2 ∧
        token.span = scan.cursor.spanFrom token.span.first

/-- The token is a newline or the end of the file. -/
def Token.EndsLine (token : Token) : Prop := token.kind = .newline ∨ token.kind = .endOfFile

/-- The complaint is about what the text shows at the offset, up to a place behind
it on the same line. -/
structure Complaint.PointsTo (text : List Char) (offset : Nat) (complaint : Complaint) : Prop where
  inside : offset ≤ text.length
  near : complaint.span.first.Near (text.take offset)
  concerns : Cursor.Concerns ⟨text.drop offset, complaint.span.first⟩ complaint

namespace Cursor

variable {text before : List Char} {cursor : Cursor}

/-- The offset at which a cursor stands. -/
theorem StandsIn.cut (h : cursor.StandsIn text before) :
    text.take before.length = before ∧ text.drop before.length = cursor.rest ∧
      before.length ≤ text.length := by
  rw [h.text, List.take_left, List.drop_left, List.length_append]
  exact ⟨rfl, rfl, Nat.le_add_right _ _⟩

theorem StandsIn.occupies_end (h : cursor.StandsIn text before) :
    Token.Occupies text (before.length, before.length) cursor.endToken := by
  obtain ⟨htake, _, hlength⟩ := h.cut
  refine ⟨Nat.le_refl _, hlength, ?_, .inl rfl⟩
  rw [htake]
  exact h.near

theorem StandsIn.occupies_scan (h : cursor.StandsIn text before) {c : Char} {rest : List Char}
    (hrest : cursor.rest = c :: rest) {kind : Token.Kind} (hkind : (cursor.scan c).kind = some kind)
    {piece : List Char} (hne : piece ≠ [])
    (hpiece : (cursor.scan c).cursor.StandsIn text (before ++ piece)) :
    Token.Occupies text (before.length, (before ++ piece).length)
      ⟨kind, (cursor.scan c).cursor.spanFrom cursor.position⟩ := by
  obtain ⟨htake, hdrop, _⟩ := h.cut
  obtain ⟨_, hdropLater, hlater⟩ := hpiece.cut
  have hlonger : before.length < (before ++ piece).length := by
    rw [List.length_append]
    exact Nat.lt_add_of_pos_right (List.length_pos_iff.2 hne)
  refine ⟨Nat.le_of_lt hlonger, hlater, ?_, .inr ⟨c, rest, hdrop.trans hrest, hlonger, ?_⟩⟩
  · rw [htake]
    exact h.near
  · simp only [hdrop]
    exact ⟨hkind, hdropLater.symm, rfl⟩

/-- A complaint points to a place of the text, and rightly so if the cursor stands
right. -/
theorem StandsIn.pointsTo (h : cursor.StandsIn text before) {complaint : Complaint}
    (hnotes : Notes cursor complaint) :
    ∃ offset, complaint.PointsTo text offset ∧
      (cursor.position = .behind before → complaint.span.first = .behind (text.take offset)) := by
  obtain ⟨piece, place, hpasses, hconcerns⟩ := hnotes
  have hplace := h.passes hpasses (Nat.zero_le _)
  obtain ⟨htake, hdrop, hlength⟩ := hplace.cut
  have hfirst : complaint.span.first = place.position := by
    obtain ⟨_, stop, _, _, hspan⟩ := hconcerns.span
    rw [hspan]
    rfl
  refine ⟨_, ⟨hlength, ?_, ?_⟩, ?_⟩
  · rw [htake, hfirst]
    exact hplace.near
  · rw [hdrop, hfirst]
    exact hconcerns
  · rw [htake, hfirst]
    exact hpasses.position

/-- All complaints about a token point to places of the text. -/
theorem StandsIn.pointsTo_scan (h : cursor.StandsIn text before) {c : Char} {rest : List Char}
    (hrest : cursor.rest = c :: rest) {complaint : Complaint}
    (hmem : complaint ∈ (cursor.scan c).complaints) :
    ∃ offset, complaint.PointsTo text offset ∧
      ((c ≠ '\n' → cursor.position = .behind before) →
        complaint.span.first = .behind (text.take offset)) := by
  by_cases hc : c = '\n'
  · subst hc
    rw [scan_newline] at hmem
    exact absurd hmem List.not_mem_nil
  · obtain ⟨offset, hpoints, hexact⟩ := h.pointsTo ((passes_scan hrest hc).2 complaint hmem)
    exact ⟨offset, hpoints, fun hposition => hexact (hposition hc)⟩

/-- Whatever is read from a text has its place in it: the tokens one behind the
other from the cursor on, with the end of the file last, and every complaint
somewhere.  If the cursor stands right and no character literal is malformed,
then only the ends of lines can be out of place. -/
theorem Lexes.located {stopped : Bool} {tokens : List Token} {complaints : List Complaint}
    (h : Lexes stopped cursor tokens complaints) (hstands : cursor.StandsIn text before) :
    (∃ places : List (Nat × Nat),
      List.Forall₂ (fun place token => token.Occupies text place ∧
          (WellQuoted complaints → cursor.position = .behind before → ¬token.EndsLine →
            token.span.first = .behind (text.take place.1))) places tokens ∧
      places.Pairwise (fun first later => first.2 ≤ later.1) ∧
      (∀ place ∈ places, before.length ≤ place.1) ∧
      (stopped = false → places.getLast? = some (text.length, text.length))) ∧
    ∀ complaint ∈ complaints, ∃ offset, complaint.PointsTo text offset ∧
      (WellQuoted complaints → cursor.position = .behind before →
        complaint.span.first = .behind (text.take offset)) := by
  induction h generalizing before with
  | stop cursor =>
    refine ⟨⟨[_], .cons ⟨hstands.occupies_end, fun _ _ hends => absurd (.inr rfl) hends⟩ .nil,
      List.pairwise_singleton _ _, List.forall_mem_singleton.2 (Nat.le_refl _), nofun⟩,
      fun _ hmem => absurd hmem List.not_mem_nil⟩
  | @finish cursor hrest =>
    obtain ⟨blanks, hblanks, _⟩ := hstands.skipBlanks
    have hend : (before ++ blanks).length = text.length := by
      rw [hblanks.text, hrest, List.append_nil]
    refine ⟨⟨[_], .cons ⟨hblanks.occupies_end, fun _ _ hends => absurd (.inr rfl) hends⟩ .nil,
      List.pairwise_singleton _ _, List.forall_mem_singleton.2 ?_, ?_⟩,
      fun _ hmem => absurd hmem List.not_mem_nil⟩
    · rw [List.length_append]
      exact Nat.le_add_right _ _
    · intro _
      rw [hend]
      rfl
  | @token stopped cursor c rest kind tokens complaints hrest hkind _ ih =>
    obtain ⟨blanks, hblanks, hposition⟩ := hstands.skipBlanks
    obtain ⟨piece, hne, hpiece, hbehind⟩ := hblanks.scan hrest
    obtain ⟨⟨places, hplaces, hpairwise, hleast, hlast⟩, hcomplaints⟩ := ih hpiece
    have hoccupies := hblanks.occupies_scan hrest hkind hne hpiece
    refine ⟨⟨_ :: places, .cons ⟨hoccupies, ?_⟩ (hplaces.imp ?_),
      List.pairwise_cons.2 ⟨hleast, hpairwise⟩, ?_, ?_⟩, ?_⟩
    · intro _ hright hends
      rw [hblanks.cut.1]
      refine hposition c rest hrest ?_ hright
      rintro rfl
      rw [scan_newline] at hkind
      exact hends (.inl (Option.some.inj hkind).symm)
    · rintro place token ⟨hplace, hexact⟩
      refine ⟨hplace, fun hwell hright => hexact (hwell.right) ?_⟩
      exact hbehind hwell.left fun hc => hposition c rest hrest hc hright
    · rintro place hmem
      rcases List.mem_cons.1 hmem with rfl | hmem
      · rw [List.length_append]
        exact Nat.le_add_right _ _
      · have hbound := hleast place hmem
        rw [List.length_append, List.length_append] at hbound
        omega
    · intro hstopped
      rw [List.getLast?_cons, hlast hstopped]
      rfl
    · intro complaint hmem
      rcases List.mem_append.1 hmem with hmem | hmem
      · obtain ⟨offset, hpoints, hexact⟩ := hblanks.pointsTo_scan hrest hmem
        exact ⟨offset, hpoints, fun _ hright => hexact fun hc => hposition c rest hrest hc hright⟩
      · obtain ⟨offset, hpoints, hexact⟩ := hcomplaints complaint hmem
        exact ⟨offset, hpoints, fun hwell hright => hexact hwell.right
          (hbehind hwell.left fun hc => hposition c rest hrest hc hright)⟩
  | @skip stopped cursor c rest tokens complaints hrest hkind _ ih =>
    obtain ⟨blanks, hblanks, hposition⟩ := hstands.skipBlanks
    obtain ⟨piece, _, hpiece, hbehind⟩ := hblanks.scan hrest
    obtain ⟨⟨places, hplaces, hpairwise, hleast, hlast⟩, hcomplaints⟩ := ih hpiece
    refine ⟨⟨places, hplaces.imp ?_, hpairwise, ?_, hlast⟩, ?_⟩
    · rintro place token ⟨hplace, hexact⟩
      refine ⟨hplace, fun hwell hright => hexact (hwell.right) ?_⟩
      exact hbehind hwell.left fun hc => hposition c rest hrest hc hright
    · intro place hmem
      have hbound := hleast place hmem
      rw [List.length_append, List.length_append] at hbound
      omega
    · intro complaint hmem
      rcases List.mem_append.1 hmem with hmem | hmem
      · obtain ⟨offset, hpoints, hexact⟩ := hblanks.pointsTo_scan hrest hmem
        exact ⟨offset, hpoints, fun _ hright => hexact fun hc => hposition c rest hrest hc hright⟩
      · obtain ⟨offset, hpoints, hexact⟩ := hcomplaints complaint hmem
        exact ⟨offset, hpoints, fun hwell hright => hexact hwell.right
          (hbehind hwell.left fun hc => hposition c rest hrest hc hright)⟩

end Cursor

/-! ## Spans inside the source -/

namespace Source

variable {source : Source} {text : List Char}

/-- What is read on one line lies inside the source. -/
theorem covers_passes {before piece : List Char} {extra : Nat} {cursor after : Cursor}
    (hstands : cursor.StandsIn source.text.toList before)
    (hpasses : Cursor.Passes piece extra cursor after) (hne : piece ≠ []) :
    source.Covers (after.spanFrom cursor.position) := by
  have hpos := List.length_pos_iff.2 hne
  have hline := hstands.near.line_le_lineCount hstands.text
  have hcolumn := hpasses.column
  have hlast : (after.spanFrom cursor.position).last =
      ⟨cursor.position.line, max (after.position.column - 1) 1⟩ := by
    rw [Cursor.spanFrom, hpasses.line]
  have hbehind : cursor.position.column ≤ max (after.position.column - 1) 1 := by omega
  constructor
  · exact hstands.near.one_le_line
  · rw [hlast]
    exact Nat.le_refl _
  · rw [hlast]
    exact Nat.le_trans (Nat.le_add_right _ _) (Nat.le_of_eq hline)
  · rw [hlast]
    exact .inr ⟨rfl, hbehind⟩
  · exact hstands.near.one_le_column
  · rw [hlast]
    exact Nat.le_max_right _ _

/-- A newline goes on to the line behind it, which is there. -/
theorem covers_newline {before rest : List Char} {cursor : Cursor}
    (hstands : cursor.StandsIn source.text.toList before) (hrest : cursor.rest = '\n' :: rest) :
    source.Covers (cursor.nextLine.spanFrom cursor.position) := by
  have hline := hstands.near.line_le_lineCount hstands.text
  rw [hrest, List.count_cons_self] at hline
  constructor
  · exact hstands.near.one_le_line
  · exact Nat.le_succ _
  · show cursor.position.line + 1 ≤ source.lineCount
    omega
  · exact .inl (Nat.lt_succ_self _)
  · exact hstands.near.one_le_column
  · exact Nat.le_refl 1

/-- The cursor at an offset of a text. -/
theorem standsIn_offset {offset : Nat} {p : Position} (h : p.Near (text.take offset)) :
    Cursor.StandsIn text (text.take offset) ⟨text.drop offset, p⟩ :=
  ⟨(List.take_append_drop offset text).symm, h⟩

theorem covers_token {place : Nat × Nat} {token : Token}
    (h : token.Occupies source.text.toList place) : source.Covers token.span := by
  have hstands := standsIn_offset h.near
  rcases h.reads with hend | ⟨c, rest, hrest, _, _, _, hspan⟩
  · have hline := hstands.near.line_le_lineCount hstands.text
    rw [hend]
    exact covers_point hstands.near.one_le_line (Nat.le_trans (Nat.le_add_right _ _) hline.le)
      hstands.near.one_le_column
  · rw [hspan]
    by_cases hc : c = '\n'
    · subst hc
      rw [Cursor.scan_newline]
      exact covers_newline hstands hrest
    · have hrest : Cursor.rest ⟨source.text.toList.drop place.1, token.span.first⟩ = c :: rest := hrest
      obtain ⟨⟨piece, extra, hne, hpasses, _⟩, _⟩ := Cursor.passes_scan hrest hc
      exact covers_passes hstands hpasses hne

theorem covers_complaint {offset : Nat} {complaint : Complaint}
    (h : complaint.PointsTo source.text.toList offset) : source.Covers complaint.span := by
  obtain ⟨piece, stop, hne, hpasses, hspan⟩ := h.concerns.span
  rw [hspan]
  exact covers_passes (standsIn_offset h.near) hpasses hne

/-! ## A whole source -/

/-- The tokens of a source stand one behind the other in its text, and all that
is wrong with it is wrong at some place of the text. -/
theorem lex_located (source : Source) :
    ∃ (complaints : List Complaint) (places : List (Nat × Nat)),
      source.lex.log = Diagnostics.complainAll ∅ source complaints ∧
      List.Forall₂ (fun place token => token.Occupies source.text.toList place ∧
          (Cursor.WellQuoted complaints → ¬token.EndsLine →
            token.span.first = .behind (source.text.toList.take place.1)))
        places source.lex.tokens ∧
      places.Pairwise (fun first later => first.2 ≤ later.1) ∧
      (source.lex.log.atErrorLimit = false →
        places.getLast? = some (source.text.toList.length, source.text.toList.length)) ∧
      ∀ complaint ∈ complaints, ∃ offset, complaint.PointsTo source.text.toList offset ∧
        (Cursor.WellQuoted complaints →
          complaint.span.first = .behind (source.text.toList.take offset)) := by
  obtain ⟨stopped, complaints, hlexes, hlog, hstopped⟩ := source.lexes_lex
  obtain ⟨⟨places, hplaces, hpairwise, _, hlast⟩, hcomplaints⟩ :=
    hlexes.located (.start source.text)
  refine ⟨complaints, places, hlog, hplaces.imp ?_, hpairwise, fun hlimit => hlast ?_, ?_⟩
  · rintro place token ⟨hplace, hexact⟩
    exact ⟨hplace, fun hwell => hexact hwell rfl⟩
  · rw [← Bool.not_eq_true]
    intro htrue
    rw [hstopped htrue] at hlimit
    cases hlimit
  · intro complaint hmem
    obtain ⟨offset, hpoints, hexact⟩ := hcomplaints complaint hmem
    exact ⟨offset, hpoints, fun hwell => hexact hwell rfl⟩

/-- Every token of a source has its place in the text. -/
theorem occupies_of_mem (source : Source) {token : Token} (h : token ∈ source.lex.tokens) :
    ∃ place, token.Occupies source.text.toList place := by
  obtain ⟨_, places, _, hplaces, _⟩ := source.lex_located
  obtain ⟨i, hi, hget⟩ := List.getElem_of_mem h
  have hlength := hplaces.length_eq
  have hplace := (hplaces.get (by omega) hi).1
  rw [List.get_eq_getElem, List.get_eq_getElem, hget] at hplace
  exact ⟨_, hplace⟩

/-- All tokens of a source lie inside it. -/
theorem covers_lex (source : Source) {token : Token} (h : token ∈ source.lex.tokens) :
    source.Covers token.span := by
  obtain ⟨place, hplace⟩ := source.occupies_of_mem h
  exact covers_token hplace

/-- All that is wrong with the text of a source is reported inside it. -/
theorem marks_lex (source : Source) : Diagnostics.Marks source source.Covers source.lex.log := by
  obtain ⟨complaints, _, hlog, _, _, _, hcomplaints⟩ := source.lex_located
  rw [hlog]
  refine Diagnostics.marks_empty.complainAll fun complaint hmem => ?_
  obtain ⟨offset, hpoints, _⟩ := hcomplaints complaint hmem
  exact covers_complaint hpoints

/-- The tokens and the diagnostics of a source say where in the text they stand.
The line is always right, and the column is never too small.  The column is right
if only single bytes are marked in front of it on its line, and also, whatever
stands there, if no character literal is malformed and it is not the column of
the end of a line. -/
theorem lex_positions (source : Source) :
    ∃ (complaints : List Complaint) (places : List (Nat × Nat)),
      source.lex.log = Diagnostics.complainAll ∅ source complaints ∧
      List.Forall₂ (fun place token => token.Occupies source.text.toList place ∧
          ((∀ c ∈ marked (lastLine (source.text.toList.take place.1)), c.utf8Size = 1) ∨
              Cursor.WellQuoted complaints ∧ ¬token.EndsLine →
            token.span.first = .behind (source.text.toList.take place.1)))
        places source.lex.tokens ∧
      places.Pairwise (fun first later => first.2 ≤ later.1) ∧
      (source.lex.log.atErrorLimit = false →
        places.getLast? = some (source.text.toList.length, source.text.toList.length)) ∧
      ∀ complaint ∈ complaints, ∃ offset, complaint.PointsTo source.text.toList offset ∧
        ((∀ c ∈ marked (lastLine (source.text.toList.take offset)), c.utf8Size = 1) ∨
            Cursor.WellQuoted complaints →
          complaint.span.first = .behind (source.text.toList.take offset)) := by
  obtain ⟨complaints, places, hlog, hplaces, hpairwise, hlast, hcomplaints⟩ := source.lex_located
  refine ⟨complaints, places, hlog, hplaces.imp ?_, hpairwise, hlast, ?_⟩
  · rintro place token ⟨hplace, hexact⟩
    refine ⟨hplace, ?_⟩
    rintro (hbytes | ⟨hwell, hends⟩)
    · exact hplace.near.eq_behind hbytes
    · exact hexact hwell hends
  · intro complaint hmem
    obtain ⟨offset, hpoints, hexact⟩ := hcomplaints complaint hmem
    refine ⟨offset, hpoints, ?_⟩
    rintro (hbytes | hwell)
    · exact hpoints.near.eq_behind hbytes
    · exact hexact hwell

/-- A letter of two bytes in a comment moves the end of the file, and one that is
skipped in a malformed literal moves the token behind it. -/
theorem columns_count_bytes :
    (lex ⟨"", "// é"⟩).tokens = [⟨.endOfFile, .point ⟨1, 6⟩⟩] ∧ (lex ⟨"", "// é"⟩).log = ∅ ∧
    Position.behind "// é".toList = ⟨1, 5⟩ ∧
    (lex ⟨"", "'éé' x"⟩).tokens =
      [⟨.character 'é', ⟨1, 1⟩, ⟨1, 5⟩⟩, ⟨.identifier "x", .point ⟨1, 7⟩⟩,
        ⟨.endOfFile, .point ⟨1, 8⟩⟩] ∧
    Position.behind "'éé' ".toList = ⟨1, 6⟩ := by
  decide +kernel

end Source

end UnitScript
