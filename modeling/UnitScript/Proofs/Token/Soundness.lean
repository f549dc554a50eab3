import UnitScript.Proofs.Token.Bytes
import UnitScript.Proofs.Token.Literals
import UnitScript.Proofs.Token.Order

/-!
# Every text has well-formed tokens

Whatever a text holds, and wherever too many errors stop the reading, its tokens
are in good shape: they end with the one end of the file, lie inside the source,
and start one behind the other.

* `Position.Within` bounds lines and columns; `Near.within` bounds those of a place
  by the bytes of the text.
* `Lexes.shape` says of what kinds the tokens are, and `lex_sound` collects what holds
  of every source.
-/

namespace UnitScript

open Text

/-! ## How far positions count -/

/-- Neither the line nor the column is greater than `most`. -/
def Position.Within (most : Nat) (p : Position) : Prop := p.line ≤ most ∧ p.column ≤ most

/-- Lines and columns count no further than the bytes of the text. -/
theorem Position.Near.within {before text : List Char} {p : Position} (h : p.Near before)
    (hbefore : before <+: text) : p.Within (byteLength text + 1) := by
  have hbytes : byteLength before ≤ byteLength text := by
    obtain ⟨rest, rfl⟩ := hbefore
    rw [byteLength_append]
    exact Nat.le_add_right _ _
  constructor
  · have hcount := List.count_le_length (a := '\n') (l := before)
    have hlength := length_le_byteLength before
    rw [h.line, behind]
    show before.count '\n' + 1 ≤ byteLength text + 1
    omega
  · have hline : byteLength (lastLine before) ≤ byteLength before := by
      obtain ⟨front, hfront⟩ := List.rtakeWhile_suffix (· != '\n') before
      rw [← lastLine] at hfront
      rw [← hfront, byteLength_append, hfront]
      exact Nat.le_add_left _ _
    have hmost := h.most
    have hmarked := surplus_marked_le (lastLine before)
    rw [byteLength_eq] at hline
    change p.column ≤ (lastLine before).length + 1 + _ at hmost
    omega

theorem Token.Occupies.within {text : List Char} {place : Nat × Nat} {token : Token}
    (h : token.Occupies text place) :
    token.span.first.Within (byteLength text + 1) ∧
      token.span.last.Within (byteLength text + 1) := by
  have hfirst := h.near.within (List.take_prefix place.1 text)
  refine ⟨hfirst, ?_⟩
  rcases h.reads with hend | ⟨c, rest, hrest, _, _, _, hspan⟩
  · rw [hend]
    exact hfirst
  · have hstands := Source.standsIn_offset h.near
    obtain ⟨piece, _, hpiece, _⟩ := hstands.scan hrest
    obtain ⟨hline, hcolumn⟩ := hpiece.near.within ⟨_, hpiece.text.symm⟩
    rw [hspan]
    refine ⟨hline, Nat.max_le.2 ⟨?_, Nat.le_add_left 1 _⟩⟩
    exact Nat.le_trans (Nat.sub_le _ 1) hcolumn

/-! ## What kinds of tokens are read -/

namespace Cursor

/-- The end of the file is last.  In front of it, every token has a kind that some
character starts. -/
theorem Lexes.shape {stopped : Bool} {cursor : Cursor} {tokens : List Token}
    {complaints : List Complaint} (h : Lexes stopped cursor tokens complaints) :
    ∃ body finish, tokens = body ++ [endToken finish] ∧
      ∀ token ∈ body, ∃ c, Starts c token.kind := by
  induction h with
  | stop cursor => exact ⟨[], cursor, rfl, List.forall_mem_nil _⟩
  | finish _ => exact ⟨[], _, rfl, List.forall_mem_nil _⟩
  | @token _ cursor c _ kind _ _ hrest hkind _ ih =>
    obtain ⟨body, finish, heq, hbody⟩ := ih
    exact ⟨_ :: body, finish, by rw [heq, List.cons_append],
      List.forall_mem_cons.2 ⟨⟨c, starts_scan hkind⟩, hbody⟩⟩
  | skip _ _ _ ih => exact ih

/-- A newline ends on another line than it starts. -/
theorem Lexes.newline_lt {stopped : Bool} {cursor : Cursor} {tokens : List Token}
    {complaints : List Complaint} (h : Lexes stopped cursor tokens complaints) :
    ∀ token ∈ tokens, token.kind = .newline → token.span.first < token.span.last := by
  induction h with
  | stop cursor => exact List.forall_mem_singleton.2 nofun
  | finish _ => exact List.forall_mem_singleton.2 nofun
  | @token _ cursor c _ kind _ _ _ hkind _ ih =>
    refine List.forall_mem_cons.2 ⟨?_, ih⟩
    rintro rfl
    obtain rfl := (starts_scan hkind).line
    rw [scan_newline]
    exact .inl (Nat.lt_succ_self _)
  | skip _ _ _ ih => exact ih

end Cursor

/-! ## A whole source -/

namespace Source

/-- Every token starts behind the start of those before it. -/
theorem starts_increase (source : Source) :
    source.lex.tokens.Pairwise fun token later => token.span.first < later.span.first := by
  obtain ⟨_, _, hlexes, _⟩ := source.lexes_lex
  have horder := source.inOrder_lex
  refine horder.precedes.imp_of_mem ?_
  intro token later hmem _ hprecedes
  by_cases hkind : token.kind = .newline
  · exact Position.lt_of_lt_of_le (hlexes.newline_lt token hmem hkind) hprecedes.le
  · exact Position.lt_of_le_of_lt (horder.ordered token hmem) (hprecedes.lt hkind)

/-- What holds of the tokens of every source.  Reading byte by byte finds them too, and
never cuts inside a character.  The end of the file is the last of them and no other.
They lie inside the source, with lines and columns that count no further than its
bytes, and start one behind the other.  Integers are in range. -/
theorem lex_sound (source : Source) :
    source.lexBytes? = some source.lex ∧
    (∃ body last, source.lex.tokens = body ++ [last] ∧ last.kind = .endOfFile ∧
      ∀ token ∈ body, token.kind ≠ .endOfFile) ∧
    (∀ token ∈ source.lex.tokens, source.Covers token.span ∧
      token.span.first.Within (byteLength source.text.toList + 1) ∧
      token.span.last.Within (byteLength source.text.toList + 1)) ∧
    (source.lex.tokens.Pairwise fun token later => token.span.first < later.span.first) ∧
    ∀ token ∈ source.lex.tokens, ∀ n, token.kind = .integer n → n ≤ Number.greatest := by
  obtain ⟨_, _, hlexes, _⟩ := source.lexes_lex
  obtain ⟨body, finish, htokens, hbody⟩ := hlexes.shape
  refine ⟨source.lexBytes?_eq, ⟨body, _, htokens, rfl, ?_⟩, ?_, source.starts_increase, ?_⟩
  · intro token hmem
    obtain ⟨c, hstarts⟩ := hbody token hmem
    exact hstarts.ne_endOfFile
  · intro token hmem
    obtain ⟨place, hplace⟩ := source.occupies_of_mem hmem
    exact ⟨covers_token hplace, hplace.within⟩
  · intro token hmem n hkind
    rw [htokens] at hmem
    rcases List.mem_append.1 hmem with hmem | hmem
    · obtain ⟨c, hstarts⟩ := hbody token hmem
      rw [hkind] at hstarts
      exact hstarts.range
    · cases List.mem_singleton.1 hmem
      cases hkind

end Source

end UnitScript
