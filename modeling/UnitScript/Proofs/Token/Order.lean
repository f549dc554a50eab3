import UnitScript.Proofs.Spans
import UnitScript.Proofs.Token.Scanning

/-!
# Tokens stand in order

The lexer moves through a text in one direction, and what it counts while it moves
only grows.  So no token ends before it starts, and every token starts behind the
end of those before it.  This does not need the columns to be right.

A newline is the exception: its span reaches to the start of the next line, where the
next token may start.

* `Position.lt_iff` and the lemmas behind it are the strict order of positions.
* `Token.InOrder` says that tokens stand in order, `inOrder_lex` that those of a
  source do.
-/

namespace UnitScript

namespace Position

/-- Lines decide first, columns within one line. -/
protected def Lt (a b : Position) : Prop :=
  a.line < b.line ∨ a.line = b.line ∧ a.column < b.column

instance : LT Position := ⟨Position.Lt⟩

instance (a b : Position) : Decidable (a < b) :=
  inferInstanceAs (Decidable (a.line < b.line ∨ a.line = b.line ∧ a.column < b.column))

variable {a b c : Position}

theorem lt_iff : a < b ↔ a.line < b.line ∨ a.line = b.line ∧ a.column < b.column := Iff.rfl

theorem le_of_lt (h : a < b) : a ≤ b := by
  rw [lt_iff] at h
  rw [le_iff]
  omega

theorem lt_of_lt_of_le (h : a < b) (h' : b ≤ c) : a < c := by
  rw [lt_iff] at h ⊢
  rw [le_iff] at h'
  omega

theorem lt_of_le_of_lt (h : a ≤ b) (h' : b < c) : a < c := by
  rw [lt_iff] at h' ⊢
  rw [le_iff] at h
  omega

end Position

namespace Token

/-- The token `later` starts behind the token, or where it ends if that is a
newline. -/
structure Precedes (token later : Token) : Prop where
  le : token.span.last ≤ later.span.first
  lt : token.kind ≠ .newline → token.span.last < later.span.first

/-- No token ends before it starts, and each of them precedes those behind it. -/
structure InOrder (tokens : List Token) : Prop where
  ordered : ∀ token ∈ tokens, token.span.first ≤ token.span.last
  precedes : tokens.Pairwise Precedes

theorem InOrder.of_sublist {tokens fewer : List Token} (h : InOrder tokens)
    (hsub : fewer.Sublist tokens) : InOrder fewer :=
  ⟨fun token hmem => h.ordered token (hsub.mem hmem), h.precedes.sublist hsub⟩

end Token

namespace Cursor

variable {cursor : Cursor}

theorem Passes.position_le {piece : List Char} {extra : Nat} {before after : Cursor}
    (h : Passes piece extra before after) : before.position ≤ after.position := by
  refine .inr ⟨h.line.symm, ?_⟩
  rw [h.column, Nat.add_assoc]
  exact Nat.le_add_right _ _

theorem position_le_skipBlanks (cursor : Cursor) :
    cursor.position ≤ cursor.skipBlanks.position := by
  obtain ⟨piece, extra, hpasses, _⟩ := cursor.passes_skipBlanks
  exact hpasses.position_le

/-- What is passed over on one line ends in front of the place behind it. -/
theorem Passes.spanFrom {piece : List Char} {extra : Nat} {before after : Cursor}
    (h : Passes piece extra before after) (hne : piece ≠ [])
    (hcolumn : 1 ≤ before.position.column) :
    before.position ≤ (after.spanFrom before.position).last ∧
      (after.spanFrom before.position).last < after.position := by
  have hpos := List.length_pos_iff.2 hne
  have hafter := h.column
  have hlast : (after.spanFrom before.position).last =
      ⟨before.position.line, max (after.position.column - 1) 1⟩ := by
    rw [Cursor.spanFrom, h.line]
  rw [hlast]
  exact ⟨.inr ⟨rfl, by simp only; omega⟩, .inr ⟨h.line.symm, by simp only; omega⟩⟩

/-- A token does not end before it starts, and ends in front of the place behind it.
Only a newline reaches up to that. -/
theorem spanFrom_scan {c : Char} {rest : List Char} (hrest : cursor.rest = c :: rest)
    (hcolumn : 1 ≤ cursor.position.column) :
    1 ≤ (cursor.scan c).cursor.position.column ∧
      cursor.position ≤ ((cursor.scan c).cursor.spanFrom cursor.position).last ∧
      ((cursor.scan c).cursor.spanFrom cursor.position).last ≤ (cursor.scan c).cursor.position ∧
      ((cursor.scan c).kind ≠ some .newline →
        ((cursor.scan c).cursor.spanFrom cursor.position).last
          < (cursor.scan c).cursor.position) := by
  by_cases hc : c = '\n'
  · subst hc
    rw [scan_newline]
    refine ⟨Nat.le_refl 1, .inl (Nat.lt_succ_self _), Position.le_refl _, fun hkind => ?_⟩
    exact absurd rfl hkind
  · obtain ⟨⟨piece, extra, hne, hpasses, _⟩, _⟩ := passes_scan hrest hc
    obtain ⟨hordered, hbehind⟩ := hpasses.spanFrom hne hcolumn
    have hafter := hpasses.column
    exact ⟨by omega, hordered, Position.le_of_lt hbehind, fun _ => hbehind⟩

/-- The tokens that are read stand in order, behind the place where reading
starts. -/
theorem Lexes.inOrder {stopped : Bool} {tokens : List Token} {complaints : List Complaint}
    (h : Lexes stopped cursor tokens complaints) (hcolumn : 1 ≤ cursor.position.column) :
    Token.InOrder tokens ∧ ∀ token ∈ tokens, cursor.position ≤ token.span.first := by
  have hskipped {cursor : Cursor} (h : 1 ≤ cursor.position.column) :
      1 ≤ cursor.skipBlanks.position.column := by
    obtain ⟨piece, extra, hpasses, _⟩ := cursor.passes_skipBlanks
    have hafter := hpasses.column
    omega
  -- the end of the file alone
  have hend (cursor : Cursor) : Token.InOrder [cursor.endToken] :=
    ⟨List.forall_mem_singleton.2 (Position.le_refl _), List.pairwise_singleton _ _⟩
  induction h with
  | stop cursor => exact ⟨hend cursor, List.forall_mem_singleton.2 (Position.le_refl _)⟩
  | @finish cursor hrest =>
    exact ⟨hend _, List.forall_mem_singleton.2 cursor.position_le_skipBlanks⟩
  | @token _ cursor c rest kind tokens _ hrest hkind _ ih =>
    obtain ⟨hafter, hordered, hle, hlt⟩ := spanFrom_scan hrest (hskipped hcolumn)
    obtain ⟨hlater, hbehind⟩ := ih hafter
    have hblanks := cursor.position_le_skipBlanks
    refine ⟨⟨List.forall_mem_cons.2 ⟨hordered, hlater.ordered⟩, .cons ?_ hlater.precedes⟩, ?_⟩
    · intro later hmem
      refine ⟨Position.le_trans hle (hbehind later hmem), fun hne => ?_⟩
      refine Position.lt_of_lt_of_le (hlt ?_) (hbehind later hmem)
      rw [hkind]
      exact fun heq => hne (Option.some.inj heq)
    · refine List.forall_mem_cons.2 ⟨hblanks, fun later hmem => ?_⟩
      exact Position.le_trans hblanks (Position.le_trans hordered
        (Position.le_trans hle (hbehind later hmem)))
  | @skip _ cursor c rest tokens _ hrest _ _ ih =>
    obtain ⟨hafter, hordered, hle, _⟩ := spanFrom_scan hrest (hskipped hcolumn)
    obtain ⟨hlater, hbehind⟩ := ih hafter
    refine ⟨hlater, fun later hmem => ?_⟩
    exact Position.le_trans cursor.position_le_skipBlanks (Position.le_trans hordered
      (Position.le_trans hle (hbehind later hmem)))

end Cursor

/-- The tokens of a source stand in order. -/
theorem Source.inOrder_lex (source : Source) : Token.InOrder source.lex.tokens := by
  obtain ⟨_, _, hlexes, _⟩ := source.lexes_lex
  exact (hlexes.inOrder (Nat.le_refl 1)).1

end UnitScript
