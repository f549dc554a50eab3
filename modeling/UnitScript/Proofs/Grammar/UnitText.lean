import UnitScript.Proofs.Grammar.Origins
import UnitScript.Proofs.Grammar.Programs
import UnitScript.Proofs.Token.Spelling

/-!
# The text of a unit expression

A unit expression is written without parentheses of its own: those that it
needs are nodes of the tree.  So its text is read as the same tree, but for the
spans, if the tree is one that can be read at all.

* `UnitExpr.spelling` is the tokens that the text is made of.
* `UnitExpr.Shaped` says that some tokens derive the tree; then its spelling
  does, `derived_spelling`, and its parts have a shape too, `shaped_of_mem_parts`.
* `UnitExpr.Writable` says that the text shows what is in the tree: its names
  are names, and its numbers are integers in range.  Then the text is read as
  its spelling, `spells_text`.
* `unitExpr_text` puts the two together.
-/

namespace UnitScript

open Grammar

/-- The token that an operator between units is. -/
def UnitOp.kind : UnitOp → Token.Kind
  | .mul => .star
  | .div => .slash
  | .pow => .caret

namespace UnitExpr

/-- The tokens of an integer. -/
def integerSpelling : Int → List Token.Kind
  | .ofNat n => [.integer n]
  | .negSucc n => [.minus, .integer (n + 1)]

/-- The tokens that a unit expression is written with. -/
def spelling : UnitExpr → List Token.Kind
  | .symbol name _ => [.identifier name]
  | .number (.integer n) _ => integerSpelling n
  | .number (.real x) _ => [.real x]
  | .binary op left right _ => left.spelling ++ op.kind :: right.spelling
  | .group inner _ => .leftParen :: (inner.spelling ++ [.rightParen])

/-! ## Spans do not matter -/

theorem spelling_erase (unit : UnitExpr) : unit.erase.spelling = unit.spelling := by
  induction unit with
  | symbol name span => rfl
  | number value span => cases value <;> rfl
  | binary op left right span ihl ihr => simp only [erase, spelling, ihl, ihr]
  | group inner span ih => simp only [erase, spelling, ih]

theorem text_erase (unit : UnitExpr) : unit.erase.text = unit.text := by
  induction unit with
  | symbol name span => rfl
  | number value span => rfl
  | binary op left right span ihl ihr => simp only [erase, text, ihl, ihr]
  | group inner span ih => simp only [erase, text, ih]

/-! ## Trees that are read -/

/-- The tree is derived from its spelling, and all names in that are among the
tokens `read`. -/
def Respelled (G : List Token.Kind → UnitExpr → Prop) (read : List Token.Kind) (unit : UnitExpr) :
    Prop :=
  G unit.spelling unit ∧
    ∀ name, Token.Kind.identifier name ∈ unit.spelling → Token.Kind.identifier name ∈ read

section Productions

variable {Inner : List Token.Kind → UnitExpr → Prop} {read : List Token.Kind} {unit : UnitExpr}

theorem respelled_atom (hinner : ∀ read unit, Inner read unit → Respelled Inner read unit)
    (h : UnitAtom Inner read unit) : Respelled (UnitAtom Inner) read unit := by
  cases h with
  | symbol name => exact ⟨.symbol name, fun _ h => h⟩
  | integer n => exact ⟨.integer n, fun _ h => h⟩
  | real x => exact ⟨.real x, fun _ h => h⟩
  | @group read unit hunit =>
    obtain ⟨hderived, hnames⟩ := hinner read unit hunit
    refine ⟨.group hderived, fun name hname => ?_⟩
    have hmem : Token.Kind.identifier name ∈ unit.spelling := by
      simpa [spelling] using hname
    simp [hnames name hmem]

/-- A minus sign in front of zero is not written. -/
theorem respelled_exponent (hinner : ∀ read unit, Inner read unit → Respelled Inner read unit)
    (h : UnitExponent Inner read unit) : Respelled (UnitExponent Inner) read unit := by
  cases h with
  | atom hatom =>
    obtain ⟨hderived, hnames⟩ := respelled_atom hinner hatom
    exact ⟨.atom hderived, hnames⟩
  | negInteger n =>
    cases n with
    | zero =>
      refine ⟨.atom (.integer 0), fun name hname => ?_⟩
      cases List.mem_singleton.1 hname
    | succ n => exact ⟨.negInteger (n + 1), fun _ h => h⟩
  | negReal x =>
    refine ⟨.atom (.real (-x)), fun name hname => ?_⟩
    cases List.mem_singleton.1 hname

theorem respelled_factor (hinner : ∀ read unit, Inner read unit → Respelled Inner read unit)
    {bare : Bool} (h : UnitFactor Inner bare read unit) :
    Respelled (UnitFactor Inner bare) read unit := by
  cases h with
  | atom hatom =>
    obtain ⟨hderived, hnames⟩ := respelled_atom hinner hatom
    exact ⟨.atom hderived, hnames⟩
  | @power read read' base exponent hbase hexponent =>
    obtain ⟨hderived, hnames⟩ := respelled_atom hinner hbase
    obtain ⟨hderived', hnames'⟩ := respelled_exponent hinner hexponent
    refine ⟨.power hderived hderived', fun name hname => ?_⟩
    have hmem : Token.Kind.identifier name ∈ base.spelling ∨
        Token.Kind.identifier name ∈ exponent.spelling := by
      simpa [spelling, UnitOp.kind] using hname
    rcases hmem with hmem | hmem
    · simp [hnames name hmem]
    · simp [hnames' name hmem]

end Productions

theorem respelled_nested {depth : Nat} {read : List Token.Kind} {unit : UnitExpr}
    (h : UnitNested depth read unit) : Respelled (UnitNested depth) read unit := by
  induction depth generalizing read unit with
  | zero => exact h.elim
  | succ depth ih =>
    induction h with
    | operand hfactor =>
      obtain ⟨bare, hfactor⟩ := hfactor
      obtain ⟨hderived, hnames⟩ := respelled_factor (fun _ _ => ih) hfactor
      exact ⟨.operand ⟨bare, hderived⟩, hnames⟩
    | @join read read' sign op left right _ hsign hfactor ihleft =>
      obtain ⟨bare, hfactor⟩ := hfactor
      obtain ⟨hderived, hnames⟩ := ihleft
      obtain ⟨hderived', hnames'⟩ := respelled_factor (fun _ _ => ih) hfactor
      obtain rfl : sign = op.kind := by
        simp only [unitSigns, List.mem_cons, Prod.mk.injEq, List.not_mem_nil, or_false] at hsign
        rcases hsign with ⟨rfl, rfl⟩ | ⟨rfl, rfl⟩ <;> rfl
      refine ⟨.join hderived hsign ⟨bare, hderived'⟩, fun name hname => ?_⟩
      rcases List.mem_append.1 hname with hmem | hmem
      · exact List.mem_append_left _ (hnames name hmem)
      · rcases List.mem_cons.1 hmem with hkind | hmem
        · cases op <;> cases hkind
        · exact List.mem_append_right _ (List.mem_cons_of_mem _ (hnames' name hmem))

/-- Some tokens are read as the tree. -/
def Shaped (unit : UnitExpr) : Prop := ∃ read, UnitExpression read unit.erase

/-- A tree that can be read is read from its spelling. -/
theorem Shaped.derived_spelling {unit : UnitExpr} (h : unit.Shaped) :
    UnitExpression unit.spelling unit.erase := by
  obtain ⟨read, depth, hunit⟩ := h
  rw [← spelling_erase]
  exact ⟨depth, (respelled_nested hunit).1⟩

/-- The names in the tree are names of the tokens that it was read from. -/
theorem identifier_mem_of_derived {unit : UnitExpr} {read : List Token.Kind}
    (h : UnitExpression read unit.erase) {name : String}
    (hname : .identifier name ∈ unit.spelling) : .identifier name ∈ read := by
  obtain ⟨depth, hunit⟩ := h
  rw [← spelling_erase] at hname
  exact (respelled_nested hunit).2 name hname

/-! ## Parts of trees -/

/-- An atom by itself can be read. -/
theorem unitExpression_of_atom {depth : Nat} {read : List Token.Kind} {unit : UnitExpr}
    (h : UnitAtom (UnitNested depth) read unit) : UnitExpression read unit :=
  (UnitFactor.atom h).unitExpression

/-- The left operand can be read by itself.  So can the right one, unless it is
the number behind a `^`, which can have a sign. -/
theorem Shaped.operands {op : UnitOp} {left right : UnitExpr} {span : Span}
    (h : (UnitExpr.binary op left right span).Shaped) :
    left.Shaped ∧ (right.Shaped ∨ ∃ value span, right = .number value span) := by
  obtain ⟨read, depth, hunit⟩ := h
  cases depth with
  | zero => exact hunit.elim
  | succ depth =>
    generalize hwhole : (UnitExpr.binary op left right span).erase = whole at hunit
    cases hunit with
    | operand hfactor =>
      obtain ⟨bare, hfactor⟩ := hfactor
      cases hfactor with
      | atom hatom => cases hatom <;> cases hwhole
      | @power read read' base exponent hbase hexponent =>
        obtain ⟨_, rfl, rfl, _⟩ := UnitExpr.binary.inj hwhole
        refine ⟨⟨_, unitExpression_of_atom hbase⟩, ?_⟩
        generalize hright : right.erase = exponent at hexponent
        cases hexponent with
        | atom hatom =>
          rw [← hright] at hatom
          exact .inl ⟨_, unitExpression_of_atom hatom⟩
        | negInteger n =>
          cases right with
          | number value span => exact .inr ⟨value, span, rfl⟩
          | _ => cases hright
        | negReal x =>
          cases right with
          | number value span => exact .inr ⟨value, span, rfl⟩
          | _ => cases hright
    | join hleft _ hfactor =>
      obtain ⟨bare, hfactor⟩ := hfactor
      obtain ⟨_, rfl, rfl, _⟩ := UnitExpr.binary.inj hwhole
      exact ⟨⟨_, depth + 1, hleft⟩, .inl ⟨_, hfactor.unitExpression⟩⟩

theorem Shaped.inner {inner : UnitExpr} {span : Span} (h : (UnitExpr.group inner span).Shaped) :
    inner.Shaped := by
  obtain ⟨read, depth, hunit⟩ := h
  cases depth with
  | zero => exact hunit.elim
  | succ depth =>
    generalize hwhole : (UnitExpr.group inner span).erase = whole at hunit
    cases hunit with
    | operand hfactor =>
      obtain ⟨bare, hfactor⟩ := hfactor
      cases hfactor with
      | atom hatom =>
        cases hatom with
        | group hinner =>
          obtain ⟨rfl, _⟩ := UnitExpr.group.inj hwhole
          exact ⟨_, depth, hinner⟩
        | _ => cases hwhole
      | power _ _ => cases hwhole
    | join _ _ _ => cases hwhole

/-- The parts of a tree that can be read can be read by themselves, but for
numbers. -/
theorem shaped_of_mem_parts {unit part : UnitExpr} (hpart : part ∈ unit.parts)
    (h : unit.Shaped ∨ ∃ value span, unit = .number value span) :
    part.Shaped ∨ ∃ value span, part = .number value span := by
  induction unit with
  | symbol name span =>
    rw [List.mem_singleton.1 hpart]
    exact h
  | number value span =>
    rw [List.mem_singleton.1 hpart]
    exact h
  | binary op left right span ihl ihr =>
    rcases List.mem_cons.1 hpart with rfl | hpart
    · exact h
    obtain hshaped | ⟨value, span, hnumber⟩ := h
    · obtain ⟨hleft, hright⟩ := hshaped.operands
      rcases List.mem_append.1 hpart with hpart | hpart
      · exact ihl hpart (.inl hleft)
      · exact ihr hpart hright
    · cases hnumber
  | group inner span ih =>
    rcases List.mem_cons.1 hpart with rfl | hpart
    · exact h
    obtain hshaped | ⟨value, span, hnumber⟩ := h
    · exact ih hpart (.inl hshaped.inner)
    · cases hnumber

theorem mem_spelling_of_mem_parts {unit part : UnitExpr} (hpart : part ∈ unit.parts)
    {kind : Token.Kind} (hkind : kind ∈ part.spelling) : kind ∈ unit.spelling := by
  induction unit with
  | symbol name span =>
    rw [← List.mem_singleton.1 hpart]
    exact hkind
  | number value span =>
    rw [← List.mem_singleton.1 hpart]
    exact hkind
  | binary op left right span ihl ihr =>
    rcases List.mem_cons.1 hpart with rfl | hpart
    · exact hkind
    rcases List.mem_append.1 hpart with hpart | hpart
    · exact List.mem_append_left _ (ihl hpart)
    · exact List.mem_append_right _ (List.mem_cons_of_mem _ (ihr hpart))
  | group inner span ih =>
    rcases List.mem_cons.1 hpart with rfl | hpart
    · exact hkind
    · exact List.mem_cons_of_mem _ (List.mem_append_left _ (ih hpart))

/-! ## The text as tokens -/

/-- The text shows what is in the tree: names are names, and numbers are
integers in range. -/
def Writable : UnitExpr → Prop
  | .symbol name _ => Token.IsName name
  | .number (.integer n) _ => Number.inRange n.natAbs = true
  | .number (.real _) _ => False
  | .binary _ left right _ => left.Writable ∧ right.Writable
  | .group inner _ => inner.Writable

theorem toList_text_negSucc (n : Nat) :
    (UnitNumber.integer (.negSucc n)).text.toList = '-' :: (n + 1).repr.toList := by
  change ("-" ++ (n + 1).repr).toList = _
  rw [String.toList_append]
  rfl

theorem toList_text_group (inner : UnitExpr) (span : Span) :
    (UnitExpr.group inner span).text.toList = '(' :: (inner.text.toList ++ [')']) := by
  simp only [text, String.toList_append]
  rfl

/-- No unit expression starts like a comment. -/
theorem text_starts {unit : UnitExpr} (h : unit.Writable) :
    ∃ c rest, unit.text.toList = c :: rest ∧ c ≠ '/' := by
  induction unit with
  | symbol name span =>
    obtain ⟨c, rest, hname, hstart⟩ := Token.IsName.starts h
    have hword := Cursor.continuesWord_of_startsWord hstart
    exact ⟨c, rest, hname, Cursor.ne_of_continuesWord hword (by decide)⟩
  | number value span =>
    cases value with
    | real x => exact h.elim
    | integer n =>
      cases n with
      | ofNat n =>
        obtain ⟨c, rest, hrepr, hdigit⟩ := Cursor.repr_starts n
        have hword := Cursor.continuesWord_of_isDigit hdigit
        exact ⟨c, rest, hrepr, Cursor.ne_of_continuesWord hword (by decide)⟩
      | negSucc n => exact ⟨'-', _, toList_text_negSucc n, by decide⟩
  | binary op left right span ihl _ =>
    obtain ⟨c, rest, hleft, hc⟩ := ihl h.1
    refine ⟨c, rest ++ (op.text ++ right.text).toList, ?_, hc⟩
    simp only [text, String.toList_append, hleft, List.cons_append, List.append_assoc]
  | group inner span _ => exact ⟨'(', _, toList_text_group inner span, by decide⟩

theorem spells_number {n : Int} (h : Number.inRange n.natAbs = true) {rest : List Char}
    {kinds : List Token.Kind} (hrest : Cursor.Spells rest kinds)
    (hdetached : Cursor.Detaches rest) :
    Cursor.Spells ((UnitNumber.integer n).text.toList ++ rest) (integerSpelling n ++ kinds) := by
  cases n with
  | ofNat n => exact .cons (Cursor.scans_integer h hdetached) hrest
  | negSucc n =>
    rw [toList_text_negSucc]
    exact .sign rfl (by decide) (.cons (Cursor.scans_integer h hdetached) hrest)

/-- The text of a unit expression is put together from its tokens. -/
theorem spells_text {unit : UnitExpr} (h : unit.Writable) {rest : List Char}
    {kinds : List Token.Kind} (hrest : Cursor.Spells rest kinds)
    (hdetached : Cursor.Detaches rest) :
    Cursor.Spells (unit.text.toList ++ rest) (unit.spelling ++ kinds) := by
  induction unit generalizing rest kinds with
  | symbol name span => exact .cons (Cursor.scans_name h hdetached) hrest
  | number value span =>
    cases value with
    | real x => exact h.elim
    | integer n => exact spells_number h hrest hdetached
  | binary op left right span ihl ihr =>
    have hright := ihr h.2 hrest hdetached
    obtain ⟨c, more, htext, hc⟩ := text_starts h.2
    have hcomment : (right.text.toList ++ rest).head? ≠ some '/' := by
      rw [htext]
      exact fun hhead => hc (Option.some.inj hhead)
    obtain ⟨sign, hsign, hkind, hword, hpoint⟩ : ∃ sign, op.text.toList = [sign] ∧
        Cursor.sign? sign = some op.kind ∧ Cursor.continuesWord sign = false ∧ sign ≠ '.' := by
      cases op <;> exact ⟨_, rfl, rfl, by decide, by decide⟩
    have hjoined := Cursor.Spells.cons (Cursor.scans_sign hkind fun _ => hcomment) hright
    have hall := ihl h.1 hjoined (Cursor.detaches_cons hword hpoint)
    simpa only [text, spelling, String.toList_append, hsign, List.append_assoc, List.cons_append,
      List.nil_append] using hall
  | group inner span ih =>
    have hclosed : Cursor.Spells (')' :: rest) (.rightParen :: kinds) :=
      .sign rfl (by decide) hrest
    have hinner := ih h hclosed (Cursor.detaches_cons (by decide) (by decide))
    have hall : Cursor.Spells ('(' :: _) (.leftParen :: _) := .sign rfl (by decide) hinner
    simpa only [toList_text_group, spelling, List.append_assoc, List.cons_append,
      List.nil_append] using hall

/-! ## Reading the text back -/

/-- The end of the file is not inside an expression. -/
theorem ne_endOfFile_of_proper {body : List Token} (h : Proper (body.map (·.kind))) :
    ∀ token ∈ body, token.kind ≠ .endOfFile := by
  intro token htoken hend
  have hwithin := h.within token.kind (List.mem_map_of_mem htoken)
  rw [hend] at hwithin
  exact hwithin

/-- The text of a unit expression is read without a complaint, as the unit
expression that it is the text of, and nothing of it is left over. -/
theorem unitExpr_text {unit : UnitExpr} (hshaped : unit.Shaped) (h : unit.Writable)
    (name : String) {fuel : Nat} :
    let lexed := Source.lex ⟨name, unit.text⟩
    let stream := TokenStream.ofTokens lexed.tokens
    lexed.log = ∅ ∧
      (stream.rest.length ≤ fuel →
        ∃ read last, Parse.unitExpr fuel stream = .ok read last ∧ read.erase = unit.erase ∧
          last.rest = []) := by
  intro lexed stream
  have hspells : Cursor.Spells unit.text.toList unit.spelling := by
    have hall := spells_text h .nil fun _ hhead => by cases hhead
    simpa only [List.append_nil] using hall
  obtain ⟨hlog, body, last, htokens, hbody, hlast⟩ :=
    Source.lex_of_spells ⟨name, unit.text⟩ hspells
  obtain ⟨depth, hderived⟩ := hshaped.derived_spelling
  have hkinds : stream.kinds = unit.spelling ++ [] := by
    have hinside := ne_endOfFile_of_proper (hbody ▸ hderived.proper)
    rw [List.append_nil, ← hbody, ← TokenStream.kinds_ofTokens hinside hlast, ← htokens]
  refine ⟨hlog, fun hfuel => ?_⟩
  have hlength : stream.kinds.length ≤ fuel := by
    rw [TokenStream.kinds, List.length_map]
    exact hfuel
  obtain ⟨read, last, heq, herase, hlast⟩ := (Parse.complete_unitExpr depth fuel stream
    unit.spelling [] unit.erase hkinds hlength
    ⟨hderived, Parse.closesUnit_endOfFile⟩).exists_ok
  exact ⟨read, last, heq, herase, List.map_eq_nil_iff.1 hlast⟩

end UnitExpr

end UnitScript
