import UnitScript.Proofs.Grammar.Reading
import UnitScript.UnitExpr.Parser

/-!
# The grammar of unit expressions

```text
unit     = factor { ("*" | "/") factor }
factor   = atom [ "^" exponent ]
atom     = identifier | number | "(" unit ")"
exponent = "-" number | atom
```

The productions as relations between the kinds of tokens and the tree without
its spans, and the parser measured against them.

* `UnitAtom`, `UnitExponent` and `UnitFactor` are the productions, over what
  may stand in parentheses.  `UnitNested` closes them over a number of nested
  parentheses, and `UnitExpression` leaves that number open.
* A factor is bare when it is an atom alone.  A `^` behind it would belong to
  it, so the parser must not find one there.
* `sound_unitExpr` and `complete_unitExpr` are the two directions for a unit
  expression, `sound_unitFactor` and `complete_unitFactor` for one factor.
-/

namespace UnitScript

/-- The span of trees whose spans are erased. -/
def Span.nowhere : Span := .point .origin

/-- The unit expression without its spans. -/
def UnitExpr.erase : UnitExpr → UnitExpr
  | .symbol name _ => .symbol name .nowhere
  | .number value _ => .number value .nowhere
  | .binary op left right _ => .binary op left.erase right.erase .nowhere
  | .group inner _ => .group inner.erase .nowhere

namespace Grammar

variable (Inner : List Token.Kind → UnitExpr → Prop)

/-- `identifier | number | "(" unit ")"` -/
inductive UnitAtom : List Token.Kind → UnitExpr → Prop
  | symbol (name : String) : UnitAtom [.identifier name] (.symbol name .nowhere)
  | integer (n : Nat) : UnitAtom [.integer n] (.number (.integer n) .nowhere)
  | real (x : Float) : UnitAtom [.real x] (.number (.real x) .nowhere)
  | group {read unit} : Inner read unit →
      UnitAtom (.leftParen :: (read ++ [.rightParen])) (.group unit .nowhere)

/-- `"-" number | atom` -/
inductive UnitExponent : List Token.Kind → UnitExpr → Prop
  | atom {read unit} : UnitAtom Inner read unit → UnitExponent read unit
  | negInteger (n : Nat) : UnitExponent [.minus, .integer n] (.number (.integer (-n)) .nowhere)
  | negReal (x : Float) : UnitExponent [.minus, .real x] (.number (.real (-x)) .nowhere)

/-- `atom [ "^" exponent ]`.  The flag says whether the factor is an atom
alone. -/
inductive UnitFactor : Bool → List Token.Kind → UnitExpr → Prop
  | atom {read unit} : UnitAtom Inner read unit → UnitFactor true read unit
  | power {read read' base exponent} : UnitAtom Inner read base →
      UnitExponent Inner read' exponent →
      UnitFactor false (read ++ .caret :: read') (.binary .pow base exponent .nowhere)

/-- The signs between factors. -/
def unitSigns : List (Token.Kind × UnitOp) := [(.star, .mul), (.slash, .div)]

/-- `factor { ("*" | "/") factor }`, with fewer than `depth` parentheses inside
each other. -/
def UnitNested : (depth : Nat) → List Token.Kind → UnitExpr → Prop
  | 0 => fun _ _ => False
  | depth + 1 => Chain unitSigns (fun read unit => ∃ bare, UnitFactor (UnitNested depth) bare read unit)
      fun op left right => .binary op left right .nowhere

/-- A unit expression.  Its parentheses may nest as deep as they like. -/
def UnitExpression (read : List Token.Kind) (unit : UnitExpr) : Prop := ∃ depth, UnitNested depth read unit

variable {Inner} {read : List Token.Kind} {unit : UnitExpr}

theorem within_of_mem_unitSigns (k : Token.Kind) (op : UnitOp) (h : (k, op) ∈ unitSigns) :
    Within k := by
  simp only [unitSigns, List.mem_cons, Prod.mk.injEq, List.not_mem_nil, or_false] at h
  rcases h with ⟨rfl, _⟩ | ⟨rfl, _⟩ <;> trivial

theorem UnitAtom.proper (hinner : ∀ read unit, Inner read unit → Proper read)
    (h : UnitAtom Inner read unit) : Proper read := by
  cases h with
  | symbol name => exact proper_cons trivial nofun nofun
  | integer n => exact proper_cons trivial nofun nofun
  | real x => exact proper_cons trivial nofun nofun
  | group hunit =>
    refine proper_cons trivial nofun (List.forall_mem_append.2 ⟨(hinner _ _ hunit).within, ?_⟩)
    exact List.forall_mem_singleton.2 trivial

theorem UnitExponent.within (hinner : ∀ read unit, Inner read unit → Proper read)
    (h : UnitExponent Inner read unit) : ∀ k ∈ read, Within k := by
  cases h with
  | atom hatom => exact (hatom.proper hinner).within
  | negInteger n => exact List.forall_mem_cons.2 ⟨trivial, List.forall_mem_singleton.2 trivial⟩
  | negReal x => exact List.forall_mem_cons.2 ⟨trivial, List.forall_mem_singleton.2 trivial⟩

theorem UnitFactor.proper (hinner : ∀ read unit, Inner read unit → Proper read) {bare : Bool}
    (h : UnitFactor Inner bare read unit) : Proper read := by
  cases h with
  | atom hatom => exact hatom.proper hinner
  | power hatom hexponent =>
    exact (hatom.proper hinner).append (List.forall_mem_cons.2 ⟨trivial, hexponent.within hinner⟩)

theorem UnitNested.proper {depth : Nat} (h : UnitNested depth read unit) : Proper read := by
  induction depth generalizing read unit with
  | zero => exact h.elim
  | succ depth ih =>
    refine Chain.proper h within_of_mem_unitSigns ?_
    rintro read unit ⟨bare, hfactor⟩
    exact hfactor.proper fun _ _ => ih

end Grammar

namespace Parse

open Grammar

variable {Inner : List Token.Kind → UnitExpr → Prop} {inner : Parse UnitExpr}

theorem unitOp?_eq_some_iff (k : Token.Kind) (op : UnitOp) :
    unitOp? k = some op ↔ (k, op) ∈ unitSigns := by
  cases k <;> cases op <;> simp [unitOp?, unitSigns]

/-! ## What is read is derived -/

section Soundness

variable (hinner : Sound UnitExpr.erase (fun read _ unit => Inner read unit) inner)

include hinner

theorem sound_unitAtom :
    Sound UnitExpr.erase (fun read _ unit => UnitAtom Inner read unit) (unitAtom inner) := by
  intro s
  unfold unitAtom
  rw [peek_bind]
  cases hkind : s.kind with
  | identifier name =>
    exact ⟨[.identifier name], TokenStream.kinds_of_kind hkind nofun, .symbol name⟩
  | integer n => exact ⟨[.integer n], TokenStream.kinds_of_kind hkind nofun, .integer n⟩
  | real x => exact ⟨[.real x], TokenStream.kinds_of_kind hkind nofun, .real x⟩
  | leftParen =>
    have hkinds := TokenStream.kinds_of_kind hkind nofun
    refine (hinner s.advance).bind fun unit s' hunit => ?_
    obtain ⟨read, hread, hunit⟩ := hunit
    rw [expect_bind]
    split
    · next hclose =>
        refine ⟨.leftParen :: (read ++ [.rightParen]), ?_, .group hunit⟩
        rw [hkinds, hread, TokenStream.kinds_of_kind hclose nofun]
        simp
    · rfl
  | _ => rfl

theorem sound_unitExponent :
    Sound UnitExpr.erase (fun read _ unit => UnitExponent Inner read unit)
      (unitExponent inner) := by
  intro s
  have hatom : Sound UnitExpr.erase (fun read _ unit => UnitExponent Inner read unit)
      (unitAtom inner) := (sound_unitAtom hinner).mono fun _ _ _ => .atom
  unfold unitExponent
  rw [peek_bind]
  cases hkind : s.kind with
  | minus =>
    have hkinds := TokenStream.kinds_of_kind hkind nofun
    simp only [advance_bind, peek_bind]
    cases hnext : s.advance.kind with
    | integer n =>
      refine ⟨[.minus, .integer n], ?_, .negInteger n⟩
      rw [hkinds, TokenStream.kinds_of_kind hnext nofun]
      rfl
    | real x =>
      refine ⟨[.minus, .real x], ?_, .negReal x⟩
      rw [hkinds, TokenStream.kinds_of_kind hnext nofun]
      rfl
    | _ => rfl
  | _ => exact hatom s

theorem sound_unitFactorWith :
    Sound UnitExpr.erase
      (fun read next unit => ∃ bare, UnitFactor Inner bare read unit ∧
        (bare = true → next ≠ .caret))
      (unitFactorWith inner) := by
  intro s
  refine (sound_unitAtom hinner s).bind fun base s' hbase => ?_
  obtain ⟨read, hread, hbase⟩ := hbase
  rw [eat_bind]
  split
  · next hcaret =>
      refine (sound_unitExponent hinner s'.advance).bind fun exponent s'' hexponent => ?_
      obtain ⟨read', hread', hexponent⟩ := hexponent
      refine ⟨read ++ .caret :: read', ?_, false, .power hbase hexponent, nofun⟩
      rw [hread, TokenStream.kinds_of_kind hcaret nofun, hread']
      simp
  · next hcaret => exact ⟨read, hread, true, .atom hbase, fun _ => hcaret⟩

end Soundness

/-- A unit expression that is read is derived. -/
theorem sound_unitExpr (fuel : Nat) :
    Sound UnitExpr.erase (fun read _ unit => UnitNested fuel read unit) (unitExpr fuel) := by
  induction fuel with
  | zero =>
    intro s
    rfl
  | succ fuel ih =>
    refine sound_leftAssoc unitOp?_eq_some_iff rfl (fun _ _ _ => rfl) ?_ fuel
    exact (sound_unitFactorWith ih).mono fun _ _ _ ⟨bare, hfactor, _⟩ => ⟨bare, hfactor⟩

/-- A unit factor that is read is derived. -/
theorem sound_unitFactor (fuel : Nat) :
    Sound UnitExpr.erase
      (fun read next unit => ∃ bare, UnitFactor (UnitNested fuel) bare read unit ∧
        (bare = true → next ≠ .caret))
      (unitFactor fuel) :=
  sound_unitFactorWith (sound_unitExpr fuel)

/-! ## What is derived is read -/

/-- A unit expression does not go on with this token. -/
def ClosesUnit (next : Token.Kind) : Prop := next ≠ .caret ∧ unitOp? next = none

theorem closesUnit_rightParen : ClosesUnit .rightParen := ⟨nofun, rfl⟩

theorem closesUnit_rightBracket : ClosesUnit .rightBracket := ⟨nofun, rfl⟩

theorem closesUnit_endOfFile : ClosesUnit .endOfFile := ⟨nofun, rfl⟩

section Completeness

variable {bound : Nat}
  (hinner : Complete bound UnitExpr.erase (fun read next unit => Inner read unit ∧ ClosesUnit next)
    inner)

include hinner

theorem complete_unitAtom :
    Complete (bound + 1) UnitExpr.erase (fun read _ unit => UnitAtom Inner read unit)
      (unitAtom inner) := by
  intro s read rest unit hkinds hbound hunit
  unfold unitAtom
  rw [peek_bind]
  cases hunit with
  | symbol name =>
    rw [TokenStream.kind_of_kinds hkinds]
    exact ⟨rfl, TokenStream.kinds_advance_of_cons hkinds⟩
  | integer n =>
    rw [TokenStream.kind_of_kinds hkinds]
    exact ⟨rfl, TokenStream.kinds_advance_of_cons hkinds⟩
  | real x =>
    rw [TokenStream.kind_of_kinds hkinds]
    exact ⟨rfl, TokenStream.kinds_advance_of_cons hkinds⟩
  | @group read unit hunit =>
    have hadvanced : s.advance.kinds = read ++ .rightParen :: rest := by
      rw [TokenStream.kinds_advance, hkinds]
      simp
    have hlength : s.advance.kinds.length ≤ bound := by
      rw [TokenStream.kinds_advance, List.length_tail]
      omega
    rw [TokenStream.kind_of_kinds hkinds]
    refine (hinner s.advance read _ unit hadvanced hlength ⟨hunit, closesUnit_rightParen⟩).bind
      fun unit' s' hread => ?_
    obtain ⟨hunit', hs'⟩ := hread
    rw [expect_bind, if_pos (TokenStream.kind_of_kinds hs')]
    refine ⟨congrArg (UnitExpr.group · .nowhere) hunit', ?_⟩
    exact TokenStream.kinds_advance_of_cons hs'

theorem complete_unitExponent :
    Complete (bound + 1) UnitExpr.erase (fun read _ unit => UnitExponent Inner read unit)
      (unitExponent inner) := by
  intro s read rest unit hkinds hbound hunit
  cases hunit with
  | atom hatom =>
    have hread := complete_unitAtom hinner s read rest unit hkinds hbound hatom
    have hkind : s.kind ≠ .minus := by
      cases hatom <;> rw [TokenStream.kind_of_kinds hkinds] <;> exact nofun
    unfold unitExponent
    rw [peek_bind]
    cases hcase : s.kind with
    | minus => exact absurd hcase hkind
    | _ => exact hread
  | negInteger n =>
    have hadvanced : s.advance.kinds = .integer n :: rest :=
      TokenStream.kinds_advance_of_cons hkinds
    unfold unitExponent
    rw [peek_bind, TokenStream.kind_of_kinds hkinds]
    simp only [advance_bind, peek_bind]
    rw [TokenStream.kind_of_kinds hadvanced]
    exact ⟨rfl, TokenStream.kinds_advance_of_cons hadvanced⟩
  | negReal x =>
    have hadvanced : s.advance.kinds = .real x :: rest :=
      TokenStream.kinds_advance_of_cons hkinds
    unfold unitExponent
    rw [peek_bind, TokenStream.kind_of_kinds hkinds]
    simp only [advance_bind, peek_bind]
    rw [TokenStream.kind_of_kinds hadvanced]
    exact ⟨rfl, TokenStream.kinds_advance_of_cons hadvanced⟩

theorem complete_unitFactorWith :
    Complete (bound + 1) UnitExpr.erase
      (fun read next unit => ∃ bare, UnitFactor Inner bare read unit ∧
        (bare = true → next ≠ .caret))
      (unitFactorWith inner) := by
  intro s read rest unit hkinds hbound hunit
  obtain ⟨bare, hfactor, hnext⟩ := hunit
  unfold unitFactorWith
  cases hfactor with
  | atom hatom =>
    refine (complete_unitAtom hinner s read rest unit hkinds hbound hatom).bind
      fun base s' hbase => ?_
    rw [eat_bind, TokenStream.kind_eq, hbase.2, if_neg (hnext rfl)]
    exact hbase
  | @power read read' base exponent hatom hexponent =>
    have hsplit : s.kinds = read ++ (.caret :: read' ++ rest) := by
      rw [hkinds, List.append_assoc]
    refine (complete_unitAtom hinner s read _ base hsplit hbound hatom).bind
      fun base' s' hbase => ?_
    obtain ⟨hbase', hs'⟩ := hbase
    have hadvanced : s'.advance.kinds = read' ++ rest :=
      TokenStream.kinds_advance_of_cons hs'
    have hlength : s'.advance.kinds.length ≤ bound + 1 := by
      rw [hadvanced]
      rw [hsplit] at hbound
      simp only [List.length_append, List.length_cons] at hbound ⊢
      omega
    rw [eat_bind, if_pos (TokenStream.kind_of_kinds hs')]
    refine (complete_unitExponent hinner s'.advance read' rest exponent hadvanced hlength
      hexponent).bind fun exponent' s'' hread => ?_
    obtain ⟨hexponent', hs''⟩ := hread
    refine ⟨?_, hs''⟩
    rw [← hbase', ← hexponent']
    rfl

end Completeness

/-- A unit expression that is derived is read. -/
theorem complete_unitExpr (depth fuel : Nat) :
    Complete fuel UnitExpr.erase (fun read next unit => UnitNested depth read unit ∧ ClosesUnit next)
      (unitExpr fuel) := by
  induction depth generalizing fuel with
  | zero =>
    intro s read rest unit _ _ hunit
    exact hunit.1.elim
  | succ depth ih =>
    cases fuel with
    | zero =>
      intro s read rest unit hkinds hbound hunit
      have hpos := List.length_pos_iff.2 hunit.1.proper.ne_nil
      rw [hkinds, List.length_append] at hbound
      omega
    | succ fuel =>
      have hfactor : Complete (fuel + 1) UnitExpr.erase
          (fun read next unit => (∃ bare, UnitFactor (UnitNested depth) bare read unit) ∧
            next ≠ .caret)
          (unitFactorWith (unitExpr fuel)) :=
        (complete_unitFactorWith (ih fuel)).mono (Nat.le_refl _)
          fun _ _ _ ⟨⟨bare, hfactor⟩, hnext⟩ => ⟨bare, hfactor, fun _ => hnext⟩
      refine (complete_leftAssoc unitOp?_eq_some_iff (fun _ _ _ => rfl) ?_ ?_ hfactor
        (Nat.le_refl _)).mono (Nat.le_refl _) fun _ _ _ hunit => hunit
      · intro k op hsign
        simp only [unitSigns, List.mem_cons, Prod.mk.injEq, List.not_mem_nil, or_false] at hsign
        rcases hsign with ⟨rfl, _⟩ | ⟨rfl, _⟩ <;> exact nofun
      · rintro read unit ⟨bare, hfactor⟩
        exact (hfactor.proper fun _ _ => UnitNested.proper).ne_nil

/-- A unit factor that is derived is read. -/
theorem complete_unitFactor (depth fuel : Nat) :
    Complete (fuel + 1) UnitExpr.erase
      (fun read next unit => ∃ bare, UnitFactor (UnitNested depth) bare read unit ∧
        (bare = true → next ≠ .caret))
      (unitFactor fuel) :=
  complete_unitFactorWith (complete_unitExpr depth fuel)

end Parse

end UnitScript
