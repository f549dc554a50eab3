/-!
# Positions and spans

A `Position` is a line and a column, both counted from one, and positions are
ordered as they follow each other in a text.  A `Span` goes from its first to
its last position, both included.

* `Span.point` is the span of one position.
* `Span.join` is the smallest span that covers two others.
-/

namespace UnitScript

/-- A place in a text: a line and a column, both counted from one. -/
structure Position where
  line : Nat
  column : Nat
deriving DecidableEq

namespace Position

/-- Lines decide first, columns within one line. -/
protected def Le (a b : Position) : Prop :=
  a.line < b.line ∨ a.line = b.line ∧ a.column ≤ b.column

instance : LE Position := ⟨Position.Le⟩

instance (a b : Position) : Decidable (a ≤ b) :=
  inferInstanceAs (Decidable (a.line < b.line ∨ a.line = b.line ∧ a.column ≤ b.column))

instance : Min Position := minOfLe

instance : Max Position := maxOfLe

/-- The first position of a text. -/
def origin : Position := ⟨1, 1⟩

/-- A position as `line:column`. -/
def text (p : Position) : String :=
  toString p.line ++ ":" ++ toString p.column

end Position

/-- A range of a text, from its first to its last position. -/
structure Span where
  first : Position
  last : Position
deriving DecidableEq

namespace Span

/-- The span of one position. -/
def point (p : Position) : Span := ⟨p, p⟩

/-- The smallest span that covers both. -/
def join (a b : Span) : Span := ⟨min a.first b.first, max a.last b.last⟩

/-- Whether the span starts and ends on one line. -/
def isSingleLine (s : Span) : Bool := s.first.line == s.last.line

/-- A span is shown by where it starts. -/
def text (s : Span) : String := s.first.text

end Span

end UnitScript
