import UnitScript.Heap
import UnitScript.Number.Integer
import UnitScript.Number.Text

/-!
# Values

A `Value ρ` is what an expression evaluates to.  Strings are held by
reference, and `ρ` is the type of the references: scripts run with pointers
into the heap.

* `number?` is the real that a numeric value stands for; the accessors
  `toReal`, `toInteger`, `toBoolean` and `toPointer` fail with a type error.
* `equals` compares as a script does: integers and reals by their value, all
  else only within one kind.
-/

namespace UnitScript

/-- The kind of a value. -/
inductive Value.Kind where
  | none
  | integer
  | real
  | pointer
  | boolean
  | character
deriving DecidableEq

/-- A value whose strings are held by references of type `ρ`. -/
inductive Value (ρ : Type) where
  | nothing
  | integer (n : Int)
  | real (x : Float)
  | pointer (p : ρ)
  | boolean (b : Bool)
  | character (c : Char)
deriving DecidableEq

namespace Value

/-- How messages name a kind. -/
def Kind.text : Kind → String
  | .none => "None"
  | .integer => "Integer"
  | .real => "Real"
  | .pointer => "Pointer"
  | .boolean => "Boolean"
  | .character => "Character"

/-- Whether values of a kind are numbers. -/
def Kind.isNumeric (kind : Kind) : Bool := kind = .integer || kind = .real

/-- What an operation wanted to find. -/
inductive Wanted where
  | number
  | boolean
  | pointer
deriving DecidableEq

/-- How messages name what was wanted. -/
def Wanted.text : Wanted → String
  | .number => "a number"
  | .boolean => "a boolean"
  | .pointer => "a pointer"

/-- A value of the wrong kind. -/
structure Mismatch where
  wanted : Wanted
  found : Kind
deriving DecidableEq

/-- The wording of a type error. -/
def Mismatch.message (e : Mismatch) : String :=
  "type error: expected " ++ e.wanted.text ++ ", found " ++ e.found.text

variable {ρ : Type}

instance : Inhabited (Value ρ) := ⟨.nothing⟩

/-- The kind of a value. -/
def kind : Value ρ → Kind
  | .nothing => .none
  | .integer _ => .integer
  | .real _ => .real
  | .pointer _ => .pointer
  | .boolean _ => .boolean
  | .character _ => .character

/-- Whether the value is the absence of one. -/
def isNothing : Value ρ → Bool
  | .nothing => true
  | _ => false

/-- Whether the value is a number. -/
def isNumeric (v : Value ρ) : Bool := v.kind.isNumeric

/-- The real that a numeric value stands for. -/
def number? : Value ρ → Option Float
  | .integer n => some (Float.ofInt n)
  | .real x => some x
  | _ => none

/-- The value as a real. -/
def toReal (v : Value ρ) : Except Mismatch Float :=
  match v.number? with
  | some x => .ok x
  | none => .error ⟨.number, v.kind⟩

/-- The value as an integer.  Reals lose what is behind the point. -/
def toInteger : Value ρ → Except Mismatch Int
  | .integer n => .ok n
  | .real x => .ok (Number.saturate x)
  | v => .error ⟨.number, v.kind⟩

/-- The value as a truth value.  Numbers are true unless they are zero,
pointers unless they are null. -/
def toBoolean : Value Pointer → Except Mismatch Bool
  | .boolean b => .ok b
  | .integer n => .ok (n != 0)
  | .real x => .ok (x != 0.0)
  | .pointer p => .ok !p.isNull
  | v => .error ⟨.boolean, v.kind⟩

/-- The value as a pointer. -/
def toPointer : Value ρ → Except Mismatch ρ
  | .pointer p => .ok p
  | v => .error ⟨.pointer, v.kind⟩

/-- Whether two values are equal for a script: two values of one kind with
equal content, or two numbers that stand for equal reals. -/
def equals [DecidableEq ρ] : Value ρ → Value ρ → Bool
  | .nothing, .nothing => true
  | .integer a, .integer b => a = b
  | .pointer a, .pointer b => a = b
  | .boolean a, .boolean b => a = b
  | .character a, .character b => a = b
  | a, b =>
      match a.number?, b.number? with
      | some x, some y => x == y
      | _, _ => false

/-- How a value is shown: numbers by their digits, references by their name,
all else by its kind. -/
def text [ToString ρ] : Value ρ → String
  | .integer n => toString n
  | .real x => Number.realText x
  | .pointer p => toString p
  | v => "[" ++ v.kind.text ++ "]"

end Value

end UnitScript
