/-!
# JSON values

A `Json` value keeps the fields of an object in the order they are written.
Whole numbers are integers; any other number is kept as it is spelled.

* `field?` looks a field up, `fields?` reads a record, and `leadingFields?` a
  record of which fields may be left out.
* `nat?`, `string?`, `bool?`, `list?` read single values, and `variant?` a name
  out of a fixed set.
-/

namespace UnitScript

/-- A JSON value. -/
inductive Json where
  | null
  | bool (b : Bool)
  | integer (n : Int)
  /-- A number with a fraction or an exponent, or negative zero. -/
  | decimal (spelling : String)
  | string (s : String)
  | array (elements : List Json)
  | object (fields : List (String × Json))

namespace Json

/-- The last value of a field among `fields`. -/
def lookup (key : String) (fields : List (String × Json)) : Option Json :=
  fields.reverse.lookup key

/-- The value of a field of an object. -/
def field? (key : String) : Json → Option Json
  | .object fields => lookup key fields
  | _ => none

/-- The values of a record with the given keys: an object, of which other
fields are ignored, or an array with as many elements as there are keys. -/
def fields? (keys : List String) : Json → Option (List (Option Json))
  | .object fields => some (keys.map fun key => lookup key fields)
  | .array elements =>
      if elements.length = keys.length then some (elements.map some) else none
  | _ => none

/-- The values of a record of which every field may be left out: an object, or
an array whose elements stand for the first keys. -/
def leadingFields? (keys : List String) : Json → Option (List (Option Json))
  | .object fields => some (keys.map fun key => lookup key fields)
  | .array elements =>
      if elements.length ≤ keys.length then
        some (elements.map some ++ List.replicate (keys.length - elements.length) none)
      else none
  | _ => none

/-- A whole number that is at least zero and less than `bound`. -/
def nat? (bound : Nat) : Json → Option Nat
  | .integer n => if 0 ≤ n ∧ n < bound then some n.toNat else none
  | _ => none

/-- Counts are less than this, so that they fit in 64 bits. -/
def countBound : Nat := 18446744073709551616

/-- A string. -/
def string? : Json → Option String
  | .string s => some s
  | _ => none

/-- A truth value. -/
def bool? : Json → Option Bool
  | .bool b => some b
  | _ => none

/-- A list of values that `read` accepts. -/
def list? {α : Type} (read : Json → Option α) : Json → Option (List α)
  | .array elements => elements.mapM read
  | _ => none

/-- A name out of a fixed set: a string, or an object with null under the name
as its only field. -/
def variant? : Json → Option String
  | .string s => some s
  | .object [(name, .null)] => some name
  | _ => none

/-- A field that may be missing or null. -/
def optional? {α : Type} (read : Json → Option α) : Option Json → Option (Option α)
  | none => some none
  | some .null => some none
  | some value => (read value).map some

/-- A field that is left out when there is no value. -/
def optionalField (key : String) (value : Option String) : List (String × Json) :=
  match value with
  | some s => [(key, .string s)]
  | none => []

end Json

end UnitScript
