import UnitScript.Table
import UnitScript.Units.Dimension

/-!
# Known units

A `Registry` gives the meaning of unit symbols: how many SI base units one of
them is, and of what dimension.  Symbols are case-sensitive and listed in
ascending order.

* `Registry.standard` holds the length units every script starts with.
* `Registry.register` adds or replaces a unit.
-/

namespace UnitScript

/-- What a unit symbol stands for: `scale` SI base units of a dimension. -/
structure UnitDef where
  scale : Float
  dimension : Dimension
deriving DecidableEq

/-- The units that a script can name. -/
abbrev Registry := Table UnitDef

namespace Registry

/-- The length units every script starts with, in metres. -/
def lengths : List (String × Float) :=
  [("mm", 0.001), ("cm", 0.01), ("m", 1.0), ("km", 1000.0), ("in", 0.0254), ("ft", 0.3048),
    ("yd", 0.9144), ("mi", 1609.344)]

/-- Adds or replaces a unit. -/
def register (registry : Registry) (symbol : String) (unit : UnitDef) : Registry :=
  registry.insert symbol unit

/-- The registry of the length units. -/
def standard : Registry :=
  lengths.foldl (fun registry (symbol, scale) => register registry symbol ⟨scale, .oneLength⟩) ∅

end Registry

end UnitScript
