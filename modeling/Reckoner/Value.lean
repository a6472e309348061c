import Reckoner.Ledger

/-!
# Reckoner.Value -- units, quantities and values

A unit is a name in a table; the table says which dimension the unit measures and how many base
units it holds. The base unit of a dimension is known by its name, whatever the table holds.

An expression can stand for a number, a quantity, or the confirmation that a switch of the angle
mode gives. A confirmation is a value so that a switch can be written where any call can; no
operation accepts it.
-/

namespace Reckoner

/-! ## Units -/

/-- What can be measured. -/
inductive Dimension where
  | length
  | time
  | speed
deriving DecidableEq, Repr

namespace Dimension

/-- The dimension as messages name it. -/
def label : Dimension → String
  | length => "length"
  | time => "time"
  | speed => "speed"

/-- The unit that sums of this dimension are given in. -/
def baseUnit : Dimension → String
  | length => "m"
  | time => "s"
  | speed => "m/s"

end Dimension

/-- What a unit measures, and how many base units it holds. -/
structure Measure where
  dimension : Dimension
  scale : Float

/-- The units by name, in the order in which they are listed. -/
abbrev UnitTable := Ledger Measure

/-- The units that a calculator starts with. -/
def UnitTable.standard : UnitTable := ⟨[
  ("mm", ⟨.length, 0.001⟩),
  ("cm", ⟨.length, 0.01⟩),
  ("m", ⟨.length, 1⟩),
  ("km", ⟨.length, 1000⟩),
  ("inch", ⟨.length, 0.0254⟩),
  ("ft", ⟨.length, 0.3048⟩),
  ("s", ⟨.time, 1⟩),
  ("min", ⟨.time, 60⟩),
  ("h", ⟨.time, 3600⟩),
  ("m/s", ⟨.speed, 1⟩),
  ("km/h", ⟨.speed, 1000 / 3600⟩),
  ("km/hr", ⟨.speed, 1000 / 3600⟩),
  ("mph", ⟨.speed, 0.44704⟩)]⟩

/-- An amount of a unit. -/
structure Quantity where
  amount : Float
  unit : String

/-! ## Values -/

/-- The sorts of values, as messages tell them apart. -/
inductive ValueSort where
  | number
  | quantity
  | text
deriving DecidableEq, Repr

/-- The name of a sort in messages. -/
def ValueSort.label : ValueSort → String
  | number => "number"
  | quantity => "quantity"
  | text => "text"

/-- What an expression can stand for. -/
inductive Value where
  | number (x : Float)
  | quantity (q : Quantity)
  | text (s : String)

/-- The sort of a value. -/
def Value.sort : Value → ValueSort
  | number _ => .number
  | quantity _ => .quantity
  | text _ => .text

end Reckoner
