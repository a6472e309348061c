import Reckoner.Error
import Reckoner.Expr.Basic
import Reckoner.Number.Function

/-!
# Reckoner.Eval.Operation -- computations, conversions and operations on values

Sums of quantities come in the base unit of their dimension, products and quotients with a number
keep the unit, and the quotient of two quantities of one dimension is a number. Confirmations take
part in nothing.
-/

namespace Reckoner

open Number (AngleMode)

/-! ## Computations

Evaluating an expression reads the angle mode and may switch it; nothing else that a calculator
remembers changes while an expression is evaluated. A single operation either answers or fails
without a trace. A computation of many operations can fail part of the way, and a mode that was
switched before the failure stays switched: undoing that is up to whoever started it. -/

/-- One operation: it may switch the angle mode, or fail and leave the mode alone. -/
abbrev Operation := StateT AngleMode (Except Failure)

/-- A computation of many operations on a state. When it fails, the state is the one at the
failure. -/
abbrev Computation (σ : Type) := ExceptT Failure (StateM σ)

/-- A computation of many operations in an angle mode. -/
abbrev Evaluation := Computation AngleMode

/-- An operation as a part of a computation. -/
def Evaluation.ofOperation {α : Type} (x : Operation α) : Evaluation α := fun mode =>
  match x.run mode with
  | .ok (a, after) => (.ok a, after)
  | .error f => (.error f, mode)

instance : MonadLift Operation Evaluation := ⟨Evaluation.ofOperation⟩

/-- Stops with an error. -/
def fail {α : Type} (e : Error) : Except Failure α := .error (.error e)

/-- Stops because a value cannot be used where it stands. -/
def misused {α : Type} (why : Misuse) : Except Failure α := fail (.misused why)

end Reckoner

namespace Reckoner.UnitTable

/-! ## Conversions

A conversion goes through the base unit of the dimension: the amount is multiplied by the scale of
the unit it is in and divided by the scale of the unit it goes to, rounding each time. Only units
of one dimension convert into one another, and a unit of scale zero cannot be converted into. -/

/-- The unit of a name. -/
def measure (units : UnitTable) (name : String) : Except Failure Measure :=
  match units.find? name with
  | some m => .ok m
  | none => .error (.error (.unknownUnit name))

/-- The dimension that a unit measures. -/
def dimension (units : UnitTable) (name : String) : Except Failure Dimension :=
  (units.measure name).map (·.dimension)

/-- Reports that two dimensions do not go together. -/
def mismatch {α : Type} (left right : Dimension) : Except Failure α :=
  .error (.error (.mismatch (.dimension left) (.dimension right)))

/-- Converts an amount from one unit into another. -/
def convert (units : UnitTable) (x : Float) (source target : String) : Except Failure Float := do
  let src ← units.measure source
  let dst ← units.measure target
  if src.dimension = dst.dimension then
    if h : dst.scale == 0 then .error (.fault (.zeroScale target))
    else return Number.divided (x * src.scale) dst.scale (Bool.eq_false_iff.mpr h)
  else mismatch src.dimension dst.dimension

/-- Converts a quantity into the base unit of its dimension. -/
def toBase (units : UnitTable) (q : Quantity) : Except Failure Quantity := do
  let d ← units.dimension q.unit
  let x ← units.convert q.amount q.unit d.baseUnit
  return ⟨x, d.baseUnit⟩

/-- The sum of two quantities of one dimension, in its base unit. -/
def add (units : UnitTable) (p q : Quantity) : Except Failure Quantity := do
  let d ← units.dimension p.unit
  let e ← units.dimension q.unit
  if d = e then do
    let a ← units.toBase p
    let b ← units.toBase q
    return ⟨a.amount + b.amount, a.unit⟩
  else mismatch d e

end Reckoner.UnitTable

namespace Reckoner

/-! ## Operations on values -/

namespace Value

/-- What a value measures. -/
def measured (units : UnitTable) : Value → Except Failure Measured
  | number _ => .ok .bareNumber
  | quantity q => (units.dimension q.unit).map .dimension
  | text _ => .ok .text

/-- Reports that what two values measure does not go together. -/
def mismatch {α : Type} (units : UnitTable) (a b : Value) : Except Failure α := do
  let left ← a.measured units
  let right ← b.measured units
  fail (.mismatch left right)

/-- Reports an operation that is not defined for the sorts of its operands. -/
def undefined {α : Type} (operation : String) (a b : Value) : Except Failure α :=
  misused (.operands operation a.sort b.sort)

/-- The quotient of two numbers. A division by zero gives an infinity with the product of the
signs, except that zero by zero is not defined. -/
def quotient (a b : Float) : Except Failure Float :=
  if h : b == 0 then
    if a == 0 then fail .zeroByZero
    else if a.isNaN then .ok Number.notANumber
    else if decide (a < 0) == Number.isNegativeZero b then .ok Number.infinity
    else .ok (-Number.infinity)
  else .ok (Number.divided a b (Bool.eq_false_iff.mpr h))

/-- The sum of two values. -/
def add (units : UnitTable) (operation : String) : Value → Value → Except Failure Value
  | number x, number y => .ok (number (x + y))
  | quantity p, quantity q => (units.add p q).map quantity
  | number x, quantity q => mismatch units (number x) (quantity q)
  | quantity p, number y => mismatch units (quantity p) (number y)
  | a, b => undefined operation a b

/-- The difference of two values. -/
def sub (units : UnitTable) (operation : String) : Value → Value → Except Failure Value
  | number x, number y => .ok (number (x - y))
  | quantity p, quantity q => (units.add p ⟨-q.amount, q.unit⟩).map quantity
  | number x, quantity q => mismatch units (number x) (quantity q)
  | quantity p, number y => mismatch units (quantity p) (number y)
  | a, b => undefined operation a b

/-- The product of two values, one of them a number. -/
def mul (operation : String) : Value → Value → Except Failure Value
  | number x, number y => .ok (number (x * y))
  | quantity p, number y => .ok (quantity ⟨p.amount * y, p.unit⟩)
  | number x, quantity q => .ok (quantity ⟨x * q.amount, q.unit⟩)
  | a, b => undefined operation a b

/-- How many times one quantity goes into another of its dimension. -/
def ratio (units : UnitTable) (p q : Quantity) : Except Failure Float := do
  let a ← units.toBase p
  let b ← units.toBase q
  if a.unit = b.unit then quotient a.amount b.amount
  else mismatch units (.quantity p) (.quantity q)

/-- The quotient of two values. -/
def div (units : UnitTable) (operation : String) : Value → Value → Except Failure Value
  | number x, number y => (quotient x y).map number
  | quantity p, number y => (quotient p.amount y).map fun x => quantity ⟨x, p.unit⟩
  | quantity p, quantity q => (ratio units p q).map number
  | a, b => undefined operation a b

/-- The power of two numbers. -/
def pow (operation : String) : Value → Value → Except Failure Value
  | number x, number y => .ok (number (Number.power x y))
  | a, b => undefined operation a b

/-- A hundredth of a number. -/
def percent : Value → Except Failure Value
  | number x => .ok (number (x / 100))
  | v => misused (.percent v.sort)

/-- A value with the other sign. -/
def neg (operation : String) : Value → Except Failure Value
  | number x => .ok (number (-x))
  | quantity q => .ok (quantity ⟨-q.amount, q.unit⟩)
  | v => misused (.operand operation v.sort)

/-- A number or a quantity as it is. -/
def pos (operation : String) : Value → Except Failure Value
  | text s => misused (.operand operation (text s).sort)
  | v => .ok v

/-- The share of a value that is given in percent. -/
def share (operation : String) (a b : Value) : Except Failure Value := do
  mul operation a (← b.percent)

/-- A value in another unit. -/
def convert (units : UnitTable) (target : String) (v : Value) : Except Failure Value := do
  let d ← units.dimension target
  match v with
  | quantity q => return quantity ⟨← units.convert q.amount q.unit target, target⟩
  | v => do
    let left ← v.measured units
    fail (.mismatch left (.dimension d))

end Value

namespace UnaryOp

/-- What a sign does to a value. -/
def apply : UnaryOp → Value → Except Failure Value
  | neg, v => v.neg "Negation"
  | pos, v => v.pos "Unary plus"
  | percent, v => v.percent

end UnaryOp

namespace BinaryOp

/-- What an operation makes of two values. -/
def combine (units : UnitTable) : BinaryOp → Value → Value → Except Failure Value
  | add, a, b => a.add units "Addition" b
  | sub, a, b => a.sub units "Subtraction" b
  | mul, a, b => a.mul "Multiplication" b
  | div, a, b => a.div units "Division" b
  | pow, a, b => a.pow "Power" b
  | percentAdd, a, b => do a.add units "Percentage" (← Value.share "Percentage" a b)
  | percentSub, a, b => do a.sub units "Percentage" (← Value.share "Percentage" a b)

end BinaryOp

end Reckoner
