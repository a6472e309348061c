import Reckoner.Builtin
import Reckoner.Expr.Basic
import Reckoner.Value

/-!
# Reckoner.Eval.Shape -- what an expression stands for, numbers aside

A shape is a value without its number: it tells a number, a quantity of some unit and a
confirmation apart. The shape of an expression is worked out from the expression and the table of
units alone. No variable, no result before and no angle mode is looked at, so nothing that is
remembered can change it. Where the units or the sorts of operands do not go together, there is no
shape.
-/

namespace Reckoner

/-- A value without its number. -/
inductive Shape where
  | number
  | quantity (unit : String)
  | text
deriving DecidableEq, Repr

/-- The shape of a value. -/
def Value.shape : Value → Shape
  | number _ => .number
  | quantity q => .quantity q.unit
  | text _ => .text

/-! ## Units -/

namespace UnitTable

/-- The dimension that a unit of the table measures. -/
def dimension? (units : UnitTable) (name : String) : Option Dimension :=
  (units.find? name).map (·.dimension)

/-- Whether amounts of one unit can be given in another. -/
def converts? (units : UnitTable) (source target : String) : Option Unit := do
  let d ← units.dimension? source
  let e ← units.dimension? target
  if d = e then some () else none

/-- The base unit that amounts of a unit are given in. -/
def base? (units : UnitTable) (unit : String) : Option String := do
  let d ← units.dimension? unit
  units.converts? unit d.baseUnit
  return d.baseUnit

/-- The unit that the sum of amounts of two units is given in. -/
def sum? (units : UnitTable) (left right : String) : Option String := do
  let d ← units.dimension? left
  let e ← units.dimension? right
  if d = e then do
    let a ← units.base? left
    let _ ← units.base? right
    return a
  else none

/-- Whether amounts of one unit have a ratio to amounts of another. -/
def ratio? (units : UnitTable) (left right : String) : Option Unit := do
  let a ← units.base? left
  let b ← units.base? right
  if a = b then some () else none

end UnitTable

/-! ## Operations -/

namespace Shape

/-- The shape of a sum and of a difference. -/
def sum? (units : UnitTable) : Shape → Shape → Option Shape
  | number, number => some number
  | quantity u, quantity v => (units.sum? u v).map quantity
  | _, _ => none

/-- The shape of a product. -/
def product? : Shape → Shape → Option Shape
  | number, number => some number
  | quantity u, number => some (quantity u)
  | number, quantity u => some (quantity u)
  | _, _ => none

/-- The shape of a quotient. -/
def quotient? (units : UnitTable) : Shape → Shape → Option Shape
  | number, number => some number
  | quantity u, number => some (quantity u)
  | quantity u, quantity v => (units.ratio? u v).map fun _ => number
  | _, _ => none

/-- The shape of a power. -/
def power? : Shape → Shape → Option Shape
  | number, number => some number
  | _, _ => none

/-- The shape of a hundredth. -/
def percent? : Shape → Option Shape
  | number => some number
  | _ => none

/-- The shape of what has a sign in front. -/
def signed? : Shape → Option Shape
  | text => none
  | a => some a

/-- The shape of an amount that is given a unit. -/
def withUnit? (unit : String) : Shape → Option Shape
  | number => some (quantity unit)
  | _ => none

/-- The shape of what is converted into a unit. -/
def converted? (units : UnitTable) (target : String) : Shape → Option Shape
  | quantity u => (units.converts? u target).map fun _ => quantity target
  | _ => none

/-- The shape of what can be stored under a name. -/
def stored? : Shape → Option Shape
  | number => some number
  | _ => none

end Shape

/-- What a sign makes of a shape. -/
def UnaryOp.shape? : UnaryOp → Shape → Option Shape
  | neg, a | pos, a => a.signed?
  | percent, a => a.percent?

/-- What an operation makes of two shapes. -/
def BinaryOp.shape? (units : UnitTable) : BinaryOp → Shape → Shape → Option Shape
  | add, a, b | sub, a, b => a.sum? units b
  | mul, a, b => a.product? b
  | div, a, b => a.quotient? units b
  | pow, a, b => a.power? b
  | percentAdd, a, b | percentSub, a, b => do a.sum? units (← a.product? (← b.percent?))

/-- The shape of what a function gives. -/
def Builtin.shape : Builtin → Shape
  | setMode _ => .text
  | _ => .number

/-! ## Expressions and statements -/

namespace Expr

mutual

/-- The shape of an expression. -/
def shape? (units : UnitTable) : Expr → Option Shape
  | number _ _ | name _ _ => some .number
  | quantity amount unit _ => do
    let a ← shape? units amount
    let _ ← units.dimension? unit
    a.withUnit? unit
  | call function args _ => do
    let f ← Builtin.ofName? function
    let _ ← shapes? units args
    return f.shape
  | binary op left right _ => do
    let a ← shape? units left
    let b ← shape? units right
    op.shape? units a b
  | unary op operand _ => do
    let a ← shape? units operand
    op.shape? a

/-- The shapes of some expressions. -/
def shapes? (units : UnitTable) : List Expr → Option (List Shape)
  | [] => some []
  | e :: es => do
    let a ← shape? units e
    let as ← shapes? units es
    return a :: as

end

end Expr

/-- The shape of what a statement comes to. -/
def Statement.shape? (units : UnitTable) : Statement → Option Shape
  | expression e => e.shape? units
  | assign _ e _ => do
    let a ← e.shape? units
    a.stored?
  | convert e unit _ => do
    let a ← e.shape? units
    let _ ← units.dimension? unit
    a.converted? units unit

end Reckoner
