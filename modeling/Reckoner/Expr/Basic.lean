/-!
# Reckoner.Expr.Basic -- expressions and statements

The trees that a line of input is read into. Every node keeps the place it was typed at, for a
number or a name that of its token, for an operation that of its sign, for a quantity that of the
first token of its amount.
-/

namespace Reckoner

/-- Signs before an operand, and the percent sign behind one. -/
inductive UnaryOp where
  | neg
  | pos
  | percent
deriving DecidableEq, Repr

/-- Operations on two operands. The last two add and take away a share of the left operand that
the right one gives in percent. -/
inductive BinaryOp where
  | add
  | sub
  | mul
  | div
  | pow
  | percentAdd
  | percentSub
deriving DecidableEq, Repr

/-- Expressions. -/
inductive Expr where
  | number (value : Float) (place : Nat)
  | name (name : String) (place : Nat)
  | unary (op : UnaryOp) (operand : Expr) (place : Nat)
  | binary (op : BinaryOp) (left right : Expr) (place : Nat)
  | call (function : String) (args : List Expr) (place : Nat)
  | quantity (amount : Expr) (unit : String) (place : Nat)

/-- Statements: an expression, the assignment of one to a name, or its conversion into a unit. -/
inductive Statement where
  | expression (e : Expr)
  | assign (name : String) (value : Expr) (place : Nat)
  | convert (value : Expr) (unit : String) (place : Nat)

/-! ## Height

The height of a tree is the number of edges on its longest path from the root down to a leaf. A
call without arguments is a leaf, as numbers and names are. -/

namespace Expr

mutual

/-- The height of an expression. -/
def height : Expr → Nat
  | .number _ _ | .name _ _ => 0
  | .unary _ operand _ => height operand + 1
  | .binary _ left right _ => max (height left) (height right) + 1
  | .call _ args _ => heightAbove args
  | .quantity amount _ _ => height amount + 1

/-- The height of a node above some expressions. -/
def heightAbove : List Expr → Nat
  | [] => 0
  | e :: es => max (height e + 1) (heightAbove es)

end

end Expr

/-- The height of the expression of a statement. -/
def Statement.height : Statement → Nat
  | expression e => e.height
  | assign _ e _ => e.height
  | convert e _ _ => e.height

/-! ## Names

The names that stand for numbers, wherever in an expression they are. The names of functions and
of units are none of them, and neither is the target of an assignment. Beside them, the names of
the functions that an expression calls. -/

namespace Expr

mutual

/-- The names in an expression, from left to right. -/
def names : Expr → List String
  | .number _ _ => []
  | .name n _ => [n]
  | .unary _ operand _ => names operand
  | .binary _ left right _ => names left ++ names right
  | .call _ args _ => namesAll args
  | .quantity amount _ _ => names amount

/-- The names in some expressions. -/
def namesAll : List Expr → List String
  | [] => []
  | e :: es => names e ++ namesAll es

end

mutual

/-- The functions that an expression calls, from left to right. -/
def callees : Expr → List String
  | .number _ _ | .name _ _ => []
  | .unary _ operand _ => callees operand
  | .binary _ left right _ => callees left ++ callees right
  | .call function args _ => function :: calleesAll args
  | .quantity amount _ _ => callees amount

/-- The functions that some expressions call. -/
def calleesAll : List Expr → List String
  | [] => []
  | e :: es => callees e ++ calleesAll es

end

end Expr

/-- The names in the expression of a statement. -/
def Statement.names : Statement → List String
  | expression e => e.names
  | assign _ e _ => e.names
  | convert e _ _ => e.names

/-- The functions that the expression of a statement calls. -/
def Statement.callees : Statement → List String
  | expression e => e.callees
  | assign _ e _ => e.callees
  | convert e _ _ => e.callees

end Reckoner
