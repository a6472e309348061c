import Reckoner.Eval.Operation
import Reckoner.Number.Function

/-!
# Reckoner.Builtin -- the built-in functions, and what they compute

Some functions go by two names; messages use the first. The switches of the angle mode are
functions without arguments.
-/

namespace Reckoner

open Number (AngleMode settled trapping ofWhole)

/-! ## Names -/

/-- Functions of one number. -/
inductive UnaryFunction where
  | sin
  | cos
  | tan
  | asin
  | acos
  | atan
  | sqrt
  | abs
  | ln
  | log
  | exp
  | square
  | cube
  | factorial
deriving DecidableEq, Repr

/-- The name of a function of one number in messages. -/
def UnaryFunction.name : UnaryFunction → String
  | sin => "sin"
  | cos => "cos"
  | tan => "tan"
  | asin => "asin"
  | acos => "acos"
  | atan => "atan"
  | sqrt => "sqrt"
  | abs => "abs"
  | ln => "ln"
  | log => "log"
  | exp => "exp"
  | square => "sq"
  | cube => "cube"
  | factorial => "fact"

/-- The built-in functions. -/
inductive Builtin where
  | unary (f : UnaryFunction)
  | power
  | gcd
  | lcm
  | hypotenuse
  | distance
  | setMode (mode : AngleMode)
deriving DecidableEq, Repr

namespace Builtin

/-- The built-in functions by name. -/
def table : List (String × Builtin) := [
  ("sin", unary .sin),
  ("cos", unary .cos),
  ("tan", unary .tan),
  ("asin", unary .asin),
  ("acos", unary .acos),
  ("atan", unary .atan),
  ("sqrt", unary .sqrt),
  ("abs", unary .abs),
  ("pow", power),
  ("ln", unary .ln),
  ("log", unary .log),
  ("exp", unary .exp),
  ("sq", unary .square),
  ("square", unary .square),
  ("cube", unary .cube),
  ("gcd", gcd),
  ("lcm", lcm),
  ("hypotenuse", hypotenuse),
  ("hyp", hypotenuse),
  ("distance", distance),
  ("dist", distance),
  ("fact", unary .factorial),
  ("factorial", unary .factorial),
  ("deg", setMode .degrees),
  ("setdeg", setMode .degrees),
  ("rad", setMode .radians),
  ("setrad", setMode .radians)]

/-- The function of a name. -/
def ofName? (name : String) : Option Builtin := table.lookup name

/-- Whether a name is that of a built-in function. -/
def isName (name : String) : Bool := (ofName? name).isSome

/-- The name of a function in messages. -/
def name : Builtin → String
  | unary f => f.name
  | power => "pow"
  | gcd => "gcd"
  | lcm => "lcm"
  | hypotenuse => "hypotenuse"
  | distance => "distance"
  | setMode .degrees => "deg"
  | setMode .radians => "rad"

/-- How many arguments a function takes. -/
inductive Arity where
  | exactly (n : Nat)
  | atLeast (n : Nat)
deriving DecidableEq, Repr

/-- How many arguments a function takes. -/
def arity : Builtin → Arity
  | unary _ => .exactly 1
  | power | hypotenuse => .exactly 2
  | distance => .exactly 4
  | gcd | lcm => .atLeast 2
  | setMode _ => .exactly 0

end Builtin

/-! ## Values

The number of arguments is checked first, then that each is a number, then what the function asks
of the numbers. What the floating-point library traps on is settled here: a function outside its
domain gives the float that is not a number, and one whose result is too large gives infinity. Only
the functions of whole numbers refuse an argument. -/

/-- The factorial of a whole number, if a float can hold it. -/
def factorialOf (x : Float) : Except Failure Float :=
  match Number.integer? x with
  | some n =>
    if 0 ≤ n ∧ n ≤ factorialLimit then .ok (settled (ofWhole (Number.factorial n.toNat)))
    else fail (.factorialDomain x)
  | none => fail (.factorialDomain x)

/-- The value of a function of one number in an angle mode. -/
def UnaryFunction.apply (mode : AngleMode) (x : Float) : UnaryFunction → Except Failure Float
  | sin => .ok (settled (mode.sin x))
  | cos => .ok (settled (mode.cos x))
  | tan => .ok (settled (mode.tan x))
  | asin => .ok (settled (mode.asin x))
  | acos => .ok (settled (mode.acos x))
  | atan => .ok (settled (mode.atan x))
  | sqrt => .ok (settled (trapping [x] x.sqrt))
  | abs => .ok x.abs
  | ln => .ok (settled (Number.naturalLog x))
  | log => .ok (settled (Number.decimalLog x))
  | exp => .ok (settled (trapping [x] x.exp))
  | square => .ok (x * x)
  | cube => .ok (x * x * x)
  | factorial => factorialOf x

namespace Builtin

/-- The number that an argument is. -/
def numberArg (f : Builtin) : Value → Except Failure Float
  | .number x => .ok x
  | v => misused (.argument f.name v.sort)

/-- The integer that a number is. -/
def integerArg (f : Builtin) (x : Float) : Except Failure Int :=
  match Number.integer? x with
  | some n => .ok n
  | none => misused (.fraction f.name x)

/-- The integers that the arguments are. That all of them are numbers is checked first. -/
def integerArgs (f : Builtin) (args : List Value) : Except Failure (List Int) := do
  let xs ← args.mapM f.numberArg
  xs.mapM f.integerArg

/-- The error for a number of arguments that a function does not take. -/
def wrongCount (f : Builtin) (got : Nat) : Error :=
  .misused (match f.arity with
    | .exactly n => .wrongCount f.name n got
    | .atLeast n => .tooFew f.name n got)

/-- The confirmation of a switch of the angle mode. -/
def confirmation : AngleMode → String
  | .degrees => "Degrees mode"
  | .radians => "Radians mode"

/-- The value of a built-in function. -/
def apply (f : Builtin) (args : List Value) : Operation Value :=
  match f, args with
  | unary g, [a] => do
    let x ← f.numberArg a
    return .number (← g.apply (← get) x)
  | power, [a, b] => do
    return .number (Number.power (← f.numberArg a) (← f.numberArg b))
  | hypotenuse, [a, b] => do
    return .number (Number.hypotenuse (← f.numberArg a) (← f.numberArg b))
  | distance, [a, b, c, d] => do
    let x ← f.numberArg a
    let y ← f.numberArg b
    let u ← f.numberArg c
    let v ← f.numberArg d
    return .number (Number.hypotenuse (u - x) (v - y))
  | gcd, _ :: _ :: _ => do
    return .number (settled (ofWhole (Number.gcdOf (← f.integerArgs args))))
  | lcm, _ :: _ :: _ => do
    return .number (settled (ofWhole (Number.lcmOf (← f.integerArgs args))))
  | setMode mode, [] => do
    set mode
    return .text (confirmation mode)
  | _, _ => fail (f.wrongCount args.length)

end Builtin

end Reckoner
