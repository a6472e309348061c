import Reckoner.Number.Basic

/-!
# Reckoner.Number.Function -- functions of numbers

The circular functions read angles in a mode, powers and logarithms have results at their poles,
and what can be computed exactly is rounded once: roots of whole numbers, divisors, multiples and
factorials.
-/

namespace Reckoner.Number

/-! ## Angles

In degrees the zeros of the circular functions are whole multiples of a quarter turn, which floats
hold exactly. There the results are exact: the sine of a half turn is zero, and the tangent of a
quarter turn is infinite. In radians no float but zero is such an angle, and the functions are
taken as they come. -/

/-- How angles are read and reported. -/
inductive AngleMode where
  | degrees
  | radians
deriving DecidableEq, Repr

namespace AngleMode

/-- An angle of this mode, in radians. -/
def toRadians : AngleMode → Float → Float
  | .degrees, x => x * (pi / 180)
  | .radians, x => x

/-- An angle in radians, in this mode. -/
def fromRadians : AngleMode → Float → Float
  | .degrees, x => x * (180 / pi)
  | .radians, x => x

/-- Whether an angle in degrees is `r` degrees beyond a whole number of half turns, in either
direction. No angle in radians is. -/
def beyondHalfTurns (mode : AngleMode) (r : Nat) (x : Float) : Bool :=
  mode == .degrees && (exactValue? x).any (·.leaves r 180)

/-- A circular function of the library at an angle of this mode. -/
def circular (mode : AngleMode) (f : Float → Float) (x : Float) : Except Trap Float :=
  trapping [mode.toRadians x] (f (mode.toRadians x))

/-- The angle of this mode that an inverse circular function of the library gives. -/
def inverse (mode : AngleMode) (f : Float → Float) (x : Float) : Except Trap Float :=
  (trapping [x] (f x)).map mode.fromRadians

/-- The sine of an angle. -/
def sin (mode : AngleMode) (x : Float) : Except Trap Float :=
  if mode.beyondHalfTurns 0 x then .ok 0 else mode.circular Float.sin x

/-- The cosine of an angle. -/
def cos (mode : AngleMode) (x : Float) : Except Trap Float :=
  if mode.beyondHalfTurns 90 x then .ok 0 else mode.circular Float.cos x

/-- The tangent of an angle. -/
def tan (mode : AngleMode) (x : Float) : Except Trap Float :=
  if mode.beyondHalfTurns 0 x then .ok 0
  else if mode.beyondHalfTurns 90 x then .ok infinity
  else mode.circular Float.tan x

/-- The angle with the given sine. -/
def asin (mode : AngleMode) (x : Float) : Except Trap Float := mode.inverse Float.asin x

/-- The angle with the given cosine. -/
def acos (mode : AngleMode) (x : Float) : Except Trap Float := mode.inverse Float.acos x

/-- The angle with the given tangent. -/
def atan (mode : AngleMode) (x : Float) : Except Trap Float := mode.inverse Float.atan x

end AngleMode

/-! ## Powers and logarithms

A power always has a result. Zero to a negative power is positive infinity for both zeros, and the
library is not asked for it. What the library traps on is settled: a power beyond the range of
floats is an infinity, with the sign that the power has, and one without a value is not a number.
The logarithm of zero is an infinity too. -/

/-- Whether a float is an odd integer. -/
def isOdd (x : Float) : Bool := (integer? x).any (· % 2 == 1)

/-- The power that `pow` computes, with its own rule at the pole: zero to a negative power is
positive infinity, whichever zero it is. -/
def powerWith (pow : Float → Float → Except Trap Float) (base exponent : Float) : Float :=
  if base == 0 && exponent < 0 then infinity
  else match pow base exponent with
    | .error .range => if base < 0 && isOdd exponent then -infinity else infinity
    | r => settled r

/-- A base to an exponent. -/
def power : Float → Float → Float := powerWith fun x y => trapping [x, y] (x.pow y)

/-- The logarithm that `log` computes; that of zero is negative infinity. -/
def logWith (log : Float → Float) (x : Float) : Except Trap Float :=
  if x == 0 then .ok (-infinity) else trapping [x] (log x)

/-- The natural logarithm. -/
def naturalLog : Float → Except Trap Float := logWith Float.log

/-- The logarithm to base ten. -/
def decimalLog : Float → Except Trap Float := logWith Float.log10

/-! ## Square roots

The float nearest to an irrational square root is found from its integer part alone: once that
has more than two digits beyond the precision of a float, what is cut off can only matter by being
there or not, and one more binary digit says which. -/

/-- The integer part of a square root. Each step decides one binary digit of the root, from the
root of a quarter of the number. -/
def rootFloor (n : Nat) : Nat :=
  if n = 0 then 0
  else
    let r := 2 * rootFloor (n / 4)
    if (r + 1) * (r + 1) ≤ n then r + 1 else r
termination_by n
decreasing_by omega

/-- How many pairs of binary digits to append to a number, so that the root of the result has
at least fifty-six binary digits. -/
def rootPadding (n : Nat) : Nat := (113 - n.log2) / 2

/-- The float nearest to the square root of `n`, divided by `den`, where `den` is a power of two. -/
def nearestRoot (n den : Nat) : Float :=
  let k := rootPadding n
  let r := rootFloor (n * Nat.pow 4 k)
  let digits := 2 * r + (if r * r = n * Nat.pow 4 k then 0 else 1)
  nearest digits (-((k + 1 + den.log2 : Nat) : Int))

/-- The side opposite the right angle, rounded once. That is more than a function of the library
promises: an error below one unit in the last place, which shows at some subnormal sides. An
infinite side makes it infinite, whatever the other side is. -/
def hypotenuse (x y : Float) : Float :=
  if x.isInf || y.isInf then 1 / 0
  else match exactValue? x, exactValue? y with
    | some a, some b =>
      nearestRoot (Nat.pow (a.num * b.den) 2 + Nat.pow (b.num * a.den) 2) (a.den * b.den)
    | _, _ => 0 / 0

/-! ## Divisors, multiples and factorials

These are computed on integers of any size and rounded to a float once. -/

/-- The greatest common divisor of some integers; zero if all of them are zero. -/
def gcdOf (ns : List Int) : Nat := ns.foldr (fun n d => Nat.gcd n.natAbs d) 0

/-- The least common multiple of some integers; zero if one of them is zero. -/
def lcmOf (ns : List Int) : Nat := ns.foldr (fun n d => Nat.lcm n.natAbs d) 1

/-- The product of the numbers from one to `n`. -/
def factorial : Nat → Nat
  | 0 => 1
  | n + 1 => (n + 1) * factorial n

end Reckoner.Number
