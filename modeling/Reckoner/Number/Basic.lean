/-!
# Reckoner.Number.Basic -- floats: constants, exact values and traps

The numbers of a calculator are floats. Some have names, each finite one has an exact value, and a
computation with them may stop short.
-/

namespace Reckoner.Number

/-! ## Constants

Each constant is the float nearest to its value, except the golden ratio, which is computed from
the square root of five in floating point. -/

/-- The ratio of a circle's circumference to its diameter. -/
def pi : Float := Float.ofBits 0x400921FB54442D18

/-- The base of the natural logarithm. -/
def euler : Float := Float.ofBits 0x4005BF0A8B145769

/-- The golden ratio. -/
def goldenRatio : Float := (1 + Float.sqrt 5) / 2

/-- Positive infinity. -/
def infinity : Float := 1 / 0

/-- The float that is not a number. -/
def notANumber : Float := 0 / 0

/-- The constants by name. -/
def constants : List (String × Float) := [("pi", pi), ("e", euler), ("phi", goldenRatio)]

/-- The constant of a name. -/
def constant? (name : String) : Option Float := constants.lookup name

/-! ## Exact values

Every finite float is a fraction whose denominator is a power of two. What must not be rounded on
the way (decimal digits, remainders, divisors, factorials) is computed on that fraction with
natural numbers, and rounded once at the end. -/

/-- The value `± num / den`. The sign stands apart, so the two zeros differ. -/
structure Exact where
  negative : Bool
  num : Nat
  den : Nat

/-- The exact value of a finite float. -/
def exactValue? (x : Float) : Option Exact :=
  match x.toModel.unpack with
  | .zero s => some ⟨s == .negative, 0, 1⟩
  | .finite s m e _ => some ⟨s == .negative, m * Nat.pow 2 e.toNat, Nat.pow 2 (-e).toNat⟩
  | _ => none

namespace Exact

/-- The value with its sign, if it is an integer. -/
def integer? (v : Exact) : Option Int :=
  if v.num % v.den = 0 then
    let n : Int := (v.num / v.den : Nat)
    some (if v.negative then -n else n)
  else none

/-- Whether the magnitude leaves the remainder `r` modulo `m`. -/
def leaves (v : Exact) (r m : Nat) : Bool := v.num % (m * v.den) == r * v.den

end Exact

/-- The integer that a float stands for, if it stands for one. -/
def integer? (x : Float) : Option Int := (exactValue? x).bind Exact.integer?

/-- Whether a float is the zero with a sign. -/
def isNegativeZero (x : Float) : Bool := (exactValue? x).any fun v => v.negative && v.num == 0

/-- The float nearest to `m * 2 ^ e`, ties to even; infinity if that is out of range. -/
def nearest (m : Nat) (e : Int) : Float :=
  if m = 0 then 0
  else .ofModel (.pack (Float.Model.UnpackedFloat.round .binary64 .positive m e))

/-! ## Traps

A function of the floating-point library that has no value for its arguments, or whose value is
too large for a float, does not answer: it traps. Who calls it has to say which number stands for
the trap. A division has no such way out, and can be written only where its divisor is not zero. -/

/-- Why a function of the floating-point library does not answer. -/
inductive Trap where
  | domain
  | range
deriving DecidableEq, Repr

/-- The answer of a function of the library that computes `y` from some arguments. It traps where
`y` is not a number although the arguments are, and where `y` is infinite although they are not. -/
def trapping (args : List Float) (y : Float) : Except Trap Float :=
  if y.isNaN && !args.any Float.isNaN then .error .domain
  else if y.isInf && args.all Float.isFinite then .error .range
  else .ok y

/-- The float nearest to a whole number, which traps if the number is beyond all floats. -/
def ofWhole (n : Nat) : Except Trap Float := trapping [] (Float.ofNat n)

/-- An answer as a number: outside the domain it is not a number, and beyond the range it is
infinity. -/
def settled : Except Trap Float → Float
  | .ok y => y
  | .error .domain => notANumber
  | .error .range => infinity

/-- The quotient by a divisor that is not zero. -/
def divided (x y : Float) (_ : (y == 0) = false) : Float := x / y

end Reckoner.Number
