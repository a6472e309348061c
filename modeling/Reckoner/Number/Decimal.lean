import Reckoner.Number.Basic
import Reckoner.Text.Class

/-!
# Reckoner.Number.Decimal -- numbers in decimal digits

A float is written with a number of significant digits, and numerals are read. There are two
readers: one for the numerals of an expression, which are made of the ten ASCII digits and at most
one point, and one for a whole number given as an option, which may come in the digits of any
script.
-/

namespace Reckoner.Number

/-! ## Significant digits

A positive fraction is brought to the decade in which it has the wanted number of digits before
the point, and rounded there, a half going to the even neighbour. Rounding can reach the next
power of ten; the result then starts with a one in the next decade. -/

/-- The integer nearest to `num / den`; a half goes to the even neighbour. -/
def roundQuotient (num den : Nat) : Nat :=
  let q := num / den
  match compare (2 * (num % den)) den with
  | .lt => q
  | .eq => q + q % 2
  | .gt => q + 1

/-- The decimal digits of a number. -/
def decimalDigits (n : Nat) : List Char := Nat.toDigits 10 n

/-- The greatest power of ten that is at most the positive fraction `num / den`, by its exponent.
The numbers of digits of the two parts leave only two candidates. -/
def decade (num den : Nat) : Int :=
  let k : Int := (decimalDigits num).length - (decimalDigits den).length
  if den * Nat.pow 10 k.toNat ≤ num * Nat.pow 10 (-k).toNat then k else k - 1

/-- Digits of a positive number, the first of which stands for `10 ^ exponent`. -/
structure Significant where
  coefficient : Nat
  exponent : Int
deriving DecidableEq, Repr

/-- A positive fraction, rounded to `p` significant digits. -/
def significant (p num den : Nat) : Significant :=
  let e := decade num den
  let up : Int := p - 1 - e
  let q := roundQuotient (num * Nat.pow 10 up.toNat) (den * Nat.pow 10 (-up).toNat)
  if q = Nat.pow 10 p then ⟨Nat.pow 10 (p - 1), e + 1⟩ else ⟨q, e⟩

/-! ## Layout

The float is rounded to the wanted number of digits first; which form it is written in depends on
the rounded value. In the positional form all digits before the point are written out. In the
exponent form one digit stands before the point. Neither form keeps zeros at the end of a
fraction, with one exception: when a number is known to its last integer digit, the exponent form
keeps all of those digits, zeros too. -/

/-- Which decades are written positionally, and how many digits an exponent has at least. -/
structure Layout where
  leastPositional : Int
  mostPositional : Int
  exponentWidth : Nat

/-- Drops the zeros at the end of a fraction. -/
def dropEndZeros (ds : List Char) : List Char := (ds.reverse.dropWhile (· == '0')).reverse

/-- A fraction behind its point; without digits there is no point either. -/
def pointed (ds : List Char) : List Char := if ds.isEmpty then [] else '.' :: ds

/-- Digits in the positional form, the first of them standing for `10 ^ e`. -/
def positional (ds : List Char) (e : Int) : List Char :=
  if e < 0 then
    '0' :: pointed (dropEndZeros (List.replicate (-e - 1).toNat '0' ++ ds))
  else
    let whole := e.toNat + 1
    ds.take whole ++ List.replicate (whole - ds.length) '0' ++
      pointed (dropEndZeros (ds.drop whole))

/-- Digits in the exponent form, the exponent signed and padded to `width` digits. -/
def scientific (width : Nat) (ds : List Char) (e : Int) : List Char :=
  let fraction := ds.drop 1
  let kept := if e < ds.length then e.toNat else 0
  let power := decimalDigits e.natAbs
  ds.take 1 ++ pointed (fraction.take kept ++ dropEndZeros (fraction.drop kept)) ++
    'e' :: (if e < 0 then '-' else '+') :: List.replicate (width - power.length) '0' ++ power

namespace Layout

/-- A positive fraction with `p` significant digits. -/
def magnitude (l : Layout) (p num den : Nat) : List Char :=
  let s := significant p num den
  let ds := decimalDigits s.coefficient
  if l.leastPositional ≤ s.exponent ∧ s.exponent ≤ l.mostPositional then positional ds s.exponent
  else scientific l.exponentWidth ds s.exponent

/-- A float with `p` significant digits, at least one. Both zeros are written alike. -/
def write (l : Layout) (p : Nat) (x : Float) : String :=
  match exactValue? x with
  | some v =>
    if v.num = 0 then "0"
    else String.ofList ((if v.negative then ['-'] else []) ++ l.magnitude (max p 1) v.num v.den)
  | none => if x.isNaN then "nan" else if x < 0 then "-inf" else "inf"

end Layout

/-! ## Numerals of an expression -/

/-- Whether a character is one of the ten ASCII digits. -/
def isAsciiDigit (c : Char) : Bool := '0' ≤ c && c ≤ '9'

/-- The number that a row of ASCII digits denotes. -/
def digitsValue (ds : List Char) : Nat := ds.foldl (fun n c => 10 * n + (c.toNat - 48)) 0

/-- The digits before and behind the point, if the text has at least one digit, at most one point
and nothing else. -/
def numeralParts? (cs : List Char) : Option (List Char × List Char) :=
  let whole := cs.takeWhile isAsciiDigit
  let fraction? := match cs.dropWhile isAsciiDigit with
    | [] => some []
    | '.' :: ds => if ds.all isAsciiDigit then some ds else none
    | _ => none
  fraction?.bind fun fraction =>
    if whole.isEmpty && fraction.isEmpty then none else some (whole, fraction)

/-- The float nearest to the value of a numeral. -/
def numeral? (s : String) : Option Float :=
  (numeralParts? s.toList).map fun (whole, fraction) =>
    Float.ofScientific (digitsValue (whole ++ fraction)) true fraction.length

/-! ## Whole numbers given as an option -/

/-- The most digits that a whole number may be written with. -/
def maxIntegerDigits : Nat := 4300

/-- The digits of a whole number: decimal digits of any script, where a single low line may stand
between two of them. -/
def integerDigits? : List Char → Option (List Nat)
  | [] => none
  | [c] => (Text.decimalDigit? c).map ([·])
  | c :: '_' :: cs => do
    let d ← Text.decimalDigit? c
    let ds ← integerDigits? cs
    return d :: ds
  | c :: cs => do
    let d ← Text.decimalDigit? c
    let ds ← integerDigits? cs
    return d :: ds

/-- The value of digits, the most significant first. -/
def natOfDigits (ds : List Nat) : Nat := ds.foldl (fun n d => 10 * n + d) 0

/-- Whether a character may pad a whole number: white space, but no information separator. -/
def isPadding (c : Char) : Bool := Text.isBlank c && !(0x1C ≤ c.toNat && c.toNat ≤ 0x1F)

/-- Drops the padding at both ends. -/
def trimPadding (cs : List Char) : List Char :=
  ((cs.dropWhile isPadding).reverse.dropWhile isPadding).reverse

/-- A whole number with an optional sign, padding at its ends aside. -/
def integerText? (cs : List Char) : Option Int := do
  let (negative, digits) := match trimPadding cs with
    | '-' :: ds => (true, ds)
    | '+' :: ds => (false, ds)
    | ds => (false, ds)
  let ds ← integerDigits? digits
  if ds.length ≤ maxIntegerDigits then
    let n : Int := natOfDigits ds
    return if negative then -n else n
  else none

end Reckoner.Number
