import Reckoner.Expr.Basic
import Reckoner.Number.Decimal
import Reckoner.Source.Typed
import Reckoner.Value

/-!
# Reckoner.Expr.Written -- expressions as they are typed

An expression can be typed in full: every operation, every name and every quantity in brackets of
its own, so that nothing depends on how tightly operations bind. Here numbers are numerals and not
floats, and names are the words that can stand in a line: lower-case letters, and none of the words
that ask for a result or spell a sign.
-/

namespace Reckoner

/-- What is said of each character of a text is checked along the text, not for all characters
that there are. -/
instance decidableForallChar (p : Char → Prop) [DecidablePred p] (cs : List Char) :
    Decidable (∀ c ∈ cs, p c) :=
  List.decidableBAll p cs

/-- A decimal numeral: digits, and perhaps a point and any digits behind it. -/
structure Numeral where
  whole : List Char
  fraction : Option (List Char)
  whole_ne_nil : whole ≠ []
  whole_digits : ∀ c ∈ whole, Number.isAsciiDigit c
  fraction_digits : ∀ ds ∈ fraction, ∀ c ∈ ds, Number.isAsciiDigit c

namespace Numeral

/-- The numeral as it is typed. -/
def text (n : Numeral) : String :=
  String.ofList (n.whole ++ match n.fraction with
    | some ds => '.' :: ds
    | none => [])

/-- The float nearest to a numeral. -/
def value (n : Numeral) : Float :=
  let behind := n.fraction.getD []
  Float.ofScientific (Number.digitsValue (n.whole ++ behind)) true behind.length

end Numeral

/-- The words that a line of input may hold besides its expression, or for a sign of it. -/
def shorthandWords : List String :=
  ["whats", "calculate", "solve", "answer", "percent", "square"]

/-- A word that can be a name in a line of input. -/
structure Word where
  letters : List Char
  ne_nil : letters ≠ []
  lower : ∀ c ∈ letters, Product.isWordLetter c
  free : String.ofList letters ∉ shorthandWords

/-- The word as it is typed. -/
def Word.text (w : Word) : String := String.ofList w.letters

/-- The name of a unit that every calculator starts with. -/
structure StandardUnit where
  text : String
  standard : text ∈ UnitTable.standard.names

/-- The sign of an operation. -/
def BinaryOp.sign : BinaryOp → String
  | add | percentAdd => "+"
  | sub | percentSub => "-"
  | mul => "*"
  | div => "/"
  | pow => "**"

/-- Expressions as they are typed. -/
inductive Written where
  | number (n : Numeral)
  | name (w : Word)
  | unary (op : UnaryOp) (operand : Written)
  | binary (op : BinaryOp) (left right : Written)
  | call (function : Word) (args : List Written)
  | quantity (amount : Written) (unit : StandardUnit)

namespace Written

/-! ## Typing an expression -/

mutual

/-- An expression with all its brackets. -/
def text : Written → String
  | number n => n.text
  | name w => "(" ++ w.text ++ ")"
  | unary .neg e => "(-" ++ e.text ++ ")"
  | unary .pos e => "(+" ++ e.text ++ ")"
  | unary .percent e => "(" ++ e.text ++ "%)"
  | binary .percentAdd left right => "(" ++ left.text ++ "+" ++ right.text ++ "%)"
  | binary .percentSub left right => "(" ++ left.text ++ "-" ++ right.text ++ "%)"
  | binary op left right => "(" ++ left.text ++ op.sign ++ right.text ++ ")"
  | call function args => function.text ++ "(" ++ argsText args ++ ")"
  | quantity amount unit => "((" ++ amount.text ++ ")" ++ unit.text ++ ")"

/-- Arguments with a comma between two of them. -/
def argsText : List Written → String
  | [] => ""
  | [e] => e.text
  | e :: e' :: es => e.text ++ "," ++ argsText (e' :: es)

end

/-! ## The expression that is typed -/

mutual

/-- The expression, all of it at one place. -/
def expr : Written → Expr
  | number n => .number n.value 0
  | name w => .name w.text 0
  | unary op e => .unary op e.expr 0
  | binary op left right => .binary op left.expr right.expr 0
  | call function args => .call function.text (argsExpr args) 0
  | quantity amount unit => .quantity amount.expr unit.text 0

/-- The arguments of a call, all of them at one place. -/
def argsExpr : List Written → List Expr
  | [] => []
  | e :: es => e.expr :: argsExpr es

end

/-- Whether the operation is a percent sign behind its operand. -/
def isPercent : Written → Bool
  | unary .percent _ => true
  | _ => false

mutual

/-- Whether no sum and no difference has a percentage on its right: typed, that would be the sum
or difference of a share. -/
def SharesNamed : Written → Prop
  | number _ | name _ => True
  | unary _ e => e.SharesNamed
  | binary op left right =>
    (op = .add ∨ op = .sub → right.isPercent = false) ∧ left.SharesNamed ∧ right.SharesNamed
  | call _ args => ArgsSharesNamed args
  | quantity amount _ => amount.SharesNamed

/-- The same of each argument of a call. -/
def ArgsSharesNamed : List Written → Prop
  | [] => True
  | e :: es => e.SharesNamed ∧ ArgsSharesNamed es

end

end Written

/-! ## Expressions without their places -/

mutual

/-- An expression with all of it at one place. -/
def Expr.unplaced : Expr → Expr
  | .number x _ => .number x 0
  | .name n _ => .name n 0
  | .unary op e _ => .unary op e.unplaced 0
  | .binary op left right _ => .binary op left.unplaced right.unplaced 0
  | .call function args _ => .call function (Expr.unplacedAll args) 0
  | .quantity amount unit _ => .quantity amount.unplaced unit 0

/-- Expressions with all of each at one place. -/
def Expr.unplacedAll : List Expr → List Expr
  | [] => []
  | e :: es => e.unplaced :: Expr.unplacedAll es

end

end Reckoner
