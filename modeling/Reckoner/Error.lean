import Reckoner.Number.Decimal
import Reckoner.Text.Line
import Reckoner.Value

/-!
# Reckoner.Error -- what can be wrong with a line of input

An error is a cause with what is needed to report it. Its kind, its wording and its place in the
typed line are functions of the cause, so no wording is chosen where an error arises. Only errors
of reading have a place: a character that does not belong into an expression, and tokens that do
not go together.
-/

namespace Reckoner

/-! ## Kinds

Every reply has a kind, so that nobody has to read its text to learn what happened. Six kinds are
not errors; among these are the two for results that a calculator shows but does not remember. -/

/-- How a line of input turned out. -/
inductive Kind where
  | number
  | quantity
  | text
  | assignment
  | infinity
  | notANumber
  | invalidInput
  | unexpectedCharacter
  | unmatchedBracket
  | danglingOperator
  | doubledOperator
  | unexpectedToken
  | undefinedName
  | reservedName
  | unknownUnit
  | dimensionMismatch
  | notDefined
  | factorialDomain
  | invalidOperand
  | tooComplex
deriving DecidableEq, Repr

namespace Kind

/-- Whether the kind is an error. -/
def isError : Kind → Bool
  | number | quantity | text | assignment | infinity | notANumber => false
  | _ => true

/-- Whether the kind is an error in the arrangement of tokens. -/
def isArrangement : Kind → Bool
  | unmatchedBracket | danglingOperator | doubledOperator | unexpectedToken => true
  | _ => false

end Kind

/-! ## Causes -/

/-- Why tokens do not go together. -/
inductive Misplacement where
  | unopenedBracket
  | unclosedBracket
  | danglingOperator
  | doubledOperator (pair : String)
  | emptyBrackets
  | missingOperand
  | strayOperator (lexeme : String)
  | stray (lexeme : String)
  | missingUnit (keyword : String)
  | manyTargets

/-- Why a value cannot be used where it stands. The sorts are those of the values at hand. -/
inductive Misuse where
  | wrongCount (name : String) (expected got : Nat)
  | tooFew (name : String) (least got : Nat)
  | argument (name : String) (sort : ValueSort)
  | fraction (name : String) (x : Float)
  | stored (sort : ValueSort)
  | withUnit (sort : ValueSort)
  | percent (sort : ValueSort)
  | operand (operation : String) (sort : ValueSort)
  | operands (operation : String) (left right : ValueSort)

/-- What a value measures, as messages name it. -/
inductive Measured where
  | dimension (d : Dimension)
  | bareNumber
  | text

/-- What can be wrong with a line of input. -/
inductive Error where
  | nothingEntered
  | unexpectedCharacter (c : Char) (place : Nat)
  | misplaced (why : Misplacement) (place : Nat)
  | tooDeep (limit : Nat)
  | undefinedName (name : String)
  | reservedName (name : String)
  | unknownUnit (name : String)
  | mismatch (left right : Measured)
  | zeroByZero
  | factorialDomain (x : Float)
  | misused (why : Misuse)

/-! ## Wording -/

/-- Numbers in messages are given in six digits, from a ten-thousandth to below a million without
an exponent; an exponent has at least two digits. -/
def messageLayout : Number.Layout := ⟨-4, 5, 2⟩

/-- A number as messages give it. -/
def messageNumber (x : Float) : String := messageLayout.write 6 x

/-- The greatest number whose factorial a float can hold. -/
def factorialLimit : Nat := 170

/-- The kind of an arrangement error. -/
def Misplacement.kind : Misplacement → Kind
  | unopenedBracket | unclosedBracket => .unmatchedBracket
  | danglingOperator => .danglingOperator
  | doubledOperator _ => .doubledOperator
  | _ => .unexpectedToken

/-- The wording of an arrangement error. -/
def Misplacement.message : Misplacement → String
  | unopenedBracket => "Unexpected closing parenthesis ')'"
  | unclosedBracket => "Missing closing parenthesis ')'"
  | danglingOperator => "Expression cannot end with an operator"
  | doubledOperator pair => "Invalid double operator " ++ Text.quoted pair
  | emptyBrackets => "Empty parenthesis"
  | missingOperand => "Operand expected"
  | strayOperator lexeme => "Unexpected operator " ++ Text.quoted lexeme
  | stray lexeme => "Unexpected " ++ Text.quoted lexeme
  | missingUnit keyword => "Unit expected after " ++ Text.quoted keyword
  | manyTargets => "Only a single variable name can be assigned to"

/-- The wording for a value in the wrong place. -/
def Misuse.message : Misuse → String
  | wrongCount name expected got =>
    Text.quoted name ++ " takes " ++ toString expected ++
      (if expected = 1 then " argument" else " arguments") ++ ", got " ++ toString got
  | tooFew name least got =>
    Text.quoted name ++ " takes at least " ++ toString least ++ " arguments, got " ++ toString got
  | argument name sort =>
    Text.quoted name ++ " is not defined for argument of type " ++ sort.label
  | fraction name x =>
    Text.quoted name ++ " is only defined for integers, got " ++ messageNumber x
  | stored sort => "Only plain numbers can be stored, got a " ++ sort.label
  | withUnit sort => "A " ++ sort.label ++ " cannot carry a unit"
  | percent sort => "Percent is not defined for " ++ sort.label
  | operand operation sort => operation ++ " is not defined for " ++ sort.label
  | operands operation left right =>
    operation ++ " is not defined for " ++ left.label ++ " and " ++ right.label

/-- What a value measures, in a message. -/
def Measured.label : Measured → String
  | dimension d => d.label
  | bareNumber => "dimensionless"
  | text => "text"

namespace Error

/-- The kind of an error. -/
def kind : Error → Kind
  | nothingEntered => .invalidInput
  | unexpectedCharacter .. => .unexpectedCharacter
  | misplaced why _ => why.kind
  | tooDeep _ => .tooComplex
  | undefinedName _ => .undefinedName
  | reservedName _ => .reservedName
  | unknownUnit _ => .unknownUnit
  | mismatch .. => .dimensionMismatch
  | zeroByZero => .notDefined
  | factorialDomain _ => .factorialDomain
  | misused _ => .invalidOperand

/-- Where in the typed line the error is, for errors of reading. -/
def place? : Error → Option Nat
  | unexpectedCharacter _ place | misplaced _ place => some place
  | _ => none

/-- The wording of an error. -/
def message : Error → String
  | nothingEntered => "Enter an expression"
  | unexpectedCharacter c _ => "Unexpected character: " ++ Text.quoted c.toString
  | misplaced why _ => why.message
  | tooDeep limit => "Expression is nested deeper than " ++ toString limit ++ " levels"
  | undefinedName name => "Undefined name: " ++ Text.quoted name
  | reservedName name => Text.quoted name ++ " is reserved and cannot be assigned"
  | unknownUnit name => "Unknown unit: " ++ Text.quoted name
  | mismatch left right => "Cannot combine " ++ left.label ++ " with " ++ right.label
  | zeroByZero => "Not defined (0/0)"
  | factorialDomain x =>
    "Factorial is only defined for integers from 0 to " ++ toString factorialLimit ++ ", got " ++
      messageNumber x
  | misused why => why.message

/-- The full report of an error in the line `typed`: an error of reading says which reader found
it and shows the place. -/
def report (typed : String) : Error → String
  | e@(unexpectedCharacter _ place) =>
    "[Tokenizer error] " ++ e.message ++ "\n" ++ Text.snippet typed place
  | e@(misplaced _ place) => "Parser error: " ++ e.message ++ "\n" ++ Text.snippet typed place
  | e => e.message

end Error

/-! ## Failures

A computation can stop for two reasons that are kept apart. An error is the user's, and is
reported. A fault is a broken promise between the parts of the calculator: a list of tokens
without an end mark, a numeral that is none, a unit of scale zero to divide by. A calculator whose
units are the standard ones meets no fault. -/

/-- A promise between the parts of the calculator that was not kept. -/
inductive Fault where
  | tokensRanOut
  | notANumeral (lexeme : String)
  | zeroScale (unit : String)
deriving DecidableEq, Repr

/-- Why a computation gave no result. -/
inductive Failure where
  | error (e : Error)
  | fault (f : Fault)

/-- A result or an error, where no fault is possible. -/
def orError {α : Type} : Except Error α → Except Failure α := Except.mapError .error

end Reckoner
