/-!
# Reckoner.Token.Basic -- tokens, and the words with a fixed meaning

A token is a word of the expression language: what class it belongs to, how it is spelled, and
where it was typed. A list of tokens ends with a mark of class `finish`, which stands where the
expression ends and has no spelling.
-/

namespace Reckoner

namespace Token

/-- The classes of tokens. -/
inductive Class where
  | number
  | identifier
  | operator
  | openBracket
  | closeBracket
  | equal
  | comma
  | finish
deriving DecidableEq, Repr

/-- The name of a class. -/
def Class.label : Class → String
  | number => "NUMBER"
  | identifier => "IDENTIFIER"
  | operator => "OPERATOR"
  | openBracket => "BRACKET_OPEN"
  | closeBracket => "BRACKET_CLOSE"
  | equal => "EQUAL"
  | comma => "COMMA"
  | finish => "EXPR_END"

end Token

/-- A word of the expression language. -/
structure Token where
  kind : Token.Class
  lexeme : String
  place : Nat
deriving DecidableEq, Repr

namespace Token

/-- Whether a token is an operator. -/
def isOperator (t : Token) : Bool := t.kind == .operator

/-- Whether a token is the operator with the given spelling. -/
def isSign (t : Token) (sign : String) : Bool := t.isOperator && t.lexeme == sign

/-- Whether a list of tokens has one end mark, behind all other tokens. -/
def Ended (ts : List Token) : Prop :=
  ∃ front stop, ts = front ++ [stop] ∧ stop.kind = .finish ∧ ∀ t ∈ front, t.kind ≠ .finish

/-- A token with its class in front. -/
def shown (t : Token) : String := "<" ++ t.kind.label ++ ">" ++ t.lexeme

/-- The spelling of a list of tokens, one blank between two of them. -/
def respell (ts : List Token) : String :=
  String.intercalate " " ((ts.filter (·.kind != .finish)).map (·.lexeme))

end Token

/-! ## Reserved words

Besides the names of constants, functions and units, three words cannot name a variable: the two
that ask for a conversion, and the one that stands for the result before. -/

/-- The words that ask for a conversion into a unit. -/
def conversionKeywords : List String := ["in", "to"]

/-- The name of the result before. -/
def previousResult : String := "prev"

end Reckoner
