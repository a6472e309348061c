import Reckoner.Builtin
import Reckoner.Expr.Basic
import Reckoner.Number.Decimal
import Reckoner.Token.Basic

/-!
# Reckoner.Expr.Grammar -- the grammar of statements

Which lists of tokens are statements, said without a reader. A derivation is a tree whose leaves
are the tokens of the list; the tree of the statement is read off it. Sums and products grow to
the left, powers to the right:

    sum       = [sum ("+" | "-")] product        a leading "+" is a sign of the first operand
    product   = [product ("*" | "/")] signed
    signed    = "-" signed | power
    power     = operand ["**" signed] | function signed
    operand   = primary {"%"}
    primary   = number [unit] | "(" sum ")" [unit] | name | name "(" [sum {"," sum}] ")"
    statement = (name "=" sum | sum | sum ("in" | "to") name) end

A function takes an argument without brackets exactly when the token behind its name starts one.
That is the only place where a derivation depends on a token behind it, so whether a derivation
fits is said with the next token at hand.
-/

namespace Reckoner

/-- The symbols of the grammar of expressions. A product may `lead` a sum; then its first operand
may have a plus sign in front. -/
inductive Symbol where
  | sum
  | product (lead : Bool)
  | signed
  | power
  | operand
  | primary
  | arguments

/-- What is read off a derivation: for arguments one tree each, else one tree. -/
abbrev Symbol.Tree : Symbol → Type
  | .arguments => List Expr
  | _ => Expr

/-- Derivations from the symbols of the grammar. -/
inductive Derivation : Symbol → Type where
  | single (p : Derivation (.product true)) : Derivation .sum
  | adding (left : Derivation .sum) (op : Token) (right : Derivation (.product false)) :
      Derivation .sum
  | factor {lead : Bool} (u : Derivation .signed) : Derivation (.product lead)
  | plus (sign : Token) (u : Derivation .signed) : Derivation (.product true)
  | multiplying {lead : Bool} (left : Derivation (.product lead)) (op : Token)
      (right : Derivation .signed) : Derivation (.product lead)
  | minus (sign : Token) (u : Derivation .signed) : Derivation .signed
  | unsigned (p : Derivation .power) : Derivation .signed
  | raised (base : Derivation .operand) (op : Token) (exponent : Derivation .signed) :
      Derivation .power
  | unraised (o : Derivation .operand) : Derivation .power
  | applied (function : Token) (arg : Derivation .signed) : Derivation .power
  | percents (p : Derivation .primary) (signs : List Token) : Derivation .operand
  | number (t : Token) (x : Float) (unit : Option Token) : Derivation .primary
  | bracketed (opening : Token) (e : Derivation .sum) (closing : Token) (unit : Option Token) :
      Derivation .primary
  | name (t : Token) : Derivation .primary
  | emptyCall (function opening closing : Token) : Derivation .primary
  | call (function opening : Token) (args : Derivation .arguments) (closing : Token) :
      Derivation .primary
  | last (e : Derivation .sum) : Derivation .arguments
  | more (e : Derivation .sum) (comma : Token) (args : Derivation .arguments) :
      Derivation .arguments

namespace Derivation

/-- The tokens that a derivation derives. -/
def tokens : {X : Symbol} → Derivation X → List Token
  | _, single p => p.tokens
  | _, adding left op right => left.tokens ++ op :: right.tokens
  | _, factor u => u.tokens
  | _, plus sign u => sign :: u.tokens
  | _, multiplying left op right => left.tokens ++ op :: right.tokens
  | _, minus sign u => sign :: u.tokens
  | _, unsigned p => p.tokens
  | _, raised base op exponent => base.tokens ++ op :: exponent.tokens
  | _, unraised o => o.tokens
  | _, applied function arg => function :: arg.tokens
  | _, percents p signs => p.tokens ++ signs
  | _, number t _ unit => t :: unit.toList
  | _, bracketed opening e closing unit => opening :: e.tokens ++ closing :: unit.toList
  | _, name t => [t]
  | _, emptyCall function opening closing => [function, opening, closing]
  | _, call function opening args closing =>
    function :: opening :: args.tokens ++ [closing]
  | _, last e => e.tokens
  | _, more e comma args => e.tokens ++ comma :: args.tokens

/-! ## The tree of a derivation -/

/-- The tree of a sum or difference. If what stands behind the sign is a percentage, the sum is of
a share of what stands in front. -/
def sumTree (sign : Token) (left : Expr) : Expr → Expr
  | .unary .percent share _ =>
    .binary (if sign.lexeme = "+" then .percentAdd else .percentSub) left share sign.place
  | right => .binary (if sign.lexeme = "+" then .add else .sub) left right sign.place

/-- The tree of a product or quotient. -/
def productTree (sign : Token) (left right : Expr) : Expr :=
  .binary (if sign.lexeme = "*" then .mul else .div) left right sign.place

/-- The tree of an operand with its percent signs. -/
def percentTree (e : Expr) (signs : List Token) : Expr :=
  signs.foldl (fun e sign => .unary .percent e sign.place) e

/-- The tree of an amount with its unit, if it has one. -/
def amountTree (place : Nat) (amount : Expr) : Option Token → Expr
  | some unit => .quantity amount unit.lexeme place
  | none => amount

/-- The tree that is read off a derivation. -/
def tree : {X : Symbol} → Derivation X → X.Tree
  | _, single p => p.tree
  | _, adding left op right => sumTree op left.tree right.tree
  | _, factor u => u.tree
  | _, plus sign u => .unary .pos u.tree sign.place
  | _, multiplying left op right => productTree op left.tree right.tree
  | _, minus sign u => .unary .neg u.tree sign.place
  | _, unsigned p => p.tree
  | _, raised base op exponent => .binary .pow base.tree exponent.tree op.place
  | _, unraised o => o.tree
  | _, applied function arg => .call function.lexeme [arg.tree] function.place
  | _, percents p signs => percentTree p.tree signs
  | _, number t x unit => amountTree t.place (.number x t.place) unit
  | _, bracketed opening e _ unit => amountTree opening.place e.tree unit
  | _, name t => .name t.lexeme t.place
  | _, emptyCall function _ _ => .call function.lexeme [] function.place
  | _, call function _ args _ => .call function.lexeme args.tree function.place
  | _, last e => [e.tree]
  | _, more e _ args => e.tree :: args.tree

/-! ## Which derivations fit -/

/-- Whether a token is a name that asks for a conversion. -/
def IsKeyword (t : Token) : Prop := t.kind = .identifier ∧ t.lexeme ∈ conversionKeywords

/-- Whether a token is the name of a function. -/
def IsFunction (t : Token) : Prop := t.kind = .identifier ∧ Builtin.isName t.lexeme = true

/-- Whether a token starts the argument of a function that is called without brackets. -/
def StartsArgument (t : Token) : Prop :=
  t.kind = .number ∨ t.isSign "-" ∨ (t.kind = .identifier ∧ t.lexeme ∉ conversionKeywords)

/-- Whether a token that stands behind an amount, if one does, is a unit. -/
def UnitFits (units : List String) (unit : Option Token) : Prop :=
  ∀ t ∈ unit, t.kind = .identifier ∧ t.lexeme ∈ units

/-- Whether a derivation uses its tokens as what they are, and may stand in front of the token
`next`. -/
def Fits (units : List String) : {X : Symbol} → Derivation X → (next : Token) → Prop
  | _, single p, next => p.Fits units next
  | _, adding left op right, next =>
    (op.isSign "+" ∨ op.isSign "-") ∧ left.Fits units op ∧ right.Fits units next
  | _, factor u, next => u.Fits units next
  | _, plus sign u, next => sign.isSign "+" ∧ u.Fits units next
  | _, multiplying left op right, next =>
    (op.isSign "*" ∨ op.isSign "/") ∧ left.Fits units op ∧ right.Fits units next
  | _, minus sign u, next => sign.isSign "-" ∧ u.Fits units next
  | _, unsigned p, next => p.Fits units next
  | _, raised base op exponent, next =>
    op.isSign "**" ∧ base.Fits units op ∧ exponent.Fits units next
  | _, unraised o, next => o.Fits units next
  | _, applied function arg, next =>
    IsFunction function ∧ (∀ t ∈ arg.tokens.head?, StartsArgument t) ∧ arg.Fits units next
  | _, percents p signs, next =>
    (∀ t ∈ signs, t.isSign "%") ∧ p.Fits units (signs.headD next)
  | _, number t x unit, _ =>
    t.kind = .number ∧ Number.numeral? t.lexeme = some x ∧ UnitFits units unit
  | _, bracketed opening e closing unit, _ =>
    opening.kind = .openBracket ∧ closing.kind = .closeBracket ∧ e.Fits units closing ∧
      UnitFits units unit
  | _, name t, next => t.kind = .identifier ∧ ¬ (IsFunction t ∧ StartsArgument next)
  | _, emptyCall function opening closing, _ =>
    function.kind = .identifier ∧ opening.kind = .openBracket ∧ closing.kind = .closeBracket
  | _, call function opening args closing, _ =>
    function.kind = .identifier ∧ opening.kind = .openBracket ∧ closing.kind = .closeBracket ∧
      args.Fits units closing
  | _, last e, next => e.Fits units next
  | _, more e comma args, next =>
    comma.kind = .comma ∧ e.Fits units comma ∧ args.Fits units next

end Derivation

/-- Derivations of statements. -/
inductive Sentence where
  | expression (e : Derivation .sum) (stop : Token)
  | assign (target sign : Token) (value : Derivation .sum) (stop : Token)
  | convert (value : Derivation .sum) (keyword unit stop : Token)

namespace Sentence

/-- The tokens that a derivation derives. -/
def tokens : Sentence → List Token
  | expression e stop => e.tokens ++ [stop]
  | assign target sign value stop => target :: sign :: value.tokens ++ [stop]
  | convert value keyword unit stop => value.tokens ++ [keyword, unit, stop]

/-- The statement that is read off a derivation. -/
def statement : Sentence → Statement
  | expression e _ => .expression e.tree
  | assign target _ value _ => .assign target.lexeme value.tree target.place
  | convert value keyword unit _ => .convert value.tree unit.lexeme keyword.place

/-- Whether a derivation uses its tokens as what they are. -/
def Fits (units : List String) : Sentence → Prop
  | expression e stop => stop.kind = .finish ∧ e.Fits units stop
  | assign target sign value stop =>
    target.kind = .identifier ∧ sign.kind = .equal ∧ stop.kind = .finish ∧ value.Fits units stop
  | convert value keyword unit stop =>
    Derivation.IsKeyword keyword ∧ unit.kind = .identifier ∧ stop.kind = .finish ∧
      value.Fits units keyword

/-- Whether a list of tokens is derived, for the given names of units. -/
def Derives (units : List String) (s : Sentence) (ts : List Token) : Prop :=
  s.Fits units ∧ s.tokens = ts

/-- Whether a derivation is that of an assignment. -/
def IsAssign (s : Sentence) : Prop :=
  ∃ target sign value stop, s = assign target sign value stop

/-- Whether a list of tokens starts with a name and an equals sign. -/
def StartsAssign (ts : List Token) : Prop :=
  ∃ target sign rest, ts = target :: sign :: rest ∧ target.kind = .identifier ∧ sign.kind = .equal

end Sentence

end Reckoner
