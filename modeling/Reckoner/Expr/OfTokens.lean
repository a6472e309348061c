import Reckoner.Builtin
import Reckoner.Expr.Basic
import Reckoner.Source.Typed
import Reckoner.Token.Scan

/-!
# Reckoner.Expr.OfTokens -- reading tokens into a statement

A reader takes a tree from the front of a list of tokens and gives the tokens behind it. How deep
expressions may lie in one another is limited, and the limit is what the definition recurses on:
`expression (n + 1)` is built from `expression n`, which reads what lies inside. The chain of
operations at one depth is as long as the input, so that loop and the one over the arguments of a
call are bounded by the number of tokens left.

Tokens never run out before the end mark. Where they could, the reader faults.
-/

namespace Reckoner

/-! ## Precedence

Four levels, from sums to powers. A sign before an operand binds tighter than a product and looser
than a power, so the negative of a power is meant by `-2 ** 2`. Powers associate to the right and
all other operations to the left. -/

/-- The level of sums, the loosest. -/
def sumLevel : Nat := 1

/-- The level of a sign before an operand, and of the argument of a function that is called
without brackets. -/
def signLevel : Nat := 3

namespace BinaryOp

/-- The operation that a token stands for between two operands. -/
def ofToken? (t : Token) : Option BinaryOp :=
  if t.isSign "+" then some add
  else if t.isSign "-" then some sub
  else if t.isSign "*" then some mul
  else if t.isSign "/" then some div
  else if t.isSign "**" then some pow
  else none

/-- How tightly an operation binds. -/
def level : BinaryOp → Nat
  | add | sub | percentAdd | percentSub => sumLevel
  | mul | div => 2
  | pow => 4

/-- The level that the right operand has to reach. -/
def rightLevel : BinaryOp → Nat
  | pow => pow.level
  | op => op.level + 1

/-- An operation on two operands. A sum or difference whose right operand is a percentage takes
that share of its left operand. -/
def apply (op : BinaryOp) (left right : Expr) (place : Nat) : Expr :=
  match op, right with
  | add, .unary .percent share _ => .binary percentAdd left share place
  | sub, .unary .percent share _ => .binary percentSub left share place
  | _, _ => .binary op left right place

end BinaryOp

end Reckoner

namespace Reckoner.Brackets

/-! ## Brackets

Brackets are checked over the whole list of tokens before anything else, so a bracket that does
not match is reported whatever else is wrong. A closing bracket too many is reported where it is,
a closing bracket too few at the end. -/

/-- Checks the brackets of a list of tokens behind `opened` brackets that are not closed yet;
`last` is the place of the token before. -/
def checkFrom : (opened : Nat) → (last : Nat) → List Token → Except Error Unit
  | 0, _, [] => .ok ()
  | _ + 1, last, [] => .error (.misplaced .unclosedBracket last)
  | opened, _, t :: ts =>
    match t.kind, opened with
    | .openBracket, _ => checkFrom (opened + 1) t.place ts
    | .closeBracket, 0 => .error (.misplaced .unopenedBracket t.place)
    | .closeBracket, others + 1 => checkFrom others t.place ts
    | _, _ => checkFrom opened t.place ts

/-- Checks the brackets of a list of tokens. -/
def check (ts : List Token) : Except Error Unit := checkFrom 0 0 ts

end Reckoner.Brackets

namespace Reckoner

/-! ## Readers -/

/-- Reads an expression whose operations bind at least as tightly as `level`. The token before it
matters for signs and for errors. -/
abbrev ExprReader :=
  (level : Nat) → (before : Option Token) → List Token → Except Failure (Expr × List Token)

namespace ExprReader

/-- Reports tokens that do not go together. -/
def misplaced {α : Type} (why : Misplacement) (t : Token) : Except Failure α :=
  .error (.error (.misplaced why t.place))

/-- Reports a token that cannot stand where it does. -/
def stray {α : Type} (t : Token) : Except Failure α := misplaced (.stray t.lexeme) t

/-- Faults because the list of tokens has no end mark. -/
def ranOut {α : Type} : Except Failure α := .error (.fault .tokensRanOut)

/-! ## Operands -/

/-- Whether the token can start the argument of a function that is called without brackets. -/
def startsArgument (t : Token) : Bool :=
  match t.kind with
  | .identifier => !conversionKeywords.contains t.lexeme
  | .number => true
  | _ => t.isSign "-"

/-- Reads the unit behind an amount, if there is one. -/
def withUnit (units : List String) (place : Nat) (amount : Expr) :
    List Token → Expr × List Token
  | t :: ts =>
    if t.kind == .identifier && units.contains t.lexeme then
      (.quantity amount t.lexeme place, ts)
    else (amount, t :: ts)
  | [] => (amount, [])

/-- Reads the percent signs behind an operand. -/
def withPercents (operand : Expr) : List Token → Expr × List Token
  | t :: ts =>
    if t.isSign "%" then withPercents (.unary .percent operand t.place) ts else (operand, t :: ts)
  | [] => (operand, [])

/-- Reads the arguments of a call up to its closing bracket. There are no more arguments than
`room`. -/
def arguments (inner : ExprReader) :
    (room : Nat) → (before : Token) → List Token → Except Failure (List Expr × List Token)
  | 0, _, _ => ranOut
  | room + 1, before, ts => do
    let (arg, rest) ← inner sumLevel (some before) ts
    match rest with
    | [] => ranOut
    | t :: rest =>
      match t.kind with
      | .closeBracket => return ([arg], rest)
      | .comma => do
        let (args, rest) ← arguments inner room t rest
        return (arg :: args, rest)
      | _ => stray t

/-- Reads the call of `function` behind its opening bracket. -/
def call (inner : ExprReader) (function bracket : Token) :
    List Token → Except Failure (Expr × List Token)
  | [] => ranOut
  | t :: ts =>
    if t.kind == .closeBracket then return (.call function.lexeme [] function.place, ts)
    else do
      let (args, rest) ← arguments inner (t :: ts).length bracket (t :: ts)
      return (.call function.lexeme args function.place, rest)

/-- Reads what starts with the identifier `name`: a call, a function and its argument side by
side, or a name. -/
def named (inner : ExprReader) (name : Token) : List Token → Except Failure (Expr × List Token)
  | [] => ranOut
  | t :: ts =>
    if t.kind == .openBracket then call inner name t ts
    else if Builtin.isName name.lexeme && startsArgument t then do
      let (arg, rest) ← inner signLevel (some name) (t :: ts)
      return (.call name.lexeme [arg] name.place, rest)
    else return (.name name.lexeme name.place, t :: ts)

/-- Reads a name, a call, or a number or an expression in brackets with its unit, starting with
the token `first`. -/
def primary (inner : ExprReader) (units : List String) (first : Token) (ts : List Token) :
    Except Failure (Expr × List Token) :=
  match first.kind with
  | .number =>
    match Number.numeral? first.lexeme with
    | some x => return withUnit units first.place (.number x first.place) ts
    | none => .error (.fault (.notANumeral first.lexeme))
  | .openBracket => do
    let (e, rest) ← inner sumLevel (some first) ts
    match rest with
    | [] => ranOut
    | t :: rest =>
      if t.kind == .closeBracket then return withUnit units first.place e rest else stray t
  | .identifier => named inner first ts
  | _ => stray first

/-- Reports that there is no operand at the token `t`. An operator before it is what dangles. -/
def missing {α : Type} (before : Option Token) (t : Token) : Except Failure α :=
  match before with
  | some b =>
    if b.isOperator then misplaced .danglingOperator b
    else if b.kind == .openBracket && t.kind == .closeBracket then misplaced .emptyBrackets t
    else misplaced .missingOperand t
  | none => misplaced .missingOperand t

/-- Reports an operator where an operand has to start. -/
def strayOperator {α : Type} (before : Option Token) (t : Token) : Except Failure α :=
  match before with
  | some b =>
    if b.isOperator then misplaced (.doubledOperator (b.lexeme ++ t.lexeme)) t
    else misplaced (.strayOperator t.lexeme) t
  | none => misplaced (.strayOperator t.lexeme) t

/-- The sign that a token is in front of an operand. A plus is none behind an operator. -/
def signOf? (before : Option Token) (t : Token) : Option UnaryOp :=
  if t.isSign "-" then some .neg
  else if t.isSign "+" && !before.any Token.isOperator then some .pos
  else none

/-- Reads an operand: a sign with what it binds, or a primary with its percent signs. -/
def operand (inner : ExprReader) (units : List String) (before : Option Token) :
    List Token → Except Failure (Expr × List Token)
  | [] => ranOut
  | t :: ts =>
    match t.kind with
    | .finish | .closeBracket | .comma => missing before t
    | .operator =>
      match signOf? before t with
      | some sign => do
        let (e, rest) ← inner signLevel (some t) ts
        return (.unary sign e t.place, rest)
      | none => strayOperator before t
    | _ => do
      let (e, rest) ← primary inner units t ts
      return withPercents e rest

/-! ## Operations -/

/-- Reads the operations behind `left` that bind at least as tightly as `level`. There are no
more than `room`. -/
def operations (inner : ExprReader) (level : Nat) :
    (room : Nat) → (left : Expr) → List Token → Except Failure (Expr × List Token)
  | room + 1, left, t :: ts =>
    match BinaryOp.ofToken? t with
    | some op =>
      if op.level < level then return (left, t :: ts)
      else do
        let (right, rest) ← inner op.rightLevel (some t) ts
        operations inner level room (op.apply left right t.place) rest
    | none => return (left, t :: ts)
  | _, _, _ => ranOut

/-- Reads an expression in which at most `depth` expressions lie in one another, counting itself;
`limit` is the greatest depth, for the error. -/
def expression (units : List String) (limit : Nat) : (depth : Nat) → ExprReader
  | 0, _, _, _ => .error (.error (.tooDeep limit))
  | depth + 1, level, before, ts => do
    let inner := expression units limit depth
    let (left, rest) ← operand inner units before ts
    operations inner level rest.length left rest

end ExprReader

/-! ## Statements -/

namespace Statement

open ExprReader (misplaced stray ranOut)

/-- Checks that nothing but the end mark is left. -/
def atEnd : List Token → Except Failure Unit
  | [] => ranOut
  | t :: _ =>
    match t.kind with
    | .finish => return ()
    | .equal => misplaced .manyTargets t
    | _ => stray t

/-- Reads what stands behind the expression of a statement: a conversion, or the end. -/
def conversion (value : Expr) : List Token → Except Failure Statement
  | [] => ranOut
  | keyword :: ts =>
    if keyword.kind == .identifier && conversionKeywords.contains keyword.lexeme then
      match ts with
      | [] => ranOut
      | unit :: rest =>
        if unit.kind == .identifier then do
          atEnd rest
          return .convert value unit.lexeme keyword.place
        else misplaced (.missingUnit keyword.lexeme) unit
    else do
      atEnd (keyword :: ts)
      return .expression value

/-- The target, the equals sign and the tokens behind it, if a list of tokens starts like an
assignment. -/
def assignment? : List Token → Option (Token × Token × List Token)
  | target :: sign :: rest =>
    if target.kind == .identifier && sign.kind == .equal then some (target, sign, rest) else none
  | _ => none

theorem assignment?_eq_some {ts rest : List Token} {target sign : Token}
    (h : assignment? ts = some (target, sign, rest)) :
    ts = target :: sign :: rest ∧ target.kind = .identifier ∧ sign.kind = .equal := by
  unfold assignment? at h
  split at h
  · split at h
    · next hkinds =>
      cases h
      rw [Bool.and_eq_true, beq_iff_eq, beq_iff_eq] at hkinds
      exact ⟨rfl, hkinds⟩
    · cases h
  · cases h

/-- Reads a list of tokens with an end mark into a statement, for the given names of units and
greatest depth. -/
def ofTokens (units : List String) (limit : Nat) (ts : List Token) : Except Failure Statement := do
  orError (Brackets.check ts)
  match assignment? ts with
  | some (target, sign, rest) => do
    let (value, rest) ← ExprReader.expression units limit limit sumLevel (some sign) rest
    atEnd rest
    return .assign target.lexeme value target.place
  | none => do
    let (value, rest) ← ExprReader.expression units limit limit sumLevel none ts
    conversion value rest

end Statement

/-! ## From a typed line to a statement

The three readers one after the other: the line becomes a source, the source becomes tokens, and
the tokens become a statement. All three use the same names of units. The first to fail decides
what is reported. -/

/-- The tokens of a typed line, for the given names of units. -/
def Token.ofTyped (units : List String) (typed : String) : Except Error (List Token) := do
  Token.ofSource units (← Source.ofTyped units typed)

/-- The statement of a typed line, for the given names of units and greatest depth. -/
def Statement.ofTyped (units : List String) (limit : Nat) (typed : String) :
    Except Failure Statement := do
  Statement.ofTokens units limit (← orError (Token.ofTyped units typed))

end Reckoner
