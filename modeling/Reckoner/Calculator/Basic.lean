import Reckoner.Eval.Statement
import Reckoner.Expr.OfTokens

/-!
# Reckoner.Calculator.Basic -- calculators

A calculator takes a line of input, answers, and remembers. A finite number becomes the result
before; errors, quantities, confirmations and numbers that are not finite do not.

Neither reading nor evaluating a line uses up the stack of the machine, which is taken as unbounded:
an expression is too complex only beyond the greatest depth that the settings allow.
-/

namespace Reckoner

open Number (AngleMode)

/-! ## Settings

The bounds of the settings are part of the type, so a calculator cannot be set up outside them.
Settings that come from outside are integers and are checked, the precision first. -/

/-- The significant digits of numbers unless set otherwise. -/
def standardPrecision : Nat := 12

/-- The greatest depth of an expression unless set otherwise. -/
def standardDepth : Nat := 200

/-- How a calculator is set up: the significant digits of the numbers that it shows, the greatest
depth of an expression, and the angle mode at the start and after the memory is cleared. -/
structure Config where
  precision : Nat := standardPrecision
  maxDepth : Nat := standardDepth
  angleMode : AngleMode := .degrees
  precision_pos : 1 ≤ precision := by decide
  precision_le : precision ≤ 17 := by decide
  maxDepth_pos : 1 ≤ maxDepth := by decide

/-- A setting that is out of bounds. -/
inductive ConfigError where
  | precision (n : Int)
  | maxDepth (n : Int)
deriving DecidableEq, Repr

/-- The wording for a setting that is out of bounds. -/
def ConfigError.message : ConfigError → String
  | precision n => "precision must be between 1 and 17, got " ++ toString n
  | maxDepth n => "max_depth must be positive, got " ++ toString n

/-- The set-up with the given settings, if they are within bounds. -/
def Config.ofSettings (precision maxDepth : Int) (mode : AngleMode) : Except ConfigError Config :=
  if hp : 1 ≤ precision ∧ precision ≤ 17 then
    if hd : 1 ≤ maxDepth then
      .ok ⟨precision.toNat, maxDepth.toNat, mode, by omega, by omega, by omega⟩
    else .error (.maxDepth maxDepth)
  else .error (.precision precision)

/-! ## Replies

A reply has a text and a kind, and for errors of reading a place in the typed line. Numbers are
written with the digits of the calculator's precision, without an exponent from a millionth up to
below ten to the twenty-first. -/

/-- What a calculator answers to a line of input. -/
structure Reply where
  text : String
  isError : Bool
  kind : Kind
  place : Option Int := none
deriving DecidableEq, Repr

/-- How numbers in replies are laid out. -/
def replyLayout : Number.Layout := ⟨-6, 20, 1⟩

/-- A number with some significant digits. -/
def shownNumber (precision : Nat) (x : Float) : String := replyLayout.write precision x

/-- A value with some significant digits. -/
def Value.shown (precision : Nat) : Value → String
  | number x => shownNumber precision x
  | quantity q => shownNumber precision q.amount ++ " " ++ q.unit
  | text s => s

namespace Reply

/-- The reply to an error. -/
def ofError (e : Error) : Reply := ⟨e.message, true, e.kind, e.place?.map (↑·)⟩

/-- The reply for a number that is infinite or no number at all, or `shown` of the given kind for
any other. -/
def ofAmount (x : Float) (kind : Kind) (shown : String) : Reply :=
  if x.isNaN then ⟨"NaN", false, .notANumber, none⟩
  else if x.isInf then ⟨if x > 0 then "Infinity" else "-Infinity", false, .infinity, none⟩
  else ⟨shown, false, kind, none⟩

/-- The reply for a value. -/
def ofValue (precision : Nat) (v : Value) : Reply :=
  match v with
  | .number x => ofAmount x .number (v.shown precision)
  | .quantity q => ofAmount q.amount .quantity (v.shown precision)
  | .text s => ⟨s, false, .text, none⟩

/-- The reply for a value that was assigned to a name. What is infinite or not a number has not
been stored. -/
def ofAssigned (precision : Nat) (name : String) (v : Value) : Reply :=
  match v with
  | .number x => ofAmount x .assignment (name ++ " = " ++ v.shown precision)
  | v => ofValue precision v

/-- Whether errors of this kind are called syntax errors. -/
def isSyntaxKind (k : Kind) : Bool := k.isArrangement || k == .unexpectedCharacter

/-- A reply as it is printed for the line `typed`. -/
def render (typed : String) (r : Reply) : String :=
  if r.isError then
    match r.place with
    | none => "Error: " ++ r.text
    | some place =>
      (if isSyntaxKind r.kind then "Syntax error: " else "Error: ") ++ r.text ++ "\n" ++
        Text.snippet typed place
  else r.text

end Reply

/-! ## Calculators -/

/-- A calculator: how it is set up, and what it remembers. -/
structure Calculator where
  config : Config
  memory : Memory

/-- The memory after a result: a finite number is remembered as the result before. -/
def Memory.remembering (m : Memory) : Value → Memory
  | .number x => if x.isFinite then { m with lastResult := x } else m
  | _ => m

namespace Calculator

/-- A calculator that remembers nothing yet. -/
def new (config : Config) : Calculator := ⟨config, .fresh config.angleMode⟩

/-- The statement that a line of input means to the calculator. -/
def statement (c : Calculator) (typed : String) : Except Failure Statement :=
  Statement.ofTyped c.memory.units.names c.config.maxDepth typed

/-- The reply to a statement with the given value. -/
def replyTo (c : Calculator) (s : Statement) (v : Value) : Reply :=
  match s with
  | .assign name _ _ => .ofAssigned c.config.precision name v
  | _ => .ofValue c.config.precision v

/-- The reply to a statement, and the calculator after it. -/
def carryOut (c : Calculator) (s : Statement) : Except Fault (Reply × Calculator) :=
  match (s.perform c.config.maxDepth).run c.memory with
  | (.ok v, m) => .ok (c.replyTo s v, { c with memory := m.remembering v })
  | (.error (.error e), m) => .ok (.ofError e, { c with memory := m })
  | (.error (.fault f), _) => .error f

/-- The reply to a line of input, and the calculator after it. A line that cannot be read leaves
the calculator as it was. -/
def evaluate (c : Calculator) (typed : String) : Except Fault (Reply × Calculator) :=
  match c.statement typed with
  | .ok s => c.carryOut s
  | .error (.error e) => .ok (.ofError e, c)
  | .error (.fault f) => .error f

/-- A value as this calculator shows it. -/
def shown (c : Calculator) (v : Value) : String := v.shown c.config.precision

/-- The calculator with its memory cleared. -/
def reset (c : Calculator) : Calculator := { c with memory := c.memory.cleared }

/-- The calculator with its angle mode switched. -/
def setMode (c : Calculator) (mode : AngleMode) : Calculator :=
  { c with memory := { c.memory with angleMode := mode } }

/-- The calculator with a unit set in its table. -/
def setUnit (c : Calculator) (name : String) (m : Measure) : Calculator :=
  { c with memory := { c.memory with units := c.memory.units.put name m } }

/-- The calculator without a unit. -/
def removeUnit (c : Calculator) (name : String) : Calculator :=
  { c with memory := { c.memory with units := c.memory.units.remove name } }

end Calculator

end Reckoner
