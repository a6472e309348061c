import Reckoner.Builtin
import Reckoner.Token.Basic

/-!
# Reckoner.Eval.Statement -- carrying out a statement on a memory

A statement is carried out on a memory. What it changes on its way stays changed if it then
fails, so a statement in error has its angle mode put back; variables are written last and need
no such care. Only an assignment of a finite number changes variables; a result that is infinite
or not a number is shown and forgotten.

The stack of the machine is taken as unbounded. Only the greatest depth limits how deep an
evaluation goes, so there is no error for a stack that is used up.
-/

namespace Reckoner

open Number (AngleMode)

/-! ## Memory

The angle mode, the variables, the result before, and the table of units. Clearing the memory
brings back the angle mode that the calculator was set up with. -/

/-- What a calculator remembers from one line to the next. -/
structure Memory where
  angleMode : AngleMode
  bindings : Ledger Float
  lastResult : Float
  units : UnitTable
  homeMode : AngleMode

namespace Memory

/-- The memory of a calculator that is set up with an angle mode. -/
def fresh (mode : AngleMode) : Memory := ⟨mode, .empty, 0, .standard, mode⟩

/-- The memory as it was at first. -/
def cleared (m : Memory) : Memory := fresh m.homeMode

/-- The number that a name stands for: constants come before variables, and variables before the
result before. -/
def number? (m : Memory) (name : String) : Option Float :=
  match Number.constant? name with
  | some x => some x
  | none =>
    match m.bindings.find? name with
    | some x => some x
    | none => if name = previousResult then some m.lastResult else none

/-- Whether a name has a fixed meaning, so that no variable can have it. -/
def isReserved (m : Memory) (name : String) : Bool :=
  (Number.constant? name).isSome || Builtin.isName name || m.units.has name ||
    conversionKeywords.contains name || name == previousResult

end Memory

/-! ## Expressions

Operands are evaluated from left to right and before their operation. The depth of a node is the
number of nodes above it; a node deeper than the limit is not evaluated. -/

namespace Expr

mutual

/-- The value of an expression at some depth. -/
def eval (m : Memory) (limit : Nat) : (depth : Nat) → Expr → Evaluation Value
  | depth, e =>
    if limit < depth then fail (.tooDeep limit)
    else match e with
      | number x _ => return .number x
      | name n _ =>
        match m.number? n with
        | some x => return .number x
        | none => fail (.undefinedName n)
      | quantity amount unit _ => do
        let v ← eval m limit (depth + 1) amount
        let _ ← m.units.measure unit
        match v with
        | .number x => return .quantity ⟨x, unit⟩
        | v => misused (.withUnit v.sort)
      | call function args _ =>
        match Builtin.ofName? function with
        | some f => do
          let vs ← evalAll m limit (depth + 1) args
          f.apply vs
        | none => fail (.undefinedName function)
      | binary op left right _ => do
        let a ← eval m limit (depth + 1) left
        let b ← eval m limit (depth + 1) right
        op.combine m.units a b
      | unary op operand _ => do
        let v ← eval m limit (depth + 1) operand
        op.apply v

/-- The values of some expressions at one depth. -/
def evalAll (m : Memory) (limit : Nat) : (depth : Nat) → List Expr → Evaluation (List Value)
  | _, [] => return []
  | depth, e :: es => do
    let v ← eval m limit depth e
    let vs ← evalAll m limit depth es
    return v :: vs

end

end Expr

/-! ## Statements -/

/-- A computation of many operations on a memory. -/
abbrev Action := Computation Memory

namespace Statement

/-- The value of an expression. The memory has the angle mode that its evaluation leaves. -/
def valueOf (limit : Nat) (e : Expr) : Action Value := fun m =>
  let (outcome, mode) := (e.eval m limit 0).run m.angleMode
  (outcome, { m with angleMode := mode })

/-- The memory with a value stored under a name, if it is a number and the name is free. -/
def stored (m : Memory) (name : String) (v : Value) : Except Failure Memory :=
  if m.isReserved name then fail (.reservedName name)
  else match v with
    | .number x => .ok (if x.isFinite then { m with bindings := m.bindings.put name x } else m)
    | v => misused (.stored v.sort)

/-- Carries out a statement as far as it goes. -/
def attempt (limit : Nat) : Statement → Action Value
  | expression e => valueOf limit e
  | assign name e _ => do
    let v ← valueOf limit e
    set (← stored (← get) name v)
    return v
  | convert e unit _ => do
    let v ← valueOf limit e
    v.convert (← get).units unit

/-- Carries out a statement. After an error the angle mode is what it was before. -/
def perform (limit : Nat) (s : Statement) : Action Value := fun m =>
  match (s.attempt limit).run m with
  | (.error (.error e), after) => (.error (.error e), { after with angleMode := m.angleMode })
  | done => done

end Statement

end Reckoner
