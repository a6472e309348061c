import Reckoner.Console.Dialogue

/-!
# Reckoner.Calculator.Session -- sessions with a calculator

A session is a row of steps on one calculator: lines of input, commands, and what a program that
embeds the calculator can call besides. The log of a session keeps each step with the answer to
it and the calculator that the step was taken on.
-/

namespace Reckoner

open Number (AngleMode)

/-! ## Steps -/

/-- What can be done to a calculator that is running. -/
inductive Step where
  | evaluate (typed : String)
  | command (line : String)
  | reset
  | setMode (mode : AngleMode)

/-- What a step answers: a line of input gets a reply, a command a text or the end of the dialogue,
and the rest gets nothing. -/
inductive Answer where
  | reply (r : Reply)
  | told (text : String)
  | ended
  | nothing

/-- A step in the log of a session, with the calculator in front of it and its answer. -/
structure Entry where
  before : Calculator
  step : Step
  answer : Answer

namespace Calculator

/-- The answer to a step and the calculator after it. -/
def take (c : Calculator) : Step → Except Fault (Answer × Calculator)
  | .evaluate typed => (c.evaluate typed).map fun (r, after) => (.reply r, after)
  | .command line =>
    match c.obey line with
    | some (text, after) => .ok (.told text, after)
    | none => .ok (.ended, c)
  | .reset => .ok (.nothing, c.reset)
  | .setMode mode => .ok (.nothing, c.setMode mode)

/-- The log of some steps, one after the other, and the calculator after them. -/
def run (c : Calculator) : List Step → Except Fault (List Entry × Calculator)
  | [] => .ok ([], c)
  | step :: steps => do
    let (answer, next) ← c.take step
    let (log, after) ← run next steps
    return (⟨c, step, answer⟩ :: log, after)

/-- The name that a line of input assigns to, if it is an assignment. -/
def target? (c : Calculator) (typed : String) : Option String :=
  match c.statement typed with
  | .ok (.assign name _ _) => some name
  | _ => none

/-- The value of a line of input, if it has one. -/
def value? (c : Calculator) (typed : String) : Option Value :=
  match c.statement typed with
  | .ok s =>
    match ((s.perform c.config.maxDepth).run c.memory).1 with
    | .ok v => some v
    | .error _ => none
  | .error _ => none

end Calculator

/-! ## Edits of the table of units

The table of units belongs to the memory, and whoever embeds a calculator may edit it between two
steps: set a unit, or take one out. A chronicle keeps what each deed answered and what was
remembered behind it. -/

/-- A step, or an edit of the table of units. -/
inductive Deed where
  | step (s : Step)
  | setUnit (name : String) (m : Measure)
  | removeUnit (name : String)

/-- A deed in a chronicle, with its answer and what is remembered behind it. -/
structure Deed.Record where
  deed : Deed
  answer : Answer
  memory : Memory

namespace Calculator

/-- The answer to a deed and the calculator after it. -/
def act (c : Calculator) : Deed → Except Fault (Answer × Calculator)
  | .step s => c.take s
  | .setUnit name m => .ok (.nothing, c.setUnit name m)
  | .removeUnit name => .ok (.nothing, c.removeUnit name)

/-- The chronicle of some deeds, one after the other. -/
def chronicle (c : Calculator) : List Deed → Except Fault (List Deed.Record)
  | [] => .ok []
  | deed :: deeds => do
    let (answer, next) ← c.act deed
    let records ← chronicle next deeds
    return ⟨deed, answer, next.memory⟩ :: records

end Calculator

end Reckoner
