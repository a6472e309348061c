import Reckoner.Calculator.Basic

/-!
# Reckoner.Console.Dialogue -- lines in, replies out

Lines reach a calculator in two ways. A batch is read to its end or to the first error, each line
without the white space around it. A dialogue prompts for each line, takes commands, reports
errors and goes on until it is told to quit or there are no more lines. Both skip empty lines.
-/

namespace Reckoner

open Number (AngleMode)

/-! ## Commands

A command is a line that starts with a colon. Its name is read without regard to case or white
space around it. -/

/-- The commands. -/
inductive Command where
  | quit
  | reset
  | listVariables
  | listUnits
  | setMode (mode : AngleMode)
  | unknown
deriving DecidableEq, Repr

namespace Command

/-- The command of a name. -/
def ofName (name : String) : Command :=
  if ["q", "quit", "exit"].contains name then quit
  else if name = "reset" then reset
  else if name = "vars" then listVariables
  else if name = "units" then listUnits
  else if name = "deg" then setMode .degrees
  else if name = "rad" then setMode .radians
  else unknown

/-- The command on a line; its first character is the colon. -/
def ofLine (line : String) : Command :=
  ofName (String.ofList ((Text.trim (line.toList.drop 1)).flatMap Text.lower))

end Command

namespace Calculator

/-- The variables with their values, one to a line. -/
def variableLines (c : Calculator) : String :=
  "\n".intercalate (c.memory.bindings.entries.map fun (name, x) =>
    name ++ " = " ++ shownNumber c.config.precision x)

/-- Obeys the command on a line: the answer and the calculator after it, or nothing to quit. -/
def obey (c : Calculator) (line : String) : Option (String × Calculator) :=
  match Command.ofLine line with
  | .quit => none
  | .reset => some ("Memory cleared", c.reset)
  | .listVariables =>
    some (if c.memory.bindings.entries.isEmpty then "No variables" else c.variableLines, c)
  | .listUnits => some (" ".intercalate c.memory.units.names, c)
  | .setMode mode => some (Builtin.confirmation mode, c.setMode mode)
  | .unknown =>
    some ("Unknown command " ++ Text.quoted line ++
      ", try :vars :units :deg :rad :reset :quit", c)

/-! ## Batches -/

/-- What a batch prints, and whether it got to its end, together with the calculator it leaves. -/
def batch (c : Calculator) : List String → Except Fault (String × Bool × Calculator)
  | [] => .ok ("", true, c)
  | line :: lines =>
    let typed := Text.trimString line
    if typed.isEmpty then batch c lines
    else do
      let (reply, c) ← c.evaluate typed
      let printed := reply.render typed ++ "\n"
      if reply.isError then return (printed, false, c)
      else do
        let (more, finished, c) ← batch c lines
        return (printed ++ more, finished, c)

/-! ## Dialogues -/

/-- What stands in front of each line of a dialogue. -/
def prompt : String := "> "

/-- What a line of a dialogue leads to. -/
inductive Turn where
  | silent
  | said (text : String) (next : Calculator)
  | quit

/-- The turn that answers a line: nothing for an empty one, what a command says if there is a
colon in front, and otherwise the reply. -/
def turn (c : Calculator) (line : String) : Except Fault Turn :=
  let trimmed := Text.trimString line
  if trimmed.isEmpty then .ok .silent
  else if trimmed.toList.head? = some ':' then
    match c.obey trimmed with
    | some (text, c) => .ok (.said text c)
    | none => .ok .quit
  else do
    let (reply, c) ← c.evaluate line
    return .said (reply.render line) c

/-- All that a dialogue prints, prompts included, and the calculator it leaves. At the end of the
lines the last prompt is completed by an empty line. -/
def dialogue (c : Calculator) : List String → Except Fault (String × Calculator)
  | [] => .ok (prompt ++ "\n", c)
  | line :: lines => do
    match ← c.turn line with
    | .silent => do
      let (more, c) ← dialogue c lines
      return (prompt ++ more, c)
    | .said text c => do
      let (more, c) ← dialogue c lines
      return (prompt ++ text ++ "\n" ++ more, c)
    | .quit => return (prompt, c)

end Calculator

end Reckoner
