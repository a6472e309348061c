import Reckoner.CommandLine.Run

/-!
# Reckoner.Main -- the program

All that is decided here is when to read and when to print: a dialogue answers each line before it
reads the next, and a batch is read to its end first.
-/

namespace Reckoner.Program

/-- Reads lines from a stream until there are no more. -/
partial def readAll (stream : IO.FS.Stream) (soFar : String) : IO String := do
  let line ← stream.getLine
  if line.isEmpty then return soFar else readAll stream (soFar ++ line)

/-- Tells that the calculator has broken a promise to itself. -/
def reportFault : IO UInt32 := do
  IO.eprintln "callmath: internal fault"
  return 70

/-- Holds a dialogue on a terminal. -/
partial def converseOn (input : IO.FS.Stream) (c : Calculator) : IO UInt32 := do
  IO.print Calculator.prompt
  (← IO.getStdout).flush
  let line ← input.getLine
  if line.isEmpty then
    IO.println ""
    return 0
  else
    let typed := (Text.lines line).headD ""
    match c.turn typed with
    | .ok .silent => converseOn input c
    | .ok (.said text next) =>
      IO.println text
      converseOn input next
    | .ok .quit => return 0
    | .error _ => reportFault

/-- Prints what a run leaves. -/
def finish (o : CommandLine.Outcome) : IO UInt32 := do
  IO.print o.stdout
  IO.eprint o.stderr
  return o.code.toUInt32

end Reckoner.Program

open Reckoner Program

/-- Runs the program. -/
def main (arguments : List String) : IO UInt32 := do
  let input ← IO.getStdin
  match (CommandLine.Request.ofTexts arguments).start with
  | .over o => finish o
  | .ready config =>
    if ← input.isTty then converseOn input (.new config)
    else
      match CommandLine.converse config false (Text.lines (← readAll input "")) with
      | .ok o => finish o
      | .error _ => reportFault
