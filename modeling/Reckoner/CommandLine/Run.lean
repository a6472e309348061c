import Reckoner.Calculator.Basic
import Reckoner.Console.Dialogue
import Reckoner.Number.Decimal

/-!
# Reckoner.CommandLine.Run -- what the program prints for a command line

A flag may be shortened as long as no other flag starts alike, its value may follow an equals sign
or be the next word, and the last of several values counts. Asking for help or for the version
ends the reading at once, as does a flag that is used wrongly. Words that belong to no flag are
refused only when all words have been read.

The program talks on a terminal, and otherwise reads its input as a batch. Its exit code tells
whether a batch met an error, or whether the command line was refused.
-/

namespace Reckoner.CommandLine

open Number (AngleMode)

/-! ## Words -/

/-- The flags. -/
inductive Flag where
  | help
  | radians
  | precision
  | logLevel
  | version
deriving DecidableEq, Repr

/-- The long names of the flags. -/
def longNames : List (String × Flag) := [
  ("--help", .help),
  ("--radians", .radians),
  ("--precision", .precision),
  ("--log-level", .logLevel),
  ("--version", .version)]

/-- The letters of the flags that have a short name. -/
def letter? : Char → Option Flag
  | 'h' => some .help
  | 'v' => some .version
  | _ => none

/-- The flags whose long names a text is the beginning of; only the one it names in full, if it
does that. -/
def flagsNamed (name : List Char) : List Flag :=
  match longNames.lookup (String.ofList name) with
  | some f => [f]
  | none => (longNames.filter fun entry => name.isPrefixOf entry.1.toList).map (·.2)

/-- What a word of the command line is. -/
inductive Word where
  /-- A word without a flag. -/
  | operand (text : List Char)
  /-- A flag by itself. -/
  | flag (f : Flag)
  /-- A flag with the value behind its equals sign. -/
  | flagWith (f : Flag) (value : List Char)
  /-- A flag by its letter with something behind it, which can only be more letters. -/
  | letters (f : Flag) (more : List Char)
  /-- The word behind which there are only operands. -/
  | separator
  /-- A flag that there is not. -/
  | unknown
  /-- The beginning of more than one flag. -/
  | ambiguous

/-- Whether a text is made of one decimal digit or more. -/
def isDigits (cs : List Char) : Bool := !cs.isEmpty && cs.all Text.isDecimalDigit

/-- Whether a word looks like a negative number, with a point or without; a line feed at its end
does not count. -/
def isNegativeNumber : List Char → Bool
  | '-' :: cs =>
    let body := if cs.getLast? = some '\n' then cs.dropLast else cs
    match body.dropWhile Text.isDecimalDigit with
    | '.' :: fraction => isDigits fraction
    | [] => isDigits body
    | _ => false
  | _ => false

/-- A word split at its first equals sign. -/
def splitValue (cs : List Char) : List Char × Option (List Char) :=
  match cs.dropWhile (· != '=') with
  | _ :: value => (cs.takeWhile (· != '='), some value)
  | [] => (cs, none)

/-- A word that starts with a hyphen but is no flag. -/
def Word.ofOther (cs : List Char) : Word :=
  if isNegativeNumber cs || cs.contains ' ' then .operand cs else .unknown

/-- A word that starts with two hyphens. -/
def Word.ofLong (cs : List Char) : Word :=
  let (name, value?) := splitValue cs
  match flagsNamed name, value? with
  | [], _ => .ofOther cs
  | [f], none => .flag f
  | [f], some value => .flagWith f value
  | _, _ => .ambiguous

/-- The flag of a letter with what stands behind the letter. An equals sign directly behind it
does not count. -/
def Word.ofLetter (f : Flag) : List Char → Word
  | [] => .flag f
  | '=' :: more => .letters f more
  | more => .letters f more

/-- What a word in front of the separator is. -/
def Word.ofText (text : String) : Word :=
  let cs := text.toList
  match cs with
  | ['-', '-'] => .separator
  | '-' :: '-' :: _ => .ofLong cs
  | '-' :: c :: more =>
    match letter? c with
    | some f => .ofLetter f more
    | none => .ofOther cs
  | _ => .operand cs

/-- What the words of a command line are. -/
def Word.ofTexts : List String → List Word
  | [] => []
  | text :: texts =>
    match Word.ofText text with
    | .separator => .separator :: texts.map (.operand ·.toList)
    | word => word :: ofTexts texts

/-! ## Requests -/

/-- The settings that flags make. -/
structure Settings where
  angleMode : AngleMode := .degrees
  precision : Int := standardPrecision

/-- What a command line asks for. -/
inductive Request where
  | run (settings : Settings)
  | help
  | version
  | refused

/-- The values of the flag for the amount of logging. -/
def logLevels : List String := ["DEBUG", "INFO", "WARNING", "ERROR"]

/-- Sets the value of a flag that takes one. -/
def Settings.withValue? (s : Settings) (f : Flag) (value : List Char) : Option Settings :=
  match f with
  | .precision => (Number.integerText? value).map fun n => { s with precision := n }
  | .logLevel => if logLevels.contains (String.ofList value) then some s else none
  | _ => none

/-- Whether letters may stand behind the letter of a flag: there are some, and each is that of a
flag. -/
def lettersFit (more : List Char) : Bool := !more.isEmpty && more.all fun c => (letter? c).isSome

/-- Reads words into a request; `strays` tells that a word was read that belongs to no flag. -/
def readFrom (s : Settings) (strays : Bool) : List Word → Request
  | [] => if strays then .refused else .run s
  | .operand _ :: words | .unknown :: words | .separator :: words => readFrom s true words
  | .ambiguous :: _ => .refused
  | .letters f more :: _ =>
    if lettersFit more then if f = .help then .help else .version else .refused
  | .flagWith f value :: words =>
    match s.withValue? f value with
    | some s => readFrom s strays words
    | none => .refused
  | .flag .help :: _ => .help
  | .flag .version :: _ => .version
  | .flag .radians :: words => readFrom { s with angleMode := .radians } strays words
  | .flag f :: .operand value :: words =>
    match s.withValue? f value with
    | some s => readFrom s strays words
    | none => .refused
  | .flag _ :: _ => .refused

/-- Whether a word is the beginning of more than one flag. -/
def Word.isAmbiguous : Word → Bool
  | .ambiguous => true
  | _ => false

/-- Reads a command line. A word that is ambiguous is refused before any other word counts. -/
def Request.ofTexts (texts : List String) : Request :=
  let words := Word.ofTexts texts
  if words.any Word.isAmbiguous then .refused else readFrom {} false words

/-! ## Runs -/

/-- The version of the program. -/
def versionText : String := "callmath 0.5.0\n"

/-- How the program is called. -/
def usage : String :=
  "usage: callmath [-h] [--radians] [--precision PRECISION] [--log-level LEVEL] [-v]\n"

/-- What a run of the program leaves. `byFlags` tells that the flags alone decided it, before any
setting was tried. -/
structure Outcome where
  code : Nat
  stdout : String
  stderr : String
  byFlags : Bool

/-- What a command line leads to: the run is over, or a calculator is set up. -/
inductive Start where
  | over (o : Outcome)
  | ready (config : Config)

/-- The report of a setting that is out of bounds. -/
def refusal (e : ConfigError) : String := "callmath: " ++ e.message ++ "\n"

/-- What a request leads to. A command line does not change the greatest depth. -/
def Request.start : Request → Start
  | refused => .over ⟨2, "", usage, true⟩
  | help => .over ⟨0, usage, "", true⟩
  | version => .over ⟨0, versionText, "", true⟩
  | run s =>
    match Config.ofSettings s.precision standardDepth s.angleMode with
    | .error e => .over ⟨2, "", refusal e, false⟩
    | .ok config => .ready config

/-- What a calculator leaves that reads some lines, on a terminal or not. -/
def converse (config : Config) (terminal : Bool) (lines : List String) : Except Fault Outcome := do
  if terminal then
    let (printed, _) ← (Calculator.new config).dialogue lines
    return ⟨0, printed, "", false⟩
  else
    let (printed, finished, _) ← (Calculator.new config).batch lines
    return ⟨if finished then 0 else 1, printed, "", false⟩

/-- What a run of the program with a command line and an input leaves. -/
def run (arguments : List String) (terminal : Bool) (input : String) : Except Fault Outcome :=
  match (Request.ofTexts arguments).start with
  | .over o => .ok o
  | .ready config => converse config terminal (Text.lines input)

end Reckoner.CommandLine
