import Reckoner.Error
import Reckoner.Number.Decimal
import Reckoner.Source.Basic
import Reckoner.Token.Basic

/-!
# Reckoner.Token.Scan -- splitting a source into tokens

At each place the longest lexeme is taken: a run of digits and points, a word, or a sign. A slash
is part of a word only if the word behind it makes a unit of the two. White space separates
tokens and is dropped. A run of digits and points that is no numeral is an error at its first
character.
-/

namespace Reckoner.Token

/-- Whether a character belongs to a numeral. -/
def isNumeralChar (c : Char) : Bool := Number.isAsciiDigit c || c == '.'

/-- Whether a character belongs to a word. -/
def isWordChar (c : Char) : Bool := c.isAlpha

/-- Whether a run of digits and points is a numeral: no more than one point, and not the point
alone. -/
def isNumeral (run : List Char) : Bool := run.count '.' ≤ 1 && run != ['.']

/-- The word at the start of a text. A slash and the word behind it are taken in if that makes the
name of a unit. -/
def leadingWord (units : List String) (text : List Char) : List Char :=
  let first := text.takeWhile isWordChar
  match text.dropWhile isWordChar with
  | '/' :: more =>
    let second := more.takeWhile isWordChar
    let compound := first ++ '/' :: second
    if !second.isEmpty && units.contains (String.ofList compound) then compound else first
  | _ => first

/-- The class and the spelling of the token at the start of a text, if one starts there. -/
def leading? (units : List String) : List Char → Option (Class × List Char)
  | '*' :: '*' :: _ => some (.operator, ['*', '*'])
  | '(' :: _ => some (.openBracket, ['('])
  | ')' :: _ => some (.closeBracket, [')'])
  | '=' :: _ => some (.equal, ['='])
  | ',' :: _ => some (.comma, [','])
  | c :: cs =>
    if isNumeralChar c then
      let run := (c :: cs).takeWhile isNumeralChar
      if isNumeral run then some (.number, run) else none
    else if isWordChar c then some (.identifier, leadingWord units (c :: cs))
    else if ['+', '-', '*', '/', '%'].contains c then some (.operator, [c])
    else none
  | [] => none

/-- The tokens of a text with its origins, `skip` characters of which are taken already. -/
def scanFrom (units : List String) : (skip : Nat) → List Char → List Nat →
    Except Error (List Token)
  | 0, c :: cs, o :: os =>
    if Text.isBlank c then scanFrom units 0 cs os
    else match leading? units (c :: cs) with
      | some (kind, lexeme) =>
        (scanFrom units (lexeme.length - 1) cs os).map (⟨kind, String.ofList lexeme, o⟩ :: ·)
      | none => .error (.unexpectedCharacter c o)
  | skip + 1, _ :: cs, _ :: os => scanFrom units skip cs os
  | _, [], _ => .ok []
  | _, _, [] => .ok []

/-- What is taken already is passed over. -/
theorem scanFrom_skip (units : List String) (skip : Nat) (cs : List Char) (os : List Nat) :
    scanFrom units skip cs os = scanFrom units 0 (cs.drop skip) (os.drop skip) := by
  induction cs generalizing skip os with
  | nil => simp [scanFrom]
  | cons c cs ih =>
    cases os with
    | nil => cases skip <;> cases h : (c :: cs).drop _ <;> simp [scanFrom]
    | cons o os =>
      cases skip with
      | zero => rfl
      | succ skip => rw [scanFrom, ih, List.drop_succ_cons, List.drop_succ_cons]

/-- The tokens of a source, for the given names of units. -/
def ofSource (units : List String) (s : Source) : Except Error (List Token) :=
  let marks := s.marks
  (scanFrom units 0 (marks.map (·.char)) (marks.map (·.origin))).map
    (· ++ [⟨.finish, "", s.stop⟩])

end Reckoner.Token
