import Reckoner.Text.Class

/-!
# Reckoner.Text.Line -- lines of a text, and what messages show of them

An input is split into lines. A message about a line quotes a part of it, or shows a place in it
with a caret.
-/

namespace Reckoner.Text

/-! ## Lines

A line ends at a line feed and nowhere else. What stands behind the last line feed is one more
line, unless there is nothing. -/

/-- Splits at line feeds, which belong to no line; `current` holds the line read so far,
backwards. -/
def linesFrom : (current : List Char) → List Char → List (List Char)
  | [], [] => []
  | current, [] => [current.reverse]
  | current, '\n' :: cs => current.reverse :: linesFrom [] cs
  | current, c :: cs => linesFrom (c :: current) cs

/-- The lines of a text. -/
def lines (s : String) : List String := (linesFrom [] s.toList).map String.ofList

/-! ## Quotations

A message quotes what the user typed between quotation marks, so that blanks and invisible
characters show. The mark is the single one, unless the text holds a single mark and no double
one. The mark and the backslash are written with a backslash before them; tab, line feed and
carriage return have their letter; any other character that cannot be shown is written by its
code point in two, four or eight hexadecimal digits. -/

/-- The lowest `width` hexadecimal digits of a number. -/
def hexDigits : Nat → Nat → List Char
  | 0, _ => []
  | width + 1, n => hexDigits width (n / 16) ++ [Nat.digitChar (n % 16)]

/-- A code point in the shortest of the three escaped widths that holds it. -/
def escapedCode (n : Nat) : List Char :=
  if n < 0x100 then '\\' :: 'x' :: hexDigits 2 n
  else if n < 0x10000 then '\\' :: 'u' :: hexDigits 4 n
  else '\\' :: 'U' :: hexDigits 8 n

/-- One character between quotation marks of the kind `mark`. -/
def quotedChar (mark c : Char) : List Char :=
  if c == mark || c == '\\' then ['\\', c]
  else if c == '\t' then ['\\', 't']
  else if c == '\n' then ['\\', 'n']
  else if c == '\r' then ['\\', 'r']
  else if isPrintable c then [c]
  else escapedCode c.toNat

/-- The quotation mark for a text. -/
def markFor (cs : List Char) : Char :=
  if cs.contains '\x27' && !cs.contains '\x22' then '\x22' else '\x27'

/-- A text between quotation marks. -/
def quotedChars (cs : List Char) : List Char :=
  markFor cs :: (cs.flatMap (quotedChar (markFor cs)) ++ [markFor cs])

/-- A string between quotation marks. -/
def quoted (s : String) : String := String.ofList (quotedChars s.toList)

/-! ## Snippets

A snippet is two lines: a window of the typed line that reaches ten characters to either side of
the place, with dots where the line goes on, and a caret under the place.

The place is any integer. A window may then end before the line begins; such an end counts from
the back of the line, and a caret that would stand left of the margin stands at it. -/

/-- How far the window reaches to either side. -/
def windowReach : Int := 10

/-- What stands for the part of a line that is not shown. -/
def moreDots : List Char := ['.', '.', '.']

/-- The characters from `start` up to `stop`, where a negative `stop` counts from the back. -/
def span (cs : List Char) (start : Nat) (stop : Int) : List Char :=
  let last := if stop < 0 then cs.length + stop else stop
  (cs.take last.toNat).drop start

/-- The two lines of a snippet: the window, and the blanks in front of the caret. -/
def snippetLines (cs : List Char) (place : Int) : List Char × Nat :=
  let start := (place - windowReach).toNat
  let stop := min (cs.length : Int) (place + windowReach)
  let lead := if start > 0 then moreDots else []
  let tail := if stop < cs.length then moreDots else []
  (lead ++ span cs start stop ++ tail, (place - start + lead.length).toNat)

/-- The window of a line around a place, with a caret under the place. -/
def snippet (line : String) (place : Int) : String :=
  let (window, indent) := snippetLines line.toList place
  String.ofList (window ++ '\n' :: List.replicate indent ' ' ++ ['^'])

end Reckoner.Text
