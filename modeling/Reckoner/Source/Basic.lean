import Reckoner.Text.Class

/-!
# Reckoner.Source.Basic -- text that remembers where it was typed, and rules that respell it

A line of input is respelled before it is split into tokens, yet diagnostics have to point into
the line as it was typed. So each character carries the offset of the typed character that it came
from: a *mark*. A source is the outcome, text and offsets side by side, together with the typed
line.
-/

namespace Reckoner

/-! ## Sources -/

/-- A character and the offset at which it, or what it replaces, was typed. -/
structure Mark where
  char : Char
  origin : Nat
deriving DecidableEq, Repr

/-- A text, the offsets of its characters in the typed line, and that line. -/
structure Source where
  text : List Char
  offsets : List Nat
  typed : String

namespace Source

/-- Text and offsets from marks. -/
def ofMarks (marks : List Mark) (typed : String) : Source :=
  ⟨marks.map (·.char), marks.map (·.origin), typed⟩

/-- The offset just behind the last character; without characters, the length of the typed line
less the white space behind. -/
def stop (s : Source) : Nat :=
  match s.offsets.getLast? with
  | some last => last + 1
  | none => (Text.trimEnd s.typed.toList).length

/-- The offset of the character at an index; behind the last character there is only the end. -/
def offsetAt (s : Source) (index : Nat) : Nat := s.offsets.getD index s.stop

/-- The characters with their offsets; a character without one of its own has the end's. -/
def marks (s : Source) : List Mark :=
  let missing := s.text.length - s.offsets.length
  List.zipWith Mark.mk s.text (s.offsets ++ List.replicate missing s.stop)

theorem length_ofMarks (marks : List Mark) (typed : String) :
    (ofMarks marks typed).offsets.length = (ofMarks marks typed).text.length := by
  simp [ofMarks]

/-- Splitting marks into text and offsets loses nothing. -/
theorem marks_ofMarks (marks : List Mark) (typed : String) :
    (ofMarks marks typed).marks = marks := by
  simp [Source.marks, ofMarks]

end Source

/-! ## Rules

A rule looks at one place of a text: at the character before it and at the text from there on. If
it applies, it says how many characters it takes and what it writes for them. A pass over the text
tries one rule at each place from left to right and goes on behind what the rule took; it never
looks at what it has written. What is written for a stretch of text has the origin of its first
character.

The character before a place counts even if the rule has taken it, since it tells whether a word
may begin there. -/

/-- How many characters a rule takes at a place, at least one, and what it writes for them. -/
abbrev Rule := (before : Option Char) → (text : List Char) → Option (Nat × List Char)

namespace Rule

/-- One pass over a text and its origins, `skip` characters of which are taken already. -/
def passFrom (rule : Rule) : (before : Option Char) → (skip : Nat) →
    List Char → List Nat → List Mark
  | before, 0, c :: cs, o :: os =>
    match rule before (c :: cs) with
    | some (taken, written) =>
      written.map (⟨·, o⟩) ++ passFrom rule (some c) (taken - 1) cs os
    | none => ⟨c, o⟩ :: passFrom rule (some c) 0 cs os
  | _, skip + 1, c :: cs, _ :: os => passFrom rule (some c) skip cs os
  | _, _, [], _ => []
  | _, _, _, [] => []

/-- One pass over a text. -/
def pass (rule : Rule) (marks : List Mark) : List Mark :=
  passFrom rule none 0 (marks.map (·.char)) (marks.map (·.origin))

/-! ## Rules for glyphs and phrases -/

/-- Writes `written` for each of some glyphs. -/
def glyph (glyphs : List Char) (written : List Char) : Rule
  | _, c :: _ => if glyphs.contains c then some (1, written) else none
  | _, [] => none

/-- A part of a phrase: one character, or white space, of which there is at least one. -/
inductive Piece where
  | letter (c : Char)
  | blanks
deriving DecidableEq, Repr

/-- The letters of a word. -/
def word (s : String) : List Piece := s.toList.map .letter

/-- How many characters of a text a phrase takes, if the text starts with it. -/
def phraseLength? : List Piece → List Char → Option Nat
  | [], _ => some 0
  | .letter l :: ps, c :: cs => if c = l then (phraseLength? ps cs).map (· + 1) else none
  | .blanks :: ps, c :: cs =>
    if Text.isBlank c then
      let more := (cs.takeWhile Text.isBlank).length
      (phraseLength? ps (cs.drop more)).map (· + more + 1)
    else none
  | _ :: _, [] => none

/-- Writes `written` for a phrase that stands by itself: no word goes on to either side of it. -/
def phrase (pieces : List Piece) (written : List Char) : Rule := fun before text =>
  if Text.wordMayBegin before then
    (phraseLength? pieces text).bind fun taken =>
      if Text.wordMayEnd (text.drop taken) then some (taken, written) else none
  else none

/-- The first of some rules that applies. -/
def firstOf (rules : List Rule) : Rule := fun before text => rules.findSome? fun r => r before text

end Rule

end Reckoner
