import Reckoner.Error
import Reckoner.Source.Basic
import Reckoner.Token.Basic

/-!
# Reckoner.Source.Typed -- the source of a typed line

The line is put into lower case, its shorthand is spelled out, it is trimmed, and multiplication
signs are put in. A line of which nothing is left is an error.
-/

namespace Reckoner.Shorthand

open Rule (Piece word glyph phrase firstOf phraseLength?)

/-! ## Shorthand

Questions are stripped of their words, glyphs of mathematics are spelled in the symbols that
tokens are made of, and a final equals sign is dropped. The order matters: a rule sees what the
rules before it have written. -/

/-- Words around an expression that ask for its value. -/
def fillers : Rule := firstOf [
  phrase (word "what" ++ .blanks :: word "is") [],
  phrase (word "what's") [],
  phrase (word "whats") [],
  phrase (word "calculate") [],
  phrase (word "solve") [],
  phrase (word "answer") []]

/-- An equals sign with nothing but white space behind it, which goes with it. -/
def finalEquals : Rule
  | _, '=' :: cs => if cs.all Text.isBlank then some (cs.length + 1, []) else none
  | _, _ => none

/-- The word for a percent sign, together with the white space in front of it. -/
def spelledPercent : Rule := fun before text =>
  let blanks := text.takeWhile Text.isBlank
  (phrase (word "percent") ['%'] (blanks.getLast?.or before) (text.drop blanks.length)).map
    fun (taken, written) => (blanks.length + taken, written)

/-- The rules in their order. -/
def rules : List Rule := [
  fillers,
  glyph ['?'] [],
  finalEquals,
  glyph ['×', '✕', '·', '⋅'] ['*'],
  glyph ['÷'] ['/'],
  glyph ['–', '—', '−'] ['-'],
  glyph ['π'] ['p', 'i'],
  glyph ['√'] ['s', 'q', 'r', 't'],
  glyph ['^'] ['*', '*'],
  glyph ['²'] ['*', '*', '2'],
  glyph ['³'] ['*', '*', '3'],
  glyph ['°'] [],
  firstOf [glyph ['％'] ['%'], spelledPercent],
  phrase (word "square") ['s', 'q']]

/-- A text with all its shorthand spelled out. -/
def expand (marks : List Mark) : List Mark := rules.foldl (fun ms rule => rule.pass ms) marks

end Reckoner.Shorthand

namespace Reckoner.Product

/-! ## Multiplication that is not written

A factor may follow a number or a closing bracket directly: `2(3 + 4)`, `2 pi`. A multiplication
sign is put in front of such a factor. Units and the words of a conversion are no factors, so
`10 km` and `10 km in m` stay as they are. -/

/-- Whether a character is a lower-case ASCII letter. -/
def isWordLetter (c : Char) : Bool := 'a' ≤ c && c ≤ 'z'

/-- Whether a character goes on with a word that may be a compound unit. -/
def isCompoundChar (c : Char) : Bool := isWordLetter c || c == '/'

/-- The part of a possible compound that stands for itself: the whole if it has no slash or is a
unit, otherwise what precedes the first slash, which is then a division. -/
def leadingWord (units : List String) (compound : List Char) : String :=
  if compound.contains '/' && !units.contains (String.ofList compound) then
    String.ofList (compound.takeWhile (· != '/'))
  else String.ofList compound

/-- Whether a text starts with a factor: an opening bracket, or a word that is neither a unit nor
asks for a conversion. -/
def startsFactor (units : List String) : List Char → Bool
  | '(' :: _ => true
  | c :: cs =>
    isWordLetter c &&
      let name := leadingWord units (c :: cs.takeWhile isCompoundChar)
      !units.contains name && !conversionKeywords.contains name
  | [] => false

/-- Whether a factor may come behind a character: behind a digit or a closing bracket, and behind
white space if one might come before it. -/
def admitsFactor (admitted : Bool) (c : Char) : Bool :=
  Text.isDecimalDigit c || c == ')' || (admitted && Text.isBlank c)

/-- Puts the signs into a text with its origins; `admitted` tells whether a factor may come. A
sign has the origin of the factor's first character. -/
def insertFrom (units : List String) : (admitted : Bool) → List Char → List Nat → List Mark
  | admitted, c :: cs, o :: os =>
    let rest := ⟨c, o⟩ :: insertFrom units (admitsFactor admitted c) cs os
    if admitted && startsFactor units (c :: cs) then ⟨'*', o⟩ :: rest else rest
  | _, [], _ => []
  | _, _, [] => []

/-- A text with its multiplication signs written. -/
def insert (units : List String) (marks : List Mark) : List Mark :=
  insertFrom units false (marks.map (·.char)) (marks.map (·.origin))

end Reckoner.Product

namespace Reckoner

/-! ## Typed lines -/

/-- The marks of a typed line in lower case. -/
def Mark.ofTyped (typed : List Char) : List Mark :=
  typed.zipIdx.flatMap fun (c, index) => (Text.lower c).map (⟨·, index⟩)

/-- Drops the white space at both ends. -/
def Mark.trim (marks : List Mark) : List Mark :=
  ((marks.dropWhile (Text.isBlank ·.char)).reverse.dropWhile (Text.isBlank ·.char)).reverse

namespace Source

/-- The marks of a typed line once everything is spelled out, for the given names of units. -/
def spelledOut (units : List String) (typed : String) : List Mark :=
  Product.insert units (Mark.trim (Shorthand.expand (Mark.ofTyped typed.toList)))

/-- The source of a typed line. -/
def ofTyped (units : List String) (typed : String) : Except Error Source :=
  match spelledOut units typed with
  | [] => .error .nothingEntered
  | marks => .ok (ofMarks marks typed)

end Source

end Reckoner
