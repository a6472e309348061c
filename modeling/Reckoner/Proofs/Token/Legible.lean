import Reckoner.Expr.Written
import Reckoner.Proofs.Token.Split
import Reckoner.Text.Class
import Reckoner.Token.Scan

/-!
# Reckoner.Proofs.Token.Legible -- tokens typed without white space

Some lists of tokens can be typed with nothing between two tokens, and a scan of what was typed
gives the tokens back. What is asked of such a list concerns each token and the character behind
it: no numeral may go on, no word either, and a sign must not become a longer one.
-/

namespace Reckoner

open Number (isAsciiDigit numeralParts? numeral?)
open Product (isWordLetter)

namespace Token

/-! ## The characters of typed tokens -/

/-- Whether a character may stand in a typed token. -/
def isPlain (c : Char) : Bool :=
  isAsciiDigit c || isWordLetter c || ['.', '(', ')', ',', '+', '-', '*', '/', '%'].contains c

theorem toNat_lt_of_isPlain {c : Char} (h : isPlain c) : c.toNat < 128 := by
  simp only [isPlain, isAsciiDigit, isWordLetter, Bool.or_eq_true, Bool.and_eq_true,
    decide_eq_true_iff, List.contains_iff_mem] at h
  have hle {a b : Char} (hab : a ≤ b) : a.toNat ≤ b.toNat := hab
  rcases h with (⟨-, h⟩ | ⟨-, h⟩) | h
  · exact Nat.lt_of_le_of_lt (hle h) (by decide)
  · exact Nat.lt_of_le_of_lt (hle h) (by decide)
  · revert h c
    decide

/-- What holds of the plain ones of the first 128 characters holds of all plain characters. -/
theorem of_isPlain {p : Char → Prop} (h : ∀ n : Fin 128, isPlain (Char.ofNat n) → p (Char.ofNat n))
    {c : Char} (hc : isPlain c) : p c := by
  have hofNat := h ⟨c.toNat, toNat_lt_of_isPlain hc⟩
  rw [Char.ofNat_toNat] at hofNat
  exact hofNat hc

theorem lower_of_isPlain {c : Char} (h : isPlain c) : Text.lower c = [c] :=
  of_isPlain (p := fun c => Text.lower c = [c]) (by decide) h

theorem isBlank_of_isPlain {c : Char} (h : isPlain c) : Text.isBlank c = false :=
  of_isPlain (p := fun c => Text.isBlank c = false) (by decide) h

/-- The words of a line are made of letters and digits, those of an expression of letters. -/
theorem isWordChar_of_isPlain {c : Char} (h : isPlain c) :
    Text.isWordChar c = (isAsciiDigit c || isWordLetter c) ∧ isWordChar c = isWordLetter c :=
  of_isPlain (p := fun c => Text.isWordChar c = (isAsciiDigit c || isWordLetter c) ∧
    isWordChar c = isWordLetter c) (by decide) h

theorem isPlain_of_isNumeralChar {c : Char} (h : isNumeralChar c) : isPlain c := by
  rw [isNumeralChar, Bool.or_eq_true, beq_iff_eq] at h
  rcases h with h | rfl
  · simp [isPlain, h]
  · decide

theorem isPlain_of_isWordLetter {c : Char} (h : isWordLetter c) : isPlain c := by
  simp [isPlain, h]

/-- A run of characters of a class goes to the first character that is not of it. -/
theorem span_run {p : Char → Bool} {run rest : List Char} (hrun : ∀ c ∈ run, p c)
    (hrest : ∀ c ∈ rest.head?, p c = false) :
    (run ++ rest).takeWhile p = run ∧ (run ++ rest).dropWhile p = rest := by
  rw [List.takeWhile_append_of_pos hrun, List.dropWhile_append_of_pos hrun]
  cases rest with
  | nil => simp
  | cons c rest =>
      have hc : ¬ p c = true := by simp [hrest c rfl]
      rw [List.takeWhile_cons_of_neg hc, List.dropWhile_cons_of_neg hc, List.append_nil]
      exact ⟨rfl, rfl⟩

end Token

/-! ## Numerals and names of units -/

namespace Numeral

theorem isNumeralChar_of_mem (n : Numeral) : ∀ c ∈ n.text.toList, Token.isNumeralChar c := by
  obtain ⟨whole, fraction, -, hwhole, hfraction⟩ := n
  have hdigit {c : Char} (h : isAsciiDigit c = true) : Token.isNumeralChar c = true := by
    rw [Token.isNumeralChar, h, Bool.true_or]
  cases fraction with
  | none =>
      simp only [text, String.toList_ofList, List.append_nil]
      exact fun c hc => hdigit (hwhole c hc)
  | some ds =>
      simp only [text, String.toList_ofList, List.forall_mem_append, List.forall_mem_cons]
      exact ⟨fun c hc => hdigit (hwhole c hc), rfl, fun c hc => hdigit (hfraction ds rfl c hc)⟩

/-- A numeral starts with a digit. -/
theorem text_eq_cons (n : Numeral) : ∃ c cs, n.text.toList = c :: cs ∧ isAsciiDigit c := by
  obtain ⟨c, cs, hwhole⟩ := List.exists_cons_of_ne_nil n.whole_ne_nil
  have hdigit : isAsciiDigit c = true := n.whole_digits c (by simp [hwhole])
  rw [text, String.toList_ofList, hwhole, List.cons_append]
  exact ⟨c, _, rfl, hdigit⟩

/-- A digit is no point. -/
theorem count_point {ds : List Char} (h : ∀ c ∈ ds, isAsciiDigit c) : ds.count '.' = 0 := by
  rw [List.count_eq_zero]
  intro hmem
  exact absurd (h _ hmem) (by decide)

theorem isNumeral (n : Numeral) : Token.isNumeral n.text.toList := by
  obtain ⟨c, cs, hcons, hdigit⟩ := n.text_eq_cons
  have hpoint : n.text.toList ≠ ['.'] := by
    rw [hcons]
    intro heq
    obtain ⟨rfl, -⟩ := List.cons.inj heq
    exact absurd hdigit (by decide)
  have hcount : n.text.toList.count '.' ≤ 1 := by
    obtain ⟨whole, fraction, -, hwhole, hfraction⟩ := n
    cases fraction with
    | none => simp [text, count_point hwhole]
    | some ds => simp [text, count_point hwhole, count_point (hfraction ds rfl)]
  simp [Token.isNumeral, hcount, hpoint]

/-- A numeral is taken apart at its point. -/
theorem numeralParts?_text (n : Numeral) :
    numeralParts? n.text.toList = some (n.whole, n.fraction.getD []) := by
  obtain ⟨whole, fraction, hne, hwhole, hfraction⟩ := n
  cases fraction with
  | none =>
      have hnil : ∀ c ∈ ([] : List Char).head?, isAsciiDigit c = false := by simp
      obtain ⟨htake, hdrop⟩ := Token.span_run hwhole hnil
      simp only [numeralParts?, text, String.toList_ofList, htake, hdrop]
      simp [hne]
  | some ds =>
      have hpoint : ∀ c ∈ ('.' :: ds).head?, isAsciiDigit c = false := by
        rintro _ ⟨⟩
        decide
      obtain ⟨htake, hdrop⟩ := Token.span_run hwhole hpoint
      have hall : ds.all isAsciiDigit = true := List.all_eq_true.mpr (hfraction ds rfl)
      simp only [numeralParts?, text, String.toList_ofList, htake, hdrop, hall]
      simp [hne]

/-- A numeral is read as the float nearest to it. -/
theorem numeral?_text (n : Numeral) : numeral? n.text = some n.value := by
  rw [numeral?, numeralParts?_text]
  rfl

end Numeral

theorem Word.text_eq_cons (w : Word) : ∃ c cs, w.text.toList = c :: cs ∧ isWordLetter c := by
  obtain ⟨c, cs, hcons⟩ := List.exists_cons_of_ne_nil w.ne_nil
  have hletter : isWordLetter c = true := w.lower c (by simp [hcons])
  rw [Word.text, String.toList_ofList, hcons]
  exact ⟨c, cs, rfl, hletter⟩

/-- The name of a unit is one word, or two with a slash between them. -/
theorem StandardUnit.parts (u : StandardUnit) : ∃ v : Word,
    u.text.toList = v.letters ∨ ∃ w : Word, u.text.toList = v.letters ++ '/' :: w.letters := by
  -- the table is finite, so it is looked through
  have hparts : ∀ name ∈ UnitTable.standard.names,
      let first := name.toList.takeWhile (· != '/')
      let second := (name.toList.dropWhile (· != '/')).tail
      (first ≠ [] ∧ (∀ c ∈ first, isWordLetter c) ∧ String.ofList first ∉ shorthandWords) ∧
        (name.toList = first ∨ name.toList = first ++ '/' :: second ∧ second ≠ [] ∧
          (∀ c ∈ second, isWordLetter c) ∧ String.ofList second ∉ shorthandWords) := by
    decide
  obtain ⟨⟨hne, hlower, hfree⟩, hsecond⟩ := hparts u.text u.standard
  refine ⟨⟨_, hne, hlower, hfree⟩, ?_⟩
  rcases hsecond with hone | ⟨htwo, hne', hlower', hfree'⟩
  · exact .inl hone
  · exact .inr ⟨⟨_, hne', hlower', hfree'⟩, htwo⟩

theorem StandardUnit.text_eq_cons (u : StandardUnit) :
    ∃ c cs, u.text.toList = c :: cs ∧ isWordLetter c := by
  obtain ⟨v, hparts⟩ := u.parts
  obtain ⟨c, cs, hcons, hletter⟩ := v.text_eq_cons
  rw [Word.text, String.toList_ofList] at hcons
  rcases hparts with hone | ⟨w, htwo⟩
  · exact ⟨c, cs, hone.trans hcons, hletter⟩
  · exact ⟨c, _, by rw [htwo, hcons]; rfl, hletter⟩

namespace Token

/-! ## Legible tokens -/

/-- The tokens with their places taken away. -/
def unplaced (t : Token) : Token := { t with place := 0 }

theorem unplaced_eq_iff {t : Token} {kind : Class} {lexeme : String} :
    t.unplaced = ⟨kind, lexeme, 0⟩ ↔ t.kind = kind ∧ t.lexeme = lexeme := by
  simp [unplaced]

/-- Tokens typed with nothing between them. -/
def chars (ts : List Token) : List Char := ts.flatMap (·.lexeme.toList)

@[simp] theorem chars_nil : chars [] = [] := rfl

@[simp] theorem chars_cons (t : Token) (ts : List Token) :
    chars (t :: ts) = t.lexeme.toList ++ chars ts :=
  rfl

@[simp] theorem chars_append (ts us : List Token) : chars (ts ++ us) = chars ts ++ chars us :=
  List.flatMap_append

/-- What may stand behind a number or a closing bracket. -/
def enders : List Char := [')', ',', '+', '-', '*', '/', '%']

/-- An opening bracket. -/
def opening : Token := ⟨.openBracket, "(", 0⟩

/-- A closing bracket. -/
def closing : Token := ⟨.closeBracket, ")", 0⟩

/-- A comma. -/
def comma : Token := ⟨.comma, ",", 0⟩

/-- A sign. -/
def sign (lexeme : String) : Token := ⟨.operator, lexeme, 0⟩

/-- The tokens that are spelled in one way. -/
def marks : List Token :=
  [opening, closing, comma, sign "+", sign "-", sign "*", sign "/", sign "**", sign "%"]

/-- Whether a character may stand right behind a mark: no factor behind a closing bracket, and no
second asterisk behind one. -/
def Admits (mark : Token) (c : Char) : Prop :=
  (mark = closing → c ∈ enders) ∧ (mark = sign "*" → c ≠ '*')

/-- Tokens that can be typed with nothing between them. A unit stands only behind a closing
bracket, and there stands no other name. -/
inductive Legible : List Token → Prop
  | nil : Legible []
  | number (n : Numeral) {ts : List Token} (hnext : ∀ c ∈ (chars ts).head?, c ∈ enders)
      (h : Legible ts) : Legible (⟨.number, n.text, 0⟩ :: ts)
  | word (w : Word) {ts : List Token} (hnext : ∀ c ∈ (chars ts).head?, c = '(' ∨ c = ')')
      (h : Legible ts) : Legible (⟨.identifier, w.text, 0⟩ :: ts)
  | unit (u : StandardUnit) {ts : List Token} (hnext : ∀ c ∈ (chars ts).head?, c = ')')
      (h : Legible ts) : Legible (closing :: ⟨.identifier, u.text, 0⟩ :: ts)
  | mark {t : Token} {ts : List Token} (ht : t ∈ marks) (hnext : ∀ c ∈ (chars ts).head?, t.Admits c)
      (h : Legible ts) : Legible (t :: ts)

theorem isPlain_of_mem_mark {t : Token} (ht : t ∈ marks) {c : Char} (hc : c ∈ t.lexeme.toList) :
    isPlain c := by
  have hmarks : ∀ t ∈ marks, ∀ c ∈ t.lexeme.toList, isPlain c := by decide
  exact hmarks t ht c hc

/-- Legible tokens are typed in plain characters. -/
theorem Legible.isPlain {ts : List Token} (h : Legible ts) : ∀ c ∈ chars ts, isPlain c := by
  have hword (w : Word) : ∀ c ∈ w.letters, Token.isPlain c :=
    fun c hc => isPlain_of_isWordLetter (w.lower c hc)
  induction h with
  | nil => simp
  | number n _ _ ih =>
      rw [chars_cons, List.forall_mem_append]
      exact ⟨fun c hc => isPlain_of_isNumeralChar (n.isNumeralChar_of_mem c hc), ih⟩
  | word w _ _ ih =>
      rw [chars_cons, List.forall_mem_append, Word.text, String.toList_ofList]
      exact ⟨hword w, ih⟩
  | unit u _ _ ih =>
      rw [chars_cons, chars_cons, List.forall_mem_append, List.forall_mem_append]
      refine ⟨by decide, ?_, ih⟩
      obtain ⟨v, heq | ⟨w, heq⟩⟩ := u.parts
      · rw [heq]
        exact hword v
      · rw [heq, List.forall_mem_append, List.forall_mem_cons]
        exact ⟨hword v, by decide, hword w⟩
  | mark ht _ _ ih =>
      rw [chars_cons, List.forall_mem_append]
      exact ⟨fun c hc => isPlain_of_mem_mark ht hc, ih⟩

/-- A mark that is no closing bracket may stand in front of all but an asterisk. -/
theorem Legible.marked {t : Token} {ts : List Token} (ht : t ∈ marks) (hclosing : t ≠ closing)
    (hnext : ∀ c ∈ (chars ts).head?, c ≠ '*') (h : Legible ts) : Legible (t :: ts) :=
  .mark ht (fun c hc => ⟨fun heq => absurd heq hclosing, fun _ => hnext c hc⟩) h

/-- All other marks may stand anywhere. -/
theorem Legible.free {t : Token} {ts : List Token} (h : Legible ts)
    (ht : t ∈ marks ∧ t ≠ closing ∧ t ≠ sign "*") : Legible (t :: ts) := by
  obtain ⟨hmark, hclosing, hasterisk⟩ := ht
  exact .mark hmark (fun _ _ => ⟨fun heq => absurd heq hclosing, fun heq => absurd heq hasterisk⟩) h

theorem Legible.opened {ts : List Token} (h : Legible ts) : Legible (opening :: ts) :=
  h.free (by decide)

theorem Legible.closed {ts : List Token} (h : Legible ts)
    (hnext : ∀ c ∈ (chars ts).head?, c ∈ enders) : Legible (closing :: ts) :=
  .mark (by decide) (fun c hc => ⟨fun _ => hnext c hc, fun heq => absurd heq (by decide)⟩) h

/-- Every token takes a character at least. -/
theorem Legible.length_le {ts : List Token} (h : Legible ts) : ts.length ≤ (chars ts).length := by
  -- one more token is one more character
  have hstep {lexeme : List Char} {us : List Token} (hne : lexeme ≠ [])
      (ih : us.length ≤ (chars us).length) : us.length + 1 ≤ (lexeme ++ chars us).length := by
    have hpos := List.length_pos_iff.mpr hne
    rw [List.length_append]
    omega
  induction h with
  | nil => exact Nat.le_refl 0
  | number n _ _ ih =>
      obtain ⟨c, cs, hcons, -⟩ := n.text_eq_cons
      exact hstep (by simp [hcons]) ih
  | word w _ _ ih =>
      obtain ⟨c, cs, hcons, -⟩ := w.text_eq_cons
      exact hstep (by simp [hcons]) ih
  | unit u _ _ ih =>
      obtain ⟨c, cs, hcons, -⟩ := u.text_eq_cons
      exact Nat.succ_le_succ (hstep (by simp [hcons]) ih)
  | mark ht _ _ ih =>
      have hmarks : ∀ t ∈ marks, t.lexeme.toList ≠ [] := by decide
      exact hstep (hmarks _ ht) ih

/-! ## Scanning legible tokens -/

section Scan

variable {units : List String} {c : Char} {cs rest : List Char}

theorem leading?_of_isNumeralChar (h : isNumeralChar c)
    (hrun : isNumeral ((c :: cs).takeWhile isNumeralChar)) :
    leading? units (c :: cs) = some (.number, (c :: cs).takeWhile isNumeralChar) := by
  have hsign : c ∉ ['*', '(', ')', '=', ','] :=
    of_isPlain (p := fun c => isNumeralChar c = true → c ∉ ['*', '(', ')', '=', ',']) (by decide)
      (isPlain_of_isNumeralChar h) h
  rw [leading?_of_not_sign hsign, if_pos h, if_pos hrun]

theorem leading?_of_isWordLetter (h : isWordLetter c) :
    leading? units (c :: cs) = some (.identifier, leadingWord units (c :: cs)) := by
  have hclass : c ∉ ['*', '(', ')', '=', ','] ∧ ¬ isNumeralChar c = true :=
    of_isPlain (p := fun c => isWordLetter c = true →
      c ∉ ['*', '(', ')', '=', ','] ∧ ¬ isNumeralChar c = true) (by decide)
      (isPlain_of_isWordLetter h) h
  have hword : isWordChar c = true := by
    rw [(isWordChar_of_isPlain (isPlain_of_isWordLetter h)).2, h]
  rw [leading?_of_not_sign hclass.1, if_neg hclass.2, if_pos hword]

theorem leading?_numeral (n : Numeral) (hrest : ∀ c ∈ rest.head?, c ∈ enders) :
    leading? units (n.text.toList ++ rest) = some (.number, n.text.toList) := by
  have hstop : ∀ c ∈ rest.head?, isNumeralChar c = false := by
    intro c hc
    have henders : ∀ d ∈ enders, isNumeralChar d = false := by decide
    exact henders c (hrest c hc)
  have hspan := (span_run n.isNumeralChar_of_mem hstop).1
  obtain ⟨c, cs, hcons, hdigit⟩ := n.text_eq_cons
  have hc : isNumeralChar c = true := n.isNumeralChar_of_mem c (by simp [hcons])
  rw [hcons, List.cons_append] at hspan ⊢
  rw [leading?_of_isNumeralChar hc (by rw [hspan, ← hcons]; exact n.isNumeral), hspan]

theorem isWordChar_of_isWordLetter (h : isWordLetter c) : isWordChar c := by
  rw [(isWordChar_of_isPlain (isPlain_of_isWordLetter h)).2, h]

/-- Behind a word there is a bracket or the end. -/
theorem notWord_of_bracket (h : ∀ c ∈ rest.head?, c = '(' ∨ c = ')') :
    ∀ c ∈ rest.head?, isWordChar c = false := by
  intro c hc
  rcases h c hc with rfl | rfl <;> decide

theorem leadingWord_word (w : Word) (hrest : ∀ c ∈ rest.head?, c = '(' ∨ c = ')') :
    leadingWord units (w.letters ++ rest) = w.letters := by
  have hletters : ∀ c ∈ w.letters, isWordChar c :=
    fun c hc => isWordChar_of_isWordLetter (w.lower c hc)
  obtain ⟨htake, hdrop⟩ := span_run hletters (notWord_of_bracket hrest)
  unfold leadingWord
  rw [htake, hdrop]
  -- a second part would start with a slash
  cases rest with
  | nil => rfl
  | cons c rest => rcases hrest c rfl with rfl | rfl <;> rfl

theorem leadingWord_compound (v w : Word)
    (hunit : String.ofList (v.letters ++ '/' :: w.letters) ∈ units)
    (hrest : ∀ c ∈ rest.head?, c = '(' ∨ c = ')') :
    leadingWord units (v.letters ++ '/' :: w.letters ++ rest) = v.letters ++ '/' :: w.letters := by
  have hletters (w : Word) : ∀ c ∈ w.letters, isWordChar c :=
    fun c hc => isWordChar_of_isWordLetter (w.lower c hc)
  have hslash : ∀ c ∈ ('/' :: (w.letters ++ rest)).head?, isWordChar c = false := by
    rintro _ ⟨⟩
    decide
  obtain ⟨htake, hdrop⟩ := span_run (hletters v) hslash
  obtain ⟨htake', -⟩ := span_run (hletters w) (notWord_of_bracket hrest)
  have htaken : (!w.letters.isEmpty &&
      units.contains (String.ofList (v.letters ++ '/' :: w.letters))) = true := by
    rw [Bool.and_eq_true, List.contains_iff_mem]
    exact ⟨by simp [w.ne_nil], hunit⟩
  unfold leadingWord
  rw [List.append_assoc, List.cons_append, htake, hdrop]
  simp only [htake']
  rw [if_pos htaken]

/-- A name with a bracket behind it is one token. -/
theorem leading?_name {name : List Char} (hne : ∃ c cs, name = c :: cs ∧ isWordLetter c)
    (hword : leadingWord units (name ++ rest) = name) :
    leading? units (name ++ rest) = some (.identifier, name) := by
  obtain ⟨c, cs, rfl, hc⟩ := hne
  rw [List.cons_append] at hword ⊢
  rw [leading?_of_isWordLetter hc, hword]

theorem leading?_asterisk (hrest : ∀ c ∈ rest.head?, c ≠ '*') :
    leading? units ('*' :: rest) = some (.operator, ['*']) := by
  cases rest with
  | nil => rfl
  | cons c rest =>
      have hc : c ≠ '*' := hrest c rfl
      unfold leading?
      split
      case h_1 heq =>
        cases heq
        exact absurd rfl hc
      case h_6 heq =>
        cases heq
        rfl
      all_goals
        next heq => cases heq

theorem leading?_mark {t : Token} (ht : t ∈ marks) (hrest : ∀ c ∈ rest.head?, t.Admits c) :
    leading? units (t.lexeme.toList ++ rest) = some (t.kind, t.lexeme.toList) := by
  -- only an asterisk can be the start of a longer sign
  by_cases hasterisk : t = sign "*"
  · obtain rfl := hasterisk
    exact leading?_asterisk fun c hc => (hrest c hc).2 rfl
  · simp only [marks, List.mem_cons, List.not_mem_nil, or_false] at ht
    rcases ht with rfl | rfl | rfl | rfl | rfl | rfl | rfl | rfl | rfl
    case inr.inr.inr.inr.inr.inl => exact absurd rfl hasterisk
    all_goals rfl

/-- Whether characters, wherever they were typed, are scanned as the given tokens. -/
def Scans (units : List String) (cs : List Char) (ts : List Token) : Prop :=
  ∀ os : List Nat, os.length = cs.length →
    ∃ us, scanFrom units 0 cs os = .ok us ∧ us.map unplaced = ts

theorem Scans.nil : Scans units [] [] := by
  intro os _
  exact ⟨[], by cases os <;> rfl, rfl⟩

/-- One more token is scanned if it is the leading one. -/
theorem Scans.cons {t : Token} {ts : List Token} (hplace : t.unplaced = t)
    (hfirst : ∃ c cs, t.lexeme.toList = c :: cs ∧ isPlain c)
    (hleading : leading? units (t.lexeme.toList ++ rest) = some (t.kind, t.lexeme.toList))
    (h : Scans units rest ts) : Scans units (t.lexeme.toList ++ rest) (t :: ts) := by
  intro os hos
  obtain ⟨c, cs, hcons, hplain⟩ := hfirst
  have hblank : ¬ Text.isBlank c = true := by simp [isBlank_of_isPlain hplain]
  have hlexeme : String.ofList (c :: cs) = t.lexeme := by rw [← hcons, String.ofList_toList]
  rw [hcons, List.cons_append] at hos hleading ⊢
  cases os with
  | nil => cases hos
  | cons o os =>
      have hlength : (os.drop cs.length).length = rest.length := by
        rw [List.length_cons, List.length_cons, List.length_append] at hos
        rw [List.length_drop]
        omega
      obtain ⟨us, hus, hmap⟩ := h (os.drop cs.length) hlength
      refine ⟨⟨t.kind, t.lexeme, o⟩ :: us, ?_, ?_⟩
      · -- the characters of the token behind the first are skipped, and so are their places
        rw [scanFrom, if_neg hblank, hleading]
        show (scanFrom units cs.length (cs ++ rest) os).map _ = _
        rw [scanFrom_skip, List.drop_left, hus, hlexeme]
        rfl
      · rw [List.map_cons, hmap]
        exact congrArg (· :: ts) hplace

theorem leading?_word (w : Word) (hrest : ∀ c ∈ rest.head?, c = '(' ∨ c = ')') :
    leading? units (w.text.toList ++ rest) = some (.identifier, w.text.toList) := by
  refine leading?_name w.text_eq_cons ?_
  rw [Word.text, String.toList_ofList, leadingWord_word w hrest]

theorem leading?_unit (u : StandardUnit) (hrest : ∀ c ∈ rest.head?, c = ')') :
    leading? UnitTable.standard.names (u.text.toList ++ rest) =
      some (.identifier, u.text.toList) := by
  have hbracket : ∀ c ∈ rest.head?, c = '(' ∨ c = ')' := fun c hc => .inr (hrest c hc)
  refine leading?_name u.text_eq_cons ?_
  obtain ⟨v, hone | ⟨w, htwo⟩⟩ := u.parts
  · rw [hone, leadingWord_word v hbracket]
  · have hunit : String.ofList (v.letters ++ '/' :: w.letters) ∈ UnitTable.standard.names := by
      rw [← htwo, String.ofList_toList]
      exact u.standard
    rw [htwo, leadingWord_compound v w hunit hbracket]

/-- **Legible tokens are scanned as they are.** -/
theorem Legible.scans {ts : List Token} (h : Legible ts) :
    Scans UnitTable.standard.names (chars ts) ts := by
  induction h with
  | nil => exact .nil
  | number n hnext _ ih =>
      obtain ⟨c, cs, hcons, hdigit⟩ := n.text_eq_cons
      have hplain : Token.isPlain c := by simp [Token.isPlain, hdigit]
      exact .cons rfl ⟨c, cs, hcons, hplain⟩ (leading?_numeral n hnext) ih
  | word w hnext _ ih =>
      obtain ⟨c, cs, hcons, hletter⟩ := w.text_eq_cons
      exact .cons rfl ⟨c, cs, hcons, isPlain_of_isWordLetter hletter⟩ (leading?_word w hnext) ih
  | unit u hnext _ ih =>
      -- two tokens, the bracket in front and the unit
      obtain ⟨c, cs, hcons, hletter⟩ := u.text_eq_cons
      have hunit : Scans _ (chars (⟨.identifier, u.text, 0⟩ :: _))
          (⟨.identifier, u.text, 0⟩ :: _) :=
        .cons rfl ⟨c, cs, hcons, isPlain_of_isWordLetter hletter⟩ (leading?_unit u hnext) ih
      exact .cons rfl ⟨')', [], rfl, by decide⟩ rfl hunit
  | mark ht hnext _ ih =>
      have hmarks : ∀ t ∈ marks, t.unplaced = t ∧ t.lexeme.toList ≠ [] := by decide
      obtain ⟨hplace, hne⟩ := hmarks _ ht
      obtain ⟨c, cs, hcons⟩ := List.exists_cons_of_ne_nil hne
      have hplain : Token.isPlain c := isPlain_of_mem_mark ht (by simp [hcons])
      exact .cons hplace ⟨c, cs, hcons, hplain⟩ (leading?_mark ht hnext) ih

end Scan

end Token

end Reckoner
