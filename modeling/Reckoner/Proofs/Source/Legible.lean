import Reckoner.Expr.OfTokens
import Reckoner.Proofs.Source.Trim
import Reckoner.Proofs.Token.Legible

/-!
# Reckoner.Proofs.Source.Legible -- the source of legible tokens

Legible tokens that are typed are the text that is scanned: no shorthand is found in them, nothing
is trimmed, and no multiplication sign is put in.
-/

namespace Reckoner

open Number (isAsciiDigit)
open Product (isWordLetter)
open Token (isPlain isNumeralChar enders chars Legible)

/-! ## Words of shorthand -/

namespace Shorthand

open Rule (Idle phrase)

theorem wordMayEnd_of_head? {cs : List Char} (h : ∀ c ∈ cs.head?, Text.isWordChar c = false) :
    Text.wordMayEnd cs = true := by
  cases cs with
  | nil => rfl
  | cons c cs => simp [Text.wordMayEnd, h c rfl]

theorem isWordChar_of_isWordLetter {c : Char} (h : isWordLetter c) : Text.isWordChar c := by
  rw [(Token.isWordChar_of_isPlain (Token.isPlain_of_isWordLetter h)).1, h, Bool.or_true]

section Words

variable {word : String} {written rest : List Char} (hword : word ∈ shorthandWords)

include hword

theorem letters_of_shorthand : word.toList ≠ [] ∧ ∀ c ∈ word.toList, isWordLetter c := by
  have hall : ∀ s ∈ shorthandWords, s.toList ≠ [] ∧ ∀ c ∈ s.toList, isWordLetter c := by decide
  exact hall word hword

theorem wordChars_of_shorthand : ∀ c ∈ word.toList, Text.isWordChar c :=
  fun c hc => isWordChar_of_isWordLetter ((letters_of_shorthand hword).2 c hc)

theorem idle_marks (marks : List Char) (hmarks : ∀ c ∈ marks, Text.isWordChar c = false)
    (hrest : ∀ before, Idle (phrase (Rule.word word) written) before rest)
    (before : Option Char) : Idle (phrase (Rule.word word) written) before (marks ++ rest) :=
  Rule.idle_phrase_marks (wordChars_of_shorthand hword) (letters_of_shorthand hword).1 hmarks hrest
    before

/-- A word that may be a name is no word of shorthand. -/
theorem idle_name (w : Word) (hend : Text.wordMayEnd rest = true)
    (hrest : ∀ before, Idle (phrase (Rule.word word) written) before rest)
    (before : Option Char) : Idle (phrase (Rule.word word) written) before (w.letters ++ rest) := by
  have hne : w.letters ≠ word.toList := by
    intro heq
    refine w.free ?_
    rwa [heq, String.ofList_toList]
  exact Rule.idle_phrase_word (wordChars_of_shorthand hword)
    (fun c hc => isWordChar_of_isWordLetter (w.lower c hc)) hne hend hrest before

/-- Neither is a row of digits. -/
theorem idle_digits {ds : List Char} (hds : ∀ c ∈ ds, isAsciiDigit c)
    (hend : Text.wordMayEnd rest = true)
    (hrest : ∀ before, Idle (phrase (Rule.word word) written) before rest)
    (before : Option Char) : Idle (phrase (Rule.word word) written) before (ds ++ rest) := by
  obtain ⟨hnil, hletters⟩ := letters_of_shorthand hword
  have hplain {c : Char} (hc : isAsciiDigit c = true) : isPlain c := by simp [isPlain, hc]
  have hwordChar : ∀ c ∈ ds, Text.isWordChar c := by
    intro c hc
    rw [(Token.isWordChar_of_isPlain (hplain (hds c hc))).1, hds c hc, Bool.true_or]
  -- a word of shorthand has a letter in it
  have hne : ds ≠ word.toList := by
    rintro rfl
    obtain ⟨c, hc⟩ := List.exists_mem_of_ne_nil _ hnil
    have hdisjoint : isAsciiDigit c = true → ¬ isWordLetter c = true :=
      Token.of_isPlain (p := fun c => isAsciiDigit c = true → ¬ isWordLetter c = true) (by decide)
        (hplain (hds c hc))
    exact hdisjoint (hds c hc) (hletters c hc)
  exact Rule.idle_phrase_word (wordChars_of_shorthand hword) hwordChar hne hend hrest before

/-- No word of shorthand stands in legible tokens. -/
theorem idle_word {ts : List Token} (h : Legible ts) (before : Option Char) :
    Idle (phrase (Rule.word word) written) before (chars ts) := by
  have henders : ∀ c ∈ enders, Text.isWordChar c = false := by decide
  induction h generalizing before with
  | nil => trivial
  | number n hnext _ ih =>
      have hend := wordMayEnd_of_head? fun c hc => henders c (hnext c hc)
      obtain ⟨whole, fraction, -, hwhole, hfraction⟩ := n
      rw [Token.chars_cons, Numeral.text, String.toList_ofList]
      cases fraction with
      | none =>
          rw [List.append_nil]
          exact idle_digits hword hwhole hend ih before
      | some ds =>
          -- two words with a point between them
          have hbehind := idle_marks hword ['.'] (by decide)
            (idle_digits hword (hfraction ds rfl) hend ih)
          rw [List.append_assoc]
          exact idle_digits hword hwhole rfl hbehind before
  | word w hnext _ ih =>
      have hend := wordMayEnd_of_head? fun c hc => by
        rcases hnext c hc with rfl | rfl <;> rfl
      rw [Token.chars_cons, Word.text, String.toList_ofList]
      exact idle_name hword w hend ih before
  | unit u hnext _ ih =>
      have hend := wordMayEnd_of_head? fun c hc => by
        rw [hnext c hc]
        rfl
      rw [Token.chars_cons, Token.chars_cons]
      refine idle_marks hword [')'] (by decide) (fun before => ?_) before
      obtain ⟨v, hone | ⟨w, htwo⟩⟩ := u.parts
      · rw [hone]
        exact idle_name hword v hend ih before
      · have hbehind := idle_marks hword ['/'] (by decide) (idle_name hword w hend ih)
        rw [htwo, List.append_assoc]
        exact idle_name hword v rfl hbehind before
  | mark ht _ _ ih =>
      have hmarks : ∀ t ∈ Token.marks, ∀ c ∈ t.lexeme.toList, Text.isWordChar c = false := by decide
      exact idle_marks hword _ (hmarks _ ht) ih before

end Words

theorem idle_finalEquals {cs : List Char} (h : '=' ∉ cs) (before : Option Char) :
    Idle finalEquals before cs := by
  refine Rule.idle_of_forall (fun c hc before rest => ?_) before
  have hne : c ≠ '=' := fun heq => h (heq ▸ hc)
  exact finalEquals_cons_of_ne hne before rest

/-- Without white space the spelled percent sign is the word alone. -/
theorem idle_spelledPercent {cs : List Char} (hblank : ∀ c ∈ cs, Text.isBlank c = false)
    {before : Option Char} (h : Idle (phrase (Rule.word "percent") ['%']) before cs) :
    Idle spelledPercent before cs := by
  induction cs generalizing before with
  | nil => trivial
  | cons c cs ih =>
      rw [List.forall_mem_cons] at hblank
      refine ⟨?_, ih hblank.2 h.2⟩
      have htake : (c :: cs).takeWhile Text.isBlank = [] :=
        List.takeWhile_cons_of_neg (by simp [hblank.1])
      unfold spelledPercent
      simp only [htake, List.getLast?_nil, Option.none_or, List.length_nil, List.drop_zero, h.1,
        Option.map_none]

/-- No rule for shorthand applies to legible tokens. -/
theorem idle_of_legible {ts : List Token} (h : Legible ts) :
    ∀ r ∈ rules, Idle r none (chars ts) := by
  have hglyph (glyphs written : List Char) (hglyphs : ∀ g ∈ glyphs, ¬ isPlain g) :
      Idle (Rule.glyph glyphs written) none (chars ts) :=
    Rule.idle_glyph (fun c hc hmem => hglyphs c hmem (h.isPlain c hc)) none
  have hword {word : String} (hmem : word ∈ shorthandWords) (written : List Char) :
      Idle (phrase (Rule.word word) written) none (chars ts) :=
    idle_word hmem h none
  have hblank : ∀ c ∈ chars ts, Text.isBlank c = false :=
    fun c hc => Token.isBlank_of_isPlain (h.isPlain c hc)
  -- no text without white space holds two words, and none without an apostrophe a contraction
  have htwo : Idle (phrase (Rule.word "what" ++ .blanks :: Rule.word "is") []) none (chars ts) :=
    Rule.idle_phrase_of_piece (p := .blanks) (by decide)
      (fun c hc hadmits => absurd hadmits (by simp [Rule.Piece.Admits, hblank c hc])) none
  have hcontracted : Idle (phrase (Rule.word "what's") []) none (chars ts) := by
    refine Rule.idle_phrase_of_piece (p := .letter (Char.ofNat 39)) (by decide) ?_ none
    rintro c hc rfl
    exact absurd (h.isPlain _ hc) (by decide)
  have hequals : '=' ∉ chars ts := fun hmem => absurd (h.isPlain _ hmem) (by decide)
  simp only [rules, List.forall_mem_cons]
  refine ⟨?_, hglyph _ _ (by decide), idle_finalEquals hequals none, hglyph _ _ (by decide),
    hglyph _ _ (by decide), hglyph _ _ (by decide), hglyph _ _ (by decide),
    hglyph _ _ (by decide), hglyph _ _ (by decide), hglyph _ _ (by decide),
    hglyph _ _ (by decide), hglyph _ _ (by decide), ?_, hword (by decide) _, by simp⟩
  · refine Rule.idle_firstOf ?_
    simp only [List.forall_mem_cons]
    exact ⟨htwo, hcontracted, hword (by decide) _, hword (by decide) _, hword (by decide) _,
      hword (by decide) _, by simp⟩
  · refine Rule.idle_firstOf ?_
    simp only [List.forall_mem_cons]
    exact ⟨hglyph _ _ (by decide), idle_spelledPercent hblank (hword (by decide) _), by simp⟩

end Shorthand

/-! ## Multiplication signs -/

namespace Product

variable {units : List String} {c : Char} {cs rest : List Char} {admitted : Bool}

/-- Whether no factor starts where one may come. -/
def Unfactored (units : List String) : (admitted : Bool) → List Char → Prop
  | _, [] => True
  | admitted, c :: cs =>
    (admitted && startsFactor units (c :: cs)) = false ∧
      Unfactored units (admitsFactor admitted c) cs

theorem insertFrom_of_unfactored {os : List Nat} (h : Unfactored units admitted cs) :
    insertFrom units admitted cs os = List.zipWith Mark.mk cs os := by
  induction cs generalizing admitted os with
  | nil => cases os <;> rfl
  | cons c cs ih =>
      cases os with
      | nil => rfl
      | cons o os =>
          rw [insertFrom, h.1, ih h.2]
          rfl

/-- Where no factor starts no sign is put in. -/
theorem insert_of_unfactored {marks : List Mark}
    (h : Unfactored units false (marks.map (·.char))) : insert units marks = marks := by
  rw [insert, insertFrom_of_unfactored h]
  simp

theorem startsFactor_eq_false (hbracket : c ≠ '(') (hletter : isWordLetter c = false) :
    startsFactor units (c :: cs) = false := by
  unfold startsFactor
  split
  · next heq => exact absurd (List.cons.inj heq).1 hbracket
  · next heq =>
    cases heq
    rw [hletter, Bool.false_and]
  · rfl

theorem startsFactor_of_ender (h : c ∈ enders) : startsFactor units (c :: cs) = false := by
  have henders : ∀ c ∈ enders, c ≠ '(' ∧ isWordLetter c = false := by decide
  exact startsFactor_eq_false (henders c h).1 (henders c h).2

theorem isCompoundChar_of_mem_unit (u : StandardUnit) : ∀ c ∈ u.text.toList, isCompoundChar c := by
  have hall : ∀ name ∈ UnitTable.standard.names, ∀ c ∈ name.toList, isCompoundChar c := by decide
  exact hall u.text u.standard

/-- The name of a unit is no factor. -/
theorem startsFactor_unit (u : StandardUnit) (hrest : ∀ c ∈ rest.head?, c = ')') :
    startsFactor UnitTable.standard.names (u.text.toList ++ rest) = false := by
  have hname := isCompoundChar_of_mem_unit u
  have hstop : ∀ c ∈ rest.head?, isCompoundChar c = false := by
    intro c hc
    rw [hrest c hc]
    rfl
  obtain ⟨c, cs, hcons, hletter⟩ := u.text_eq_cons
  have hbracket : c ≠ '(' := by
    rintro rfl
    exact absurd hletter (by decide)
  rw [hcons, List.forall_mem_cons] at hname
  have htake := (Token.span_run hname.2 hstop).1
  have hlexeme : String.ofList (c :: cs) = u.text := by rw [← hcons, String.ofList_toList]
  have hcontains : UnitTable.standard.names.contains u.text = true :=
    List.contains_iff_mem.mpr u.standard
  have hleading : leadingWord UnitTable.standard.names (c :: cs) = u.text := by
    rw [leadingWord, hlexeme, hcontains, Bool.not_true, Bool.and_false, if_neg Bool.false_ne_true]
  rw [hcons, List.cons_append]
  unfold startsFactor
  split
  · next heq => exact absurd (List.cons.inj heq).1 hbracket
  · next heq =>
    cases heq
    -- what is a unit, or a unit over something, is left to the scan
    simp only [htake, hleading, hcontains, Bool.not_true, Bool.false_and, Bool.and_false]
  · rfl

/-- Behind characters that admit no factor none may come. -/
theorem unfactored_append (hcs : ∀ c ∈ cs, ∀ admitted, admitsFactor admitted c = false)
    (hne : cs ≠ []) (hstart : (admitted && startsFactor units (cs ++ rest)) = false)
    (hrest : Unfactored units false rest) : Unfactored units admitted (cs ++ rest) := by
  induction cs generalizing admitted with
  | nil => exact absurd rfl hne
  | cons c cs ih =>
      rw [List.forall_mem_cons] at hcs
      refine ⟨hstart, ?_⟩
      rw [hcs.1]
      cases cs with
      | nil => exact hrest
      | cons d cs => exact ih hcs.2 (by simp) rfl

theorem unfactored_numeral (hcs : ∀ c ∈ cs, isNumeralChar c)
    (hrest : ∀ admitted, Unfactored units admitted rest) (admitted : Bool) :
    Unfactored units admitted (cs ++ rest) := by
  induction cs generalizing admitted with
  | nil => exact hrest admitted
  | cons c cs ih =>
      rw [List.forall_mem_cons] at hcs
      refine ⟨?_, ih hcs.2 _⟩
      have hc : c ≠ '(' ∧ isWordLetter c = false :=
        Token.of_isPlain (p := fun c => isNumeralChar c = true → c ≠ '(' ∧ isWordLetter c = false)
          (by decide) (Token.isPlain_of_isNumeralChar hcs.1) hcs.1
      rw [startsFactor_eq_false hc.1 hc.2, Bool.and_false]

/-- Neither a letter nor a slash admits a factor. -/
theorem admitsFactor_of_isCompoundChar (h : isCompoundChar c) (admitted : Bool) :
    admitsFactor admitted c = false := by
  have hplain : isPlain c := by
    rw [isCompoundChar, Bool.or_eq_true, beq_iff_eq] at h
    rcases h with h | rfl
    · exact Token.isPlain_of_isWordLetter h
    · rfl
  exact Token.of_isPlain (p := fun c => isCompoundChar c = true → ∀ b, admitsFactor b c = false)
    (by decide) hplain h admitted

/-- **No sign is put into legible tokens.** If a factor may come in front of them, they start with
what is none. -/
theorem unfactored_of_legible {ts : List Token} (h : Legible ts) (admitted : Bool)
    (hadmitted : admitted = true → ∀ c ∈ (chars ts).head?, c ∈ enders) :
    Unfactored UnitTable.standard.names admitted (chars ts) := by
  have hstart {cs : List Char} {admitted : Bool}
      (hadmitted : admitted = true → ∀ c ∈ cs.head?, c ∈ enders) :
      (admitted && startsFactor UnitTable.standard.names cs) = false := by
    cases admitted with
    | false => rfl
    | true =>
        rw [Bool.true_and]
        cases cs with
        | nil => rfl
        | cons c cs => exact startsFactor_of_ender (hadmitted rfl c rfl)
  -- a factor is admitted behind numbers and closing brackets only, where no legible token is one
  induction h generalizing admitted with
  | nil => trivial
  | number n hnext _ ih =>
      exact unfactored_numeral n.isNumeralChar_of_mem (fun admitted => ih admitted fun _ => hnext)
        admitted
  | word w _ _ ih =>
      have hletters : ∀ c ∈ w.letters, ∀ admitted, admitsFactor admitted c = false := by
        intro c hc
        have hcompound : isCompoundChar c := by simp [isCompoundChar, w.lower c hc]
        exact admitsFactor_of_isCompoundChar hcompound
      rw [Token.chars_cons, Word.text, String.toList_ofList] at hadmitted ⊢
      exact unfactored_append hletters w.ne_nil (hstart hadmitted) (ih false (by simp))
  | unit u hnext _ ih =>
      obtain ⟨c, cs, hcons, -⟩ := u.text_eq_cons
      have hletters : ∀ c ∈ u.text.toList, ∀ admitted, admitsFactor admitted c = false :=
        fun c hc => admitsFactor_of_isCompoundChar (isCompoundChar_of_mem_unit u c hc)
      have hfactor := startsFactor_unit u hnext
      have hbehind (admitted : Bool) : Unfactored UnitTable.standard.names admitted
          (u.text.toList ++ chars _) :=
        unfactored_append hletters (by simp [hcons]) (by rw [hfactor, Bool.and_false])
          (ih false (by simp))
      exact ⟨hstart hadmitted, hbehind _⟩
  | @mark t _ ht hnext _ ih =>
      by_cases hclosing : t = Token.closing
      · obtain rfl := hclosing
        exact ⟨hstart hadmitted, ih _ fun _ c hc => (hnext c hc).1 rfl⟩
      · have hmarks : ∀ t ∈ Token.marks, t ≠ Token.closing → t.lexeme.toList ≠ [] ∧
            ∀ c ∈ t.lexeme.toList, ∀ admitted, admitsFactor admitted c = false := by decide
        obtain ⟨hne, hadmits⟩ := hmarks _ ht hclosing
        exact unfactored_append hadmits hne (hstart hadmitted) (ih false (by simp))

end Product

/-! ## The source -/

/-- Plain characters have no other case. -/
theorem Mark.map_char_ofTyped_of_isPlain {cs : List Char} (h : ∀ c ∈ cs, isPlain c) :
    (Mark.ofTyped cs).map (·.char) = cs := by
  rw [map_char_ofTyped, Text.flatMap_lower_of_forall fun c hc => Token.lower_of_isPlain (h c hc)]

theorem Mark.trim_of_forall {marks : List Mark} (h : ∀ m ∈ marks, Text.isBlank m.char = false) :
    trim marks = marks := by
  have hdrop {ms : List Mark} (hms : ∀ m ∈ ms, Text.isBlank m.char = false) :
      ms.dropWhile (Text.isBlank ·.char) = ms := by
    cases ms with
    | nil => rfl
    | cons m ms => exact List.dropWhile_cons_of_neg (by simp [hms m List.mem_cons_self])
  rw [trim, hdrop h, hdrop (fun m hm => h m (List.mem_reverse.mp hm)), List.reverse_reverse]

/-- **The source of legible tokens is what was typed.** -/
theorem Source.spelledOut_of_legible {ts : List Token} (h : Legible ts) :
    spelledOut UnitTable.standard.names (String.ofList (chars ts)) = Mark.ofTyped (chars ts) := by
  have hchars : (Mark.ofTyped (chars ts)).map (·.char) = chars ts :=
    Mark.map_char_ofTyped_of_isPlain h.isPlain
  have hexpand : Shorthand.expand (Mark.ofTyped (chars ts)) = Mark.ofTyped (chars ts) := by
    refine Rule.foldl_pass_of_idle ?_
    rw [hchars]
    exact Shorthand.idle_of_legible h
  have htrim : Mark.trim (Mark.ofTyped (chars ts)) = Mark.ofTyped (chars ts) := by
    refine Mark.trim_of_forall fun m hm => Token.isBlank_of_isPlain (h.isPlain _ ?_)
    rw [← hchars]
    exact List.mem_map_of_mem hm
  rw [spelledOut, String.toList_ofList, hexpand, htrim, Product.insert_of_unfactored]
  rw [hchars]
  exact Product.unfactored_of_legible h false (by simp)

/-- **Legible tokens are read back**, each at some place, with the end mark behind them. -/
theorem Token.ofTyped_of_legible {ts : List Token} (h : Legible ts) (hne : chars ts ≠ []) :
    ∃ us stop, ofTyped UnitTable.standard.names (String.ofList (chars ts)) =
      .ok (us ++ [⟨.finish, "", stop⟩]) ∧ us.map unplaced = ts := by
  let marks := Mark.ofTyped (chars ts)
  have hchars : marks.map (·.char) = chars ts := Mark.map_char_ofTyped_of_isPlain h.isPlain
  have hsource : Source.ofTyped UnitTable.standard.names (String.ofList (chars ts)) =
      .ok (Source.ofMarks marks (String.ofList (chars ts))) := by
    unfold Source.ofTyped
    rw [Source.spelledOut_of_legible h]
    split
    · next hnil =>
      have hempty : marks.map (·.char) = [] := by rw [show marks = [] from hnil, List.map_nil]
      exact absurd (hchars.symm.trans hempty) hne
    · rfl
  have hlength : (marks.map (·.origin)).length = (chars ts).length := by
    rw [← hchars, List.length_map, List.length_map]
  obtain ⟨us, hscan, hmap⟩ := h.scans _ hlength
  refine ⟨us, (Source.ofMarks marks (String.ofList (chars ts))).stop, ?_, hmap⟩
  rw [ofTyped, hsource]
  show ofSource UnitTable.standard.names _ = _
  rw [ofSource, Source.marks_ofMarks]
  simp only [hchars, hscan]
  rfl

end Reckoner
