import Reckoner.Expr.OfTokens
import Reckoner.Proofs.Source.Within
import Reckoner.Token.Scan

/-!
# Reckoner.Proofs.Token.Split -- how marks are split into tokens

The leading token of a text is a numeral, a word or one of the signs (`leading?_cases`). What is
called a number is a numeral that can be read, and nothing is called an end mark.

What a scan does, without its bookkeeping of characters that are taken already: white space is
passed over, and everywhere else the leading token is taken off the front (`Split`).
-/

namespace Reckoner

open Number (isAsciiDigit numeralParts? numeral?)

/-! ## What a text can start with -/

namespace Token

variable {units : List String} {cs lexeme : List Char} {kind : Class}

/-- A run of digits and points with a digit and at most one point can be read. -/
theorem numeral?_of_isNumeral {run : List Char} (hnil : run ≠ [])
    (hchars : ∀ c ∈ run, isNumeralChar c) (h : isNumeral run) :
    ∃ x, numeral? (String.ofList run) = some x := by
  rw [isNumeral, Bool.and_eq_true, decide_eq_true_iff, bne_iff_ne] at h
  obtain ⟨hcount, hpoint⟩ := h
  have hsplit : run.takeWhile isAsciiDigit ++ run.dropWhile isAsciiDigit = run :=
    List.takeWhile_append_dropWhile
  have hparts : ∃ parts, numeralParts? run = some parts := by
    unfold numeralParts?
    cases hrest : run.dropWhile isAsciiDigit with
    | nil =>
        have hwhole : run.takeWhile isAsciiDigit = run := by
          rw [hrest, List.append_nil] at hsplit
          exact hsplit
        simp [hwhole, hnil]
    | cons c ds =>
        -- what the digits stop at is a point, and there is no other behind it
        have hmem : c ∈ run := by
          rw [← hsplit, hrest]
          simp
        have hdigit : isAsciiDigit c = false := by
          have hhead := List.head_dropWhile_not (l := run) isAsciiDigit (by simp [hrest])
          simpa [hrest] using hhead
        obtain rfl : c = '.' := by
          have hc := hchars c hmem
          rw [isNumeralChar, hdigit, Bool.false_or, beq_iff_eq] at hc
          exact hc
        have hone : ds.count '.' = 0 := by
          rw [← hsplit, hrest, List.count_append, List.count_cons_self] at hcount
          omega
        have hdigits : ds.all isAsciiDigit = true := by
          rw [List.all_eq_true]
          intro d hd
          have hchar := hchars d (by rw [← hsplit, hrest]; simp [hd])
          rw [isNumeralChar, Bool.or_eq_true, beq_iff_eq] at hchar
          rcases hchar with hchar | rfl
          · exact hchar
          · exact absurd hd (List.count_eq_zero.mp hone)
        have hsome : ¬ (run.takeWhile isAsciiDigit = [] ∧ ds = []) := by
          rintro ⟨hwhole, rfl⟩
          rw [hwhole, hrest] at hsplit
          exact hpoint hsplit.symm
        simp only [hdigits, if_true, Option.bind_some, Bool.and_eq_true, List.isEmpty_iff]
        rw [if_neg hsome]
        exact ⟨_, rfl⟩
  obtain ⟨parts, hparts⟩ := hparts
  exact ⟨_, by rw [numeral?, String.toList_ofList, hparts]; rfl⟩

/-- What starts with no sign of its own is a number, a word or an operator. -/
theorem leading?_of_not_sign {c : Char} (hc : c ∉ ['*', '(', ')', '=', ',']) (cs : List Char) :
    leading? units (c :: cs) =
      if isNumeralChar c then
        if isNumeral ((c :: cs).takeWhile isNumeralChar) then
          some (.number, (c :: cs).takeWhile isNumeralChar)
        else none
      else if isWordChar c then some (.identifier, leadingWord units (c :: cs))
      else if ['+', '-', '*', '/', '%'].contains c then some (.operator, [c])
      else none := by
  unfold leading?
  split
  case h_6 heq =>
    cases heq
    rfl
  all_goals
    next heq => cases heq <;> exact absurd (by decide) hc

/-- The tokens that are spelled in one way, the longer spelling of two first. -/
def signs : List (Class × List Char) := [
  (.operator, ['*', '*']),
  (.openBracket, ['(']),
  (.closeBracket, [')']),
  (.equal, ['=']),
  (.comma, [',']),
  (.operator, ['+']),
  (.operator, ['-']),
  (.operator, ['*']),
  (.operator, ['/']),
  (.operator, ['%'])]

/-- What a leading token can be: a run of digits and points, the word that the text starts with, or
a sign. -/
theorem leading?_cases (h : leading? units cs = some (kind, lexeme)) :
    (kind = .number ∧ lexeme = cs.takeWhile isNumeralChar ∧ lexeme ≠ [] ∧ isNumeral lexeme) ∨
      (kind = .identifier ∧ lexeme = leadingWord units cs ∧ ∃ c rest, cs = c :: rest ∧
        isWordChar c) ∨
      ((kind, lexeme) ∈ signs ∧ lexeme <+: cs) := by
  unfold leading? at h
  split at h
  case h_6 c cs _ _ _ _ _ =>
    split at h
    · next hnumeral =>
      simp only at h
      split at h
      · next hrun =>
        cases h
        exact .inl ⟨rfl, rfl, by simp [hnumeral], hrun⟩
      · cases h
    split at h
    · next hword =>
      cases h
      exact .inr (.inl ⟨rfl, rfl, c, cs, rfl, hword⟩)
    split at h
    · next hsign =>
      cases h
      refine .inr (.inr ⟨?_, by simp⟩)
      rw [List.contains_iff_mem] at hsign
      revert hsign c
      simp [signs]
    · cases h
  case h_7 => cases h
  all_goals
    cases h
    exact .inr (.inr ⟨by decide, by simp⟩)

/-- What a text starts with is neither an end mark nor a number that cannot be read. -/
theorem leading?_readable (h : leading? units cs = some (kind, lexeme)) :
    kind ≠ .finish ∧ (kind = .number → ∃ x, numeral? (String.ofList lexeme) = some x) := by
  rcases leading?_cases h with ⟨rfl, rfl, hne, hrun⟩ | ⟨rfl, -, -⟩ | ⟨hsign, -⟩
  · refine ⟨by decide, fun _ => numeral?_of_isNumeral hne (fun c hc => ?_) hrun⟩
    exact List.all_eq_true.mp List.all_takeWhile c hc
  · exact ⟨by decide, fun h => absurd h (by decide)⟩
  · have hsigns : ∀ sign ∈ signs, sign.1 ≠ .finish ∧ sign.1 ≠ .number := by decide
    obtain ⟨hfinish, hnumber⟩ := hsigns _ hsign
    exact ⟨hfinish, fun h => absurd h hnumber⟩

/-! ## The leading token -/

/-- The word that a text starts with is a row of letters, or two with a slash between them that are
the name of a unit. -/
theorem leadingWord_cases (units : List String) (cs : List Char) :
    leadingWord units cs = cs.takeWhile isWordChar ∨
      ∃ more, cs.dropWhile isWordChar = '/' :: more ∧ more.takeWhile isWordChar ≠ [] ∧
        leadingWord units cs =
          cs.takeWhile isWordChar ++ '/' :: more.takeWhile isWordChar ∧
        String.ofList (leadingWord units cs) ∈ units := by
  unfold leadingWord
  split
  · next more hmore =>
    simp only
    split
    · next hunit =>
      rw [Bool.and_eq_true, List.contains_iff_mem] at hunit
      exact .inr ⟨more, hmore, by simpa using hunit.1, rfl, hunit.2⟩
    · exact .inl rfl
  · exact .inl rfl

theorem leadingWord_prefix (units : List String) (cs : List Char) :
    leadingWord units cs <+: cs := by
  rcases leadingWord_cases units cs with hone | ⟨more, hmore, -, htwo, -⟩
  · rw [hone]
    exact List.takeWhile_prefix _
  · have hcs : cs.takeWhile isWordChar ++ '/' :: more = cs := by
      rw [← hmore, List.takeWhile_append_dropWhile]
    have hprefix : cs.takeWhile isWordChar ++ '/' :: more.takeWhile isWordChar <+:
        cs.takeWhile isWordChar ++ '/' :: more :=
      (List.prefix_append_right_inj _).mpr
        ((List.prefix_cons_inj _).mpr (List.takeWhile_prefix _))
    rw [hcs, ← htwo] at hprefix
    exact hprefix

/-- A token takes at least one character from the front of the text. -/
theorem leading?_isPrefix (h : leading? units cs = some (kind, lexeme)) :
    lexeme ≠ [] ∧ lexeme <+: cs := by
  rcases leading?_cases h with ⟨-, rfl, hne, -⟩ | ⟨-, rfl, c, rest, rfl, hc⟩ | ⟨hsign, hprefix⟩
  · exact ⟨hne, List.takeWhile_prefix _⟩
  · refine ⟨?_, leadingWord_prefix units _⟩
    rcases leadingWord_cases units (c :: rest) with hone | ⟨_, -, -, htwo, -⟩
    · simp [hone, hc]
    · simp [htwo]
  · have hsigns : ∀ sign ∈ signs, sign.2 ≠ [] := by decide
    exact ⟨hsigns _ hsign, hprefix⟩

/-! ## Splitting -/

/-- How marks are split into tokens: white space is passed over, and elsewhere the leading token is
taken. A token has the place of its first character. -/
inductive Split (units : List String) : List Mark → List Token → Prop
  | nil : Split units [] []
  | blank {m : Mark} {ms : List Mark} {ts : List Token} (hblank : Text.isBlank m.char = true)
    (h : Split units ms ts) : Split units (m :: ms) ts
  | token {m : Mark} {ms rest : List Mark} {kind : Class} {ts : List Token}
    (hblank : Text.isBlank m.char = false)
    (hleading : leading? units ((m :: ms ++ rest).map (·.char)) =
      some (kind, (m :: ms).map (·.char)))
    (h : Split units rest ts) :
    Split units (m :: ms ++ rest)
      (⟨kind, String.ofList ((m :: ms).map (·.char)), m.origin⟩ :: ts)

variable {marks : List Mark} {ts : List Token}

theorem split_of_scanFrom {skip : Nat}
    (h : scanFrom units skip (marks.map (·.char)) (marks.map (·.origin)) = .ok ts) :
    Split units (marks.drop skip) ts := by
  induction marks generalizing skip ts with
  | nil =>
      have hnil : scanFrom units skip [] [] = .ok [] := by cases skip <;> rfl
      cases hnil.symm.trans h
      rw [List.drop_nil]
      exact .nil
  | cons m marks ih =>
      cases skip with
      | succ skip => exact ih h
      | zero =>
          rw [List.map_cons, List.map_cons, scanFrom] at h
          split at h
          · next hblank => exact .blank hblank (ih h)
          next hblank =>
          split at h
          · next kind lexeme hleading =>
            cases hrest : scanFrom units (lexeme.length - 1) (marks.map (·.char))
                (marks.map (·.origin)) with
            | error e =>
                rw [hrest] at h
                cases h
            | ok rest =>
                rw [hrest] at h
                cases h
                -- the lexeme is the first character and those that are passed over behind it
                have hlexeme : lexeme = (m :: marks.take (lexeme.length - 1)).map (·.char) := by
                  obtain ⟨hne, hprefix⟩ := leading?_isPrefix hleading
                  obtain ⟨c, front, rfl⟩ := List.exists_cons_of_ne_nil hne
                  obtain ⟨rfl, hfront⟩ := List.cons_prefix_cons.mp hprefix
                  rw [List.map_cons, List.map_take, List.length_cons, Nat.add_sub_cancel,
                    ← List.prefix_iff_eq_take.mp hfront]
                have hmarks : m :: marks = m :: marks.take (lexeme.length - 1) ++
                    marks.drop (lexeme.length - 1) := by
                  rw [List.cons_append, List.take_append_drop]
                have hwhole : leading? units ((m :: marks).map (·.char)) = some (kind, lexeme) :=
                  hleading
                rw [hmarks] at hwhole
                rw [List.drop_zero, hmarks]
                generalize marks.take (lexeme.length - 1) = front at hlexeme hwhole
                subst hlexeme
                exact .token (by simpa using hblank) hwhole (ih hrest)
          · cases h

theorem Split.scanFrom (h : Split units marks ts) :
    Token.scanFrom units 0 (marks.map (·.char)) (marks.map (·.origin)) = .ok ts := by
  induction h with
  | nil => rfl
  | blank hblank _ ih =>
      rw [List.map_cons, List.map_cons, Token.scanFrom, if_pos hblank]
      exact ih
  | @token m ms rest kind ts hblank hleading _ ih =>
      rw [List.cons_append, List.map_cons] at hleading
      rw [List.cons_append, List.map_cons, List.map_cons, Token.scanFrom,
        if_neg (by simp [hblank]), hleading]
      have hdrop {α : Type} (f : Mark → α) : ((ms ++ rest).map f).drop ms.length = rest.map f := by
        rw [List.map_append, List.drop_left' (List.length_map f)]
      simp only [List.map_cons, List.length_cons, List.length_map, Nat.add_sub_cancel]
      rw [scanFrom_skip, hdrop, hdrop, ih]
      rfl

/-- A scan stops only at a character, which it reports where it was typed. -/
theorem scanFrom_error {skip : Nat} {os : List Nat} {e : Error}
    (h : scanFrom units skip cs os = .error e) :
    ∃ c o, e = .unexpectedCharacter c o ∧ o ∈ os := by
  induction cs generalizing skip os with
  | nil => cases skip <;> cases os <;> cases h
  | cons c cs ih =>
      cases os with
      | nil => cases skip <;> cases h
      | cons o os =>
          have hlater {skip : Nat} (h : scanFrom units skip cs os = .error e) :
              ∃ c p, e = .unexpectedCharacter c p ∧ p ∈ o :: os := by
            obtain ⟨c, p, rfl, hp⟩ := ih h
            exact ⟨c, p, rfl, List.mem_cons_of_mem o hp⟩
          cases skip with
          | succ skip => exact hlater h
          | zero =>
              rw [scanFrom] at h
              split at h
              · exact hlater h
              split at h
              · next kind lexeme _ =>
                cases hrest : scanFrom units (lexeme.length - 1) cs os with
                | ok rest =>
                    rw [hrest] at h
                    cases h
                | error f =>
                    rw [hrest] at h
                    cases h
                    exact hlater hrest
              · cases h
                exact ⟨c, o, rfl, List.mem_cons_self⟩

namespace Split

/-- A token has the place of one of the marks. -/
theorem place_mem (h : Split units marks ts) : ∀ t ∈ ts, t.place ∈ marks.map (·.origin) := by
  induction h with
  | nil => simp
  | blank _ _ ih => exact fun t ht => List.mem_cons_of_mem _ (ih t ht)
  | token _ _ _ ih =>
      rw [List.forall_mem_cons]
      refine ⟨by simp, fun t ht => ?_⟩
      rw [List.map_append]
      exact List.mem_append_right _ (ih t ht)

/-- A token is the leading one of what the scan has in front of it there. -/
theorem leading (h : Split units marks ts) : ∀ t ∈ ts, ∃ text, text <:+ marks.map (·.char) ∧
    leading? units text = some (t.kind, t.lexeme.toList) := by
  induction h with
  | nil => simp
  | blank _ _ ih =>
      intro t ht
      obtain ⟨text, hsuffix, hleading⟩ := ih t ht
      exact ⟨text, hsuffix.trans (List.suffix_cons _ _), hleading⟩
  | token _ hfirst _ ih =>
      rw [List.forall_mem_cons]
      refine ⟨⟨_, List.suffix_rfl, by rw [hfirst, String.toList_ofList]⟩, fun t ht => ?_⟩
      obtain ⟨text, hsuffix, hleading⟩ := ih t ht
      rw [List.map_append]
      exact ⟨text, hsuffix.trans (List.suffix_append _ _), hleading⟩

/-- None of the tokens is an end mark, and what is called a number is a numeral. -/
theorem readable (h : Split units marks ts) {t : Token} (ht : t ∈ ts) :
    t.kind ≠ .finish ∧ (t.kind = .number → ∃ x, Number.numeral? t.lexeme = some x) := by
  obtain ⟨text, -, hleading⟩ := h.leading t ht
  have hreadable := leading?_readable hleading
  rwa [String.ofList_toList] at hreadable

/-- The first of some tokens is the leading one behind white space. -/
theorem cons_inv {t : Token} (h : Split units marks (t :: ts)) : ∃ blanks ms rest,
    marks = blanks ++ (ms ++ rest) ∧ (∀ m ∈ blanks, Text.isBlank m.char = true) ∧
      ms.map (·.char) = t.lexeme.toList ∧
      leading? units ((ms ++ rest).map (·.char)) = some (t.kind, t.lexeme.toList) ∧
      Split units rest ts := by
  generalize htokens : t :: ts = us at h
  induction h with
  | nil => cases htokens
  | @blank m ms _ hblank _ ih =>
      obtain ⟨blanks, first, rest, rfl, hblanks, hfirst, hleading, hrest⟩ := ih htokens
      exact ⟨m :: blanks, first, rest, rfl, List.forall_mem_cons.mpr ⟨hblank, hblanks⟩, hfirst,
        hleading, hrest⟩
  | @token m ms rest kind _ hblank hleading hrest _ =>
      cases htokens
      refine ⟨[], m :: ms, rest, rfl, List.forall_mem_nil _, ?_, ?_, hrest⟩
      · rw [String.toList_ofList]
      · rw [String.toList_ofList, hleading]

/-- The last of some tokens are those of a text that the whole ends with. -/
theorem append_inv {us : List Token} (h : Split units marks (us ++ ts)) :
    ∃ before behind, marks = before ++ behind ∧ Split units behind ts := by
  induction us generalizing marks with
  | nil => exact ⟨[], marks, rfl, h⟩
  | cons u us ih =>
      obtain ⟨blanks, ms, rest, rfl, -, -, -, hrest⟩ := h.cons_inv
      obtain ⟨before, behind, rfl, hbehind⟩ := ih hrest
      exact ⟨blanks ++ (ms ++ before), behind, by simp, hbehind⟩

end Split

/-! ## Names -/

/-- Without upper case the letters of tokens are those of compound words. -/
theorem isWordChar_eq {c : Char} (h : c.isUpper = false) :
    isWordChar c = Product.isWordLetter c := by
  show (c.isUpper || c.isLower) = Product.isWordLetter c
  rw [h, Bool.false_or]
  rfl

/-- The word that a text without upper case starts with is a row of lower-case letters, or the name
of a unit. -/
theorem leadingWord_lower (units : List String) (h : ∀ c ∈ cs, c.isUpper = false) :
    (∀ c ∈ leadingWord units cs, Product.isWordLetter c) ∨
      String.ofList (leadingWord units cs) ∈ units := by
  rcases leadingWord_cases units cs with hone | ⟨_, -, -, -, hunit⟩
  · left
    rw [hone]
    intro c hc
    have hword : isWordChar c = true := List.all_eq_true.mp List.all_takeWhile c hc
    rwa [isWordChar_eq (h c ((List.takeWhile_prefix _).mem hc))] at hword
  · exact .inr hunit

/-! ## Typed lines -/

/-- A source is split as its marks are, and ends where it stops. -/
theorem ofSource_ok {source : Source} :
    ofSource units source = .ok ts ↔ ∃ front, Split units source.marks front ∧
      ts = front ++ [⟨.finish, "", source.stop⟩] := by
  unfold ofSource
  simp only
  constructor
  · intro h
    cases hscan : scanFrom units 0 (source.marks.map (·.char)) (source.marks.map (·.origin)) with
    | error e =>
        rw [hscan] at h
        cases h
    | ok front =>
        rw [hscan] at h
        cases h
        exact ⟨front, split_of_scanFrom hscan, rfl⟩
  · rintro ⟨front, hsplit, rfl⟩
    rw [hsplit.scanFrom]
    rfl

theorem ofSource_ofMarks {typed : String} :
    ofSource units (.ofMarks marks typed) = .ok ts ↔ ∃ front, Split units marks front ∧
      ts = front ++ [⟨.finish, "", (Source.ofMarks marks typed).stop⟩] := by
  rw [ofSource_ok, Source.marks_ofMarks]

/-- The tokens of a typed line are those that what it is respelled into is split into. -/
theorem ofTyped_ok {typed : String} (h : ofTyped units typed = .ok ts) :
    Source.spelledOut units typed ≠ [] ∧
      ofSource units (.ofMarks (Source.spelledOut units typed) typed) = .ok ts := by
  rw [ofTyped] at h
  cases hsource : Source.ofTyped units typed with
  | error e =>
      rw [hsource] at h
      cases h
  | ok source =>
      rw [hsource] at h
      have hok : ofSource units source = .ok ts := h
      obtain ⟨hne, rfl⟩ := Source.ofTyped_eq_ok.mp hsource
      exact ⟨hne, hok⟩

/-- A name in a typed line is a word in lower case, or the name of a unit. -/
theorem lexeme_of_identifier {typed : String} (h : ofTyped units typed = .ok ts) {t : Token}
    (ht : t ∈ ts) (hkind : t.kind = .identifier) :
    t.lexeme.toList ≠ [] ∧
      ((∀ c ∈ t.lexeme.toList, Product.isWordLetter c) ∨ t.lexeme ∈ units) := by
  obtain ⟨-, hsource⟩ := ofTyped_ok h
  obtain ⟨front, hsplit, rfl⟩ := ofSource_ofMarks.mp hsource
  have hfront : t ∈ front := by
    rcases List.mem_append.mp ht with ht | ht
    · exact ht
    · rw [List.mem_singleton.mp ht] at hkind
      cases hkind
  obtain ⟨text, hsuffix, hleading⟩ := hsplit.leading t hfront
  refine ⟨(leading?_isPrefix hleading).1, ?_⟩
  rcases leading?_cases hleading with ⟨hnumber, -⟩ | ⟨-, hword, -⟩ | ⟨hsign, -⟩
  · rw [hkind] at hnumber
    cases hnumber
  · have hlower := leadingWord_lower units fun c hc =>
      (Source.spelledOut_within units typed).chars c (hsuffix.mem hc)
    rwa [← hword, String.ofList_toList] at hlower
  · have hsigns : ∀ sign ∈ signs, sign.1 ≠ .identifier := by decide
    exact absurd hkind (hsigns _ hsign)

end Token

end Reckoner
