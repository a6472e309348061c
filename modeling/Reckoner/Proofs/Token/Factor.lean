import Reckoner.Proofs.Source.Product
import Reckoner.Proofs.Token.Seam

/-!
# Reckoner.Proofs.Token.Factor -- written products are those that the scan sees

Whether a multiplication sign is put in is decided before tokens are known, on a guess at the word
that a factor starts with. The scan reads words in another way: it takes one slash at most, where
the guess takes all there are. For names of units as they are the two agree on what matters, which
is whether the word is the name of a unit or asks for a conversion.
-/

namespace Reckoner

open Product (isWordLetter isCompoundChar startsFactor admitsBehind Unfactored signed)

/-! ## Words and compounds -/

/-- A row of lower-case letters. -/
def IsWord (cs : List Char) : Prop := cs ≠ [] ∧ ∀ c ∈ cs, isWordLetter c = true

/-- Names as units have them: words, and two words with a slash between them of which the first is
a unit itself. -/
def UnitNames (units : List String) : Prop :=
  ∀ name ∈ units, IsWord name.toList ∨ ∃ w v, name.toList = w ++ '/' :: v ∧ IsWord w ∧
    IsWord v ∧ String.ofList w ∈ units

variable {units : List String} {cs ds : List Char}

instance : DecidablePred IsWord := fun cs =>
  inferInstanceAs (Decidable (cs ≠ [] ∧ ∀ c ∈ cs, isWordLetter c = true))

/-- The standard units have such names. -/
theorem unitNames_standard : UnitNames UnitTable.standard.names := by
  have hall : ∀ name ∈ UnitTable.standard.names, IsWord name.toList ∨
      let w := name.toList.takeWhile (· != '/')
      let v := (name.toList.dropWhile (· != '/')).tail
      name.toList = w ++ '/' :: v ∧ IsWord w ∧ IsWord v ∧
        String.ofList w ∈ UnitTable.standard.names := by decide
  exact fun name hname => (hall name hname).imp_right fun h => ⟨_, _, h⟩

theorem bne_slash_of_isWordLetter {c : Char} (h : isWordLetter c = true) : (c != '/') = true := by
  rw [bne_iff_ne]
  rintro rfl
  exact absurd h (by decide)

/-- What precedes the slash of a compound unit is a unit. -/
theorem UnitNames.leading (hunits : UnitNames units) (h : String.ofList cs ∈ units)
    (hslash : '/' ∈ cs) : String.ofList (cs.takeWhile (· != '/')) ∈ units := by
  have hnoSlash {w : List Char} (hw : IsWord w) : ∀ c ∈ w, (c != '/') = true :=
    fun c hc => bne_slash_of_isWordLetter (hw.2 c hc)
  rcases hunits _ h with hword | ⟨w, v, hname, hw, -, hunit⟩
  · rw [String.toList_ofList] at hword
    exact absurd (hnoSlash hword _ hslash) (by decide)
  · rw [String.toList_ofList] at hname
    rw [hname, List.takeWhile_append_of_pos (hnoSlash hw), List.takeWhile_cons_of_neg (by decide),
      List.append_nil]
    exact hunit

namespace Token

/-- In front of its first slash a run of letters and slashes is a run of letters. -/
theorem takeWhile_compound (h : ∀ c ∈ cs, c.isUpper = false) :
    (cs.takeWhile isCompoundChar).takeWhile (· != '/') = cs.takeWhile isWordChar := by
  induction cs with
  | nil => rfl
  | cons c cs ih =>
      rw [List.forall_mem_cons] at h
      cases hletter : isWordLetter c with
      | true =>
          rw [List.takeWhile_cons_of_pos (by simp [isCompoundChar, hletter]),
            List.takeWhile_cons_of_pos (p := (· != '/')) (bne_slash_of_isWordLetter hletter),
            List.takeWhile_cons_of_pos (by rw [isWordChar_eq h.1, hletter]), ih h.2]
      | false =>
          rw [List.takeWhile_cons_of_neg (p := isWordChar) (by simp [isWordChar_eq h.1, hletter])]
          by_cases hslash : c = '/'
          · subst hslash
            rw [List.takeWhile_cons_of_pos (by decide), List.takeWhile_cons_of_neg (by decide)]
          · rw [List.takeWhile_cons_of_neg (by simp [isCompoundChar, hletter, hslash])]
            rfl

/-- The word that the guess takes is that of the letters in front, or both are units. -/
theorem guessed_word (hunits : UnitNames units) (h : ∀ c ∈ cs, c.isUpper = false) :
    Product.leadingWord units (cs.takeWhile isCompoundChar) =
        String.ofList (cs.takeWhile isWordChar) ∨
      Product.leadingWord units (cs.takeWhile isCompoundChar) ∈ units ∧
        String.ofList (cs.takeWhile isWordChar) ∈ units := by
  rw [← takeWhile_compound h]
  unfold Product.leadingWord
  split
  · exact .inl rfl
  · next hname =>
    by_cases hslash : '/' ∈ cs.takeWhile isCompoundChar
    · have hunit : String.ofList (cs.takeWhile isCompoundChar) ∈ units := by
        simpa [hslash] using hname
      exact .inr ⟨hunit, hunits.leading hunit hslash⟩
    · -- without a slash the run is a word itself
      have hall : ∀ c ∈ cs.takeWhile isCompoundChar, (c != '/') = true := by
        intro c hc
        rw [bne_iff_ne]
        rintro rfl
        exact hslash hc
      rw [List.takeWhile_eq_self_iff.mpr hall]
      exact .inl rfl

/-- So is the word that the scan takes. -/
theorem scanned_word (hunits : UnitNames units) (cs : List Char) :
    String.ofList (leadingWord units cs) = String.ofList (cs.takeWhile isWordChar) ∨
      String.ofList (leadingWord units cs) ∈ units ∧
        String.ofList (cs.takeWhile isWordChar) ∈ units := by
  rcases leadingWord_cases units cs with hone | ⟨more, -, -, htwo, hunit⟩
  · exact .inl (congrArg String.ofList hone)
  · have hletters : ∀ c ∈ cs.takeWhile isWordChar, (c != '/') = true := by
      intro c hc
      rw [bne_iff_ne]
      rintro rfl
      exact absurd (List.all_eq_true.mp List.all_takeWhile _ hc) (by decide)
    have hfirst := hunits.leading hunit (by simp [htwo])
    rw [htwo, List.takeWhile_append_of_pos hletters, List.takeWhile_cons_of_neg (by decide),
      List.append_nil] at hfirst
    exact .inr ⟨hunit, hfirst⟩

/-- **Guess and scan agree** on whether a word is a unit or asks for a conversion. -/
theorem words_agree (hunits : UnitNames units) (h : ∀ c ∈ cs, c.isUpper = false) :
    (Product.leadingWord units (cs.takeWhile isCompoundChar) ∉ units ∧
        Product.leadingWord units (cs.takeWhile isCompoundChar) ∉ conversionKeywords) ↔
      String.ofList (leadingWord units cs) ∉ units ∧
        String.ofList (leadingWord units cs) ∉ conversionKeywords := by
  rcases guessed_word hunits h with hguess | ⟨hguess, hunit⟩
  · rcases scanned_word hunits cs with hscan | ⟨hscan, hunit⟩
    · rw [hguess, hscan]
    · rw [hguess]
      exact iff_of_false (fun hnone => hnone.1 hunit) fun hnone => hnone.1 hscan
  · rcases scanned_word hunits cs with hscan | ⟨hscan, -⟩
    · rw [hscan]
      exact iff_of_false (fun hnone => hnone.1 hguess) fun hnone => hnone.1 hunit
    · exact iff_of_false (fun hnone => hnone.1 hguess) fun hnone => hnone.1 hscan

/-! ## Factors -/

/-- Whether a token is a factor that may follow a number or a closing bracket directly. -/
def IsFactor (units : List String) (t : Token) : Prop :=
  t.kind = .openBracket ∨
    t.kind = .identifier ∧ t.lexeme ∉ units ∧ t.lexeme ∉ conversionKeywords

/-- Whether a token is a closing bracket, or a number with a digit at its end. -/
def TakesFactor (t : Token) : Prop :=
  t.kind = .closeBracket ∨
    t.kind = .number ∧ ∃ c ∈ t.lexeme.toList.getLast?, Text.isDecimalDigit c = true

/-- **A factor starts where the scan sees one.** -/
theorem startsFactor_iff (hunits : UnitNames units) (h : ∀ c ∈ cs, c.isUpper = false) {t : Token}
    (hleading : leading? units cs = some (t.kind, t.lexeme.toList)) :
    startsFactor units cs = true ↔ t.IsFactor units := by
  rcases leading?_cases hleading with
    ⟨hnumber, hrun, hne, -⟩ | ⟨hword, hlexeme, c, rest, rfl, hc⟩ | ⟨hsign, hprefix⟩
  · -- a number starts with a digit or a point
    cases cs with
    | nil => exact absurd hrun hne
    | cons c rest =>
        have hnumeral : isNumeralChar c = true := by
          by_contra hnot
          rw [List.takeWhile_cons_of_neg hnot] at hrun
          exact hne hrun
        have hnone := of_isPlain (p := fun c => isNumeralChar c = true →
          c ≠ '(' ∧ isWordLetter c = false) (by decide) (isPlain_of_isNumeralChar hnumeral) hnumeral
        rw [Product.startsFactor_eq_false hnone.1 hnone.2]
        simp [IsFactor, hnumber]
  · have hletter : isWordLetter c = true := by
      rwa [← isWordChar_eq (h c List.mem_cons_self)]
    have hcompound : isCompoundChar c = true := by simp [isCompoundChar, hletter]
    have hagree := words_agree hunits h
    rw [List.takeWhile_cons_of_pos hcompound, ← hlexeme, String.ofList_toList] at hagree
    rw [Product.startsFactor_letter hletter, hagree]
    simp [IsFactor, hword]
  · have hsigns : ∀ sign ∈ signs, sign = (.openBracket, ['(']) ∨
        sign.1 ≠ .openBracket ∧ sign.1 ≠ .identifier ∧
          ∀ c ∈ sign.2, c ≠ '(' ∧ isWordLetter c = false := by decide
    rcases hsigns _ hsign with hbracket | ⟨hkind, hname, hnone⟩
    · obtain ⟨hkind, hlexeme⟩ := Prod.mk.inj hbracket
      obtain ⟨rest, rfl⟩ := hprefix
      rw [hlexeme]
      exact iff_of_true rfl (.inl hkind)
    · obtain ⟨c, more, hmore⟩ := List.exists_cons_of_ne_nil (leading?_isPrefix hleading).1
      obtain ⟨rest, rfl⟩ := hprefix
      have hc := hnone c (by simp [hmore])
      rw [hmore, List.cons_append, Product.startsFactor_eq_false hc.1 hc.2]
      simp [IsFactor, hkind, hname]

/-- Where a factor starts the scan has a token, and it is a factor. -/
theorem leading?_of_startsFactor (hunits : UnitNames units) (h : ∀ c ∈ cs, c.isUpper = false)
    (hstarts : startsFactor units cs = true) :
    ∃ t : Token, leading? units cs = some (t.kind, t.lexeme.toList) ∧ t.IsFactor units := by
  have hleading : ∃ t : Token, leading? units cs = some (t.kind, t.lexeme.toList) := by
    obtain ⟨c, rest, rfl, hfirst⟩ := Product.startsFactor_cons hstarts
    rcases hfirst with rfl | hletter
    · exact ⟨⟨.openBracket, "(", 0⟩, rfl⟩
    · refine ⟨⟨.identifier, String.ofList (leadingWord units (c :: rest)), 0⟩, ?_⟩
      rw [leading?_of_isWordLetter hletter, String.toList_ofList]
  obtain ⟨t, ht⟩ := hleading
  exact ⟨t, ht, (startsFactor_iff hunits h ht).mp hstarts⟩

namespace Split

variable {marks front back : List Mark} {ts : List Token} {o : Nat}

/-- A text with a multiplication sign that stands by itself is split at it. -/
theorem at_star (h : Split units (front ++ ⟨'*', o⟩ :: back) ts)
    (hfront : ∀ c ∈ (front.map (·.char)).getLast?, c ≠ '*')
    (hback : ∀ c ∈ (back.map (·.char)).head?, c ≠ '*') :
    ∃ us vs, Split units front us ∧ Split units back vs ∧
      ts = us ++ ⟨.operator, "*", o⟩ :: vs := by
  have hseam : Seam units (front.map (·.char)) ('*' :: back.map (·.char)) :=
    .of_head (by decide) fun c hc heq => absurd heq (hfront c hc)
  obtain ⟨us, ws, hus, hws, rfl⟩ := h.cut hseam
  have hstar : leading? units ('*' :: back.map (·.char)) = some (.operator, ['*']) :=
    leading?_asterisk hback
  generalize hmarks : ⟨'*', o⟩ :: back = marks at hws
  cases hws with
  | nil => cases hmarks
  | blank hblank _ =>
      obtain ⟨rfl, -⟩ := List.cons.inj hmarks
      exact absurd hblank (show ¬ Text.isBlank '*' = true by decide)
  | @token m ms rest kind vs hblank hleading hvs =>
      rw [← hmarks] at hleading
      obtain ⟨rfl, rfl⟩ := List.cons.inj hmarks
      obtain ⟨rfl, hlexeme⟩ := Prod.mk.inj (Option.some.inj (hstar.symm.trans hleading))
      obtain rfl : ms = [] := by simpa using hlexeme
      exact ⟨us, vs, hus, hvs, rfl⟩

end Split

/-! ## Factors of a text with its signs -/

/-- What ends in a digit or a closing bracket lets a factor come. -/
theorem admitsBehind_of_takesFactor {t : Token} (ht : t.TakesFactor) {text : List Char}
    (hleading : leading? units text = some (t.kind, t.lexeme.toList)) (admitted : Bool) :
    admitsBehind admitted t.lexeme.toList = true := by
  rcases ht with hbracket | ⟨-, c, hc, hdigit⟩
  · have hsigns : ∀ sign ∈ signs, sign.1 = .closeBracket → sign.2 = [')'] := by decide
    rcases leading?_cases hleading with ⟨hnumber, -⟩ | ⟨hword, -⟩ | ⟨hsign, -⟩
    · rw [hbracket] at hnumber
      cases hnumber
    · rw [hbracket] at hword
      cases hword
    · have hlexeme : t.lexeme.toList = [')'] := hsigns _ hsign hbracket
      rw [hlexeme]
      cases admitted <;> decide
  · obtain ⟨front, hfront⟩ := List.getLast?_eq_some_iff.mp hc
    rw [hfront]
    exact Product.admitsBehind_digit hdigit admitted front

namespace Split

variable {marks front back : List Mark} {ts : List Token} (hunits : UnitNames units)

include hunits

/-- Where every factor has its sign, none follows a number or a closing bracket directly. -/
theorem not_isFactor {us : List Token} {t u : Token} (h : Split units marks (us ++ t :: u :: ts))
    (hlower : ∀ c ∈ marks.map (·.char), c.isUpper = false)
    (hunfactored : Unfactored units false (marks.map (·.char))) (ht : t.TakesFactor) :
    ¬ u.IsFactor units := by
  intro hu
  obtain ⟨before, behind, rfl, hbehind⟩ := h.append_inv
  obtain ⟨blanks, first, rest, rfl, -, hfirst, htleading, hrest⟩ := hbehind.cons_inv
  obtain ⟨between, second, last, rfl, hbetween, -, huleading, -⟩ := hrest.cons_inv
  -- a factor may come behind all that stands in front of the second token
  have hadmits : admitsBehind false ((before ++ (blanks ++ (first ++ between))).map (·.char)) =
      true := by
    have htakes := admitsBehind_of_takesFactor ht htleading
    rw [List.map_append, List.map_append, List.map_append, hfirst, Product.admitsBehind_append,
      Product.admitsBehind_append, Product.admitsBehind_append, htakes]
    exact Product.admitsBehind_blanks (List.forall_mem_map.mpr hbetween)
  have htext : before ++ (blanks ++ (first ++ (between ++ (second ++ last)))) =
      before ++ (blanks ++ (first ++ between)) ++ (second ++ last) := by
    simp only [List.append_assoc]
  rw [htext, List.map_append] at hunfactored hlower
  have hnone := Product.unfactored_behind hunfactored
  rw [hadmits] at hnone
  have hstarts := (startsFactor_iff hunits
    (fun c hc => hlower c (List.mem_append_right _ hc)) huleading).mpr hu
  obtain ⟨c, cs, hcons, -⟩ := Product.startsFactor_cons hstarts
  rw [hcons] at hnone hstarts
  have hfree : startsFactor units (c :: cs) = false := hnone.1
  rw [hfree] at hstarts
  cases hstarts

/-- A sign with a factor behind it stands by itself, and the scan reads it in front of a factor. -/
theorem sign_isFactor {o : Nat} (h : Split units (front ++ ⟨'*', o⟩ :: back) ts)
    (hlower : ∀ c ∈ back.map (·.char), c.isUpper = false)
    (hadmits : admitsBehind false (front.map (·.char)) = true)
    (hstarts : startsFactor units (back.map (·.char)) = true) :
    ∃ us t vs, Split units front us ∧ Split units back (t :: vs) ∧
      ts = us ++ ⟨.operator, "*", o⟩ :: t :: vs ∧ t.IsFactor units := by
  obtain ⟨c, cs, hcons, hfirst⟩ := Product.startsFactor_cons hstarts
  have hplain : isPlain c = true := by
    rcases hfirst with rfl | hletter
    · rfl
    · exact isPlain_of_isWordLetter hletter
  have hstar : ∀ d ∈ (back.map (·.char)).head?, d ≠ '*' := by
    rw [hcons]
    rintro _ ⟨⟩ rfl
    exact absurd hfirst (by decide)
  obtain ⟨us, vs, hus, hvs, rfl⟩ := h.at_star (Product.ne_star_of_admitsBehind hadmits) hstar
  -- what a factor starts with is no white space, so the scan has a token there
  cases hvs with
  | nil => cases hcons
  | blank hblank _ =>
      obtain ⟨rfl, -⟩ := List.cons.inj hcons
      rw [isBlank_of_isPlain hplain] at hblank
      cases hblank
  | token hblank hleading hrest =>
      refine ⟨us, _, _, hus, .token hblank hleading hrest, rfl, ?_⟩
      refine (startsFactor_iff hunits hlower ?_).mp hstarts
      rw [String.toList_ofList]
      exact hleading

end Split

/-- The tokens of some marks alone, without an end mark. -/
def scanned (units : List String) (marks : List Mark) : Except Error (List Token) :=
  scanFrom units 0 (marks.map (·.char)) (marks.map (·.origin))

theorem IsFactor.kind_ne_finish {t : Token} (h : t.IsFactor units) : t.kind ≠ .finish := by
  rcases h with hkind | ⟨hkind, -⟩
  · simp [hkind]
  · simp [hkind]

/-- Two tokens of which the second is no end mark stand in front of the end mark. -/
theorem eq_append_of_stop {inner front back : List Token} {t u stop : Token}
    (h : inner ++ [stop] = front ++ t :: u :: back) (hne : u ≠ stop) :
    ∃ rest, inner = front ++ t :: u :: rest := by
  rcases List.eq_nil_or_concat back with rfl | ⟨rest, last, rfl⟩
  · have hlast : inner ++ [stop] = (front ++ [t]) ++ [u] := by simpa using h
    obtain ⟨-, hstop⟩ := List.append_inj' hlast rfl
    exact absurd (List.cons.inj hstop).1.symm hne
  · have hlast : inner ++ [stop] = (front ++ t :: u :: rest) ++ [last] := by simpa using h
    exact ⟨rest, (List.append_inj' hlast rfl).1⟩

/-- A sign that has been put into a text is a token by itself, in front of a factor. -/
theorem Split.signed_isFactor (hunits : UnitNames units) {marks : List Mark} {ts : List Token}
    (h : Split units ((signed units marks).map (·.1)) ts)
    (hlower : ∀ c ∈ ((signed units marks).map (·.1)).map (·.char), c.isUpper = false)
    {front back : List (Mark × Bool)} {sign : Mark}
    (hsigned : signed units marks = front ++ (sign, true) :: back) :
    ∃ us t vs, Split units (front.map (·.1)) us ∧ Split units (back.map (·.1)) (t :: vs) ∧
      ts = us ++ ⟨.operator, "*", sign.origin⟩ :: t :: vs ∧ t.IsFactor units := by
  obtain ⟨hstar, hadmits, hstarts⟩ := Product.signedFrom_sign hsigned
  obtain ⟨char, origin⟩ := sign
  obtain rfl : char = '*' := hstar
  have hmap (l : List (Mark × Bool)) : l.map (·.1.char) = (l.map (·.1)).map (·.char) := by
    rw [List.map_map]
    rfl
  rw [hmap] at hadmits hstarts
  rw [hsigned, List.map_append, List.map_cons] at h hlower
  refine h.sign_isFactor hunits (fun c hc => hlower c ?_) hadmits hstarts
  rw [List.map_append, List.map_cons]
  exact List.mem_append_right _ (List.mem_cons_of_mem _ hc)

/-- **Multiplication signs are put in where the scan sees factors.** Without the signs that have
been put in a respelled line is the line before, and behind each of them the scan reads a factor.
If the line is split into tokens, no factor follows a number with a digit at its end or a closing
bracket directly; and each sign that has been put in is a token by itself, between the tokens of
what stands in front of it and those of what stands behind, of which the first is a factor. -/
theorem ofTyped_product (units : List String) (typed : String) (hunits : UnitNames units) :
    ((signed units (Source.trimmed typed)).map (·.1) = Source.spelledOut units typed ∧
      ((signed units (Source.trimmed typed)).filter (!·.2)).map (·.1) = Source.trimmed typed ∧
      ∀ front sign back, signed units (Source.trimmed typed) = front ++ (sign, true) :: back →
        sign.char = '*' ∧ ∃ t : Token,
          leading? units (back.map (·.1.char)) = some (t.kind, t.lexeme.toList) ∧
            t.IsFactor units) ∧
    ∀ ts, ofTyped units typed = .ok ts →
      (∀ front t u back, ts = front ++ t :: u :: back → t.TakesFactor → ¬ u.IsFactor units) ∧
      ∀ front sign back, signed units (Source.trimmed typed) = front ++ (sign, true) :: back →
        ∃ us t vs stop, scanned units (front.map (·.1)) = .ok us ∧
          scanned units (back.map (·.1)) = .ok (t :: vs) ∧ stop.kind = .finish ∧
          ts = us ++ ⟨.operator, "*", sign.origin⟩ :: t :: vs ++ [stop] ∧ t.IsFactor units := by
  have hmarks : (signed units (Source.trimmed typed)).map (·.1) = Source.spelledOut units typed :=
    Product.signed_marks _
  have hlower := (Source.spelledOut_within units typed).chars
  rw [← hmarks] at hlower
  refine ⟨⟨hmarks, Product.signed_kept _, fun front sign back hsigned => ?_⟩, fun ts h => ?_⟩
  · obtain ⟨hstar, -, hstarts⟩ := Product.signedFrom_sign hsigned
    refine ⟨hstar, leading?_of_startsFactor hunits (fun c hc => hlower c ?_) hstarts⟩
    rw [hsigned, List.map_map, List.map_append, List.map_cons]
    exact List.mem_append_right _ (List.mem_cons_of_mem _ hc)
  obtain ⟨-, hsource⟩ := ofTyped_ok h
  rw [← hmarks] at hsource
  obtain ⟨inner, hinner, hts⟩ := ofSource_ofMarks.mp hsource
  generalize Source.trimmed typed = marks at hinner hlower hts ⊢
  refine ⟨fun front t u back hfront ht hu => ?_, fun front sign back hsigned => ?_⟩
  · have hne : u ≠ ⟨.finish, "", (Source.ofMarks ((signed units marks).map (·.1)) typed).stop⟩ := by
      rintro rfl
      exact hu.kind_ne_finish rfl
    obtain ⟨rest, rfl⟩ := eq_append_of_stop (hts.symm.trans hfront) hne
    refine hinner.not_isFactor hunits hlower ?_ ht hu
    rw [List.map_map]
    exact Product.unfactored_signedChars false marks
  · obtain ⟨us, t, vs, hus, hvs, rfl, ht⟩ := hinner.signed_isFactor hunits hlower hsigned
    exact ⟨us, t, vs, _, hus.scanFrom, hvs.scanFrom, rfl, hts, ht⟩

/-- A sign is put in behind the two, where a bracket opens, and none behind the three, where the
scan reads a compound unit and a quotient. -/
theorem ofTyped_product_of_bracket :
    UnitNames UnitTable.standard.names ∧
      ∃ ts, ofTyped UnitTable.standard.names "2(x) + 3 m/s/h" = .ok ts ∧
        ts.map (·.lexeme) = ["2", "*", "(", "x", ")", "+", "3", "m/s", "/", "h", ""] ∧
        ∃ us t vs stop, ts = us ++ ⟨.operator, "*", 1⟩ :: t :: vs ++ [stop] ∧
          t.IsFactor UnitTable.standard.names := by
  have htokens : (ofTyped UnitTable.standard.names "2(x) + 3 m/s/h").toOption.map
      (fun ts => ts.map (·.lexeme)) =
        some ["2", "*", "(", "x", ")", "+", "3", "m/s", "/", "h", ""] := by decide +kernel
  have hsigned : signed UnitTable.standard.names (Source.trimmed "2(x) + 3 m/s/h") =
      [(⟨'2', 0⟩, false)] ++ (⟨'*', 1⟩, true) ::
        (signed UnitTable.standard.names (Source.trimmed "2(x) + 3 m/s/h")).drop 2 := by
    decide +kernel
  have hproduct := (ofTyped_product UnitTable.standard.names "2(x) + 3 m/s/h"
    unitNames_standard).2
  cases hts : ofTyped UnitTable.standard.names "2(x) + 3 m/s/h" with
  | error e =>
      rw [hts] at htokens
      cases htokens
  | ok ts =>
      rw [hts] at htokens
      obtain ⟨us, t, vs, stop, -, -, -, heq, ht⟩ := (hproduct ts hts).2 _ _ _ hsigned
      exact ⟨unitNames_standard, ts, rfl, Option.some.inj htokens, us, t, vs, stop, heq, ht⟩

end Token

end Reckoner
