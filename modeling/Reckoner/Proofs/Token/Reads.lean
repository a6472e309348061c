import Reckoner.Proofs.Source.Stretch
import Reckoner.Proofs.Token.Alphabet
import Reckoner.Proofs.Token.Factor

/-!
# Reckoner.Proofs.Token.Reads -- what a text is read as

Behind the rules for shorthand a text is trimmed, gets its multiplication signs, and is split into
tokens. At a seam no token goes over, and the guess at the word that a factor starts with does not
either, so that the signs are put in on its two sides by themselves and leave a seam there. Hence a
blank that is typed at a seam makes no difference to what a text is read as (`reads_seam`).
-/

namespace Reckoner

open Text (isBlank)

/-! ## Texts with their signs -/

namespace Product

variable {units : List String} {admitted : Bool} {c : Char} {cs suffix : List Char}

/-- A text with its multiplication signs written, wherever it was typed. -/
def signedText (units : List String) (admitted : Bool) (cs : List Char) : List Char :=
  signedChars units admitted (cs.map (⟨·, 0⟩))

theorem signedText_cons : signedText units admitted (c :: cs) =
    if admitted && startsFactor units (c :: cs) then
      '*' :: c :: signedText units (admitsFactor admitted c) cs
    else c :: signedText units (admitsFactor admitted c) cs := by
  rw [signedText, List.map_cons, signedChars_cons, List.map_cons, Mark.map_char_mk]
  rfl

theorem signedText_cons_of_eq_false (h : (admitted && startsFactor units (c :: cs)) = false) :
    signedText units admitted (c :: cs) = c :: signedText units (admitsFactor admitted c) cs := by
  rw [signedText_cons, h]
  rfl

/-- The signs of a text do not depend on where it was typed. -/
theorem map_char_insert (marks : List Mark) :
    (insert units marks).map (·.char) = signedText units false (marks.map (·.char)) := by
  have hchars (admitted : Bool) : signedChars units admitted marks =
      signedText units admitted (marks.map (·.char)) := by
    induction marks generalizing admitted with
    | nil => rfl
    | cons m ms ih => rw [signedChars_cons, ih, List.map_cons, signedText_cons]
  rw [← signed_marks, List.map_map, ← hchars]
  rfl

theorem getLast?_signedText (units : List String) (admitted : Bool) (cs : List Char) :
    (signedText units admitted cs).getLast? = cs.getLast? := by
  induction cs generalizing admitted with
  | nil => rfl
  | cons c cs ih =>
      rw [signedText_cons]
      split
      · rw [List.getLast?_cons_cons, List.getLast?_cons, ih, List.getLast?_cons]
      · rw [List.getLast?_cons, ih, List.getLast?_cons]

/-- A text with its signs starts as the text does, or with a sign. -/
theorem head?_signedText {d : Char} (h : d ∈ (signedText units admitted cs).head?) :
    d ∈ cs.head? ∨ d = '*' ∧ admitted = true := by
  cases cs with
  | nil => cases h
  | cons c cs =>
      rw [signedText_cons] at h
      split at h
      · next hsign =>
        cases h
        exact .inr ⟨rfl, (Bool.and_eq_true _ _ ▸ hsign).1⟩
      · cases h
        exact .inl rfl

/-- A text with its signs in which there is no asterisk is the text itself. -/
theorem signedText_eq_self (h : '*' ∉ signedText units admitted cs) :
    signedText units admitted cs = cs := by
  induction cs generalizing admitted with
  | nil => rfl
  | cons c cs ih =>
      rw [signedText_cons] at h ⊢
      split at h
      · exact absurd List.mem_cons_self h
      · next hnone =>
        rw [if_neg hnone, ih (List.not_mem_of_not_mem_cons h)]

/-- What a text with its signs ends with is an end of the text itself, if there is no asterisk in
it. -/
theorem suffix_of_signedText (h : suffix <:+ signedText units admitted cs)
    (hstar : '*' ∉ suffix) : suffix <:+ cs := by
  induction cs generalizing admitted with
  | nil => exact h
  | cons c cs ih =>
      have hkept (h : suffix <:+ c :: signedText units (admitsFactor admitted c) cs) :
          suffix <:+ c :: cs := by
        rcases List.suffix_cons_iff.mp h with rfl | h
        · have hself := signedText_eq_self (List.not_mem_of_not_mem_cons hstar)
          exact ⟨[], by rw [List.nil_append, hself]⟩
        · exact (ih h).trans (List.suffix_cons c cs)
      rw [signedText_cons] at h
      split at h
      · rcases List.suffix_cons_iff.mp h with rfl | h
        · exact absurd List.mem_cons_self hstar
        · exact hkept h
      · exact hkept h

/-- Letters let no factor come. -/
theorem admitsFactor_of_isWordChar (h : Token.isWordChar c = true) (admitted : Bool) :
    admitsFactor admitted c = false :=
  Token.of_isLexical (p := fun c => Token.isWordChar c = true → ∀ b, admitsFactor b c = false)
    (by decide) (Token.isLexical_of_isWordChar h) h admitted

/-- No sign is put into a word. -/
theorem takeWhile_signedText (cs : List Char) :
    (signedText units false cs).takeWhile Token.isWordChar = cs.takeWhile Token.isWordChar := by
  induction cs with
  | nil => rfl
  | cons c cs ih =>
      rw [signedText_cons_of_eq_false (Bool.false_and _)]
      cases hc : Token.isWordChar c with
      | false =>
          rw [List.takeWhile_cons_of_neg (by simp [hc]), List.takeWhile_cons_of_neg (by simp [hc])]
      | true =>
          rw [List.takeWhile_cons_of_pos hc, List.takeWhile_cons_of_pos hc,
            admitsFactor_of_isWordChar hc, ih]

/-- Only what starts with a slash does so with its signs. -/
theorem slash_of_signedText {more : List Char} (h : signedText units admitted cs = '/' :: more) :
    ∃ rest, cs = '/' :: rest ∧ more = signedText units false rest := by
  have hhead : '/' ∈ (signedText units admitted cs).head? := by
    rw [h]
    rfl
  rcases head?_signedText hhead with hcs | ⟨hstar, -⟩
  · obtain ⟨rest, rfl⟩ := List.head?_eq_some_iff.mp hcs
    have hnone : (admitted && startsFactor units ('/' :: rest)) = false := by
      rw [startsFactor_eq_false (by decide) (by decide), Bool.and_false]
    rw [signedText_cons_of_eq_false hnone, admitsFactor_of_isCompoundChar rfl] at h
    exact ⟨rest, rfl, (List.cons.inj h).2.symm⟩
  · cases hstar

/-- White space does not change whether a factor may come. -/
theorem admitsFactor_of_isBlank (h : isBlank c = true) (admitted : Bool) :
    admitsFactor admitted c = admitted := by
  have hall : ∀ b ∈ Text.blanks, ∀ admitted, admitsFactor admitted b = admitted := by
    decide +kernel
  exact hall c (Text.mem_blanks h) admitted

/-- In front of white space no sign is put in. -/
theorem signedText_blank (h : isBlank c = true) : signedText units admitted (c :: cs) =
    c :: signedText units admitted cs := by
  have hall : ∀ b ∈ Text.blanks, b ≠ '(' ∧ isWordLetter b = false := by decide +kernel
  obtain ⟨hbracket, hletter⟩ := hall c (Text.mem_blanks h)
  rw [signedText_cons_of_eq_false
    (by rw [startsFactor_eq_false hbracket hletter, Bool.and_false]), admitsFactor_of_isBlank h]

theorem signedText_blanks {blanks : List Char} (h : ∀ b ∈ blanks, isBlank b = true) :
    signedText units admitted (blanks ++ cs) = blanks ++ signedText units admitted cs := by
  induction blanks with
  | nil => rfl
  | cons b blanks ih =>
      rw [List.forall_mem_cons] at h
      rw [List.cons_append, signedText_blank h.1, ih h.2, List.cons_append]

end Product

/-! ## Signs at a seam -/

/-- The name of a unit is made of letters and slashes. -/
theorem UnitNames.isCompoundChar {units : List String} (hunits : UnitNames units) {cs : List Char}
    (h : String.ofList cs ∈ units) : ∀ c ∈ cs, Product.isCompoundChar c = true := by
  have hword {w : List Char} (hw : IsWord w) : ∀ c ∈ w, Product.isCompoundChar c = true :=
    fun c hc => by simp [Product.isCompoundChar, hw.2 c hc]
  have hname := hunits _ h
  rw [String.toList_ofList] at hname
  rcases hname with hone | ⟨w, v, rfl, hw, hv, -⟩
  · exact hword hone
  · exact List.forall_mem_append.mpr ⟨hword hw, List.forall_mem_cons.mpr ⟨rfl, hword hv⟩⟩

theorem UnitNames.not_mem_asterisk {units : List String} (hunits : UnitNames units)
    {first more : List Char} (h : String.ofList (first ++ '/' :: more) ∈ units) : '*' ∉ first := by
  intro hmem
  exact absurd (hunits.isCompoundChar h '*' (List.mem_append_left _ hmem)) (by decide)

namespace Token

open Product (startsFactor signedText admitsBehind)

variable {units : List String} {front back cs : List Char} {ts : List Token} {c : Char}

/-- A factor starts where the scan has one in front of it. -/
theorem startsFactor_iff_exists (hunits : UnitNames units) (h : ∀ c ∈ cs, c.isUpper = false) :
    startsFactor units cs = true ↔
      ∃ t : Token, leading? units cs = some (t.kind, t.lexeme.toList) ∧ t.IsFactor units := by
  constructor
  · exact leading?_of_startsFactor hunits h
  · rintro ⟨t, hleading, ht⟩
    exact (startsFactor_iff hunits h hleading).mpr ht

/-- Where no two characters of a class meet, none do with the signs, if one that comes right behind
is not of the class. -/
theorem Apart.signed {p : Char → Bool} (h : Apart p front back)
    (hstar : admitsBehind false front = true → ∀ c ∈ front.getLast?, p c = true → p '*' = false) :
    Apart p (signedText units false front)
      (signedText units (admitsBehind false front) back) := by
  intro c hc hpc d hd
  rw [Product.getLast?_signedText] at hc
  rcases Product.head?_signedText hd with hd | ⟨rfl, hadmits⟩
  · exact h c hc hpc d hd
  · exact hstar hadmits c hc hpc

section Seam

variable (h : Seam units front back) (hunits : UnitNames units)

include h hunits

/-- No factor goes over a seam. -/
theorem Seam.startsFactor_append (hlower : ∀ c ∈ front ++ back, c.isUpper = false)
    (hne : front ≠ []) : startsFactor units (front ++ back) = startsFactor units front := by
  have hfront : ∀ c ∈ front, c.isUpper = false :=
    fun c hc => hlower c (List.mem_append_left back hc)
  rw [Bool.eq_iff_iff, startsFactor_iff_exists hunits hlower, startsFactor_iff_exists hunits hfront,
    h.leading?_append hne]

/-- So the signs on its two sides are put in by themselves. -/
theorem Seam.signedText_append (hlower : ∀ c ∈ front ++ back, c.isUpper = false)
    (admitted : Bool) : signedText units admitted (front ++ back) =
      signedText units admitted front ++ signedText units (admitsBehind admitted front) back := by
  induction front generalizing admitted with
  | nil => rfl
  | cons c front ih =>
      have hstarts := h.startsFactor_append hunits hlower (List.cons_ne_nil c front)
      rw [List.cons_append, List.forall_mem_cons] at hlower
      rw [← List.singleton_append] at h
      have hrest := ih h.suffix hlower.2
      rw [List.cons_append] at hstarts ⊢
      rw [Product.signedText_cons, hstarts, hrest, Product.signedText_cons,
        Product.admitsBehind_cons]
      split <;> rfl

/-- **Where there is a seam, there is one with the signs**, of which one may come right behind it. -/
theorem Seam.signed : Seam units (signedText units false front)
    (signedText units (admitsBehind false front) back) where
  numeral := h.numeral.signed fun _ _ _ _ => rfl
  word := h.word.signed fun _ _ _ _ => rfl
  asterisk := h.asterisk.signed fun hadmits c hc hstar =>
    absurd (beq_iff_eq.mp hstar) (Product.ne_star_of_admitsBehind hadmits c hc)
  behindSlash first hfirst hne hunit := by
    have hfront := Product.suffix_of_signedText hfirst (by simp [hunits.not_mem_asterisk hunit])
    -- behind a slash no factor may come
    have hadmits : admitsBehind false front = false := by
      obtain ⟨piece, rfl⟩ := hfront
      rw [Product.admitsBehind_append, Product.admitsBehind_append]
      exact Product.admitsFactor_of_isCompoundChar (c := '/') rfl _
    rw [hadmits, Product.takeWhile_signedText] at hne hunit
    exact h.behindSlash first hfront hne hunit
  atSlash first more hfirst hback hne hunit := by
    have hfront := Product.suffix_of_signedText hfirst (hunits.not_mem_asterisk hunit)
    obtain ⟨rest, rfl, rfl⟩ := Product.slash_of_signedText hback
    rw [Product.takeWhile_signedText] at hne hunit
    exact h.atSlash first rest hfront rfl hne hunit

end Seam

/-! ## Texts that are split -/

/-- How a text is split into tokens, places apart. -/
def Lexes (units : List String) (cs : List Char) (ts : List Token) : Prop :=
  Split units (cs.map (⟨·, 0⟩)) ts

/-- Marks are split into the tokens that their text is split into. -/
theorem lexes_iff {marks : List Mark} : Lexes units (marks.map (·.char)) ts ↔
    ∃ us, Split units marks us ∧ us.map unplaced = ts := by
  have hchars := Mark.map_char_mk (marks.map (·.char))
  have hplaces {ts : List Token} (h : Lexes units (marks.map (·.char)) ts) :
      ts.map unplaced = ts := by
    refine (List.map_congr_left fun t ht => ?_).trans (List.map_id ts)
    obtain ⟨m, hm, hplace⟩ := List.mem_map.mp (h.place_mem t ht)
    obtain ⟨c, -, rfl⟩ := List.mem_map.mp hm
    obtain ⟨kind, lexeme, place⟩ := t
    obtain rfl : 0 = place := hplace
    rfl
  constructor
  · intro h
    obtain ⟨us, hus, hmap⟩ := h.respaced hchars.symm
    exact ⟨us, hus, hmap.trans (hplaces h)⟩
  · rintro ⟨us, hus, rfl⟩
    obtain ⟨vs, hvs, hmap⟩ := hus.respaced hchars
    rw [← hmap, hplaces hvs]
    exact hvs

theorem lexes_nil : Lexes units [] ts ↔ ts = [] := by
  constructor
  · intro h
    cases h
    rfl
  · rintro rfl
    exact .nil

/-- White space is passed over. -/
theorem lexes_blank (hc : isBlank c = true) : Lexes units (c :: cs) ts ↔ Lexes units cs ts := by
  constructor
  · intro h
    unfold Lexes at h
    generalize hmarks : (c :: cs).map (⟨·, 0⟩ : Char → Mark) = marks at h
    cases h with
    | nil => cases hmarks
    | blank _ hrest =>
        obtain ⟨-, rfl⟩ := List.cons.inj hmarks
        exact hrest
    | token hblank _ _ =>
        obtain ⟨rfl, -⟩ := List.cons.inj hmarks
        exact absurd hc (by simp [show isBlank c = false from hblank])
  · exact .blank hc

theorem lexes_blanks {blanks : List Char} (h : ∀ b ∈ blanks, isBlank b = true) :
    Lexes units (blanks ++ cs) ts ↔ Lexes units cs ts := by
  induction blanks with
  | nil => exact Iff.rfl
  | cons b blanks ih =>
      rw [List.forall_mem_cons] at h
      exact (lexes_blank h.1).trans (ih h.2)

theorem Seam.lexes_iff (h : Seam units front back) : Lexes units (front ++ back) ts ↔
    ∃ us vs, Lexes units front us ∧ Lexes units back vs ∧ ts = us ++ vs := by
  rw [Lexes, List.map_append]
  refine Split.seam_iff ?_
  rw [Mark.map_char_mk, Mark.map_char_mk]
  exact h

/-- No token goes over white space. -/
theorem seam_of_isBlank (hc : isBlank c = true) : Seam units front (c :: back) := by
  have hlexical : isLexical c = false := by
    cases hlexical : isLexical c with
    | false => rfl
    | true =>
        rw [isBlank_of_isLexical hlexical] at hc
        cases hc
  have hnot {p : Char → Bool} (hp : ∀ c, p c = true → isLexical c = true) : p c = false := by
    cases hpc : p c with
    | false => rfl
    | true =>
        rw [hp c hpc] at hlexical
        cases hlexical
  refine .of_head ⟨hnot fun c => isLexical_of_isNumeralChar, hnot fun c => isLexical_of_isWordChar,
    ?_⟩ fun _ _ _ => ?_
  · rintro rfl
    cases hc
  · rintro rfl
    cases hc

/-- At a seam a blank makes no difference to the tokens. -/
theorem Seam.lexes_blank (h : Seam units front back) (hc : isBlank c = true) :
    Lexes units (front ++ c :: back) ts ↔ Lexes units (front ++ back) ts := by
  rw [(seam_of_isBlank hc).lexes_iff, h.lexes_iff]
  simp only [Token.lexes_blank hc]

/-! ## What a text is read as -/

theorem isUpper_of_isBlank (hc : isBlank c = true) : c.isUpper = false := by
  apply Text.isUpper_of_mem_lower
  rw [Text.lower_of_isBlank hc]
  exact List.mem_singleton_self c

/-- How a text is split into tokens once it has its multiplication signs. -/
def Reads (units : List String) (cs : List Char) (ts : List Token) : Prop :=
  Lexes units (signedText units false cs) ts

/-- **At a seam a blank makes no difference** to what a text is read as. -/
theorem reads_seam (hunits : UnitNames units) (h : Seam units front back)
    (hlower : ∀ c ∈ front ++ back, c.isUpper = false) (hc : isBlank c = true) (ts : List Token) :
    Reads units (front ++ c :: back) ts ↔ Reads units (front ++ back) ts := by
  have hlower' : ∀ d ∈ front ++ c :: back, d.isUpper = false := by
    rw [List.forall_mem_append] at hlower
    exact List.forall_mem_append.mpr
      ⟨hlower.1, List.forall_mem_cons.mpr ⟨isUpper_of_isBlank hc, hlower.2⟩⟩
  rw [Reads, Reads, (seam_of_isBlank hc).signedText_append hunits hlower',
    h.signedText_append hunits hlower, Product.signedText_blank hc]
  exact (h.signed hunits).lexes_blank hc

/-- White space at its ends makes no difference either. -/
theorem reads_trim (hunits : UnitNames units) (hlower : ∀ c ∈ cs, c.isUpper = false) :
    Reads units (Text.trim cs) ts ↔ Reads units cs ts := by
  obtain ⟨front, back, hfront, hback, hcs⟩ := Text.pads_trim cs
  rw [hcs] at hlower
  conv_rhs => rw [hcs]
  generalize Text.trim cs = text at hlower
  rw [Reads, Reads, List.append_assoc, Product.signedText_blanks hfront, lexes_blanks hfront]
  cases back with
  | nil => rw [List.append_nil]
  | cons b back =>
      have hseam {front : List Char} : Seam units front (b :: back) :=
        seam_of_isBlank (hback b List.mem_cons_self)
      have hsplit (vs : List Token) : Lexes units (b :: back) vs ↔ vs = [] := by
        rw [← List.append_nil (b :: back), lexes_blanks hback, lexes_nil]
      have hblanks : signedText units (admitsBehind false text) (b :: back) = b :: back := by
        rw [← List.append_nil (b :: back), Product.signedText_blanks hback]
        rfl
      rw [List.append_assoc, List.forall_mem_append] at hlower
      rw [hseam.signedText_append hunits hlower.2, hblanks, hseam.lexes_iff]
      simp only [hsplit]
      simp

/-! ## Typed lines -/

theorem ofTyped_eq_ok {typed : String} : ofTyped units typed = .ok ts ↔
    Source.spelledOut units typed ≠ [] ∧ ∃ us, Split units (Source.spelledOut units typed) us ∧
      ts = us ++ [⟨.finish, "", (Source.ofMarks (Source.spelledOut units typed) typed).stop⟩] := by
  constructor
  · intro h
    obtain ⟨hne, hsource⟩ := ofTyped_ok h
    exact ⟨hne, ofSource_ofMarks.mp hsource⟩
  · rintro ⟨hne, hsplit⟩
    have htokens := ofSource_ofMarks.mpr hsplit
    have hsource := Source.ofTyped_eq_ok.mpr ⟨hne, rfl⟩
    generalize Source.ofMarks (Source.spelledOut units typed) typed = source at htokens hsource
    rw [ofTyped, hsource]
    exact htokens

/-- Spelled out a line is in lower case. -/
theorem isUpper_of_seen (typed : List Char) :
    ∀ c ∈ Shorthand.seen 14 typed, c.isUpper = false := by
  have hmarks := Rule.foldl_pass_within (Shorthand.writes_rules (by decide))
    (Mark.ofTyped_within typed)
  rw [Shorthand.seen, Shorthand.marksAt_length]
  exact hmarks.chars

/-- What a typed line is read as, places apart, if anything is left of it. -/
theorem ofTyped_reads (hunits : UnitNames units) (typed : String) :
    (ofTyped units typed).toOption.map (·.map unplaced) = some ts ↔
      Text.trim (Shorthand.seen 14 typed.toList) ≠ [] ∧
        ∃ us, Reads units (Shorthand.seen 14 typed.toList) us ∧
          ts = us ++ [⟨.finish, "", 0⟩] := by
  have htext : (Source.spelledOut units typed).map (·.char) =
      signedText units false (Text.trim (Shorthand.seen 14 typed.toList)) := by
    rw [Source.spelledOut, Product.map_char_insert, Mark.map_char_trim, Shorthand.seen,
      Shorthand.marksAt_length]
  have hempty : Source.spelledOut units typed ≠ [] ↔
      Text.trim (Shorthand.seen 14 typed.toList) ≠ [] := by
    rw [Ne, ← List.map_eq_nil_iff (f := Mark.char), ← List.getLast?_eq_none_iff, htext,
      Product.getLast?_signedText, List.getLast?_eq_none_iff]
  have hsplit (us : List Token) : Reads units (Shorthand.seen 14 typed.toList) us ↔
      ∃ vs, Split units (Source.spelledOut units typed) vs ∧ vs.map unplaced = us := by
    rw [← reads_trim hunits (isUpper_of_seen typed.toList), Reads, ← htext, lexes_iff]
  have houtcome (vs : List Token) :
      (ofTyped units typed).toOption = some vs ↔ ofTyped units typed = .ok vs := by
    cases ofTyped units typed with
    | error e => simp [Except.toOption]
    | ok us => simp [Except.toOption]
  rw [Option.map_eq_some_iff]
  simp only [houtcome, ofTyped_eq_ok, hempty, hsplit]
  constructor
  · rintro ⟨vs, ⟨hne, us, hus, rfl⟩, rfl⟩
    refine ⟨hne, us.map unplaced, ⟨us, hus, rfl⟩, ?_⟩
    rw [List.map_append]
    rfl
  · rintro ⟨hne, us, ⟨vs, hvs, rfl⟩, rfl⟩
    refine ⟨_, ⟨hne, vs, hvs, rfl⟩, ?_⟩
    rw [List.map_append]
    rfl

end Token

end Reckoner
