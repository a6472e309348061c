import Reckoner.Proofs.Source.Stretch

/-!
# Reckoner.Proofs.Source.Cut -- passes that spare the middle of a text

A pass that leaves the middle of a text alone works on what is in front of the middle and on what is
behind it as if each stood alone, with two provisos. A word at the end of the front may be kept from
being one by the middle, if that starts with a character of a word itself, and a word at the start of
the back by a middle that ends with one. Where neither is so, it does not matter whether there is a
blank at the ends of the middle (`Rule.Spares.pass`, `Rule.Spares.rewrite`).
-/

namespace Reckoner.Rule

open Text (isBlank isWordChar wordMayBegin wordMayEnd)

variable {rule : Rule} {cs rest middle : List Char} {before : Option Char}

theorem length_zeros (cs : List Char) : (cs.map fun _ => 0).length = cs.length := List.length_map _

/-! ## Rules that do not go on behind a text -/

/-- A rule that applies in front of some text as if nothing were there, unless it takes a word that
goes on in that text. -/
def Cut (rule : Rule) (rest : List Char) : Prop :=
  ∀ before text, text ≠ [] →
    (wordMayEnd rest = false → ∀ written, rule before text ≠ some (text.length, written)) →
    rule before (text ++ rest) = rule before text

section Cut

variable (h : rule.Cut rest) (hends : wordMayEnd rest = false → ¬ rule.EndsIn cs)

include h hends

theorem Cut.agree : Agree (rule.infront rest) rule none cs := by
  refine along_of_forall fun piece more heq hne => ?_
  refine h _ more hne fun hend written happlies => hends hend ?_
  exact endsIn_iff.mpr ⟨piece, more, written, heq, hne, happlies⟩

theorem Cut.staysIn (hbounded : rule.Bounded) : rule.StaysIn rest none cs := by
  refine (h.agree hends).imp fun before text hsame taken written happlies => ?_
  have hwritten : rule.infront rest before text = some (taken, written) := happlies
  exact (hbounded _ _ _ _ (hsame.symm.trans hwritten)).2

/-- **A pass over two texts** is one over the first, as if it stood alone, and one over the
second. -/
theorem Cut.passFrom_append (hbounded : rule.Bounded) {os : List Nat} (ps : List Nat)
    (hos : os.length = cs.length) : passFrom rule none 0 (cs ++ rest) (os ++ ps) =
      passFrom rule none 0 cs os ++ passFrom rule cs.getLast? 0 rest ps := by
  rw [Rule.passFrom_append (h.staysIn hends hbounded) hos (Nat.zero_le _),
    (h.agree hends).passFrom_eq, Option.or_none]

theorem Cut.rewrite_append (hbounded : rule.Bounded) :
    rule.rewrite (cs ++ rest) = rule.rewrite cs ++ rewriteFrom rule cs.getLast? 0 rest := by
  have hpass := h.passFrom_append hends hbounded (rest.map fun _ => 0) (length_zeros cs)
  rw [← List.map_append] at hpass
  rw [Rule.rewrite, Rule.rewrite, ← map_char_passFrom (length_zeros (cs ++ rest)), hpass,
    List.map_append, map_char_passFrom (length_zeros cs), map_char_passFrom (length_zeros rest)]

end Cut

theorem Idle.staysIn (h : Idle (rule.infront rest) before cs) : rule.StaysIn rest before cs := by
  induction cs generalizing before with
  | nil => trivial
  | cons c cs ih =>
      refine ⟨fun taken written happlies => ?_, ih h.2⟩
      cases h.1.symm.trans happlies

/-- A pass leaves alone what its rule applies nowhere in. -/
theorem passFrom_append_of_idle {marks : List Mark}
    (h : Idle (rule.infront rest) before (marks.map (·.char))) (ps : List Nat) :
    passFrom rule before 0 (marks.map (·.char) ++ rest) (marks.map (·.origin) ++ ps) =
      marks ++ passFrom rule ((marks.map (·.char)).getLast?.or before) 0 rest ps := by
  have hmarks : List.zipWith Mark.mk (marks.map (·.char)) (marks.map (·.origin)) = marks := by simp
  have hlength : (marks.map (·.origin)).length = (marks.map (·.char)).length := by
    rw [List.length_map, List.length_map]
  rw [passFrom_append h.staysIn hlength (Nat.zero_le _), passFrom_of_idle h, hmarks]

theorem rewriteFrom_append_of_idle (h : Idle (rule.infront rest) before cs) :
    rewriteFrom rule before 0 (cs ++ rest) =
      cs ++ rewriteFrom rule (cs.getLast?.or before) 0 rest := by
  rw [← Mark.map_char_mk cs] at h
  have hpass := congrArg (List.map Mark.char) (passFrom_append_of_idle h (rest.map fun _ => 0))
  rw [List.map_append, Mark.map_char_mk, map_char_passFrom (length_zeros rest),
    map_char_passFrom (by simp)] at hpass
  exact hpass

/-! ## Rules that spare a middle -/

/-- A rule that leaves a text alone wherever it stands, with a blank in front or without, and does
not take it for a part of a stretch. -/
structure Spares (rule : Rule) (middle : List Char) : Prop where
  cut : ∀ rest, rule.Cut (middle ++ rest)
  cutBlank : ∀ rest, rule.Cut (' ' :: (middle ++ rest))
  idle : ∀ before rest, Idle (rule.infront rest) before middle
  blank : ∀ before rest, rule before (' ' :: (middle ++ rest)) = none

/-- A rule to which the character before a text makes no difference, unless it keeps a word from
being one. -/
def Opens (rule : Rule) : Prop :=
  ∀ c text, (isWordChar c = true → (∀ d ∈ text.head?, isWordChar d = true) →
    rule none text = none) → rule (some c) text = rule none text

/-- Where a middle keeps no word from being one for a rule: none at the end of the front, and none at
the start of the back. -/
structure Clears (rule : Rule) (front middle back : List Char) : Prop where
  front : (∀ c ∈ middle.head?, isWordChar c = true) → ¬ rule.EndsIn front
  back : (∀ c ∈ middle.getLast?, isWordChar c = true) → (∀ d ∈ back.head?, isWordChar d = true) →
    rule none back = none

instance {front back : List Char} : Decidable (rule.Clears front middle back) :=
  decidable_of_iff
    ((middle.head?.all isWordChar = true → ¬ rule.EndsIn front) ∧
      (middle.getLast?.all isWordChar = true → back.head?.all isWordChar = true →
        rule none back = none)) <| by
    simp only [Option.all_eq_true]
    exact ⟨fun h => ⟨h.1, h.2⟩, fun h => ⟨h.1, h.2⟩⟩

section Clears

variable {front back : List Char} (hspares : rule.Spares middle) (hopens : rule.Opens)
  (hbounded : rule.Bounded) (hclears : rule.Clears front middle back) (hne : middle ≠ [])

include hne hclears in
theorem Clears.not_endsIn (h : wordMayEnd (middle ++ cs) = false) : ¬ rule.EndsIn front := by
  refine hclears.front fun c hc => ?_
  obtain ⟨d, more, rfl⟩ := List.exists_cons_of_ne_nil hne
  cases hc
  simpa [wordMayEnd] using h

include hopens hclears hne in
/-- What is behind the middle is seen as if it stood alone. -/
theorem Clears.passFrom_back (os : List Nat) :
    passFrom rule (middle.getLast?.or before) 0 back os = passFrom rule none 0 back os := by
  have hlast := List.getLast?_eq_some_getLast hne
  have hsame : rule (some (middle.getLast hne)) back = rule none back := by
    refine hopens _ back fun hword hstart => hclears.back ?_ hstart
    rw [hlast]
    rintro _ ⟨⟩
    exact hword
  rw [hlast, Option.some_or]
  cases back with
  | nil => simp [passFrom]
  | cons d back =>
      cases os with
      | nil => rfl
      | cons o os => rw [passFrom, passFrom, hsame]

include hopens hclears hne in
theorem Clears.rewriteFrom_back :
    rewriteFrom rule (middle.getLast?.or before) 0 back = rule.rewrite back := by
  rw [Rule.rewrite, ← map_char_passFrom (length_zeros back), hclears.passFrom_back hopens hne,
    map_char_passFrom (length_zeros back)]

include hspares hopens hbounded hclears hne

/-- **A pass spares the middle**, and does to the sides what it does to them alone. -/
theorem Spares.pass {fronts middles backs : List Mark} (hfront : fronts.map (·.char) = front)
    (hmiddle : middles.map (·.char) = middle) (hback : backs.map (·.char) = back) :
    rule.pass (fronts ++ (middles ++ backs)) = rule.pass fronts ++ (middles ++ rule.pass backs) := by
  subst hfront hmiddle hback
  rw [Rule.pass, List.map_append, List.map_append, List.map_append, List.map_append,
    (hspares.cut _).passFrom_append (hclears.not_endsIn hne) hbounded _
      (by rw [List.length_map, List.length_map]),
    passFrom_append_of_idle (hspares.idle _ _), hclears.passFrom_back hopens hne]
  rfl

/-- With a blank in front of the middle, and with one behind it or none, it is the same. The blank
behind may be taken with what comes behind it. -/
theorem Spares.rewrite (htrims : rule.Trims) {gap : List Char} (hgap : gap = [] ∨ gap = [' ']) :
    ∃ gap', (gap' = [] ∨ gap' = [' ']) ∧
      rule.rewrite (front ++ ' ' :: (middle ++ (gap ++ back))) =
        rule.rewrite front ++ ' ' :: (middle ++ (gap' ++ rule.rewrite back)) := by
  have hblank (gap : List Char) : rule.rewrite (front ++ ' ' :: (middle ++ (gap ++ back))) =
      rule.rewrite front ++
        ' ' :: (middle ++ rewriteFrom rule (middle.getLast?.or (some ' ')) 0 (gap ++ back)) := by
    have hends : wordMayEnd (' ' :: (middle ++ (gap ++ back))) = false → ¬ rule.EndsIn front :=
      fun h => absurd h (by simp [wordMayEnd, show isWordChar ' ' = false by decide])
    rw [(hspares.cutBlank _).rewrite_append hends hbounded, rewriteFrom_none (hspares.blank _ _),
      rewriteFrom_append_of_idle (hspares.idle _ _)]
  rcases hgap with rfl | rfl
  · refine ⟨[], .inl rfl, ?_⟩
    rw [hblank, List.nil_append, hclears.rewriteFrom_back hopens hne, List.nil_append]
  · rw [hblank, List.singleton_append]
    have hcons : rewriteFrom rule (middle.getLast?.or (some ' ')) 0 (' ' :: back) = _ ∨
        rewriteFrom rule (middle.getLast?.or (some ' ')) 0 (' ' :: back) = _ :=
      htrims.rewriteFrom_cons (by decide) _
    rcases hcons with hkept | htaken
    · exact ⟨[' '], .inr rfl, by rw [hkept]; rfl⟩
    · exact ⟨[], .inl rfl, by rw [htaken]; rfl⟩

end Clears

/-! ## Phrases -/

section Phrases

variable {pieces : List Piece} {written text : List Char} {c : Char}

theorem foreign_cons (hc : isBlank c = false) (h : .letter c ∉ pieces) (text : List Char) :
    Foreign pieces (c :: text) := by
  rw [Foreign, List.dropWhile_cons_of_neg (by simp [hc])]
  rintro _ ⟨⟩
  exact h

theorem Foreign.cons_blank (h : Foreign pieces text) (hc : isBlank c = true) :
    Foreign pieces (c :: text) := by
  rw [Foreign, List.dropWhile_cons_of_pos hc]
  exact h

/-- A phrase that starts with another letter does not apply. -/
theorem phrase_eq_none {l : Char} (hne : c ≠ l) (before : Option Char) :
    phrase (.letter l :: pieces) written before (c :: text) = none := by
  rw [phrase, phraseLength?, if_neg hne, Option.bind_none, ite_self]

/-- Only the first letter of a phrase can be what some text starts with, so no phrase that starts in
front of that text goes on in it. -/
theorem cut_phrase (h : IsWords pieces) (hrest : Foreign pieces.tail rest) :
    (phrase pieces written).Cut rest := by
  intro before text hne hend
  have hlength : phraseLength? pieces (text ++ rest) = phraseLength? pieces text := by
    obtain ⟨hpieces, hfirst, hlast, hplain⟩ := h
    obtain ⟨p, ps, rfl⟩ := List.exists_cons_of_ne_nil hpieces
    obtain ⟨c, cs, rfl⟩ := List.exists_cons_of_ne_nil hne
    rw [List.all_cons, Bool.and_eq_true] at hplain
    have hbehind (cs : List Char) : phraseLength? ps (cs ++ rest) = phraseLength? ps cs :=
      phraseLength?_append (getLast?_ne_of_cons hlast) hplain.2 hrest
    cases p with
    | letter l => rw [List.cons_append, phraseLength?, phraseLength?, hbehind]
    | blanks => exact absurd rfl hfirst
  rw [phrase] at hend
  rw [phrase, phrase, hlength]
  split
  · next hbegin =>
    rw [if_pos hbegin] at hend
    cases htaken : phraseLength? pieces text with
    | none => rfl
    | some taken =>
        have hle := phraseLength?_le htaken
        rw [htaken, Option.bind_some] at hend
        rw [Option.bind_some, Option.bind_some, List.drop_append_of_le_length hle]
        cases hdrop : text.drop taken with
        | cons d more => rfl
        | nil =>
            -- the phrase goes up to the end of the text
            rw [List.drop_eq_nil_iff] at hdrop
            obtain rfl : taken = text.length := Nat.le_antisymm hle hdrop
            rw [List.drop_length, if_pos (show wordMayEnd [] = true from rfl)] at hend
            have hword : wordMayEnd rest = true := by
              cases hrest' : wordMayEnd rest with
              | true => rfl
              | false => exact absurd rfl (hend hrest' written)
            rw [List.nil_append, hword]
            rfl
  · rfl

theorem spares_phrase (h : IsWords pieces) (hc : isBlank c = false)
    (hforeign : .letter c ∉ pieces.tail)
    (hidle : ∀ before rest, Idle ((phrase pieces written).infront rest) before (c :: text)) :
    (phrase pieces written).Spares (c :: text) where
  cut rest := cut_phrase h (foreign_cons hc hforeign _)
  cutBlank rest := cut_phrase h ((foreign_cons hc hforeign _).cons_blank (by decide))
  idle := hidle
  blank before rest := tight_phrase h before ' ' _ (by decide)

/-- A phrase that starts with a letter of a word looks at the character before only for a word. -/
theorem opens_phrase {l : Char} (hl : isWordChar l = true) :
    (phrase (.letter l :: pieces) written).Opens := by
  intro c text hword
  cases hc : isWordChar c with
  | false =>
      have hbegin : wordMayBegin (some c) = wordMayBegin none := by simp [wordMayBegin, hc]
      rw [phrase, phrase, hbegin]
  | true =>
      have hnone : phrase (.letter l :: pieces) written none text = none := by
        cases text with
        | nil => rfl
        | cons d text =>
            cases hd : isWordChar d with
            | true =>
                refine hword hc ?_
                rintro _ ⟨⟩
                exact hd
            | false =>
                refine phrase_eq_none ?_ none
                rintro rfl
                rw [hl] at hd
                cases hd
      rw [hnone, phrase, if_neg (by simp [wordMayBegin, hc])]

end Phrases

/-! ## Glyphs and choices -/

section Choices

variable {glyphs written : List Char} {rules : List Rule}

theorem glyph_append (hne : cs ≠ []) (before : Option Char) :
    glyph glyphs written before (cs ++ rest) = glyph glyphs written before cs := by
  obtain ⟨c, cs, rfl⟩ := List.exists_cons_of_ne_nil hne
  rfl

theorem spares_glyph (hblank : ' ' ∉ glyphs) (h : ∀ c ∈ middle, c ∉ glyphs) :
    (glyph glyphs written).Spares middle where
  cut rest before text hne _ := glyph_append hne before
  cutBlank rest before text hne _ := glyph_append hne before
  idle before rest := by
    refine idle_of_forall (fun c hc before more => ?_) before
    rw [infront, List.cons_append, glyph, if_neg (by simp [h c hc])]
  blank before rest := by rw [glyph, if_neg (by simp [hblank])]

theorem opens_glyph : (glyph glyphs written).Opens := by
  intro c text _
  cases text <;> rfl

theorem idle_infront_firstOf (h : ∀ r ∈ rules, Idle (r.infront rest) before cs) :
    Idle ((firstOf rules).infront rest) before cs := by
  induction cs generalizing before with
  | nil => trivial
  | cons c cs ih =>
      refine ⟨?_, ih fun r hr => (h r hr).2⟩
      rw [infront, firstOf, List.findSome?_eq_none_iff]
      exact fun r hr => (h r hr).1

theorem cut_firstOf (h : ∀ r ∈ rules, r.Cut rest) : (firstOf rules).Cut rest := by
  intro before text hne hend
  induction rules with
  | nil => rfl
  | cons r rules ih =>
      rw [List.forall_mem_cons] at h
      simp only [firstOf_cons] at hend ⊢
      have hfirst : r before (text ++ rest) = r before text :=
        h.1 before text hne fun hrest written happlies => hend hrest written (by rw [happlies]; rfl)
      rw [hfirst]
      cases happlies : r before text with
      | some s => rfl
      | none =>
          rw [Option.none_or, Option.none_or]
          refine ih h.2 fun hrest written => ?_
          have := hend hrest written
          rwa [happlies, Option.none_or] at this

theorem spares_firstOf (h : ∀ r ∈ rules, r.Spares middle) : (firstOf rules).Spares middle where
  cut rest := cut_firstOf fun r hr => (h r hr).cut rest
  cutBlank rest := cut_firstOf fun r hr => (h r hr).cutBlank rest
  idle before rest := idle_infront_firstOf fun r hr => (h r hr).idle before rest
  blank before rest := by
    rw [firstOf, List.findSome?_eq_none_iff]
    exact fun r hr => (h r hr).blank before rest

theorem opens_firstOf (h : ∀ r ∈ rules, r.Opens) : (firstOf rules).Opens := by
  intro c text hword
  induction rules with
  | nil => rfl
  | cons r rules ih =>
      rw [List.forall_mem_cons] at h
      simp only [firstOf_cons] at hword ⊢
      have hnone (hc : isWordChar c = true) (htext : ∀ d ∈ text.head?, isWordChar d = true) :=
        Option.or_eq_none_iff.mp (hword hc htext)
      rw [h.1 c text fun hc htext => (hnone hc htext).1,
        ih h.2 fun hc htext => (hnone hc htext).2]

end Choices

end Reckoner.Rule

/-! ## The rules for words -/

namespace Reckoner.Shorthand

open Text (isBlank isWordChar)
open Rule (Piece word glyph phrase firstOf phraseLength? Idle infront Foreign)

variable {before : Option Char} {text rest : List Char} {c : Char}

theorem phrase_of_length {pieces : List Piece} {written : List Char}
    (h : phraseLength? pieces text = none) (before : Option Char) :
    phrase pieces written before text = none := by
  rw [phrase, h, Option.bind_none, ite_self]

/-- In front of anything but white space the word for a percent sign is looked for at once. -/
theorem spelledPercent_of_not_blank (h : ∀ c ∈ text.head?, isBlank c = false)
    (before : Option Char) :
    spelledPercent before text = phrase (word "percent") ['%'] before text := by
  have happend : spelledPercent before ([] ++ text) = _ :=
    spelledPercent_append (List.forall_mem_nil _) h before
  rw [List.nil_append, List.getLast?_nil, Option.none_or] at happend
  rw [happend]
  cases phrase (word "percent") ['%'] before text with
  | none => rfl
  | some r =>
      show some ([].length + r.1, r.2) = some r
      rw [List.length_nil, Nat.zero_add]

theorem cut_spelledPercent (hforeign : Foreign (word "percent").tail rest)
    (hstart : phraseLength? (word "percent") (rest.dropWhile isBlank) = none) :
    spelledPercent.Cut rest := by
  intro before text hne hend
  have hblanks : ∀ b ∈ text.takeWhile isBlank, isBlank b = true :=
    List.all_eq_true.mp List.all_takeWhile
  have hhead (text : List Char) : ∀ c ∈ (text.dropWhile isBlank).head?, isBlank c = false := by
    intro c hc
    have hnot := List.head?_dropWhile_not isBlank text
    rw [hc] at hnot
    exact hnot
  have hsplit := List.takeWhile_append_dropWhile (p := isBlank) (l := text)
  have hbehind := hhead text
  generalize text.takeWhile isBlank = blanks at hblanks hsplit
  generalize text.dropWhile isBlank = more at hsplit hbehind
  subst hsplit
  cases more with
  | nil =>
      -- the white space goes on in the rest, and there is no such word behind it
      have hrest := List.takeWhile_append_dropWhile (p := isBlank) (l := rest)
      have hall : ∀ b ∈ blanks ++ rest.takeWhile isBlank, isBlank b = true :=
        List.forall_mem_append.mpr ⟨hblanks, List.all_eq_true.mp List.all_takeWhile⟩
      have hnone := spelledPercent_append hall (hhead rest) before
      rw [List.append_assoc, hrest, phrase_of_length hstart, Option.map_none] at hnone
      have hempty : phrase (word "percent") ['%'] (blanks.getLast?.or before) [] = none :=
        phrase_of_length rfl _
      rw [spelledPercent_append hblanks hbehind, List.append_nil, hnone, hempty, Option.map_none]
  | cons d more =>
      have hpiece : (phrase (word "percent") ['%']).Cut rest :=
        Rule.cut_phrase isWords_percent hforeign
      have hbehind' : ∀ c ∈ (d :: more ++ rest).head?, isBlank c = false := hbehind
      rw [spelledPercent_append hblanks hbehind] at hend
      rw [spelledPercent_append hblanks hbehind, List.append_assoc,
        spelledPercent_append hblanks hbehind', hpiece _ _ (List.cons_ne_nil d more)]
      intro hrest written happlies
      refine hend hrest written ?_
      rw [happlies, Option.map_some, List.length_append]

theorem spares_spelledPercent (hforeign : .letter c ∉ (word "percent").tail)
    (hblanks : ∀ d ∈ c :: text, isBlank d = false)
    (hidle : ∀ before rest,
      Idle ((phrase (word "percent") ['%']).infront rest) before (c :: text))
    (hlength : ∀ rest, phraseLength? (word "percent") (c :: (text ++ rest)) = none) :
    spelledPercent.Spares (c :: text) := by
  have hc : isBlank c = false := hblanks c List.mem_cons_self
  have hnot : ¬ isBlank c = true := by simp [hc]
  have hstart (rest : List Char) : ∀ d ∈ (c :: (text ++ rest)).head?, isBlank d = false := by
    rintro _ ⟨⟩
    exact hc
  refine ⟨fun rest => cut_spelledPercent (Rule.foreign_cons hc hforeign _) ?_,
    fun rest => cut_spelledPercent ((Rule.foreign_cons hc hforeign _).cons_blank (by decide)) ?_,
    fun before rest => ?_, fun before rest => ?_⟩
  · rw [List.cons_append, List.dropWhile_cons_of_neg hnot]
    exact hlength rest
  · rw [List.dropWhile_cons_of_pos (by decide), List.cons_append, List.dropWhile_cons_of_neg hnot]
    exact hlength rest
  · have hplaces := hidle before rest
    revert hplaces
    generalize c :: text = cs at hblanks
    intro hplaces
    induction cs generalizing before with
    | nil => trivial
    | cons d cs ih =>
        rw [List.forall_mem_cons] at hblanks
        have hhead : ∀ e ∈ (d :: (cs ++ rest)).head?, isBlank e = false := by
          rintro _ ⟨⟩
          exact hblanks.1
        exact ⟨(spelledPercent_of_not_blank hhead before).trans hplaces.1,
          ih (some d) hblanks.2 hplaces.2⟩
  · rw [spelledPercent_cons (by decide), List.cons_append, spelledPercent_of_not_blank (hstart rest),
      phrase_of_length (hlength rest), Option.map_none]

theorem opens_spelledPercent : spelledPercent.Opens := by
  intro c text hword
  cases text with
  | nil => rw [trims_spelledPercent.nil, trims_spelledPercent.nil]
  | cons d text =>
      cases hd : isBlank d with
      | true => rw [spelledPercent_cons hd, spelledPercent_cons hd]
      | false =>
          have hhead : ∀ e ∈ (d :: text).head?, isBlank e = false := by
            rintro _ ⟨⟩
            exact hd
          rw [spelledPercent_of_not_blank hhead] at hword
          rw [spelledPercent_of_not_blank hhead, spelledPercent_of_not_blank hhead]
          exact Rule.opens_phrase (by decide) c (d :: text) hword

theorem opens_percents : percents.Opens := by
  refine Rule.opens_firstOf ?_
  simp only [List.forall_mem_cons]
  exact ⟨Rule.opens_glyph, opens_spelledPercent, List.forall_mem_nil _⟩

theorem opens_square : square.Opens := Rule.opens_phrase (by decide)

theorem opens_fillers : fillers.Opens := by
  refine Rule.opens_firstOf ?_
  simp only [List.forall_mem_cons]
  exact ⟨Rule.opens_phrase (by decide), Rule.opens_phrase (by decide),
    Rule.opens_phrase (by decide), Rule.opens_phrase (by decide), Rule.opens_phrase (by decide),
    Rule.opens_phrase (by decide), List.forall_mem_nil _⟩

/-- The glyphs that are written as more than a sign, and what is written for them. -/
def spelledGlyphs : List (Char × List Char) := [
  ('π', ['p', 'i']),
  ('√', ['s', 'q', 'r', 't']),
  ('²', ['*', '*', '2']),
  ('³', ['*', '*', '3'])]

/-- No filler has a glyph in it. -/
theorem spares_fillers {g : Char} (hg : g ∈ spelledGlyphs.map (·.1)) : fillers.Spares [g] := by
  have hphrase {l : Char} {pieces : List Piece} (h : Rule.IsWords (.letter l :: pieces))
      (hblank : isBlank g = false) (hne : g ≠ l) (hforeign : .letter g ∉ pieces) :
      (phrase (.letter l :: pieces) []).Spares [g] :=
    Rule.spares_phrase h hblank hforeign fun before rest =>
      ⟨Rule.phrase_eq_none hne before, trivial⟩
  refine Rule.spares_firstOf ?_
  simp only [List.forall_mem_cons]
  simp only [spelledGlyphs, List.map_cons, List.map_nil, List.mem_cons, List.not_mem_nil,
    or_false] at hg
  rcases hg with rfl | rfl | rfl | rfl
  all_goals
    exact ⟨hphrase (by decide) (by decide) (by decide) (by decide),
      hphrase (by decide) (by decide) (by decide) (by decide),
      hphrase (by decide) (by decide) (by decide) (by decide),
      hphrase (by decide) (by decide) (by decide) (by decide),
      hphrase (by decide) (by decide) (by decide) (by decide),
      hphrase (by decide) (by decide) (by decide) (by decide), List.forall_mem_nil _⟩

/-- Nothing that is written for a glyph is in the words for a percent sign and a square. -/
theorem idle_words {w : List Char} (hw : w ∈ spelledGlyphs.map (·.2)) {name : String}
    (hname : name ∈ ["percent", "square"]) (written : List Char) (before : Option Char)
    (rest : List Char) : Idle ((phrase (word name) written).infront rest) before w := by
  have hnone {text : List Char} {before : Option Char}
      (h : phraseLength? (word name) (text ++ rest) = none) :
      (phrase (word name) written).infront rest before text = none := phrase_of_length h before
  simp only [spelledGlyphs, List.map_cons, List.map_nil, List.mem_cons, List.not_mem_nil,
    or_false] at hw hname
  rcases hname with rfl | rfl
  · rcases hw with rfl | rfl | rfl | rfl
    · exact ⟨hnone rfl, hnone rfl, trivial⟩
    · exact ⟨hnone rfl, hnone rfl, hnone rfl, hnone rfl, trivial⟩
    · exact ⟨hnone rfl, hnone rfl, hnone rfl, trivial⟩
    · exact ⟨hnone rfl, hnone rfl, hnone rfl, trivial⟩
  · rcases hw with rfl | rfl | rfl | rfl
    · exact ⟨hnone rfl, hnone rfl, trivial⟩
    · exact ⟨hnone rfl, hnone rfl, hnone rfl, hnone rfl, trivial⟩
    · exact ⟨hnone rfl, hnone rfl, hnone rfl, trivial⟩
    · exact ⟨hnone rfl, hnone rfl, hnone rfl, trivial⟩

/-- The rules for words leave alone what is written for a glyph. -/
theorem spares_percents {w : List Char} (hw : w ∈ spelledGlyphs.map (·.2)) :
    percents.Spares w := by
  have hidle := idle_words hw (show "percent" ∈ _ by simp) ['%']
  refine Rule.spares_firstOf ?_
  simp only [List.forall_mem_cons]
  simp only [spelledGlyphs, List.map_cons, List.map_nil, List.mem_cons, List.not_mem_nil,
    or_false] at hw
  rcases hw with rfl | rfl | rfl | rfl
  all_goals
    exact ⟨Rule.spares_glyph (by decide) (by decide),
      spares_spelledPercent (by decide) (by decide) hidle fun rest => rfl, List.forall_mem_nil _⟩

theorem spares_square {w : List Char} (hw : w ∈ spelledGlyphs.map (·.2)) : square.Spares w := by
  have hidle := idle_words hw (show "square" ∈ _ by simp) ['s', 'q']
  simp only [spelledGlyphs, List.map_cons, List.map_nil, List.mem_cons, List.not_mem_nil,
    or_false] at hw
  rcases hw with rfl | rfl | rfl | rfl
  all_goals
    exact Rule.spares_phrase (by decide) (by decide) (by decide) hidle

end Reckoner.Shorthand
