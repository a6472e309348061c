import Reckoner.Proofs.Source.Cut
import Reckoner.Proofs.Token.Seam

/-!
# Reckoner.Proofs.Source.Spaced -- glyphs with blanks around them

Some glyphs are written as words or with signs and digits. What is written for them may run into
what stands next to them, and it does not if there is a blank on both sides. A glyph that *stands
apart* (`StandsApart`) does not need the blanks: with them a line is respelled as without, apart from
the blanks themselves (`spaced_expand`).
-/

namespace Reckoner

open Text (isBlank)
open Token (isWordChar isNumeralChar Apart)

/-! ## Marks on the two sides of a place -/

namespace Mark

/-- The text that was typed in front of a place. -/
def textBefore (n : Nat) (marks : List Mark) : List Char :=
  (marks.filter (·.origin < n)).map (·.char)

/-- The text that was typed at a place. -/
def textAt (n : Nat) (marks : List Mark) : List Char :=
  (marks.filter (·.origin = n)).map (·.char)

/-- The text that was typed behind a place. -/
def textBehind (n : Nat) (marks : List Mark) : List Char :=
  (marks.filter (n < ·.origin)).map (·.char)

/-- Marks that were typed in front of a place, at it, and behind it. -/
structure Parted (n : Nat) (fronts middles backs : List Mark) : Prop where
  front : ∀ m ∈ fronts, m.origin < n
  middle : ∀ m ∈ middles, m.origin = n
  back : ∀ m ∈ backs, n < m.origin

namespace Parted

variable {n : Nat} {fronts middles backs : List Mark} (h : Parted n fronts middles backs)

include h

theorem textBefore_eq :
    textBefore n (fronts ++ (middles ++ backs)) = fronts.map (·.char) := by
  have hfront : fronts.filter (·.origin < n) = fronts :=
    List.filter_eq_self.mpr fun m hm => decide_eq_true (h.front m hm)
  have hmiddle : middles.filter (·.origin < n) = [] :=
    List.filter_eq_nil_iff.mpr fun m hm => by simp [h.middle m hm]
  have hback : backs.filter (·.origin < n) = [] :=
    List.filter_eq_nil_iff.mpr fun m hm => by simp [Nat.le_of_lt (h.back m hm)]
  rw [textBefore, List.filter_append, List.filter_append, hfront, hmiddle, hback, List.append_nil,
    List.append_nil]

theorem textAt_eq : textAt n (fronts ++ (middles ++ backs)) = middles.map (·.char) := by
  have hfront : fronts.filter (·.origin = n) = [] :=
    List.filter_eq_nil_iff.mpr fun m hm => by simp [Nat.ne_of_lt (h.front m hm)]
  have hmiddle : middles.filter (·.origin = n) = middles :=
    List.filter_eq_self.mpr fun m hm => decide_eq_true (h.middle m hm)
  have hback : backs.filter (·.origin = n) = [] :=
    List.filter_eq_nil_iff.mpr fun m hm => by simp [Nat.ne_of_gt (h.back m hm)]
  rw [textAt, List.filter_append, List.filter_append, hfront, hmiddle, hback, List.append_nil,
    List.nil_append]

theorem textBehind_eq : textBehind n (fronts ++ (middles ++ backs)) = backs.map (·.char) := by
  have hfront : fronts.filter (n < ·.origin) = [] :=
    List.filter_eq_nil_iff.mpr fun m hm => by simp [Nat.le_of_lt (h.front m hm)]
  have hmiddle : middles.filter (n < ·.origin) = [] :=
    List.filter_eq_nil_iff.mpr fun m hm => by simp [h.middle m hm]
  have hback : backs.filter (n < ·.origin) = backs :=
    List.filter_eq_self.mpr fun m hm => decide_eq_true (h.back m hm)
  rw [textBehind, List.filter_append, List.filter_append, hfront, hmiddle, hback, List.nil_append,
    List.nil_append]

end Parted

end Mark

/-! ## Glyphs and the final equals sign -/

namespace Rule

variable {glyphs written : List Char}

/-- What a mark is replaced by if it is one of some glyphs. -/
def replaced (glyphs written : List Char) (m : Mark) : List Mark :=
  if glyphs.contains m.char then written.map (⟨·, m.origin⟩) else [m]

theorem pass_glyph (marks : List Mark) :
    (glyph glyphs written).pass marks = marks.flatMap (replaced glyphs written) := by
  have hfrom (before : Option Char) : passFrom (glyph glyphs written) before 0
      (marks.map (·.char)) (marks.map (·.origin)) = marks.flatMap (replaced glyphs written) := by
    induction marks generalizing before with
    | nil => rfl
    | cons m ms ih =>
        rw [List.map_cons, List.map_cons, passFrom, glyph, List.flatMap_cons, replaced]
        split
        · next hsome =>
          split at hsome
          · next hm =>
            cases hsome
            rw [if_pos hm, Nat.sub_self, ih]
          · cases hsome
        · next hnone =>
          split at hnone
          · cases hnone
          · next hm => rw [if_neg hm, ih, List.singleton_append]
  exact hfrom none

theorem pass_glyph_append (front back : List Mark) :
    (glyph glyphs written).pass (front ++ back) =
      (glyph glyphs written).pass front ++ (glyph glyphs written).pass back := by
  rw [pass_glyph, pass_glyph, pass_glyph, List.flatMap_append]

theorem rewrite_glyph_append (cs ds : List Char) :
    (glyph glyphs written).rewrite (cs ++ ds) =
      (glyph glyphs written).rewrite cs ++ (glyph glyphs written).rewrite ds := by
  rw [← Mark.map_char_mk (cs ++ ds), ← map_char_pass, List.map_append, pass_glyph_append,
    List.map_append, map_char_pass, map_char_pass, Mark.map_char_mk, Mark.map_char_mk]

end Rule

namespace Shorthand

open Rule (glyph Idle infront)

variable {front middle back rest : List Char} {g : Char}

/-- An equals sign with something behind it is not the last of a line. -/
theorem idle_finalEquals_infront (h : ∃ c ∈ rest, isBlank c = false) (before : Option Char)
    (cs : List Char) : Idle (finalEquals.infront rest) before cs := by
  obtain ⟨d, hd, hblank⟩ := h
  refine Rule.idle_of_forall (fun c _ before cs => ?_) before
  by_cases hc : c = '='
  · subst hc
    have hall : ¬ (cs ++ rest).all isBlank = true := by
      rw [List.all_eq_true]
      intro hall
      have := hall d (List.mem_append_right cs hd)
      rw [hblank] at this
      cases this
    exact if_neg hall
  · exact finalEquals_cons_of_ne hc before (cs ++ rest)

theorem finalEquals_before (before : Option Char) (text : List Char) :
    finalEquals before text = finalEquals none text := by
  unfold finalEquals
  split <;> rfl

theorem passFrom_finalEquals (before : Option Char) (cs : List Char) (os : List Nat) :
    Rule.passFrom finalEquals before 0 cs os = Rule.passFrom finalEquals none 0 cs os := by
  cases cs with
  | nil => simp [Rule.passFrom]
  | cons c cs =>
      cases os with
      | nil => rfl
      | cons o os => rw [Rule.passFrom, Rule.passFrom, finalEquals_before]

theorem rewriteFrom_finalEquals (before : Option Char) (cs : List Char) :
    Rule.rewriteFrom finalEquals before 0 cs = finalEquals.rewrite cs := by
  cases cs with
  | nil => rfl
  | cons c cs => rw [Rule.rewrite, Rule.rewriteFrom, Rule.rewriteFrom, finalEquals_before]

/-- Nor does the rule apply in a text without an equals sign. -/
theorem idle_finalEquals_of_not_mem (h : '=' ∉ middle) (before : Option Char) (rest : List Char) :
    Idle (finalEquals.infront rest) before middle := by
  refine Rule.idle_of_forall (fun c hc before cs => ?_) before
  refine finalEquals_cons_of_ne ?_ before (cs ++ rest)
  rintro rfl
  exact h hc

theorem pass_finalEquals_append {fronts backs : List Mark}
    (h : Idle (finalEquals.infront (backs.map (·.char))) none (fronts.map (·.char))) :
    finalEquals.pass (fronts ++ backs) = fronts ++ finalEquals.pass backs := by
  rw [Rule.pass, List.map_append, List.map_append, Rule.passFrom_append_of_idle h,
    passFrom_finalEquals]
  rfl

theorem rewrite_finalEquals_append {cs rest : List Char}
    (h : Idle (finalEquals.infront rest) none cs) :
    finalEquals.rewrite (cs ++ rest) = cs ++ finalEquals.rewrite rest := by
  rw [Rule.rewrite, Rule.rewriteFrom_append_of_idle h, rewriteFrom_finalEquals]

/-! ## Lines with blanks around a glyph -/

/-- How a line with blanks around a glyph is respelled: as the line without them, with a blank in
front of what is written for the glyph, and with one behind it or none. -/
def Spaced (n : Nat) (middle : List Char) (marks : List Mark) (text : List Char) : Prop :=
  ∃ fronts middles backs gap, Mark.Parted n fronts middles backs ∧
    marks = fronts ++ (middles ++ backs) ∧ middles.map (·.char) = middle ∧
    (gap = [] ∨ gap = [' ']) ∧
    text = fronts.map (·.char) ++ ' ' :: (middle ++ (gap ++ backs.map (·.char)))

namespace Spaced

variable {n : Nat} {middle : List Char} {marks : List Mark} {text : List Char} {rule : Rule}

/-- A rule for words keeps it, if the glyph keeps no word from being one. -/
theorem pass_word (h : Spaced n middle marks text) (hne : middle ≠ []) (htrims : rule.Trims)
    (hbounded : rule.Bounded) (hopens : rule.Opens) (hspares : rule.Spares middle)
    (hclears : rule.Clears (Mark.textBefore n marks) (Mark.textAt n marks)
      (Mark.textBehind n marks)) :
    Spaced n middle (rule.pass marks) (rule.rewrite text) := by
  obtain ⟨fronts, middles, backs, gap, hparted, rfl, rfl, hgap, rfl⟩ := h
  rw [hparted.textBefore_eq, hparted.textAt_eq, hparted.textBehind_eq] at hclears
  obtain ⟨gap', hgap', htext⟩ := hspares.rewrite hopens hbounded hclears hne htrims hgap
  refine ⟨rule.pass fronts, middles, rule.pass backs, gap', ⟨?_, hparted.middle, ?_⟩,
    hspares.pass hopens hbounded hclears hne rfl rfl rfl, rfl, hgap', ?_⟩
  · exact rule.pass_origins (q := (· < n)) hparted.front
  · exact rule.pass_origins (q := (n < ·)) hparted.back
  · rw [htext, Rule.map_char_pass, Rule.map_char_pass]

/-- So does a rule that replaces glyphs, also in the middle. -/
theorem pass_glyph {glyphs written : List Char} (h : Spaced n middle marks text)
    (hblank : ' ' ∉ glyphs) :
    Spaced n ((glyph glyphs written).rewrite middle) ((glyph glyphs written).pass marks)
      ((glyph glyphs written).rewrite text) := by
  have hblanks {gap : List Char} (hgap : gap = [] ∨ gap = [' ']) :
      (glyph glyphs written).rewrite gap = gap := by
    rcases hgap with rfl | rfl
    · rfl
    · rw [Rule.rewrite, Rule.rewriteFrom_none]
      · rfl
      · rw [glyph, if_neg (by simp [hblank])]
  obtain ⟨fronts, middles, backs, gap, hparted, rfl, rfl, hgap, rfl⟩ := h
  refine ⟨(glyph glyphs written).pass fronts, (glyph glyphs written).pass middles,
    (glyph glyphs written).pass backs, gap, ⟨?_, ?_, ?_⟩, ?_, Rule.map_char_pass middles, hgap, ?_⟩
  · exact Rule.pass_origins _ (q := (· < n)) hparted.front
  · exact Rule.pass_origins _ (q := (· = n)) hparted.middle
  · exact Rule.pass_origins _ (q := (n < ·)) hparted.back
  · rw [Rule.pass_glyph_append, Rule.pass_glyph_append]
  · rw [Rule.rewrite_glyph_append, ← List.singleton_append, Rule.rewrite_glyph_append,
      Rule.rewrite_glyph_append, Rule.rewrite_glyph_append, hblanks (.inr rfl), hblanks hgap,
      Rule.map_char_pass, Rule.map_char_pass]
    rfl

/-- So does the rule for a final equals sign: none of the signs in front of the glyph is the last. -/
theorem pass_finalEquals (h : Spaced n middle marks text)
    (hmiddle : ∃ c ∈ middle, isBlank c = false) (hequal : '=' ∉ middle) :
    Spaced n middle (finalEquals.pass marks) (finalEquals.rewrite text) := by
  obtain ⟨fronts, middles, backs, gap, hparted, rfl, rfl, hgap, rfl⟩ := h
  have hbehind (rest : List Char) :
      ∃ c ∈ middles.map (·.char) ++ rest, isBlank c = false := by
    obtain ⟨d, hd, hblank⟩ := hmiddle
    exact ⟨d, List.mem_append_left rest hd, hblank⟩
  have htext (rest : List Char) :
      finalEquals.rewrite (fronts.map (·.char) ++ ' ' :: (middles.map (·.char) ++ rest)) =
        fronts.map (·.char) ++ ' ' :: (middles.map (·.char) ++ finalEquals.rewrite rest) := by
    have hfront := idle_finalEquals_infront (hbehind rest) none (fronts.map (·.char) ++ [' '])
    have hmiddles := idle_finalEquals_of_not_mem hequal none rest
    rw [List.append_cons, rewrite_finalEquals_append hfront, rewrite_finalEquals_append hmiddles,
      List.append_assoc, List.singleton_append]
  have hmarks : finalEquals.pass (fronts ++ (middles ++ backs)) =
      fronts ++ (middles ++ finalEquals.pass backs) := by
    have hrest := hbehind (backs.map (·.char))
    rw [← List.map_append] at hrest
    rw [pass_finalEquals_append (idle_finalEquals_infront hrest none _),
      pass_finalEquals_append (idle_finalEquals_of_not_mem hequal none _)]
  have hparted' : Mark.Parted n fronts middles (finalEquals.pass backs) :=
    ⟨hparted.front, hparted.middle, Rule.pass_origins _ (q := (n < ·)) hparted.back⟩
  rcases hgap with rfl | rfl
  · refine ⟨fronts, middles, _, [], hparted', hmarks, rfl, .inl rfl, ?_⟩
    rw [List.nil_append, htext, List.nil_append, Rule.map_char_pass]
  · rw [htext, List.singleton_append]
    have hcons : Rule.rewriteFrom finalEquals none 0 (' ' :: backs.map (·.char)) = _ ∨
        Rule.rewriteFrom finalEquals none 0 (' ' :: backs.map (·.char)) = _ :=
      trims_finalEquals.rewriteFrom_cons (by decide) none
    rcases hcons with hkept | htaken
    · refine ⟨fronts, middles, _, [' '], hparted', hmarks, rfl, .inr rfl, ?_⟩
      rw [Rule.rewrite, hkept, Rule.map_char_pass]
      rfl
    · refine ⟨fronts, middles, _, [], hparted', hmarks, rfl, .inl rfl, ?_⟩
      rw [Rule.rewrite, htaken, Rule.map_char_pass]
      rfl

/-- So do the steps from what the rule with an index sees to what the next one does. -/
theorem succ_word {index : Nat} {typed typed' : List Char}
    (h : Spaced n middle (marksAt index typed) (seen index typed')) (rule : Rule)
    (hrule : rules[index]? = some rule) (hne : middle ≠ []) (htrims : rule.Trims)
    (hbounded : rule.Bounded) (hopens : rule.Opens) (hspares : rule.Spares middle)
    (hclears : rule.Clears (Mark.textBefore n (marksAt index typed))
      (Mark.textAt n (marksAt index typed)) (Mark.textBehind n (marksAt index typed))) :
    Spaced n middle (marksAt (index + 1) typed) (seen (index + 1) typed') := by
  rw [marksAt_succ hrule, seen_succ hrule]
  exact h.pass_word hne htrims hbounded hopens hspares hclears

theorem succ_glyph {index : Nat} {typed typed' : List Char}
    (h : Spaced n middle (marksAt index typed) (seen index typed')) (glyphs written : List Char)
    (hrule : rules[index]? = some (glyph glyphs written)) (hblank : ' ' ∉ glyphs) :
    Spaced n ((glyph glyphs written).rewrite middle) (marksAt (index + 1) typed)
      (seen (index + 1) typed') := by
  rw [marksAt_succ hrule, seen_succ hrule]
  exact h.pass_glyph hblank

end Spaced

/-! ## Glyphs that stand apart -/

/-- Whether what is written for the glyph at an index of a line runs into nothing next to it. The
glyph keeps no word from being one for the rules that look for words, and in the outcome no two
digits or points, no two letters and no two asterisks are next to each other at the ends of what is
written for it. -/
structure StandsApart (n : Nat) (typed : List Char) : Prop where
  words : ∀ row ∈ [(0, fillers), (12, percents), (13, square)],
    row.2.Clears (Mark.textBefore n (marksAt row.1 typed)) (Mark.textAt n (marksAt row.1 typed))
      (Mark.textBehind n (marksAt row.1 typed))
  ends : ∀ p ∈ [isNumeralChar, isWordChar, (· == '*')],
    Apart p (Mark.textBefore n (marksAt 14 typed)) (Mark.textAt n (marksAt 14 typed)) ∧
      Apart p (Mark.textAt n (marksAt 14 typed)) (Mark.textBehind n (marksAt 14 typed))

instance (n : Nat) (typed : List Char) : Decidable (StandsApart n typed) :=
  decidable_of_iff
    ((∀ row ∈ [(0, fillers), (12, percents), (13, square)],
        row.2.Clears (Mark.textBefore n (marksAt row.1 typed)) (Mark.textAt n (marksAt row.1 typed))
          (Mark.textBehind n (marksAt row.1 typed))) ∧
      ∀ p ∈ [isNumeralChar, isWordChar, (· == '*')],
        Apart p (Mark.textBefore n (marksAt 14 typed)) (Mark.textAt n (marksAt 14 typed)) ∧
          Apart p (Mark.textAt n (marksAt 14 typed)) (Mark.textBehind n (marksAt 14 typed)))
    ⟨fun h => ⟨h.1, h.2⟩, fun h => ⟨h.1, h.2⟩⟩

/-- A typed line is parted at each of its characters. -/
theorem parted_ofTyped (front : List Char) {g : Char} (hg : Text.lower g = [g])
    (behind : List Char) : ∃ backs, Mark.ofTyped (front ++ g :: behind) =
      Mark.ofTyped front ++ ([⟨g, front.length⟩] ++ backs) ∧
        Mark.Parted front.length (Mark.ofTyped front) [⟨g, front.length⟩] backs ∧
          backs.map (·.char) = behind.flatMap Text.lower := by
  refine ⟨(behind.zipIdx (front.length + 1)).flatMap fun row =>
    (Text.lower row.1).map (⟨·, row.2⟩), ?_, ⟨?_, ?_, ?_⟩, Mark.map_char_zipIdx _ _⟩
  · rw [Mark.ofTyped, List.zipIdx_append, List.flatMap_append, Nat.zero_add, List.zipIdx_cons,
      List.flatMap_cons]
    simp only [hg, List.map_cons, List.map_nil]
    rfl
  · exact fun m hm => (Mark.ofTyped_within front m hm).2
  · intro m hm
    rw [List.mem_singleton.mp hm]
  · intro m hm
    obtain ⟨⟨c, index⟩, hindex, hm⟩ := List.mem_flatMap.mp hm
    obtain ⟨d, -, rfl⟩ := List.mem_map.mp hm
    exact (List.mem_zipIdx hindex).1

/-- The glyphs are their own lower case, and neither white space nor equals or question marks. -/
theorem plain_of_glyph : ∀ g ∈ spelledGlyphs.map (·.1),
    Text.lower g = [g] ∧ isBlank g = false ∧ '=' ≠ g ∧ '?' ≠ g := by
  decide +kernel

section Glyph

variable {typed typed' front w : List Char} {g : Char} {n : Nat}

/-- In lower case a line has the blanks as they were typed. -/
theorem spaced_ofTyped (hg : g ∈ spelledGlyphs.map (·.1)) (front behind : List Char) :
    Spaced front.length [g] (marksAt 0 (front ++ g :: behind))
      (seen 0 (front ++ ' ' :: g :: ' ' :: behind)) := by
  have hself := (plain_of_glyph g hg).1
  have hblank : Text.lower ' ' = [' '] := rfl
  obtain ⟨backs, hmarks, hparted, hbacks⟩ := parted_ofTyped front hself behind
  refine ⟨_, _, backs, [' '], hparted, hmarks, rfl, .inr rfl, ?_⟩
  rw [hbacks, seen, marksAt, List.take_zero, List.foldl_nil, Mark.map_char_ofTyped,
    Mark.map_char_ofTyped, List.flatMap_append, List.flatMap_cons, List.flatMap_cons,
    List.flatMap_cons, hself, hblank]
  rfl

/-- Question marks and a final equals sign are dropped as they are without the blanks. -/
theorem Spaced.dropped (h : Spaced n [g] (marksAt 1 typed) (seen 1 typed'))
    (hg : g ∈ spelledGlyphs.map (·.1)) : Spaced n [g] (marksAt 3 typed) (seen 3 typed') := by
  obtain ⟨-, hblank, hequal, hquestion⟩ := plain_of_glyph g hg
  have hmarks := h.succ_glyph ['?'] [] rfl (by decide)
  have hkept : (glyph ['?'] []).rewrite [g] = [g] := by
    rw [Rule.rewrite, Rule.rewriteFrom_none]
    · rfl
    · apply if_neg
      rw [List.contains_iff_mem, List.mem_singleton]
      exact hquestion.symm
  have hrule : rules[2]? = some finalEquals := rfl
  rw [hkept] at hmarks
  rw [marksAt_succ hrule, seen_succ hrule]
  apply hmarks.pass_finalEquals
  · exact ⟨g, List.mem_singleton_self g, hblank⟩
  · simpa using hequal

/-- The rules for symbols write what is written for the glyph. -/
theorem Spaced.symbols (h : Spaced n [g] (marksAt 3 typed) (seen 3 typed'))
    (hg : (g, w) ∈ spelledGlyphs) : Spaced n w (marksAt 12 typed) (seen 12 typed') := by
  have htimes := h.succ_glyph ['×', '✕', '·', '⋅'] _ rfl (by decide)
  have hover := htimes.succ_glyph ['÷'] _ rfl (by decide)
  have hminus := hover.succ_glyph ['–', '—', '−'] _ rfl (by decide)
  have hpi := hminus.succ_glyph ['π'] _ rfl (by decide)
  have hroot := hpi.succ_glyph ['√'] _ rfl (by decide)
  have hpower := hroot.succ_glyph ['^'] _ rfl (by decide)
  have hsquared := hpower.succ_glyph ['²'] _ rfl (by decide)
  have hcubed := hsquared.succ_glyph ['³'] _ rfl (by decide)
  have hdegrees := hcubed.succ_glyph ['°'] _ rfl (by decide)
  simp only [spelledGlyphs, List.mem_cons, Prod.mk.injEq, List.not_mem_nil, or_false] at hg
  rcases hg with ⟨rfl, rfl⟩ | ⟨rfl, rfl⟩ | ⟨rfl, rfl⟩ | ⟨rfl, rfl⟩
  all_goals exact hdegrees

/-- **A glyph that stands apart needs no blanks.** A line with blanks around it is respelled as the
line without them. -/
theorem spaced_expand {behind : List Char} (hg : (g, w) ∈ spelledGlyphs)
    (h : StandsApart front.length (front ++ g :: behind)) :
    Spaced front.length w (marksAt 14 (front ++ g :: behind))
      (seen 14 (front ++ ' ' :: g :: ' ' :: behind)) := by
  have hglyph : g ∈ spelledGlyphs.map (·.1) := List.mem_map.mpr ⟨_, hg, rfl⟩
  have hwritten : w ∈ spelledGlyphs.map (·.2) := List.mem_map.mpr ⟨_, hg, rfl⟩
  have hne : w ≠ [] := by
    have hall : ∀ w ∈ spelledGlyphs.map (·.2), w ≠ [] := by decide
    exact hall w hwritten
  have hrows := h.words
  simp only [List.forall_mem_cons] at hrows
  obtain ⟨hfillers, hpercents, hsquare, -⟩ := hrows
  have hwords := (spaced_ofTyped hglyph front behind).succ_word fillers rfl (List.cons_ne_nil g [])
    trims_fillers bounded_fillers opens_fillers (spares_fillers hglyph) hfillers
  have hsymbols := (hwords.dropped hglyph).symbols hg
  have hpercent := hsymbols.succ_word percents rfl hne trims_percents bounded_percents
    opens_percents (spares_percents hwritten) hpercents
  exact hpercent.succ_word square rfl hne (Rule.trims_phrase (by decide)) bounded_square
    opens_square (spares_square hwritten) hsquare

end Glyph

end Shorthand

end Reckoner
