import Mathlib.Data.List.Infix
import Reckoner.Proofs.Source.Spaced
import Reckoner.Proofs.Token.Reads

/-!
# Reckoner.Proofs.Token.Spaced -- glyphs that run into nothing

A glyph that stands apart leaves a seam on either side of what is written for it, for the standard
units: none of their names has a slash next to that. Hence blanks around such a glyph make no
difference to the tokens of a line. Around another one they may: two glyphs that are written as
words become one word where they are typed without a blank between them.
-/

namespace Reckoner

open Text (isBlank)
open Shorthand (spelledGlyphs StandsApart Spaced)

namespace Token

variable {front back w : List Char}

/-- No name of a standard unit has what is written for a glyph next to its slash. -/
theorem slash_of_written : ∀ w ∈ spelledGlyphs.map (·.2), ∀ name ∈ UnitTable.standard.names,
    ('/' :: w.takeWhile isWordChar <:+ name.toList → w.takeWhile isWordChar = []) ∧
      ∀ first ∈ w.tails, ¬ first ++ ['/'] <+: name.toList := by
  decide

/-- What is written for a glyph is not empty, has no white space in it, and has no slash at either
end. -/
theorem ends_of_written : ∀ w ∈ spelledGlyphs.map (·.2), w ≠ [] ∧
    (∀ c ∈ w, isBlank c = false) ∧ w.head? ≠ some '/' ∧ w.getLast? ≠ some '/' := by
  decide

section Glyph

variable (hw : w ∈ spelledGlyphs.map (·.2))

include hw

/-- In front of what is written for a glyph there is a seam if it runs into nothing. -/
theorem seam_front (hfront : ∀ p ∈ [isNumeralChar, isWordChar, (· == '*')], Apart p front w)
    (hback : Apart isWordChar w back) : Seam UnitTable.standard.names front (w ++ back) := by
  obtain ⟨hne, -, hhead, -⟩ := ends_of_written w hw
  simp only [List.forall_mem_cons] at hfront
  obtain ⟨hnumeral, hword, hasterisk, -⟩ := hfront
  refine ⟨hnumeral.append_right hne, hword.append_right hne, hasterisk.append_right hne,
    fun first _ hletters hunit => ?_, fun first more _ hslash => ?_⟩
  · rw [hback.takeWhile_append hne] at hletters hunit
    refine hletters ((slash_of_written w hw _ hunit).1 ?_)
    rw [String.toList_ofList]
    exact List.suffix_append first _
  · have hwhole : (w ++ back).head? = w.head? := List.head?_append_of_ne_nil w hne
    rw [← hwhole, hslash] at hhead
    exact absurd rfl hhead

/-- So there is behind it, also with a blank in front. -/
theorem seam_back (hback : ∀ p ∈ [isNumeralChar, isWordChar, (· == '*')], Apart p w back) :
    Seam UnitTable.standard.names (front ++ ' ' :: w) back := by
  obtain ⟨hne, -, -, hlast⟩ := ends_of_written w hw
  have hcons := List.append_cons front ' ' w
  simp only [List.forall_mem_cons] at hback
  obtain ⟨hnumeral, hword, hasterisk, -⟩ := hback
  rw [hcons]
  refine ⟨hnumeral.append_left hne, hword.append_left hne, hasterisk.append_left hne,
    fun first hslash => ?_, fun first more hfirst _ _ hunit => ?_⟩
  · obtain ⟨piece, hpiece⟩ := hslash
    have hend := congrArg List.getLast? hpiece
    rw [List.getLast?_append_of_ne_nil _ hne, ← List.append_assoc, List.getLast?_concat] at hend
    exact absurd hend.symm hlast
  · -- a name has no blank in it
    have hplain := unitNames_standard.isCompoundChar hunit
    have htail : first ∈ w.tails := by
      rw [List.mem_tails]
      rcases List.suffix_or_suffix_of_suffix hfirst (List.suffix_append _ w) with hsuffix | hsuffix
      · exact hsuffix
      · obtain ⟨piece, rfl⟩ := hsuffix
        have hpiece := ((List.suffix_append_inj_of_length_eq rfl).mp hfirst).1
        rcases List.suffix_concat_iff.mp hpiece with rfl | ⟨more, rfl, -⟩
        · exact List.suffix_rfl
        · exact absurd (hplain ' ' (by simp)) (by decide)
    refine (slash_of_written w hw _ hunit).2 first htail ?_
    rw [String.toList_ofList]
    exact ⟨_, List.append_assoc first ['/'] _⟩

/-- **Blanks around what is written for a glyph make no difference** if that runs into nothing. -/
theorem reads_spaced {gap : List Char}
    (hends : ∀ p ∈ [isNumeralChar, isWordChar, (· == '*')], Apart p front w ∧ Apart p w back)
    (hlower : ∀ c ∈ front ++ (w ++ back), c.isUpper = false) (hgap : gap = [] ∨ gap = [' '])
    (ts : List Token) :
    Reads UnitTable.standard.names (front ++ ' ' :: (w ++ (gap ++ back))) ts ↔
      Reads UnitTable.standard.names (front ++ (w ++ back)) ts := by
  have hfront := seam_front hw (fun p hp => (hends p hp).1) (hends isWordChar (by simp)).2
  have hback : Seam UnitTable.standard.names (front ++ ' ' :: w) back :=
    seam_back hw fun p hp => (hends p hp).2
  have hinner := reads_seam unitNames_standard hfront hlower (show isBlank ' ' = true by decide) ts
  rcases hgap with rfl | rfl
  · exact hinner
  · have hlower' : ∀ c ∈ front ++ ' ' :: w ++ back, c.isUpper = false := by
      simp only [List.forall_mem_append, List.forall_mem_cons] at hlower ⊢
      exact ⟨⟨hlower.1, by decide, hlower.2.1⟩, hlower.2.2⟩
    have houter := reads_seam unitNames_standard hback hlower'
      (show isBlank ' ' = true by decide) ts
    rw [List.append_assoc, List.append_assoc] at houter
    exact houter.trans hinner

end Glyph

/-! ## Typed lines -/

/-- A text with a character in it that is no white space is not trimmed to nothing. -/
theorem trim_ne_nil {cs : List Char} (h : ∃ c ∈ cs, isBlank c = false) : Text.trim cs ≠ [] := by
  obtain ⟨c, hc, hnot⟩ := h
  obtain ⟨front, back, hfront, hback, hcs⟩ := Text.pads_trim cs
  intro hnil
  rw [hnil, List.append_nil] at hcs
  have hblank : isBlank c = true := by
    rw [hcs] at hc
    rcases List.mem_append.mp hc with hc | hc
    · exact hfront c hc
    · exact hback c hc
  rw [hnot] at hblank
  cases hblank

/-- **A line with blanks around a glyph that stands apart is read as the line without them.** -/
theorem ofTyped_spaced {g : Char} (hg : g ∈ ['π', '√', '²', '³']) (front behind : List Char)
    (h : StandsApart front.length (front ++ g :: behind)) :
    (ofTyped UnitTable.standard.names
        (String.ofList (front ++ ' ' :: g :: ' ' :: behind))).toOption.map (·.map unplaced) =
      (ofTyped UnitTable.standard.names
        (String.ofList (front ++ g :: behind))).toOption.map (·.map unplaced) := by
  obtain ⟨⟨g, w⟩, hrow, rfl⟩ := List.mem_map.mp (show g ∈ spelledGlyphs.map (·.1) from hg)
  have hw : w ∈ spelledGlyphs.map (·.2) := List.mem_map.mpr ⟨_, hrow, rfl⟩
  obtain ⟨fronts, middles, backs, gap, hparted, hmarks, rfl, hgap, hspaced⟩ :=
    Shorthand.spaced_expand hrow h
  have hplain : Shorthand.seen 14 (front ++ g :: behind) =
      fronts.map (·.char) ++ (middles.map (·.char) ++ backs.map (·.char)) := by
    rw [Shorthand.seen, hmarks, List.map_append, List.map_append]
  have hlower := isUpper_of_seen (front ++ g :: behind)
  have hends := h.ends
  rw [hmarks, hparted.textBefore_eq, hparted.textAt_eq, hparted.textBehind_eq] at hends
  rw [hplain] at hlower
  have hreads := reads_spaced hw hends hlower hgap
  -- what is written for the glyph is left when the line is trimmed
  have hleft {text : List Char} (h : ∀ c ∈ middles.map (·.char), c ∈ text) :
      Text.trim text ≠ [] := by
    obtain ⟨hne, hvisible, -⟩ := ends_of_written _ hw
    obtain ⟨c, hc⟩ := List.exists_mem_of_ne_nil _ hne
    exact trim_ne_nil ⟨c, h c hc, hvisible c hc⟩
  apply Option.ext
  intro ts
  rw [ofTyped_reads unitNames_standard, ofTyped_reads unitNames_standard, String.toList_ofList,
    String.toList_ofList, hspaced, hplain]
  simp only [hreads]
  refine and_congr_left fun _ => iff_of_true (hleft ?_) (hleft ?_)
  · intro c hc
    simp [hc]
  · intro c hc
    simp [hc]

/-- A square between two names stands apart: the power is an operator and a number of its own. -/
theorem ofTyped_spaced_of_names :
    StandsApart 1 "x²y".toList ∧
      (ofTyped UnitTable.standard.names "x ² y").toOption.map (·.map unplaced) =
        (ofTyped UnitTable.standard.names "x²y").toOption.map (·.map unplaced) ∧
      (ofTyped UnitTable.standard.names "x²y").toOption.map (·.map (·.lexeme)) =
        some ["x", "**", "2", "*", "y", ""] := by
  have happart : StandsApart 1 "x²y".toList := by decide +kernel
  refine ⟨happart, ?_, by decide +kernel⟩
  exact ofTyped_spaced (by decide) ['x'] ['y'] happart

/-- The glyphs of a root and of π with nothing between them are one name. -/
example : (ofTyped UnitTable.standard.names "√π").toOption.map (·.map (·.lexeme)) =
    some ["sqrtpi", ""] := by
  decide +kernel

end Token

end Reckoner
