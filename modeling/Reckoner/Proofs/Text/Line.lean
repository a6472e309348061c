import Mathlib.Data.List.TakeWhile
import Reckoner.Text.Class
import Reckoner.Text.Line

/-!
# Reckoner.Proofs.Text.Line -- white space at the ends of a line, and the caret under a place in it

No white space belongs to a word, and all of it is its own lower case. A text is padded by another
if it is the other between white space; trimming takes away all padding.

The caret of a snippet stands under the character at the place that is shown, or behind the window
if the place is the end of the line, whether or not dots are put in front of the window.
-/

namespace Reckoner.Text

/-! ## All white space -/

/-- Every character of white space. -/
def blanks : List Char :=
  blankRanges.flatMap fun (first, last) => (List.range' first (last + 1 - first)).map Char.ofNat

theorem mem_blanks {c : Char} (h : isBlank c = true) : c ∈ blanks := by
  obtain ⟨⟨first, last⟩, hrange, hfirst, hlast⟩ := CodeRange.anyHolds_iff.mp h
  refine List.mem_flatMap.mpr ⟨(first, last), hrange, List.mem_map.mpr ⟨c.toNat, ?_, ?_⟩⟩
  · rw [List.mem_range'_1]
    exact ⟨hfirst, by omega⟩
  · exact Char.ofNat_toNat c

/-- White space belongs to no word. -/
theorem isWordChar_of_isBlank {c : Char} (h : isBlank c = true) : isWordChar c = false := by
  have hall : blanks.any isWordChar = false := by decide +kernel
  exact Bool.eq_false_iff.mpr (List.any_eq_false.mp hall c (mem_blanks h))

/-- White space is its own lower case. -/
theorem lower_of_isBlank {c : Char} (h : isBlank c = true) : lower c = [c] := by
  have hall : blanks.all (fun c => lower c == [c]) = true := by decide +kernel
  exact eq_of_beq (List.all_eq_true.mp hall c (mem_blanks h))

/-- A word may end in front of white space. -/
theorem wordMayEnd_append_blanks {bs : List Char} (h : ∀ b ∈ bs, isBlank b = true)
    (cs : List Char) : wordMayEnd (cs ++ bs) = wordMayEnd cs := by
  cases cs with
  | cons c cs => rfl
  | nil =>
      cases bs with
      | nil => rfl
      | cons b bs => simp [wordMayEnd, isWordChar_of_isBlank (h b List.mem_cons_self)]

/-- A word may begin behind white space. -/
theorem wordMayBegin_of_isBlank {b : Char} (h : isBlank b = true) :
    wordMayBegin (some b) = wordMayBegin none := by
  simp [wordMayBegin, isWordChar_of_isBlank h]

/-! ## Padding -/

/-- A text that is another one with white space at its ends. -/
def Pads (cs ds : List Char) : Prop :=
  ∃ front back, (∀ b ∈ front, isBlank b = true) ∧ (∀ b ∈ back, isBlank b = true) ∧
    cs = front ++ ds ++ back

theorem trimStart_blanks {bs : List Char} (h : ∀ b ∈ bs, isBlank b = true) (cs : List Char) :
    trimStart (bs ++ cs) = trimStart cs :=
  List.dropWhile_append_of_pos h

theorem trimEnd_blanks {bs : List Char} (h : ∀ b ∈ bs, isBlank b = true) (cs : List Char) :
    trimEnd (cs ++ bs) = trimEnd cs := by
  rw [trimEnd, List.reverse_append]
  exact congrArg List.reverse
    (List.dropWhile_append_of_pos fun b hb => h b (List.mem_reverse.mp hb))

/-- What is padded by a text is trimmed to the same as the text. -/
theorem Pads.trim_eq {cs ds : List Char} (h : Pads cs ds) : trim cs = trim ds := by
  obtain ⟨front, back, hfront, hback, rfl⟩ := h
  rw [trim, trim, List.append_assoc, trimStart_blanks hfront, trimStart, trimStart,
    List.dropWhile_append]
  split
  · next hnil =>
    rw [List.isEmpty_iff] at hnil
    rw [hnil, List.dropWhile_eq_nil_iff.mpr hback]
  · exact trimEnd_blanks hback _

/-- A text pads what it is trimmed to. -/
theorem pads_trim (cs : List Char) : Pads cs (trim cs) := by
  have hrow (cs : List Char) : ∀ b ∈ cs.takeWhile isBlank, isBlank b = true :=
    fun b hb => List.all_eq_true.mp List.all_takeWhile b hb
  refine ⟨cs.takeWhile isBlank, ((trimStart cs).reverse.takeWhile isBlank).reverse, hrow cs,
    fun b hb => hrow _ b (List.mem_reverse.mp hb), ?_⟩
  rw [trim, trimEnd, List.append_assoc, ← List.reverse_append, List.takeWhile_append_dropWhile,
    List.reverse_reverse, trimStart, List.takeWhile_append_dropWhile]

theorem flatMap_lower_of_forall {cs : List Char} (h : ∀ c ∈ cs, lower c = [c]) :
    cs.flatMap lower = cs := by
  induction cs with
  | nil => rfl
  | cons c cs ih =>
      rw [List.forall_mem_cons] at h
      rw [List.flatMap_cons, h.1, ih h.2, List.cons_append, List.nil_append]

/-- Lowering a text keeps its padding. -/
theorem Pads.flatMap_lower {cs ds : List Char} (h : Pads cs ds) :
    Pads (cs.flatMap lower) (ds.flatMap lower) := by
  obtain ⟨front, back, hfront, hback, rfl⟩ := h
  refine ⟨front, back, hfront, hback, ?_⟩
  rw [List.flatMap_append, List.flatMap_append,
    flatMap_lower_of_forall fun b hb => lower_of_isBlank (hfront b hb),
    flatMap_lower_of_forall fun b hb => lower_of_isBlank (hback b hb)]

/-! ## Snippets -/

/-- Two lines that point to a place of a line: a window that shows a part of the line, and a caret
under the character at the place, or behind the window if there is none. -/
def PointsTo (cs : List Char) (place : Nat) (lines : String) : Prop :=
  ∃ lead shown tail indent, lead ∈ [[], moreDots] ∧ tail ∈ [[], moreDots] ∧ shown <:+: cs ∧
    lines = String.ofList (lead ++ shown ++ tail ++ '\n' :: List.replicate indent ' ' ++ ['^']) ∧
    (lead ++ shown ++ tail)[indent]? = cs[place]? ∧
    (place = cs.length → indent = (lead ++ shown ++ tail).length)

variable {cs : List Char} {place : Nat}

theorem dots_mem (p : Prop) [Decidable p] : (if p then moreDots else []) ∈ [[], moreDots] := by
  split <;> simp

/-- What is shown from a place before the window's end on is the line from there on. -/
theorem getElem?_span {start stop : Nat} (hstart : start ≤ place) (hstop : place < stop) :
    (span cs start stop)[place - start]? = cs[place]? := by
  have hnonneg : ¬ (stop : Int) < 0 := Int.not_lt.mpr (Int.natCast_nonneg stop)
  rw [span, if_neg hnonneg, Int.toNat_natCast, List.getElem?_drop, Nat.add_sub_cancel' hstart,
    List.getElem?_take_of_lt hstop]

theorem length_span {start : Nat} : (span cs start cs.length).length = cs.length - start := by
  have hnonneg : ¬ (cs.length : Int) < 0 := Int.not_lt.mpr (Int.natCast_nonneg _)
  rw [span, if_neg hnonneg, Int.toNat_natCast, List.take_length, List.length_drop]

theorem span_infix (cs : List Char) (start : Nat) (stop : Int) :
    span cs start stop <:+: cs :=
  (List.drop_suffix _ _).isInfix.trans (List.take_prefix _ _).isInfix

/-- The snippet for a place of the line, without the cases that only other integers meet. -/
theorem snippetLines_natCast (h : place ≤ cs.length) :
    snippetLines cs place =
      ((if 0 < place - 10 then moreDots else []) ++
          span cs (place - 10) (min cs.length (place + 10) : Nat) ++
          (if place + 10 < cs.length then moreDots else []),
        (if 0 < place - 10 then moreDots else []).length + (place - (place - 10))) := by
  have hstart : ((place : Int) - windowReach).toNat = place - 10 := by
    rw [windowReach]
    omega
  have hstop : min (cs.length : Int) ((place : Int) + windowReach) =
      (min cs.length (place + 10) : Nat) := by
    rw [windowReach]
    omega
  have hgoesOn : ((min cs.length (place + 10) : Nat) : Int) < cs.length ↔
      place + 10 < cs.length := by omega
  rw [snippetLines, hstart, hstop]
  simp only [hgoesOn, gt_iff_lt]
  refine Prod.ext rfl ?_
  show ((place : Int) - (place - 10 : Nat) + (_ : Nat)).toNat = _
  omega

/-- **The caret of a snippet points to its place**, for every place of a line and its end. -/
theorem snippet_pointsTo (line : String) {place : Nat} (h : place ≤ line.toList.length) :
    PointsTo line.toList place (snippet line place) := by
  rw [snippet, snippetLines_natCast h]
  refine ⟨_, _, _, _, dots_mem _, dots_mem _, span_infix _ _ _, rfl, ?_⟩
  rcases Nat.lt_or_eq_of_le h with hlt | rfl
  · refine ⟨?_, fun heq => absurd heq (Nat.ne_of_lt hlt)⟩
    have hspan : (span line.toList (place - 10)
        (min line.toList.length (place + 10) : Nat))[place - (place - 10)]? = line.toList[place]? :=
      getElem?_span (Nat.sub_le _ _) (Nat.lt_min.mpr ⟨hlt, by omega⟩)
    have hshown := hspan.trans (List.getElem?_eq_getElem hlt)
    -- the caret is as far behind the dots as the place is behind the start of what is shown
    rw [List.append_assoc, List.getElem?_append_right (Nat.le_add_right _ _),
      Nat.add_sub_cancel_left,
      List.getElem?_append_left (List.getElem?_eq_some_iff.mp hshown).1, hspan]
  · -- at the end of the line the window ends with it, and no dots follow
    have htail : ¬ line.toList.length + 10 < line.toList.length := by omega
    rw [if_neg htail, List.append_nil, Nat.min_eq_left (Nat.le_add_right _ 10)]
    have hlength : ((if 0 < line.toList.length - 10 then moreDots else []) ++
        span line.toList (line.toList.length - 10) line.toList.length).length =
          (if 0 < line.toList.length - 10 then moreDots else []).length +
            (line.toList.length - (line.toList.length - 10)) := by
      rw [List.length_append, length_span]
    refine ⟨?_, fun _ => hlength.symm⟩
    rw [← hlength, List.getElem?_eq_none (Nat.le_refl _), List.getElem?_eq_none (Nat.le_refl _)]

end Reckoner.Text
