import Reckoner.Proofs.Source.Legible
import Reckoner.Proofs.Source.Within

/-!
# Reckoner.Proofs.Source.Product -- which multiplication signs are put in

The signs that are put into a text are told from those that were typed by a label (`signed`).
Without the labels this is the text with its signs, without the signs the text before, and behind
it there is nothing left to do: where a factor may come in the outcome, none starts.
-/

namespace Reckoner.Product

variable {units : List String} {admitted : Bool}

/-- The marks of a text with its multiplication signs written, each with whether it is a sign that
has been put in. -/
def signedFrom (units : List String) : (admitted : Bool) → List Mark → List (Mark × Bool)
  | _, [] => []
  | admitted, m :: ms =>
    let rest := (m, false) :: signedFrom units (admitsFactor admitted m.char) ms
    if admitted && startsFactor units ((m :: ms).map (·.char)) then (⟨'*', m.origin⟩, true) :: rest
    else rest

/-- The marks of a text with its multiplication signs, the signs that have been put in labelled. -/
def signed (units : List String) (marks : List Mark) : List (Mark × Bool) :=
  signedFrom units false marks

/-! ## Labels and signs -/

theorem signedFrom_marks (admitted : Bool) (marks : List Mark) :
    (signedFrom units admitted marks).map (·.1) =
      insertFrom units admitted (marks.map (·.char)) (marks.map (·.origin)) := by
  induction marks generalizing admitted with
  | nil => rfl
  | cons m ms ih =>
      rw [signedFrom, List.map_cons, List.map_cons, insertFrom, ← ih]
      split
      · rfl
      · rfl

/-- Without labels this is the text with its signs. -/
theorem signed_marks (marks : List Mark) : (signed units marks).map (·.1) = insert units marks :=
  signedFrom_marks false marks

theorem signedFrom_kept (admitted : Bool) (marks : List Mark) :
    ((signedFrom units admitted marks).filter (!·.2)).map (·.1) = marks := by
  induction marks generalizing admitted with
  | nil => rfl
  | cons m ms ih =>
      rw [signedFrom]
      split
      · rw [List.filter_cons_of_neg (by simp), List.filter_cons_of_pos (by simp), List.map_cons, ih]
      · rw [List.filter_cons_of_pos (by simp), List.map_cons, ih]

/-- Without the signs this is the text before. -/
theorem signed_kept (marks : List Mark) :
    ((signed units marks).filter (!·.2)).map (·.1) = marks :=
  signedFrom_kept false marks

/-! ## Factors before and after -/

/-- Whether a factor may come behind some characters. -/
def admitsBehind (admitted : Bool) (cs : List Char) : Bool := cs.foldl admitsFactor admitted

theorem admitsBehind_cons (admitted : Bool) (c : Char) (cs : List Char) :
    admitsBehind admitted (c :: cs) = admitsBehind (admitsFactor admitted c) cs := rfl

theorem admitsBehind_append (admitted : Bool) (cs ds : List Char) :
    admitsBehind admitted (cs ++ ds) = admitsBehind (admitsBehind admitted cs) ds :=
  List.foldl_append

theorem admitsBehind_digit {c : Char} (h : Text.isDecimalDigit c = true) (admitted : Bool)
    (cs : List Char) : admitsBehind admitted (cs ++ [c]) = true := by
  rw [admitsBehind_append, admitsBehind_cons, admitsFactor, h]
  rfl

/-- White space lets a factor come if one might have come before it. -/
theorem admitsBehind_blanks {cs : List Char} (h : ∀ c ∈ cs, Text.isBlank c = true) :
    admitsBehind true cs = true := by
  induction cs with
  | nil => rfl
  | cons c cs ih =>
      rw [List.forall_mem_cons] at h
      rw [admitsBehind_cons, admitsFactor, h.1, Bool.true_and, Bool.or_true]
      exact ih h.2

/-- Behind a multiplication sign no factor has to be looked for. -/
theorem ne_star_of_admitsBehind {cs : List Char} (h : admitsBehind false cs = true) :
    ∀ c ∈ cs.getLast?, c ≠ '*' := by
  rintro c hc rfl
  obtain ⟨front, rfl⟩ := List.getLast?_eq_some_iff.mp hc
  rw [admitsBehind_append] at h
  revert h
  generalize admitsBehind false front = admitted
  cases admitted <;> decide

/-- A factor starts with an opening bracket or a letter. -/
theorem startsFactor_cons {cs : List Char} (h : startsFactor units cs = true) :
    ∃ c rest, cs = c :: rest ∧ (c = '(' ∨ isWordLetter c = true) := by
  cases cs with
  | nil => cases h
  | cons c rest =>
      refine ⟨c, rest, rfl, ?_⟩
      by_cases hbracket : c = '('
      · exact .inl hbracket
      · right
        cases hletter : isWordLetter c with
        | true => rfl
        | false =>
            rw [startsFactor_eq_false hbracket hletter] at h
            cases h

/-- A word is a factor if it is neither a unit nor asks for a conversion. -/
theorem startsFactor_letter {c : Char} (h : isWordLetter c = true) (cs : List Char) :
    startsFactor units (c :: cs) = true ↔
      leadingWord units (c :: cs.takeWhile isCompoundChar) ∉ units ∧
        leadingWord units (c :: cs.takeWhile isCompoundChar) ∉ conversionKeywords := by
  have hbracket : c ≠ '(' := by
    rintro rfl
    exact absurd h (by decide)
  unfold startsFactor
  split
  · next heq => exact absurd (List.cons.inj heq).1 hbracket
  · next heq =>
    cases heq
    simp [h]
  · next hnil => cases hnil

/-- Of a text behind a letter only the compound that it goes on with matters. -/
theorem startsFactor_congr {c : Char} {cs ds : List Char} (h : isWordLetter c = true →
    cs.takeWhile isCompoundChar = ds.takeWhile isCompoundChar) :
    startsFactor units (c :: cs) = startsFactor units (c :: ds) := by
  by_cases hbracket : c = '('
  · subst hbracket
    rfl
  cases hletter : isWordLetter c with
  | false => rw [startsFactor_eq_false hbracket hletter, startsFactor_eq_false hbracket hletter]
  | true =>
      rw [Bool.eq_iff_iff, startsFactor_letter hletter, startsFactor_letter hletter, h hletter]

/-- The characters of a text with its signs. -/
def signedChars (units : List String) (admitted : Bool) (marks : List Mark) : List Char :=
  (signedFrom units admitted marks).map (·.1.char)

theorem signedChars_cons (m : Mark) (ms : List Mark) :
    signedChars units admitted (m :: ms) =
      if admitted && startsFactor units ((m :: ms).map (·.char)) then
        '*' :: m.char :: signedChars units (admitsFactor admitted m.char) ms
      else m.char :: signedChars units (admitsFactor admitted m.char) ms := by
  rw [signedChars, signedFrom]
  split <;> rfl

/-- No sign is put into a compound. -/
theorem takeWhile_signedChars (marks : List Mark) :
    (signedChars units false marks).takeWhile isCompoundChar =
      (marks.map (·.char)).takeWhile isCompoundChar := by
  induction marks with
  | nil => rfl
  | cons m ms ih =>
      rw [signedChars_cons, Bool.false_and, if_neg Bool.false_ne_true, List.map_cons]
      cases hm : isCompoundChar m.char with
      | false =>
          rw [List.takeWhile_cons_of_neg (by simp [hm]), List.takeWhile_cons_of_neg (by simp [hm])]
      | true =>
          rw [List.takeWhile_cons_of_pos hm, List.takeWhile_cons_of_pos hm,
            admitsFactor_of_isCompoundChar hm, ih]

/-- So a factor starts in the text with its signs where one started before. -/
theorem startsFactor_signedChars (m : Mark) (ms : List Mark) :
    startsFactor units (m.char :: signedChars units (admitsFactor admitted m.char) ms) =
      startsFactor units ((m :: ms).map (·.char)) := by
  refine startsFactor_congr fun hletter => ?_
  have hcompound : isCompoundChar m.char = true := by simp [isCompoundChar, hletter]
  rw [admitsFactor_of_isCompoundChar hcompound, takeWhile_signedChars]

/-- What a factor starts with is not white space, so that it does not keep another from coming. -/
theorem admitsFactor_of_startsFactor {c : Char} {cs : List Char}
    (h : startsFactor units (c :: cs) = true) (admitted : Bool) :
    admitsFactor admitted c = false := by
  obtain ⟨_, _, heq, hfirst⟩ := startsFactor_cons h
  obtain ⟨rfl, -⟩ := List.cons.inj heq
  rcases hfirst with rfl | hletter
  · cases admitted <;> decide
  · exact admitsFactor_of_isCompoundChar (by simp [isCompoundChar, hletter]) admitted

/-- **Every factor has its sign.** Where a factor may come in the text with its signs, none
starts. -/
theorem unfactored_signedChars (admitted : Bool) (marks : List Mark) :
    Unfactored units admitted (signedChars units admitted marks) := by
  induction marks generalizing admitted with
  | nil => trivial
  | cons m ms ih =>
      have hrest := ih (admitsFactor admitted m.char)
      rw [signedChars_cons]
      split
      · next hsign =>
        rw [Bool.and_eq_true] at hsign
        have hstar : startsFactor units
            ('*' :: m.char :: signedChars units (admitsFactor admitted m.char) ms) = false :=
          startsFactor_eq_false (by decide) (by decide)
        have hadmits : admitsFactor admitted '*' = false := by cases admitted <;> decide
        -- behind the sign no factor may come, and behind its first character none in any case
        have hfirst : admitsFactor false m.char = admitsFactor admitted m.char := by
          rw [admitsFactor_of_startsFactor hsign.2, admitsFactor_of_startsFactor hsign.2]
        refine ⟨by rw [hstar, Bool.and_false], ?_⟩
        rw [hadmits]
        refine ⟨by rw [Bool.false_and], ?_⟩
        rw [hfirst]
        exact hrest
      · next hnone =>
        refine ⟨?_, hrest⟩
        rw [startsFactor_signedChars]
        exact Bool.eq_false_iff.mpr hnone

theorem unfactored_behind {cs ds : List Char} (h : Unfactored units admitted (cs ++ ds)) :
    Unfactored units (admitsBehind admitted cs) ds := by
  induction cs generalizing admitted with
  | nil => exact h
  | cons c cs ih => exact ih h.2

/-- **Every sign has its factor.** In front of a sign that has been put in a factor may come, and
one starts behind it. -/
theorem signedFrom_sign {marks : List Mark} {front back : List (Mark × Bool)} {sign : Mark}
    (h : signedFrom units admitted marks = front ++ (sign, true) :: back) :
    sign.char = '*' ∧ admitsBehind admitted (front.map (·.1.char)) = true ∧
      startsFactor units (back.map (·.1.char)) = true := by
  induction marks generalizing admitted front with
  | nil =>
      rw [signedFrom] at h
      exact absurd h.symm (by simp)
  | cons m ms ih =>
      -- a sign behind the first character is one of the text behind it
      have hlater {front : List (Mark × Bool)}
          (h : (m, false) :: signedFrom units (admitsFactor admitted m.char) ms =
            front ++ (sign, true) :: back) :
          sign.char = '*' ∧ (∃ behind, front = (m, false) :: behind ∧
            admitsBehind (admitsFactor admitted m.char) (behind.map (·.1.char)) = true) ∧
              startsFactor units (back.map (·.1.char)) = true := by
        cases front with
        | nil => cases h
        | cons first front =>
            obtain ⟨rfl, hbehind⟩ := List.cons.inj h
            obtain ⟨hstar, hadmits, hstarts⟩ := ih hbehind
            exact ⟨hstar, ⟨front, rfl, hadmits⟩, hstarts⟩
      rw [signedFrom] at h
      split at h
      · next hsign =>
        rw [Bool.and_eq_true] at hsign
        cases front with
        | nil =>
            obtain ⟨hfirst, rfl⟩ := List.cons.inj h
            obtain ⟨rfl, -⟩ := Prod.mk.inj hfirst
            refine ⟨rfl, hsign.1, ?_⟩
            rw [List.map_cons]
            exact (startsFactor_signedChars m ms).trans hsign.2
        | cons first front =>
            obtain ⟨rfl, hbehind⟩ := List.cons.inj h
            obtain ⟨hstar, ⟨front, rfl, hadmits⟩, hstarts⟩ := hlater hbehind
            refine ⟨hstar, ?_, hstarts⟩
            rw [List.map_cons, List.map_cons, admitsBehind_cons, admitsBehind_cons,
              admitsFactor_of_startsFactor hsign.2]
            rw [admitsFactor_of_startsFactor hsign.2] at hadmits
            exact hadmits
      · obtain ⟨hstar, ⟨front, rfl, hadmits⟩, hstarts⟩ := hlater h
        refine ⟨hstar, ?_, hstarts⟩
        rw [List.map_cons, admitsBehind_cons]
        exact hadmits

end Reckoner.Product
