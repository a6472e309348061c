import Reckoner.Source.Typed

/-!
# Reckoner.Proofs.Source.Rule -- where a rule does not apply

A pass of a rule that applies nowhere in a text gives the text back. A phrase of letters applies
only where a whole word of the text is that phrase, so it does not apply inside or across words.
-/

namespace Reckoner.Rule

open Text (isWordChar wordMayBegin wordMayEnd isBlank)

variable {rule : Rule} {cs rest : List Char} {c : Char}

/-- A rule applies nowhere in a text that stands behind `before`. -/
def Idle (rule : Rule) : (before : Option Char) → List Char → Prop
  | _, [] => True
  | before, c :: cs => rule before (c :: cs) = none ∧ Idle rule (some c) cs

theorem passFrom_of_idle {before : Option Char} {os : List Nat} (h : Idle rule before cs) :
    passFrom rule before 0 cs os = List.zipWith Mark.mk cs os := by
  induction cs generalizing before os with
  | nil => cases os <;> rfl
  | cons c cs ih =>
      cases os with
      | nil => rfl
      | cons o os =>
          rw [passFrom, h.1]
          show (⟨c, o⟩ : Mark) :: passFrom rule (some c) 0 cs os = _
          rw [ih h.2, List.zipWith_cons_cons]

/-- A pass of a rule that applies nowhere changes nothing. -/
theorem pass_of_idle {marks : List Mark} (h : Idle rule none (marks.map (·.char))) :
    rule.pass marks = marks := by
  rw [pass, passFrom_of_idle h]
  simp

/-- Passes of rules that apply nowhere change nothing. -/
theorem foldl_pass_of_idle {rules : List Rule} {marks : List Mark}
    (h : ∀ r ∈ rules, Idle r none (marks.map (·.char))) :
    rules.foldl (fun ms r => r.pass ms) marks = marks := by
  induction rules with
  | nil => rfl
  | cons r rules ih =>
      rw [List.forall_mem_cons] at h
      rw [List.foldl_cons, pass_of_idle h.1, ih h.2]

/-! ## Glyphs, and the first of some rules -/

theorem idle_of_forall (h : ∀ c ∈ cs, ∀ before rest, rule before (c :: rest) = none)
    (before : Option Char) : Idle rule before cs := by
  induction cs generalizing before with
  | nil => trivial
  | cons c cs ih =>
      rw [List.forall_mem_cons] at h
      exact ⟨h.1 before cs, ih h.2 _⟩

theorem idle_glyph {glyphs written : List Char} (h : ∀ c ∈ cs, c ∉ glyphs)
    (before : Option Char) : Idle (glyph glyphs written) before cs := by
  refine idle_of_forall (fun c hc before rest => ?_) before
  rw [glyph, if_neg (by simp [h c hc])]

theorem idle_firstOf {rules : List Rule} {before : Option Char}
    (h : ∀ r ∈ rules, Idle r before cs) : Idle (firstOf rules) before cs := by
  induction cs generalizing before with
  | nil => trivial
  | cons c cs ih =>
      refine ⟨?_, ih fun r hr => (h r hr).2⟩
      rw [firstOf, List.findSome?_eq_none_iff]
      exact fun r hr => (h r hr).1

/-! ## Phrases -/

/-- Whether a part of a phrase can start with a character. -/
def Piece.Admits : Piece → Char → Prop
  | .letter l, c => c = l
  | .blanks, c => isBlank c = true

/-- A phrase with a part that no character of a text starts does not apply to the text. -/
theorem phraseLength?_eq_none {pieces : List Piece} {p : Piece} (hp : p ∈ pieces)
    (h : ∀ c ∈ cs, ¬ p.Admits c) : phraseLength? pieces cs = none := by
  induction pieces generalizing cs with
  | nil => cases hp
  | cons q pieces ih =>
      cases cs with
      | nil => cases q <;> rfl
      | cons c cs =>
          have hrest : ∀ d ∈ cs, ¬ p.Admits d := fun d hd => h d (List.mem_cons_of_mem c hd)
          rcases List.mem_cons.mp hp with rfl | hmem
          · -- the part itself is up, and the first character does not start it
            cases p with
            | letter l =>
                have hc : ¬ c = l := h c List.mem_cons_self
                rw [phraseLength?, if_neg hc]
            | blanks =>
                have hc : ¬ isBlank c = true := h c List.mem_cons_self
                rw [phraseLength?, if_neg hc]
          · -- another part is up, and the phrase fails behind it
            cases q with
            | letter l =>
                rw [phraseLength?, ih hmem hrest]
                split <;> rfl
            | blanks =>
                have hbehind (n : Nat) : phraseLength? pieces (cs.drop n) = none :=
                  ih hmem fun d hd => hrest d (List.mem_of_mem_drop hd)
                rw [phraseLength?]
                simp only [hbehind, Option.map_none, ite_self]

theorem idle_phrase_of_piece {pieces : List Piece} {written : List Char} {p : Piece}
    (hp : p ∈ pieces) (h : ∀ c ∈ cs, ¬ p.Admits c) (before : Option Char) :
    Idle (phrase pieces written) before cs := by
  induction cs generalizing before with
  | nil => trivial
  | cons c cs ih =>
      refine ⟨?_, ih (fun d hd => h d (List.mem_cons_of_mem c hd)) _⟩
      rw [phrase, phraseLength?_eq_none hp h]
      split <;> rfl

/-- A text that starts with some letters has them in front. -/
theorem phraseLength?_letters (letters : List Char) {taken : Nat}
    (h : phraseLength? (letters.map .letter) cs = some taken) :
    taken = letters.length ∧ ∃ rest, cs = letters ++ rest := by
  induction letters generalizing cs taken with
  | nil =>
      cases h
      exact ⟨rfl, cs, rfl⟩
  | cons l letters ih =>
      cases cs with
      | nil => cases h
      | cons c cs =>
          rw [List.map_cons, phraseLength?] at h
          split at h
          · next hc =>
            obtain ⟨taken', htaken, rfl⟩ := Option.map_eq_some_iff.mp h
            obtain ⟨rfl, rest, rfl⟩ := ih htaken
            exact ⟨rfl, rest, by rw [hc, List.cons_append]⟩
          · cases h

section Words

variable {letters written word : List Char} (hletters : ∀ c ∈ letters, isWordChar c = true)

include hletters

/-- A phrase of letters does not apply at the start of another word. -/
theorem phrase_word (before : Option Char) (hword : ∀ c ∈ word, isWordChar c = true)
    (hne : word ≠ letters) (hrest : wordMayEnd rest = true) :
    phrase (letters.map .letter) written before (word ++ rest) = none := by
  unfold phrase
  split
  · cases hlength : phraseLength? (letters.map .letter) (word ++ rest) with
    | none => rfl
    | some taken =>
        obtain ⟨rfl, rest', heq⟩ := phraseLength?_letters _ hlength
        have hend : wordMayEnd rest' = false := by
          -- of two words with nothing of the same class behind them neither can go on
          rcases List.append_eq_append_iff.mp heq with ⟨more, rfl, rfl⟩ | ⟨more, rfl, rfl⟩
          · cases more with
            | nil => exact absurd (List.append_nil word).symm hne
            | cons c more =>
                have hc : isWordChar c = true := hletters c (by simp)
                simp [wordMayEnd, hc] at hrest
          · cases more with
            | nil => exact absurd (List.append_nil letters) hne
            | cons c more =>
                have hc : isWordChar c = true := hword c (by simp)
                simp [wordMayEnd, hc]
        rw [Option.bind_some, heq, List.drop_left, hend]
        rfl
  · rfl

/-- A phrase of letters applies neither in a word that it is not, nor behind it. -/
theorem idle_phrase_word (hword : ∀ c ∈ word, isWordChar c = true) (hne : word ≠ letters)
    (hend : wordMayEnd rest = true)
    (hrest : ∀ before, Idle (phrase (letters.map .letter) written) before rest)
    (before : Option Char) :
    Idle (phrase (letters.map .letter) written) before (word ++ rest) := by
  -- inside a word no phrase may begin
  have hinside {c : Char} (hc : isWordChar c = true) {cs : List Char}
      (hcs : ∀ d ∈ cs, isWordChar d = true) :
      Idle (phrase (letters.map .letter) written) (some c) (cs ++ rest) := by
    induction cs generalizing c with
    | nil => exact hrest _
    | cons d cs ih =>
        rw [List.forall_mem_cons] at hcs
        refine ⟨?_, ih hcs.1 hcs.2⟩
        rw [phrase, if_neg (by simp [wordMayBegin, hc])]
  cases hw : word with
  | nil => exact hrest before
  | cons c cs =>
      have hstart : phrase (letters.map .letter) written before (word ++ rest) = none :=
        phrase_word hletters before hword hne hend
      rw [hw] at hstart hword
      rw [List.forall_mem_cons] at hword
      exact ⟨hstart, hinside hword.1 hword.2⟩

/-- A phrase of letters does not apply at characters that belong to no word. -/
theorem idle_phrase_marks {marks : List Char} (hnil : letters ≠ [])
    (hmarks : ∀ c ∈ marks, isWordChar c = false)
    (hrest : ∀ before, Idle (phrase (letters.map .letter) written) before rest)
    (before : Option Char) :
    Idle (phrase (letters.map .letter) written) before (marks ++ rest) := by
  induction marks generalizing before with
  | nil => exact hrest before
  | cons c marks ih =>
      rw [List.forall_mem_cons] at hmarks
      refine ⟨?_, ih hmarks.2 _⟩
      obtain ⟨l, letters, rfl⟩ := List.exists_cons_of_ne_nil hnil
      have hne : c ≠ l := by
        rintro rfl
        exact absurd (hletters c List.mem_cons_self) (by simp [hmarks.1])
      rw [phrase, List.map_cons, phraseLength?, if_neg hne]
      split <;> rfl

end Words

end Reckoner.Rule
