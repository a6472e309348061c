import Mathlib.Data.List.DropRight
import Reckoner.Proofs.Source.Rule
import Reckoner.Proofs.Text.Line
import Reckoner.Source.Typed

/-!
# Reckoner.Proofs.Source.Trim -- white space around a line makes no difference

A line is trimmed only when its shorthand has been spelled out, so the rules see the white space at
its ends. It makes no difference to them: white space belongs to no word, and a rule that takes
some of it at an end writes for it what it would have written without. So what a pass makes of a
padded text is padded in turn, and trimming takes that away.
-/

namespace Reckoner.Rule

open Text (isBlank wordMayBegin wordMayEnd Pads)

variable {rule : Rule}

/-! ## Passes without origins -/

/-- The text that one pass makes of a text, `skip` characters of which are taken already. -/
def rewriteFrom (rule : Rule) : (before : Option Char) → (skip : Nat) → List Char → List Char
  | before, 0, c :: cs =>
    match rule before (c :: cs) with
    | some (taken, written) => written ++ rewriteFrom rule (some c) (taken - 1) cs
    | none => c :: rewriteFrom rule (some c) 0 cs
  | _, skip + 1, c :: cs => rewriteFrom rule (some c) skip cs
  | _, _, [] => []

/-- The text that one pass makes of a text. -/
def rewrite (rule : Rule) (cs : List Char) : List Char := rewriteFrom rule none 0 cs

theorem rewriteFrom_nil (before : Option Char) (skip : Nat) :
    rewriteFrom rule before skip [] = [] := by
  cases skip <;> rfl

theorem rewriteFrom_none {before : Option Char} {c : Char} {cs : List Char}
    (h : rule before (c :: cs) = none) :
    rewriteFrom rule before 0 (c :: cs) = c :: rewriteFrom rule (some c) 0 cs := by
  rw [rewriteFrom, h]

theorem rewriteFrom_some {before : Option Char} {c : Char} {cs : List Char} {taken : Nat}
    {written : List Char} (h : rule before (c :: cs) = some (taken, written)) :
    rewriteFrom rule before 0 (c :: cs) =
      written ++ rewriteFrom rule (some c) (taken - 1) cs := by
  rw [rewriteFrom, h]

/-- Where everything is taken already, nothing comes. -/
theorem rewriteFrom_length (before : Option Char) (cs : List Char) :
    rewriteFrom rule before cs.length cs = [] := by
  induction cs generalizing before with
  | nil => rfl
  | cons c cs ih => exact ih (some c)

theorem map_char_passFrom {before : Option Char} {skip : Nat} {cs : List Char} {os : List Nat}
    (h : os.length = cs.length) :
    (passFrom rule before skip cs os).map (·.char) = rewriteFrom rule before skip cs := by
  induction cs generalizing before skip os with
  | nil =>
      rw [rewriteFrom_nil]
      cases skip <;> simp [passFrom]
  | cons c cs ih =>
      cases os with
      | nil => cases h
      | cons o os =>
          have hrest : os.length = cs.length := Nat.succ.inj h
          cases skip with
          | succ skip => exact ih hrest
          | zero =>
              rw [passFrom]
              split
              · next taken written happlies =>
                rw [rewriteFrom_some happlies, List.map_append, ih hrest, List.map_map]
                exact congrArg (· ++ _) (List.map_id written)
              · next hnone => rw [rewriteFrom_none hnone, List.map_cons, ih hrest]

theorem map_char_pass (marks : List Mark) :
    (rule.pass marks).map (·.char) = rule.rewrite (marks.map (·.char)) :=
  map_char_passFrom (by rw [List.length_map, List.length_map])

/-! ## Rules and white space -/

/-- A rule to which white space at the ends of a text makes no difference. In front of what it
takes it may take white space too, one character more for each. Behind, it may take all that there
is, if it takes the rest of the text. -/
structure Trims (rule : Rule) : Prop where
  nil : ∀ before, rule before [] = none
  before : ∀ b text, isBlank b = true → rule (some b) text = rule none text
  front : ∀ before b text, isBlank b = true → rule before (b :: text) = none ∨
    ∃ taken written, rule none text = some (taken + 1, written) ∧
      rule before (b :: text) = some (taken + 2, written)
  back : ∀ before text bs, (∀ b ∈ bs, isBlank b = true) →
    (rule before text = none ∧ rule before (text ++ bs) = none) ∨
      ∃ taken written, rule before text = some (taken, written) ∧ taken ≤ text.length ∧
        (rule before (text ++ bs) = some (taken, written) ∨
          taken = text.length ∧ rule before (text ++ bs) = some (taken + bs.length, written))

/-- A rule that takes no white space in front of anything. -/
def Tight (rule : Rule) : Prop := ∀ before b text, isBlank b = true → rule before (b :: text) = none

namespace Trims

variable (h : rule.Trims) {b : Char} {bs cs ds : List Char}

include h

theorem rewriteFrom_before (hb : isBlank b = true) :
    rewriteFrom rule (some b) 0 cs = rewriteFrom rule none 0 cs := by
  cases cs with
  | nil => rfl
  | cons c cs => rw [rewriteFrom, rewriteFrom, h.before b _ hb]

/-- White space in front is kept, or taken with what is behind it. -/
theorem rewriteFrom_cons (hb : isBlank b = true) (before : Option Char) :
    rewriteFrom rule before 0 (b :: cs) = b :: rewriteFrom rule none 0 cs ∨
      rewriteFrom rule before 0 (b :: cs) = rewriteFrom rule none 0 cs := by
  rcases h.front before b cs hb with hnone | ⟨taken, written, htext, hblank⟩
  · left
    rw [rewriteFrom_none hnone, h.rewriteFrom_before hb]
  · right
    cases cs with
    | nil =>
        rw [h.nil] at htext
        cases htext
    | cons c cs =>
        rw [rewriteFrom_some hblank, rewriteFrom_some htext]
        rfl

theorem rewriteFrom_front (hbs : ∀ b ∈ bs, isBlank b = true) :
    ∃ kept, (∀ b ∈ kept, isBlank b = true) ∧
      rewriteFrom rule none 0 (bs ++ cs) = kept ++ rewriteFrom rule none 0 cs := by
  induction bs with
  | nil => exact ⟨[], List.forall_mem_nil _, rfl⟩
  | cons b bs ih =>
      rw [List.forall_mem_cons] at hbs
      obtain ⟨kept, hkept, heq⟩ := ih hbs.2
      rw [List.cons_append]
      rcases h.rewriteFrom_cons hbs.1 none with hcons | hcons
      · refine ⟨b :: kept, List.forall_mem_cons.mpr ⟨hbs.1, hkept⟩, ?_⟩
        rw [hcons, heq, List.cons_append]
      · exact ⟨kept, hkept, by rw [hcons, heq]⟩

theorem rewriteFrom_back (hbs : ∀ b ∈ bs, isBlank b = true) {before : Option Char} {skip : Nat}
    (hskip : skip ≤ cs.length) :
    ∃ kept, (∀ b ∈ kept, isBlank b = true) ∧
      rewriteFrom rule before skip (cs ++ bs) = rewriteFrom rule before skip cs ++ kept := by
  induction cs generalizing before skip with
  | nil =>
      obtain rfl := Nat.le_zero.mp hskip
      rw [List.nil_append, rewriteFrom_nil]
      cases bs with
      | nil => exact ⟨[], List.forall_mem_nil _, rfl⟩
      | cons b bs =>
          rw [List.forall_mem_cons] at hbs
          obtain ⟨kept, hkept, heq⟩ := @rewriteFrom_front _ h bs [] hbs.2
          rw [List.append_nil, rewriteFrom_nil, List.append_nil] at heq
          rcases h.rewriteFrom_cons hbs.1 before with hcons | hcons
          · exact ⟨b :: kept, List.forall_mem_cons.mpr ⟨hbs.1, hkept⟩, by rw [hcons, heq]; rfl⟩
          · exact ⟨kept, hkept, by rw [hcons, heq]; rfl⟩
  | cons c cs ih =>
      cases skip with
      | succ skip => exact ih (Nat.le_of_succ_le_succ hskip)
      | zero =>
          rcases h.back before (c :: cs) bs hbs with
            ⟨htext, hpadded⟩ | ⟨taken, written, htext, hle, hpadded | ⟨rfl, hpadded⟩⟩
          · obtain ⟨kept, hkept, heq⟩ := @ih (some c) 0 (Nat.zero_le _)
            refine ⟨kept, hkept, ?_⟩
            rw [List.cons_append] at hpadded ⊢
            rw [rewriteFrom_none htext, rewriteFrom_none hpadded, heq]
            rfl
          · obtain ⟨kept, hkept, heq⟩ := @ih (some c) (taken - 1)
              (by rw [List.length_cons] at hle; omega)
            refine ⟨kept, hkept, ?_⟩
            rw [List.cons_append] at hpadded ⊢
            rw [rewriteFrom_some htext, rewriteFrom_some hpadded, heq, List.append_assoc]
          · -- all that is left is taken, and nothing is kept
            have hrest : (c :: cs).length + bs.length - 1 = (cs ++ bs).length := by
              rw [List.length_cons, List.length_append]
              omega
            refine ⟨[], List.forall_mem_nil _, ?_⟩
            rw [List.cons_append] at hpadded ⊢
            rw [rewriteFrom_some htext, rewriteFrom_some hpadded, hrest, List.length_cons,
              Nat.add_sub_cancel, rewriteFrom_length, rewriteFrom_length, List.append_nil,
              List.append_nil]

/-- **A pass makes a padded text of a padded text.** -/
theorem rewrite (hpads : Pads cs ds) : Pads (rule.rewrite cs) (rule.rewrite ds) := by
  obtain ⟨front, back, hfront, hback, rfl⟩ := hpads
  obtain ⟨kept, hkept, heq⟩ := h.rewriteFrom_back hback (Nat.zero_le (front ++ ds).length)
  obtain ⟨kept', hkept', heq'⟩ := h.rewriteFrom_front hfront
  exact ⟨kept', kept, hkept', hkept, by rw [Rule.rewrite, heq, heq', Rule.rewrite]⟩

end Trims

/-! ## Phrases -/

/-- Whether a part of a phrase is white space, or a character that is none. -/
def Piece.isPlain : Piece → Bool
  | .letter l => !isBlank l
  | .blanks => true

theorem Piece.ne_of_isPlain {b l : Char} (h : (letter l).isPlain = true) (hb : isBlank b = true) :
    b ≠ l := by
  rintro rfl
  rw [isPlain, hb] at h
  cases h

/-- Whether a phrase starts and ends with a letter, and no letter of it is white space. -/
def IsWords (pieces : List Piece) : Prop :=
  pieces ≠ [] ∧ pieces.head? ≠ some .blanks ∧ pieces.getLast? ≠ some .blanks ∧
    pieces.all Piece.isPlain = true

instance : DecidablePred IsWords := fun _ => inferInstanceAs (Decidable (_ ∧ _ ∧ _ ∧ _))

section Phrases

variable {pieces : List Piece} {written text bs : List Char}

/-- A phrase takes what its first part takes, at least one character, and then the rest. -/
theorem phraseLength?_cons {p : Piece} {taken : Nat}
    (h : phraseLength? (p :: pieces) text = some taken) :
    ∃ first n, 0 < first ∧ first ≤ text.length ∧
      phraseLength? pieces (text.drop first) = some n ∧ taken = n + first := by
  cases text with
  | nil => cases p <;> cases h
  | cons c cs =>
      cases p with
      | letter l =>
          rw [phraseLength?] at h
          split at h
          · obtain ⟨n, hn, rfl⟩ := Option.map_eq_some_iff.mp h
            exact ⟨1, n, Nat.one_pos, Nat.le_add_left 1 _, hn, rfl⟩
          · cases h
      | blanks =>
          rw [phraseLength?] at h
          split at h
          · obtain ⟨n, hn, rfl⟩ := Option.map_eq_some_iff.mp h
            have hle := (List.takeWhile_prefix (l := cs) isBlank).length_le
            exact ⟨_, n, Nat.succ_pos _, Nat.succ_le_succ hle, hn, rfl⟩
          · cases h

theorem phraseLength?_le {taken : Nat} (h : phraseLength? pieces text = some taken) :
    taken ≤ text.length := by
  induction pieces generalizing text taken with
  | nil =>
      cases h
      exact Nat.zero_le _
  | cons p pieces ih =>
      obtain ⟨first, n, -, hfirst, hn, rfl⟩ := phraseLength?_cons h
      have hle := ih hn
      rw [List.length_drop] at hle
      omega

theorem phraseLength?_pos (hne : pieces ≠ []) {taken : Nat}
    (h : phraseLength? pieces text = some taken) : 0 < taken := by
  cases pieces with
  | nil => exact absurd rfl hne
  | cons p pieces =>
      obtain ⟨first, n, hfirst, -, -, rfl⟩ := phraseLength?_cons h
      exact Nat.add_pos_right n hfirst

theorem phraseLength?_nil (hne : pieces ≠ []) : phraseLength? pieces [] = none := by
  cases pieces with
  | nil => exact absurd rfl hne
  | cons p pieces => cases p <;> rfl

/-- Whether no letter of a phrase is what a text starts with behind its white space. -/
def Foreign (pieces : List Piece) (text : List Char) : Prop :=
  ∀ c ∈ (text.dropWhile isBlank).head?, .letter c ∉ pieces

theorem drop_takeWhile (p : Char → Bool) (cs : List Char) :
    cs.drop (cs.takeWhile p).length = cs.dropWhile p := by
  have hdrop : (cs.takeWhile p ++ cs.dropWhile p).drop (cs.takeWhile p).length =
      cs.dropWhile p := List.drop_left
  rwa [List.takeWhile_append_dropWhile] at hdrop

theorem getLast?_ne_of_cons {p q : Piece} (h : (p :: pieces).getLast? ≠ some q) :
    pieces.getLast? ≠ some q := by
  cases pieces with
  | nil => exact nofun
  | cons r pieces => rwa [List.getLast?_cons_cons] at h

/-- A phrase does not go on in a text with none of its letters in front. -/
theorem phraseLength?_append {rest : List Char} (hlast : pieces.getLast? ≠ some .blanks)
    (hplain : pieces.all Piece.isPlain = true) (hrest : Foreign pieces rest) :
    phraseLength? pieces (text ++ rest) = phraseLength? pieces text := by
  induction pieces generalizing text rest with
  | nil => rfl
  | cons p pieces ih =>
      rw [List.all_cons, Bool.and_eq_true] at hplain
      have hlast' := getLast?_ne_of_cons hlast
      have hforeign : Foreign pieces rest := fun c hc hmem =>
        hrest c hc (List.mem_cons_of_mem p hmem)
      cases p with
      | letter l =>
          cases text with
          | cons c cs =>
              rw [List.cons_append, phraseLength?, phraseLength?, ih hlast' hplain.2 hforeign]
          | nil =>
              cases rest with
              | nil => rfl
              | cons c cs =>
                  have hne : c ≠ l := by
                    rintro rfl
                    have hblank : isBlank c = false := by simpa [Piece.isPlain] using hplain.1
                    refine hrest c ?_ List.mem_cons_self
                    rw [List.dropWhile_cons_of_neg (by simp [hblank])]
                    rfl
                  rw [List.nil_append, phraseLength?, if_neg hne]
                  rfl
      | blanks =>
          have hne : pieces ≠ [] := by
            rintro rfl
            exact hlast rfl
          -- where the text ends in white space, the phrase would have to go on in the rest
          have hstop {rest : List Char} (h : Foreign pieces rest) :
              phraseLength? pieces (rest.dropWhile isBlank) = none := by
            have hbehind : Foreign pieces (rest.dropWhile isBlank) := by
              rw [Foreign, List.dropWhile_idempotent]
              exact h
            rw [← List.nil_append (rest.dropWhile isBlank), ih hlast' hplain.2 hbehind,
              phraseLength?_nil hne]
          cases text with
          | cons c cs =>
              rw [List.cons_append, phraseLength?, phraseLength?, List.takeWhile_append]
              split
              · split
                · next hall =>
                  simp only [hall, List.length_append, List.drop_length_add_append, drop_takeWhile,
                    hstop hforeign, List.drop_length, phraseLength?_nil hne]
                  rfl
                · next hall =>
                  have hle := (List.takeWhile_prefix (l := cs) isBlank).length_le
                  simp only [List.drop_append_of_le_length hle, ih hlast' hplain.2 hforeign]
              · rfl
          | nil =>
              cases rest with
              | nil => rfl
              | cons b bs =>
                  rw [List.nil_append, phraseLength?]
                  split
                  · next hb =>
                    have hrest' := hstop hforeign
                    rw [List.dropWhile_cons_of_pos hb] at hrest'
                    simp only [drop_takeWhile, hrest']
                    rfl
                  · rfl

/-- White space behind a text is no part of a phrase that ends with a letter. -/
theorem phraseLength?_append_blanks (hlast : pieces.getLast? ≠ some .blanks)
    (hplain : pieces.all Piece.isPlain = true) (hbs : ∀ b ∈ bs, isBlank b = true) :
    phraseLength? pieces (text ++ bs) = phraseLength? pieces text := by
  refine phraseLength?_append hlast hplain ?_
  rw [Foreign, List.dropWhile_eq_nil_iff.mpr hbs]
  exact nofun

/-- No phrase starts with white space. -/
theorem tight_phrase (h : IsWords pieces) : (phrase pieces written).Tight := by
  obtain ⟨hne, hfirst, -, hplain⟩ := h
  intro before b text hb
  have hlength : phraseLength? pieces (b :: text) = none := by
    cases pieces with
    | nil => exact absurd rfl hne
    | cons p pieces =>
        cases p with
        | blanks => exact absurd rfl hfirst
        | letter l =>
            rw [List.all_cons, Bool.and_eq_true] at hplain
            rw [phraseLength?, if_neg (Piece.ne_of_isPlain hplain.1 hb)]
  rw [phrase, hlength, Option.bind_none, ite_self]

theorem phrase_append_blanks (h : IsWords pieces) (hbs : ∀ b ∈ bs, isBlank b = true)
    (before : Option Char) :
    phrase pieces written before (text ++ bs) = phrase pieces written before text := by
  rw [phrase, phrase, phraseLength?_append_blanks h.2.2.1 h.2.2.2 hbs]
  cases htaken : phraseLength? pieces text with
  | none => rfl
  | some taken =>
      rw [Option.bind_some, Option.bind_some,
        List.drop_append_of_le_length (phraseLength?_le htaken), Text.wordMayEnd_append_blanks hbs]

theorem phraseLength?_of_phrase {before : Option Char} {r : Nat × List Char}
    (h : phrase pieces written before text = some r) : phraseLength? pieces text = some r.1 := by
  rw [phrase] at h
  split at h
  · obtain ⟨n, hn, h⟩ := Option.bind_eq_some_iff.mp h
    split at h
    · cases h
      exact hn
    · cases h
  · cases h

theorem trims_phrase (h : IsWords pieces) : (phrase pieces written).Trims where
  nil before := by
    rw [phrase, phraseLength?_nil h.1, Option.bind_none, ite_self]
  before b text hb := by
    rw [phrase, phrase, Text.wordMayBegin_of_isBlank hb]
  front before b text hb := .inl (tight_phrase h before b text hb)
  back before text bs hbs := by
    rw [phrase_append_blanks h hbs]
    cases hphrase : phrase pieces written before text with
    | none => exact .inl ⟨rfl, rfl⟩
    | some r =>
        have hle := phraseLength?_le (phraseLength?_of_phrase hphrase)
        exact .inr ⟨r.1, r.2, rfl, hle, .inl rfl⟩

end Phrases

/-! ## Glyphs and choices -/

theorem tight_glyph {glyphs written : List Char} (h : glyphs.any isBlank = false) :
    (glyph glyphs written).Tight := by
  intro before b text hb
  have hnot : glyphs.contains b = false := by
    rw [List.contains_eq_mem, decide_eq_false_iff_not]
    exact fun hmem => List.any_eq_false.mp h b hmem hb
  rw [glyph, hnot]
  rfl

theorem trims_glyph {glyphs written : List Char} (h : glyphs.any isBlank = false) :
    (glyph glyphs written).Trims where
  nil before := rfl
  before b text hb := by cases text <;> rfl
  front before b text hb := .inl (tight_glyph h before b text hb)
  back before text bs hbs := by
    cases text with
    | nil =>
        refine .inl ⟨rfl, ?_⟩
        cases bs with
        | nil => rfl
        | cons b bs => exact tight_glyph h before b bs (hbs b List.mem_cons_self)
    | cons c cs =>
        rw [List.cons_append, glyph, glyph]
        split
        · exact .inr ⟨1, written, rfl, Nat.le_add_left 1 _, .inl rfl⟩
        · exact .inl ⟨rfl, rfl⟩

theorem firstOf_cons (rule : Rule) (rules : List Rule) (before : Option Char) (text : List Char) :
    firstOf (rule :: rules) before text = (rule before text).or (firstOf rules before text) := by
  rw [firstOf, List.findSome?_cons]
  cases rule before text <;> rfl

theorem firstOf_singleton (rule : Rule) : firstOf [rule] = rule := by
  funext before text
  rw [firstOf_cons]
  exact Option.or_none

theorem trims_firstOf_nil : (firstOf []).Trims where
  nil _ := rfl
  before _ _ _ := rfl
  front _ _ _ _ := .inl rfl
  back _ _ _ _ := .inl ⟨rfl, rfl⟩

/-- A choice of a rule and others, if the rule takes no white space in front, and does not apply
where one of the others would take some. -/
theorem trims_firstOf_cons {rules : List Rule} (h : rule.Trims) (hrules : (firstOf rules).Trims)
    (htight : rule.Tight)
    (hchoice : ∀ before b text, isBlank b = true →
      firstOf rules before (b :: text) = none ∨ rule none text = none) :
    (firstOf (rule :: rules)).Trims where
  nil before := by rw [firstOf_cons, h.nil, hrules.nil, Option.or_none]
  before b text hb := by
    rw [firstOf_cons, firstOf_cons, h.before b text hb, hrules.before b text hb]
  front before b text hb := by
    rw [firstOf_cons, firstOf_cons, htight before b text hb, Option.none_or]
    rcases hchoice before b text hb with hnone | hnone
    · exact .inl hnone
    · rw [hnone, Option.none_or]
      exact hrules.front before b text hb
  back before text bs hbs := by
    rw [firstOf_cons, firstOf_cons]
    rcases h.back before text bs hbs with
      ⟨htext, hpadded⟩ | ⟨taken, written, htext, hle, hpadded⟩
    · rw [htext, hpadded, Option.none_or, Option.none_or]
      exact hrules.back before text bs hbs
    · rw [htext, Option.some_or]
      refine .inr ⟨taken, written, rfl, hle, ?_⟩
      rcases hpadded with hpadded | ⟨hall, hpadded⟩
      · exact .inl (by rw [hpadded, Option.some_or])
      · exact .inr ⟨hall, by rw [hpadded, Option.some_or]⟩

/-- A choice of rules none of which takes white space in front. -/
theorem trims_firstOf {rules : List Rule} (h : ∀ r ∈ rules, r.Trims ∧ r.Tight) :
    (firstOf rules).Trims ∧ (firstOf rules).Tight := by
  induction rules with
  | nil => exact ⟨trims_firstOf_nil, fun _ _ _ _ => rfl⟩
  | cons rule rules ih =>
      rw [List.forall_mem_cons] at h
      obtain ⟨⟨hrule, htight⟩, hrest⟩ := h
      obtain ⟨hrules, htights⟩ := ih hrest
      refine ⟨trims_firstOf_cons hrule hrules htight fun before b text hb =>
        .inl (htights before b text hb), fun before b text hb => ?_⟩
      rw [firstOf_cons, htight before b text hb, htights before b text hb, Option.none_or]

end Reckoner.Rule

/-! ## The rules for what people type -/

namespace Reckoner.Shorthand

open Text (isBlank Pads)
open Rule (Piece word glyph phrase firstOf phraseLength? IsWords)

theorem trims_fillers : fillers.Trims := by
  refine (Rule.trims_firstOf ?_).1
  have hwords {pieces : List Piece} (h : IsWords pieces) :
      (phrase pieces []).Trims ∧ (phrase pieces []).Tight :=
    ⟨Rule.trims_phrase h, Rule.tight_phrase h⟩
  simp only [List.forall_mem_cons]
  exact ⟨hwords (by decide), hwords (by decide), hwords (by decide), hwords (by decide),
    hwords (by decide), hwords (by decide), List.forall_mem_nil _⟩

theorem finalEquals_cons_of_ne {c : Char} (hc : c ≠ '=') (before : Option Char)
    (cs : List Char) : finalEquals before (c :: cs) = none := by
  unfold finalEquals
  split
  · next heq => exact absurd (List.cons.inj heq).1 hc
  · rfl

theorem ne_equal_of_isBlank {b : Char} (hb : isBlank b = true) : b ≠ '=' := by
  rintro rfl
  cases hb

/-- A final equals sign takes the white space behind it, all that there is. -/
theorem trims_finalEquals : finalEquals.Trims where
  nil before := rfl
  before b text hb := by
    unfold finalEquals
    split <;> rfl
  front before b text hb := .inl (finalEquals_cons_of_ne (ne_equal_of_isBlank hb) before text)
  back before text bs hbs := by
    cases text with
    | nil =>
        refine .inl ⟨rfl, ?_⟩
        cases bs with
        | nil => rfl
        | cons b bs =>
            exact finalEquals_cons_of_ne (ne_equal_of_isBlank (hbs b List.mem_cons_self)) before bs
    | cons c cs =>
        by_cases hc : c = '='
        · subst hc
          have hall : bs.all isBlank = true := List.all_eq_true.mpr hbs
          rw [List.cons_append, finalEquals, finalEquals, List.all_append, hall, Bool.and_true]
          split
          · refine .inr ⟨cs.length + 1, [], rfl, le_rfl, .inr ⟨rfl, ?_⟩⟩
            rw [List.length_append, Nat.add_right_comm]
          · exact .inl ⟨rfl, rfl⟩
        · exact .inl ⟨finalEquals_cons_of_ne hc before cs,
            finalEquals_cons_of_ne hc before (cs ++ bs)⟩

theorem isWords_percent : IsWords (word "percent") := by decide

theorem trims_percentWord : (phrase (word "percent") ['%']).Trims :=
  Rule.trims_phrase isWords_percent

/-- What is looked for behind some white space does not depend on what is before it. -/
theorem percentWord_or {b : Char} (hb : isBlank b = true) (last : Option Char)
    (text : List Char) : phrase (word "percent") ['%'] (last.or (some b)) text =
      phrase (word "percent") ['%'] (last.or none) text := by
  cases last with
  | none => exact trims_percentWord.before b text hb
  | some l => rfl

/-- The word for a percent sign takes the white space in front of it, all that there is. -/
theorem spelledPercent_cons {b : Char} (hb : isBlank b = true) (before : Option Char)
    (text : List Char) : spelledPercent before (b :: text) =
      (spelledPercent none text).map fun (taken, written) => (taken + 1, written) := by
  have hlast : (b :: text.takeWhile isBlank).getLast?.or before =
      (text.takeWhile isBlank).getLast?.or (some b) := by
    rw [List.getLast?_cons]
    cases (text.takeWhile isBlank).getLast? <;> rfl
  simp only [spelledPercent, List.takeWhile_cons_of_pos hb, List.length_cons, List.drop_succ_cons,
    Option.map_map, hlast, percentWord_or hb]
  congr 1
  funext r
  simp [Nat.add_right_comm]

theorem spelledPercent_bounds {before : Option Char} {text : List Char} {r : Nat × List Char}
    (h : spelledPercent before text = some r) : 0 < r.1 ∧ r.1 ≤ text.length := by
  obtain ⟨s, hs, rfl⟩ := Option.map_eq_some_iff.mp h
  have hlength := Rule.phraseLength?_of_phrase hs
  have hpos := Rule.phraseLength?_pos (by decide) hlength
  have hle := Rule.phraseLength?_le hlength
  have htake := (List.takeWhile_prefix (l := text) isBlank).length_le
  rw [List.length_drop] at hle
  constructor <;> simp only <;> omega

theorem spelledPercent_append_blanks {bs : List Char} (hbs : ∀ b ∈ bs, isBlank b = true)
    (before : Option Char) (text : List Char) :
    spelledPercent before (text ++ bs) = spelledPercent before text := by
  rw [spelledPercent, spelledPercent, List.takeWhile_append]
  split
  · next hall =>
    -- only white space: the word does not come any more
    simp only [List.takeWhile_eq_self_iff.mpr hbs, hall, List.drop_length, trims_percentWord.nil]
    rfl
  · have hle := (List.takeWhile_prefix (l := text) isBlank).length_le
    simp only [List.drop_append_of_le_length hle, Rule.phrase_append_blanks isWords_percent hbs]

theorem trims_spelledPercent : spelledPercent.Trims where
  nil before := by
    simp only [spelledPercent, List.takeWhile_nil, List.drop_nil, trims_percentWord.nil]
    rfl
  before b text hb := by simp only [spelledPercent, percentWord_or hb]
  front before b text hb := by
    rw [spelledPercent_cons hb]
    cases h : spelledPercent none text with
    | none => exact .inl rfl
    | some r =>
        obtain ⟨taken, written⟩ := r
        obtain ⟨n, rfl⟩ := Nat.exists_eq_add_of_lt (spelledPercent_bounds h).1
        rw [Nat.zero_add]
        exact .inr ⟨n, written, rfl, rfl⟩
  back before text bs hbs := by
    rw [spelledPercent_append_blanks hbs]
    cases h : spelledPercent before text with
    | none => exact .inl ⟨rfl, rfl⟩
    | some r => exact .inr ⟨r.1, r.2, rfl, (spelledPercent_bounds h).2, .inl rfl⟩

/-- The glyph for a percent sign is not where the word for it is. -/
theorem trims_percents : (firstOf [glyph ['％'] ['%'], spelledPercent]).Trims := by
  have hplain : ['％'].any isBlank = false := by decide
  refine Rule.trims_firstOf_cons (Rule.trims_glyph hplain) ?_ (Rule.tight_glyph hplain) ?_
  · rw [Rule.firstOf_singleton]
    exact trims_spelledPercent
  · intro before b text hb
    rw [Rule.firstOf_singleton, spelledPercent_cons hb]
    cases text with
    | nil => exact .inr rfl
    | cons c cs =>
        by_cases hc : c = '％'
        · subst hc
          exact .inl rfl
        · right
          simp [glyph, hc]

/-- **White space at the ends of a line makes no difference to any rule.** -/
theorem trims_rules : ∀ r ∈ rules, r.Trims := by
  have hphrase {pieces : List Piece} {written : List Char} (h : IsWords pieces) :
      (phrase pieces written).Trims := Rule.trims_phrase h
  have hglyph {glyphs written : List Char} (h : glyphs.any isBlank = false) :
      (glyph glyphs written).Trims := Rule.trims_glyph h
  simp only [rules, List.forall_mem_cons]
  exact ⟨trims_fillers, hglyph (by decide), trims_finalEquals, hglyph (by decide),
    hglyph (by decide), hglyph (by decide), hglyph (by decide), hglyph (by decide),
    hglyph (by decide), hglyph (by decide), hglyph (by decide), hglyph (by decide),
    trims_percents, hphrase (by decide), List.forall_mem_nil _⟩

/-- What the rules make of a padded text is padded in turn. -/
theorem pads_expand {marks marks' : List Mark}
    (h : Pads (marks.map (·.char)) (marks'.map (·.char))) :
    Pads ((expand marks).map (·.char)) ((expand marks').map (·.char)) := by
  have hfold {rules : List Rule} (hrules : ∀ r ∈ rules, r.Trims) {marks marks' : List Mark}
      (h : Pads (marks.map (·.char)) (marks'.map (·.char))) :
      Pads ((rules.foldl (fun ms rule => rule.pass ms) marks).map (·.char))
        ((rules.foldl (fun ms rule => rule.pass ms) marks').map (·.char)) := by
    induction rules generalizing marks marks' with
    | nil => exact h
    | cons rule rules ih =>
        rw [List.forall_mem_cons] at hrules
        refine ih hrules.2 ?_
        rw [Rule.map_char_pass, Rule.map_char_pass]
        exact hrules.1.rewrite h
  exact hfold trims_rules h

end Reckoner.Shorthand

/-! ## Lines -/

namespace Reckoner

open Text (isBlank Pads)

namespace Mark

/-- The text of typed characters is their lower case, whichever index the first of them has. -/
theorem map_char_zipIdx (cs : List Char) (n : Nat) : ((cs.zipIdx n).flatMap fun row =>
    (Text.lower row.1).map (⟨·, row.2⟩ : Char → Mark)).map (·.char) = cs.flatMap Text.lower := by
  induction cs generalizing n with
  | nil => rfl
  | cons c cs ih =>
      rw [List.zipIdx_cons, List.flatMap_cons, List.map_append, ih, List.flatMap_cons,
        List.map_map]
      exact congrArg (· ++ _) (List.map_id _)

/-- The text of a typed line is its lower case. -/
theorem map_char_ofTyped (cs : List Char) :
    (ofTyped cs).map (·.char) = cs.flatMap Text.lower :=
  map_char_zipIdx cs 0

theorem map_char_trim (marks : List Mark) :
    (trim marks).map (·.char) = Text.trim (marks.map (·.char)) := by
  rw [trim, Text.trim, Text.trimEnd, Text.trimStart, List.dropWhile_map, ← List.map_reverse,
    List.dropWhile_map, List.map_reverse]
  rfl

end Mark

/-- Which signs are put into a text does not depend on where it was typed. -/
theorem Product.map_char_insertFrom {units : List String} {admitted : Bool} {cs : List Char}
    {os os' : List Nat} (h : os.length = cs.length) (h' : os'.length = cs.length) :
    (insertFrom units admitted cs os).map (·.char) =
      (insertFrom units admitted cs os').map (·.char) := by
  induction cs generalizing admitted os os' with
  | nil => simp [insertFrom]
  | cons c cs ih =>
      cases os with
      | nil => cases h
      | cons o os =>
          cases os' with
          | nil => cases h'
          | cons o' os' =>
              have hrest := @ih (admitsFactor admitted c) os os' (Nat.succ.inj h)
                (Nat.succ.inj h')
              rw [insertFrom, insertFrom]
              split
              · rw [List.map_cons, List.map_cons, hrest, List.map_cons, List.map_cons]
              · rw [List.map_cons, hrest, List.map_cons]

namespace Source

/-- **A line is spelled out as if it had been trimmed before.** -/
theorem map_char_spelledOut_trimString (units : List String) (typed : String) :
    (spelledOut units (Text.trimString typed)).map (·.char) =
      (spelledOut units typed).map (·.char) := by
  let whole := Mark.ofTyped typed.toList
  let trimmed := Mark.ofTyped (Text.trimString typed).toList
  have hpads : Pads (whole.map (·.char)) (trimmed.map (·.char)) := by
    rw [Mark.map_char_ofTyped, Mark.map_char_ofTyped, Text.trimString, String.toList_ofList]
    exact (Text.pads_trim typed.toList).flatMap_lower
  have hsame : (Mark.trim (Shorthand.expand trimmed)).map (·.char) =
      (Mark.trim (Shorthand.expand whole)).map (·.char) := by
    rw [Mark.map_char_trim, Mark.map_char_trim, (Shorthand.pads_expand hpads).trim_eq]
  rw [spelledOut, spelledOut, Product.insert, Product.insert, hsame]
  refine Product.map_char_insertFrom ?_ (by rw [List.length_map, List.length_map])
  rw [← hsame, List.length_map, List.length_map]

end Source

end Reckoner
