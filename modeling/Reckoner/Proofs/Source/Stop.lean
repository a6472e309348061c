import Reckoner.Proofs.Expr.Brackets
import Reckoner.Proofs.Source.Stretch
import Reckoner.Proofs.Token.Alphabet

/-!
# Reckoner.Proofs.Source.Stop -- where a typed line ends

A source stops behind the place of its last mark. If a line ends in a letter, a digit or a closing
bracket, that mark is the one of the last character, as long as no rule takes the character into a
stretch: what is written for a stretch has the place of the first character of the stretch. Only the
rules for words take letters. So the end of a line is lost if it is the word `percent` or `square`,
which is written shorter, and in no other case.
-/

namespace Reckoner

open Text (isBlank isWordChar wordMayBegin wordMayEnd)

/-! ## Words at the end -/

namespace Rule

variable {rule : Rule}

theorem passFrom_length (before : Option Char) (cs : List Char) (os : List Nat) :
    passFrom rule before cs.length cs os = [] := by
  induction cs generalizing before os with
  | nil => simp [passFrom]
  | cons c cs ih =>
      cases os with
      | nil => rfl
      | cons o os => exact ih (some c) os

/-- A rule all of whose stretches of more than one character are whole words. -/
def Whole (rule : Rule) : Prop :=
  ∀ before text taken written, rule before text = some (taken, written) →
    taken = 1 ∨ wordMayEnd (text.drop taken) = true

theorem whole_phrase {pieces : List Piece} {written : List Char} :
    (phrase pieces written).Whole := by
  intro before text taken written' h
  right
  rw [phrase] at h
  split at h
  · obtain ⟨n, -, h⟩ := Option.bind_eq_some_iff.mp h
    split at h
    · next hend =>
      cases h
      exact hend
    · cases h
  · cases h

/-- A word at the end of a text that the rule applies to is taken, and no mark has its places but
the first. -/
theorem passFrom_word (hbounded : rule.Bounded) (hwhole : rule.Whole) {word : List Char}
    (hword : ∀ c ∈ word, isWordChar c = true) (hne : word ≠ [])
    (happlies : ∀ before, wordMayBegin before = true →
      ∃ written, rule before word = some (word.length, written))
    {q : Nat → Prop} {p : Nat} {os ps : List Nat} (hp : q p) (hos : ∀ o ∈ os, q o)
    {before : Option Char} {skip : Nat} {cs : List Char} (hlength : os.length = cs.length)
    (hskip : skip ≤ cs.length) (hbegin : wordMayBegin (cs.getLast?.or before) = true) :
    ∀ m ∈ passFrom rule before skip (cs ++ word) (os ++ p :: ps), q m.origin := by
  induction cs generalizing before skip os with
  | nil =>
      obtain rfl := List.length_eq_zero_iff.mp hlength
      obtain rfl := Nat.le_zero.mp hskip
      obtain ⟨written, hsome⟩ := happlies before hbegin
      obtain ⟨c, more, rfl⟩ := List.exists_cons_of_ne_nil hne
      rw [List.nil_append, List.nil_append, passFrom, hsome]
      simp only [List.length_cons, Nat.add_sub_cancel, passFrom_length, List.append_nil]
      exact List.forall_mem_map.mpr fun _ _ => hp
  | cons c cs ih =>
      cases os with
      | nil => cases hlength
      | cons o os =>
          rw [List.forall_mem_cons] at hos
          rw [getLast?_cons_or] at hbegin
          have hrest {skip : Nat} (hskip : skip ≤ cs.length) :
              ∀ m ∈ passFrom rule (some c) skip (cs ++ word) (os ++ p :: ps), q m.origin :=
            ih hos.2 (Nat.succ.inj hlength) hskip hbegin
          cases skip with
          | succ skip => exact hrest (Nat.le_of_succ_le_succ hskip)
          | zero =>
              rw [List.cons_append, List.cons_append, passFrom]
              split
              · next taken written hsome =>
                refine List.forall_mem_append.mpr ⟨List.forall_mem_map.mpr fun _ _ => hos.1, ?_⟩
                obtain ⟨hpos, hle⟩ := hbounded _ _ _ _ hsome
                rw [List.length_cons] at hle
                by_cases hinside : taken - 1 ≤ cs.length
                · exact hrest hinside
                by_cases hall : taken - 1 = (cs ++ word).length
                · rw [hall, passFrom_length]
                  exact List.forall_mem_nil _
                · -- the stretch would end inside the word
                  rw [List.length_append] at hle hall
                  have hend := (hwhole _ _ _ _ hsome).resolve_left (by omega)
                  obtain ⟨k, hk⟩ : ∃ k, taken = (c :: cs).length + k :=
                    ⟨taken - (c :: cs).length, by rw [List.length_cons]; omega⟩
                  rw [← List.cons_append, hk, List.drop_length_add_append] at hend
                  rw [List.length_cons] at hk
                  cases hdrop : word.drop k with
                  | nil =>
                      rw [List.drop_eq_nil_iff] at hdrop
                      omega
                  | cons d more =>
                      have hd := hword d (List.mem_of_mem_drop (hdrop ▸ List.mem_cons_self))
                      rw [hdrop] at hend
                      simp [wordMayEnd, hd] at hend
              · exact List.forall_mem_cons.mpr ⟨hos.1, hrest (Nat.zero_le _)⟩

/-- So the place of the last mark is lost. -/
theorem pass_word (hbounded : rule.Bounded) (hwhole : rule.Whole) {word : List Char}
    (hword : ∀ c ∈ word, isWordChar c = true) (hlength : 1 < word.length)
    (happlies : ∀ before, wordMayBegin before = true →
      ∃ written, rule before word = some (word.length, written))
    {front : List Mark} {last : Mark} {ahead : List Char}
    (hends : (front ++ [last]).map (·.char) = ahead ++ word)
    (hbegin : wordMayBegin ahead.getLast? = true) {q : Nat → Prop}
    (hq : ∀ m ∈ front, q m.origin) : ∀ m ∈ rule.pass (front ++ [last]), q m.origin := by
  obtain ⟨before, behind, hmarks, hbefore, hbehind⟩ := List.map_eq_append_iff.mp hends
  -- the word has a first mark, and it is not the last one
  obtain ⟨first, behind, rfl⟩ : ∃ first more, behind = first :: more := by
    refine List.exists_cons_of_ne_nil ?_
    rintro rfl
    rw [← hbehind] at hlength
    cases hlength
  have hfront : ∀ m ∈ before ++ [first], q m.origin := by
    have hne : behind ≠ [] := by
      rintro rfl
      rw [← hbehind] at hlength
      exact absurd hlength (by simp)
    rw [← List.dropLast_concat_getLast hne, ← List.cons_append, ← List.append_assoc] at hmarks
    obtain ⟨rfl, -⟩ := List.append_inj' hmarks rfl
    intro m hm
    refine hq m ?_
    rw [List.append_cons]
    exact List.mem_append_left _ hm
  rw [List.forall_mem_append, List.forall_mem_singleton] at hfront
  have hnil : word ≠ [] := by
    rintro rfl
    cases hlength
  rw [pass, hends, hmarks, List.map_append, List.map_cons]
  refine passFrom_word hbounded hwhole hword hnil happlies hfront.2
    (List.forall_mem_map.mpr hfront.1) ?_ (Nat.zero_le _) (by rwa [Option.or_none])
  rw [← hbefore, List.length_map, List.length_map]

end Rule

/-! ## The rules for what people type -/

namespace Shorthand

open Rule (Piece word glyph phrase firstOf)

/-- A percent sign takes the one character of its glyph, or a word with the white space in front. -/
theorem percents_cases {before : Option Char} {text written : List Char} {taken : Nat}
    (h : percents before text = some (taken, written)) :
    (taken = 1 ∧ text.head? = some '％') ∨ ∃ blanks rest,
      (∀ b ∈ blanks, isBlank b = true) ∧ text = blanks ++ "percent".toList ++ rest ∧
        taken = (blanks ++ "percent".toList).length ∧
        wordMayBegin (blanks.getLast?.or before) = true ∧ wordMayEnd rest = true := by
  rw [percents, Rule.firstOf_cons, Rule.firstOf_singleton] at h
  rcases Option.or_eq_some_iff.mp h with hglyph | ⟨-, hspelled⟩
  · left
    unfold glyph at hglyph
    split at hglyph
    · split at hglyph
      · next hc =>
        cases hglyph
        simp only [List.contains_iff_mem, List.mem_singleton] at hc
        exact ⟨rfl, congrArg some hc⟩
      · cases hglyph
    · cases hglyph
  · right
    have hblanks : ∀ b ∈ text.takeWhile isBlank, isBlank b = true :=
      List.all_eq_true.mp List.all_takeWhile
    have hbehind : ∀ c ∈ (text.dropWhile isBlank).head?, isBlank c = false := by
      intro c hc
      have hhead := List.head?_dropWhile_not isBlank text
      rw [hc] at hhead
      exact hhead
    have hsplit := List.takeWhile_append_dropWhile (p := isBlank) (l := text)
    rw [← hsplit, spelledPercent_append hblanks hbehind] at hspelled
    obtain ⟨⟨n, w⟩, hphrase, heq⟩ := Option.map_eq_some_iff.mp hspelled
    obtain ⟨rfl, rfl⟩ := Prod.mk.inj heq
    obtain ⟨rfl, rest, hrest⟩ := Rule.phraseLength?_letters "percent".toList
      (Rule.phraseLength?_of_phrase hphrase)
    have hend := (Rule.whole_phrase _ _ _ _ hphrase).resolve_left (by decide)
    rw [hrest, List.drop_left] at hend
    refine ⟨text.takeWhile isBlank, rest, hblanks, ?_, List.length_append.symm, ?_, hend⟩
    · rw [List.append_assoc, ← hrest, hsplit]
    · rw [phrase] at hphrase
      split at hphrase
      · next hbegin => exact hbegin
      · cases hphrase

theorem whole_percents : percents.Whole := by
  intro before text taken written h
  rcases percents_cases h with ⟨hone, -⟩ | ⟨blanks, rest, -, rfl, rfl, -, hend⟩
  · exact .inl hone
  · right
    rw [List.drop_left]
    exact hend

/-- A symbol, and an equals sign that ends a text, take no letter, no digit and no bracket. -/
theorem not_endsIn_symbols {c : Char} (hc : Token.isPlain c = true) :
    ∀ r ∈ symbols, r.Bounded ∧ ∀ front, ¬ r.EndsIn (front ++ [c]) := by
  have hglyph {glyphs written : List Char} (h : ∀ g ∈ glyphs, Token.isPlain g = false) :
      (glyph glyphs written).Bounded ∧
        ∀ front, ¬ (glyph glyphs written).EndsIn (front ++ [c]) := by
    refine ⟨Rule.bounded_glyph, fun front hends => ?_⟩
    obtain ⟨ahead, back, written', heq, -, happlies⟩ := Rule.endsIn_iff.mp hends
    unfold glyph at happlies
    split at happlies
    · next g cs =>
      split at happlies
      · next hg =>
        obtain ⟨hlength, -⟩ := Prod.mk.inj (Option.some.inj happlies)
        obtain rfl : cs = [] := List.length_eq_zero_iff.mp (Nat.succ.inj hlength).symm
        obtain ⟨-, hlast⟩ := List.append_inj' heq rfl
        obtain ⟨rfl, -⟩ := List.cons.inj hlast
        rw [List.contains_iff_mem] at hg
        exact absurd hc (by simp [h c hg])
      · cases happlies
    · cases happlies
  have hequals : finalEquals.Bounded ∧ ∀ front, ¬ finalEquals.EndsIn (front ++ [c]) := by
    refine ⟨bounded_finalEquals, fun front hends => ?_⟩
    obtain ⟨ahead, back, written', heq, -, happlies⟩ := Rule.endsIn_iff.mp hends
    unfold finalEquals at happlies
    split at happlies
    · next cs =>
      split at happlies
      · next hblank =>
        have hmem : c ∈ '=' :: cs := by
          have hlast := congrArg List.getLast? heq
          rw [List.getLast?_concat, List.getLast?_append, List.getLast?_cons, Option.some_or,
            ← List.getLast?_cons] at hlast
          exact List.mem_of_getLast? hlast.symm
        rcases List.mem_cons.mp hmem with rfl | hmem
        · exact absurd hc (by decide)
        · exact absurd (List.all_eq_true.mp hblank c hmem) (by simp [Token.isBlank_of_isPlain hc])
      · cases happlies
    · cases happlies
  have hrules : symbols = [glyph ['?'] [], finalEquals, glyph ['×', '✕', '·', '⋅'] ['*'],
      glyph ['÷'] ['/'], glyph ['–', '—', '−'] ['-'], glyph ['π'] ['p', 'i'],
      glyph ['√'] ['s', 'q', 'r', 't'], glyph ['^'] ['*', '*'], glyph ['²'] ['*', '*', '2'],
      glyph ['³'] ['*', '*', '3'], glyph ['°'] []] := rfl
  rw [hrules]
  simp only [List.forall_mem_cons]
  exact ⟨hglyph (by decide), hequals, hglyph (by decide), hglyph (by decide), hglyph (by decide),
    hglyph (by decide), hglyph (by decide), hglyph (by decide), hglyph (by decide),
    hglyph (by decide), hglyph (by decide), List.forall_mem_nil _⟩

end Shorthand

/-! ## The last mark -/

/-- Whether some marks end in a character at a place, with all others at places in front of it. -/
def Mark.EndAt (marks : List Mark) (c : Char) (n : Nat) : Prop :=
  ∃ front, marks = front ++ [⟨c, n⟩] ∧ ∀ m ∈ front, m.origin < n

namespace Mark.EndAt

variable {marks : List Mark} {c : Char} {n : Nat} {rule : Rule}

theorem pass (h : EndAt marks c n) (hbounded : rule.Bounded)
    (hends : ¬ rule.EndsIn (marks.map (·.char))) : EndAt (rule.pass marks) c n := by
  obtain ⟨front, rfl, hfront⟩ := h
  exact hbounded.pass_last (q := (· < n)) hends hfront

theorem foldl_pass {rules : List Rule} (h : EndAt marks c n)
    (hrules : ∀ r ∈ rules, r.Bounded ∧ ∀ front, ¬ r.EndsIn (front ++ [c])) :
    EndAt (rules.foldl (fun ms r => r.pass ms) marks) c n := by
  induction rules generalizing marks with
  | nil => exact h
  | cons r rules ih =>
      rw [List.forall_mem_cons] at hrules
      refine ih (h.pass hrules.1.1 ?_) hrules.2
      obtain ⟨front, rfl, -⟩ := h
      rw [List.map_append]
      exact hrules.1.2 _

theorem trim (h : EndAt marks c n) (hc : isBlank c = false) : EndAt (Mark.trim marks) c n := by
  obtain ⟨front, rfl, hfront⟩ := h
  refine ⟨front.dropWhile (isBlank ·.char), ?_, fun m hm => ?_⟩
  · have hdrop : (front ++ [Mark.mk c n]).dropWhile (isBlank ·.char) =
        front.dropWhile (isBlank ·.char) ++ [⟨c, n⟩] := by
      rw [List.dropWhile_append, List.dropWhile_cons_of_neg (by simp [hc])]
      split
      · next hnil => rw [List.isEmpty_iff.mp hnil, List.nil_append]
      · rfl
    rw [Mark.trim, hdrop, List.reverse_append, List.reverse_singleton, List.singleton_append,
      List.dropWhile_cons_of_neg (by simp [hc]), List.reverse_cons, List.reverse_reverse]
  · exact hfront m ((List.dropWhile_sublist _).mem hm)

end Mark.EndAt

/-- Multiplication signs are put in front of marks. -/
theorem Product.getLast?_insert (units : List String) (marks : List Mark) :
    (insert units marks).getLast? = marks.getLast? := by
  have hfrom (admitted : Bool) : (insertFrom units admitted (marks.map (·.char))
      (marks.map (·.origin))).getLast? = marks.getLast? := by
    induction marks generalizing admitted with
    | nil => rfl
    | cons m ms ih =>
        rw [List.map_cons, List.map_cons, insertFrom]
        split
        · rw [List.getLast?_cons_cons, List.getLast?_cons, ih, ← List.getLast?_cons]
        · rw [List.getLast?_cons, ih, ← List.getLast?_cons]
  exact hfrom false

/-- A typed line in lower case ends at its last character. -/
theorem Mark.endAt_ofTyped {front : List Char} {c d : Char} (hc : Text.lower c = [d]) :
    EndAt (ofTyped (front ++ [c])) d front.length := by
  refine ⟨ofTyped front, ?_, fun m hm => (ofTyped_within front m hm).2⟩
  rw [ofTyped, List.zipIdx_append, List.flatMap_append, ofTyped]
  simp [hc]

/-! ## Typed lines -/

section Lines

open Shorthand (fillers percents square seen)

variable {typed : List Char} {front : List Char} {c d : Char}

/-- Fillers and symbols leave a last character alone that no filler goes up to. -/
theorem Shorthand.endAt_marksAt (hc : Text.lower c = [d]) (hd : Token.isPlain d = true)
    (hfillers : ¬ fillers.EndsIn (seen 0 (front ++ [c]))) :
    Mark.EndAt (marksAt 12 (front ++ [c])) d front.length := by
  rw [marksAt_twelve]
  exact ((Mark.endAt_ofTyped hc).pass bounded_fillers hfillers).foldl_pass (not_endsIn_symbols hd)

/-- The two rules for words behind them take a last character only with their words. -/
theorem Shorthand.endsIn_percents (hd : Token.isPlain d = true) {cs : List Char}
    (h : percents.EndsIn (cs ++ [d])) :
    ∃ ahead, cs ++ [d] = ahead ++ "percent".toList ∧ wordMayBegin ahead.getLast? = true := by
  obtain ⟨ahead, back, written, heq, -, happlies⟩ := Rule.endsIn_iff.mp h
  rcases percents_cases happlies with ⟨hone, hglyph⟩ | ⟨blanks, rest, -, rfl, hlength, hbegin, -⟩
  · obtain ⟨g, rfl⟩ := List.length_eq_one_iff.mp hone
    obtain ⟨-, hlast⟩ := List.append_inj' heq rfl
    cases hlast
    cases hglyph
    exact absurd hd (by decide)
  · obtain rfl : rest = [] := by
      rw [List.length_append] at hlength
      exact List.length_eq_zero_iff.mp (by omega)
    refine ⟨ahead ++ blanks, by rw [heq, List.append_nil, List.append_assoc], ?_⟩
    rw [List.getLast?_append]
    exact hbegin

theorem Shorthand.endsIn_square {cs : List Char} (h : square.EndsIn cs) :
    ∃ ahead, cs = ahead ++ "square".toList ∧ wordMayBegin ahead.getLast? = true := by
  obtain ⟨ahead, back, written, rfl, -, happlies⟩ := Rule.endsIn_iff.mp h
  obtain ⟨hlength, rest, rfl⟩ := Rule.phraseLength?_letters "square".toList
    (Rule.phraseLength?_of_phrase happlies)
  obtain rfl : rest = [] := by
    rw [List.length_append] at hlength
    exact List.length_eq_zero_iff.mp (by omega)
  refine ⟨ahead, by rw [List.append_nil], ?_⟩
  rw [square, Rule.phrase] at happlies
  split at happlies
  · next hbegin => exact hbegin
  · cases happlies

theorem Shorthand.percents_word {before : Option Char} (h : wordMayBegin before = true) :
    percents before "percent".toList = some (7, ['%']) := by
  have hphrase : Rule.phrase (Rule.word "percent") ['%'] before "percent".toList =
      some (7, ['%']) := by
    rw [Rule.phrase, if_pos h]
    rfl
  have hspelled : spelledPercent before ([] ++ "percent".toList) = some (7, ['%']) := by
    have hstart : ∀ c ∈ "percent".toList.head?, isBlank c = false := by
      rintro _ ⟨⟩
      decide
    rw [spelledPercent_append (List.forall_mem_nil _) hstart, List.getLast?_nil, Option.none_or,
      hphrase]
    rfl
  rw [percents, Rule.firstOf_cons, Rule.firstOf_singleton]
  exact hspelled

theorem Shorthand.square_word {before : Option Char} (h : wordMayBegin before = true) :
    square before "square".toList = some (6, ['s', 'q']) := by
  rw [square, Rule.phrase, if_pos h]
  rfl

/-- **The last mark of a line** that no filler goes up to is that of its last character, unless the
line ends in a word that is written shorter; then all marks are in front of it. -/
theorem Shorthand.endAt_expand (hc : Text.lower c = [d]) (hd : Token.isPlain d = true)
    (hfillers : ¬ fillers.EndsIn (seen 0 (front ++ [c]))) :
    (percents.EndsIn (seen 12 (front ++ [c])) ∨ square.EndsIn (seen 13 (front ++ [c]))) ∧
        (∀ m ∈ expand (Mark.ofTyped (front ++ [c])), m.origin < front.length) ∨
      (¬ percents.EndsIn (seen 12 (front ++ [c])) ∧ ¬ square.EndsIn (seen 13 (front ++ [c]))) ∧
        Mark.EndAt (expand (Mark.ofTyped (front ++ [c]))) d front.length := by
  have hbefore := endAt_marksAt hc hd hfillers
  have hpercent : rules[12]? = some percents := rfl
  have hsquare : rules[13]? = some square := rfl
  rw [← marksAt_length, marksAt_succ hsquare, seen, seen, marksAt_succ hpercent]
  generalize marksAt 12 (front ++ [c]) = marks at hbefore
  by_cases hpercents : percents.EndsIn (marks.map (·.char))
  · refine .inl ⟨.inl hpercents, ?_⟩
    obtain ⟨init, rfl, hinit⟩ := hbefore
    rw [List.map_append] at hpercents
    obtain ⟨ahead, heq, hbegin⟩ := endsIn_percents hd hpercents
    rw [← List.map_singleton (f := Mark.char) (a := ⟨d, _⟩), ← List.map_append] at heq
    refine Rule.pass_origins square (q := (· < front.length)) ?_
    exact Rule.pass_word (q := (· < front.length)) bounded_percents whole_percents (by decide)
      (by decide) (fun _ h => ⟨_, percents_word h⟩) heq hbegin hinit
  have hbehind := hbefore.pass bounded_percents hpercents
  generalize percents.pass marks = marks at hbehind
  by_cases hsquare : square.EndsIn (marks.map (·.char))
  · refine .inl ⟨.inr hsquare, ?_⟩
    obtain ⟨init, rfl, hinit⟩ := hbehind
    obtain ⟨ahead, heq, hbegin⟩ := endsIn_square hsquare
    exact Rule.pass_word (q := (· < front.length)) bounded_square Rule.whole_phrase
      (by decide) (by decide) (fun _ h => ⟨_, square_word h⟩) heq hbegin hinit
  · exact .inr ⟨⟨hpercents, hsquare⟩, hbehind.pass bounded_square hsquare⟩

/-- An ASCII letter, a digit and a bracket have one lower-case form, and it is plain. -/
theorem Text.lower_of_isAlphanum (h : c.isAlphanum = true ∨ c = ')') :
    ∃ d, lower c = [d] ∧ Token.isPlain d = true := by
  have hascii : c.toNat < 128 := by
    rcases h with h | rfl
    · have hchar : (Token.isWordChar c || (48 ≤ c.val && c.val ≤ 57)) = true := h
      rw [Bool.or_eq_true, Bool.and_eq_true, decide_eq_true_iff, decide_eq_true_iff] at hchar
      rcases hchar with hletter | ⟨-, hle⟩
      · exact Token.toNat_lt_of_isWordChar hletter
      · rw [← Char.toNat_val]
        exact Nat.lt_of_le_of_lt (UInt32.le_iff_toNat_le.mp hle) (by decide)
    · decide
  have hall : ∀ n : Fin 128, (Char.ofNat n).isAlphanum = true ∨ Char.ofNat n = ')' →
      Token.isPlain (Char.ofNat n).toLower = true := by decide
  have hplain := hall ⟨c.toNat, hascii⟩
  rw [Char.ofNat_toNat] at hplain
  exact ⟨c.toLower, by rw [lower, if_pos hascii], hplain h⟩

/-- Trimming and multiplication signs leave the last mark, and bring none to a new place. -/
theorem Source.endAt_spelledOut (units : List String) (hd : Token.isPlain d = true) {n : Nat}
    {typed : String} (h : Mark.EndAt (Shorthand.expand (Mark.ofTyped typed.toList)) d n) :
    (spelledOut units typed).getLast? = some ⟨d, n⟩ := by
  obtain ⟨init, hinit, -⟩ := h.trim (Token.isBlank_of_isPlain hd)
  rw [spelledOut, Product.getLast?_insert, hinit, List.getLast?_concat]

theorem Source.spelledOut_origins (units : List String) {n : Nat} {typed : String}
    (h : ∀ m ∈ Shorthand.expand (Mark.ofTyped typed.toList), m.origin < n) :
    ∀ m ∈ spelledOut units typed, m.origin < n := by
  have hwithin : Mark.Within (fun _ => True) (· < n)
      (Mark.trim (Shorthand.expand (Mark.ofTyped typed.toList))) :=
    Mark.Within.trim (p := fun _ => True) (q := (· < n)) fun m hm => ⟨trivial, h m hm⟩
  have hinsert : Mark.Within (fun _ => True) (· < n) (spelledOut units typed) :=
    Product.insertFrom_within trivial hwithin.chars hwithin.origins
  exact fun m hm => (hinsert m hm).2

/-- A source stops behind its last mark. -/
theorem Source.stop_ofMarks {marks : List Mark} {m : Mark} (h : marks.getLast? = some m)
    (typed : String) : (ofMarks marks typed).stop = m.origin + 1 := by
  have hlast : (ofMarks marks typed).offsets.getLast? = some m.origin := by
    rw [ofMarks, List.getLast?_map, h]
    rfl
  rw [stop, hlast]

/-- **A line stops where its last character does**, if that is a letter, a digit or a closing bracket
and no filler goes up to it, unless the line ends in `percent` or `square` by the time that the rule
for the word sees it. There the end mark stands, and a bracket that is not closed is reported
there. -/
theorem Source.ofTyped_stop (units : List String) (typed : String) {source : Source}
    (h : Source.ofTyped units typed = .ok source) {last : Char}
    (hlast : typed.toList.getLast? = some last) (hc : last.isAlphanum = true ∨ last = ')')
    (hfillers : ¬ fillers.EndsIn (seen 0 typed.toList)) :
    (source.stop = typed.length ↔
      ¬ percents.EndsIn (seen 12 typed.toList) ∧ ¬ square.EndsIn (seen 13 typed.toList)) ∧
    ∀ ts, Token.ofSource units source = .ok ts →
      (∃ front, ts = front ++ [⟨.finish, "", source.stop⟩]) ∧
        ∀ place, Brackets.check ts = .error (.misplaced .unclosedBracket place) →
          place = source.stop := by
  obtain ⟨hne, rfl⟩ := ofTyped_eq_ok.mp h
  obtain ⟨front, hfront⟩ := List.getLast?_eq_some_iff.mp hlast
  obtain ⟨d, hlower, hd⟩ := Text.lower_of_isAlphanum hc
  have hlength : typed.length = front.length + 1 := by
    rw [← String.length_toList, hfront, List.length_append, List.length_singleton]
  refine ⟨?_, fun ts hts => ?_⟩
  · rw [hfront] at hfillers
    have hends := Shorthand.endAt_expand hlower hd hfillers
    rw [← hfront] at hends
    rcases hends with ⟨hwords, hends⟩ | ⟨hwords, hends⟩
    · refine iff_of_false ?_ fun hnone => hwords.elim hnone.1 hnone.2
      -- the last mark has a place in front of the last character
      have hplace := spelledOut_origins units hends _ (List.getLast_mem hne)
      rw [stop_ofMarks (List.getLast?_eq_some_getLast hne), hlength]
      omega
    · refine iff_of_true ?_ hwords
      rw [stop_ofMarks (endAt_spelledOut units hd hends), hlength]
  · obtain ⟨tokens, -, rfl⟩ := Token.ofSource_ok.mp hts
    refine ⟨⟨tokens, rfl⟩, fun place hplace => ?_⟩
    rw [Brackets.place_of_unclosed hplace, List.getLast?_concat, Option.map_some,
      Option.getD_some]

/-- A bracket that is not closed is reported behind the last of five characters, one of which is
dropped. -/
theorem Source.ofTyped_stop_of_bracket :
    ∃ source, Source.ofTyped ["m"] "(3°+x" = .ok source ∧ source.stop = 5 ∧
      ∀ ts, Token.ofSource ["m"] source = .ok ts →
        ∀ place, Brackets.check ts = .error (.misplaced .unclosedBracket place) → place = 5 := by
  have hok : (Source.ofTyped ["m"] "(3°+x").toOption.isSome = true := by decide +kernel
  cases hsource : Source.ofTyped ["m"] "(3°+x" with
  | error e =>
      rw [hsource] at hok
      cases hok
  | ok source =>
      obtain ⟨hstop, htokens⟩ := Source.ofTyped_stop ["m"] "(3°+x" hsource rfl (by decide)
        (by decide +kernel)
      have hfive : source.stop = 5 := hstop.mpr (by decide +kernel)
      refine ⟨source, rfl, hfive, fun ts hts place hplace => ?_⟩
      rw [← hfive]
      exact (htokens ts hts).2 place hplace

end Lines

end Reckoner
