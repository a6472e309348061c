import Reckoner.Proofs.Token.Legible
import Reckoner.Proofs.Token.Split

/-!
# Reckoner.Proofs.Token.Alphabet -- which texts can be split into tokens

A text is split into tokens if all of its characters belong to tokens or are white space, and every
run of digits and points is a numeral. Nothing is lost then, and else the leftmost character is
reported that is at fault: one that belongs to no token, or the first of a run that is no numeral.

A scan takes one piece after the other off the front of a text. What is at fault behind a piece is
so in the whole text, since no run goes on over the end of a piece, and nothing is at fault inside
one (`Piece.flaw_iff`).
-/

namespace Reckoner

open Number (isAsciiDigit)

namespace Token

/-! ## What can be at fault -/

/-- Whether a character belongs to tokens. -/
def isLexical (c : Char) : Bool :=
  isWordChar c || isNumeralChar c || ['+', '-', '*', '/', '%', '(', ')', '=', ','].contains c

/-- Whether a run of digits and points starts at an index: one of them is there, and none is just
before. -/
def RunStarts (text : List Char) (i : Nat) : Prop :=
  (∃ c, text[i]? = some c ∧ isNumeralChar c = true) ∧
    ∀ j c, i = j + 1 → text[j]? = some c → isNumeralChar c = false

/-- The run of digits and points that starts at an index. -/
def runAt (text : List Char) (i : Nat) : List Char := (text.drop i).takeWhile isNumeralChar

/-- Whether a run of digits and points has a digit and no more than one point. -/
def IsProper (run : List Char) : Prop := (∃ c ∈ run, isAsciiDigit c = true) ∧ run.count '.' ≤ 1

/-- Whether the character at an index belongs to no token and is no white space, or a run starts
there that is not proper. -/
def Flaw (text : List Char) (i : Nat) : Prop :=
  (∃ c, text[i]? = some c ∧ Text.isBlank c = false ∧ isLexical c = false) ∨
    (RunStarts text i ∧ ¬ IsProper (runAt text i))

/-! ## Characters -/

section Characters

variable {c : Char} {run : List Char}

theorem toNat_lt_of_isWordChar (h : isWordChar c) : c.toNat < 128 := by
  have hletter : (decide (65 ≤ c.val ∧ c.val ≤ 90) || (97 ≤ c.val && c.val ≤ 122)) = true := h
  rw [Bool.or_eq_true, Bool.and_eq_true, decide_eq_true_iff, decide_eq_true_iff,
    decide_eq_true_iff] at hletter
  rw [← Char.toNat_val]
  rcases hletter with ⟨-, hle⟩ | ⟨-, hle⟩
  · exact Nat.lt_of_le_of_lt (UInt32.le_iff_toNat_le.mp hle) (by decide)
  · exact Nat.lt_of_le_of_lt (UInt32.le_iff_toNat_le.mp hle) (by decide)

theorem toNat_lt_of_isLexical (h : isLexical c) : c.toNat < 128 := by
  rw [isLexical, Bool.or_eq_true, Bool.or_eq_true, List.contains_iff_mem] at h
  rcases h with (h | h) | h
  · exact toNat_lt_of_isWordChar h
  · exact toNat_lt_of_isPlain (isPlain_of_isNumeralChar h)
  · revert h c
    decide

/-- What holds of the lexical ones of the first 128 characters holds of all of them. -/
theorem of_isLexical {p : Char → Prop}
    (h : ∀ n : Fin 128, isLexical (Char.ofNat n) → p (Char.ofNat n)) (hc : isLexical c) : p c := by
  have hofNat := h ⟨c.toNat, toNat_lt_of_isLexical hc⟩
  rw [Char.ofNat_toNat] at hofNat
  exact hofNat hc

theorem isBlank_of_isLexical (h : isLexical c) : Text.isBlank c = false :=
  of_isLexical (p := fun c => Text.isBlank c = false) (by decide) h

theorem isLexical_of_isNumeralChar (h : isNumeralChar c) : isLexical c := by
  simp [isLexical, h]

theorem isLexical_of_isWordChar (h : isWordChar c) : isLexical c := by
  simp [isLexical, h]

theorem isNumeralChar_of_isWordChar (h : isWordChar c) : isNumeralChar c = false :=
  of_isLexical (p := fun c => isWordChar c = true → isNumeralChar c = false) (by decide)
    (isLexical_of_isWordChar h) h

theorem isNumeralChar_of_isBlank (h : Text.isBlank c) : isNumeralChar c = false := by
  cases hchar : isNumeralChar c with
  | false => rfl
  | true =>
      have := isBlank_of_isLexical (isLexical_of_isNumeralChar hchar)
      simp [this] at h

/-- The numerals are the proper runs. -/
theorem isNumeral_iff (hne : run ≠ []) (hchars : ∀ c ∈ run, isNumeralChar c) :
    isNumeral run ↔ IsProper run := by
  rw [isNumeral, Bool.and_eq_true, decide_eq_true_iff, bne_iff_ne, IsProper, and_comm]
  refine and_congr_left fun hcount => ⟨fun hpoint => ?_, ?_⟩
  · -- without a digit there are only points, hence one
    refine Classical.byContradiction fun hnone => hpoint ?_
    have hpoints : ∀ c ∈ run, c = '.' := by
      intro c hc
      have hchar := hchars c hc
      rw [isNumeralChar, Bool.or_eq_true, beq_iff_eq] at hchar
      exact hchar.resolve_left fun hdigit => hnone ⟨c, hc, hdigit⟩
    have hreplicate : run = List.replicate run.length '.' :=
      List.eq_replicate_of_mem hpoints
    rw [hreplicate, List.count_replicate_self] at hcount
    have hlength : run.length = 1 := by
      have := List.length_pos_iff.mpr hne
      omega
    rw [hreplicate, hlength]
    rfl
  · rintro ⟨c, hc, hdigit⟩ rfl
    rw [List.mem_singleton.mp hc] at hdigit
    exact absurd hdigit (by decide)

end Characters

/-! ## Pieces -/

section Pieces

variable {units : List String} {text piece rest lexeme : List Char} {c : Char} {i : Nat}
  {kind : Class}

/-- What a scan takes off the front of a text: characters without a digit or a point, or a proper
run of them that does not go on. -/
inductive Piece (piece rest : List Char) : Prop
  | plain (h : ∀ c ∈ piece,
      (Text.isBlank c = true ∨ isLexical c = true) ∧ isNumeralChar c = false)
  | run (hchars : ∀ c ∈ piece, isNumeralChar c = true) (hproper : IsProper piece)
    (hrest : ∀ c ∈ rest.head?, isNumeralChar c = false)

/-- No run goes on over the end of a piece. -/
theorem Piece.boundary (h : Piece piece rest) :
    (∀ c ∈ piece.getLast?, isNumeralChar c = false) ∨
      ∀ c ∈ rest.head?, isNumeralChar c = false := by
  cases h with
  | plain h => exact .inl fun c hc => (h c (List.mem_of_getLast? hc)).2
  | run _ _ hrest => exact .inr hrest

theorem Piece.runStarts_iff (h : Piece piece rest) :
    RunStarts (piece ++ rest) (piece.length + i) ↔ RunStarts rest i := by
  have hget (k : Nat) : (piece ++ rest)[piece.length + k]? = rest[k]? := by
    rw [List.getElem?_append_right (Nat.le_add_right ..), Nat.add_sub_cancel_left]
  rw [RunStarts, RunStarts, hget]
  refine and_congr_right fun ⟨c, hc, hchar⟩ => ?_
  cases i with
  | zero =>
      -- the last character of the piece is just before
      refine iff_of_true (fun j d hj hd => ?_) (by simp)
      rcases h.boundary with hlast | hhead
      · obtain rfl : j = piece.length - 1 := by omega
        rw [List.getElem?_append_left (by omega), ← List.getLast?_eq_getElem?] at hd
        exact hlast d hd
      · rw [← List.head?_eq_getElem?] at hc
        simp [hhead c hc] at hchar
  | succ i =>
      constructor
      · rintro hbefore j d ⟨⟩ hd
        exact hbefore (piece.length + i) d rfl ((hget i).trans hd)
      · rintro hbefore j d hj hd
        obtain rfl : j = piece.length + i := by omega
        exact hbefore i d rfl ((hget i).symm.trans hd)

theorem Piece.flaw_add (h : Piece piece rest) :
    Flaw (piece ++ rest) (piece.length + i) ↔ Flaw rest i := by
  have hget : (piece ++ rest)[piece.length + i]? = rest[i]? := by
    rw [List.getElem?_append_right (Nat.le_add_right ..), Nat.add_sub_cancel_left]
  have hdrop : runAt (piece ++ rest) (piece.length + i) = runAt rest i := by
    rw [runAt, runAt, List.drop_length_add_append]
  rw [Flaw, Flaw, hget, h.runStarts_iff, hdrop]

/-- Nothing is at fault inside a piece. -/
theorem Piece.not_flaw (h : Piece piece rest) (hi : i < piece.length) :
    ¬ Flaw (piece ++ rest) i := by
  have hget {k : Nat} (hk : k < piece.length) : (piece ++ rest)[k]? = some piece[k] := by
    rw [List.getElem?_append_left hk, List.getElem?_eq_getElem hk]
  rw [Flaw, hget hi]
  cases h with
  | plain h =>
      obtain ⟨hlegal, hnumeral⟩ := h piece[i] (List.getElem_mem hi)
      rintro (⟨_, ⟨⟩, hblank, hlexical⟩ | ⟨⟨⟨c, hc, hchar⟩, -⟩, -⟩)
      · simp [hblank, hlexical] at hlegal
      · rw [hget hi] at hc
        cases hc
        simp [hnumeral] at hchar
  | run hchars hproper hrest =>
      have hchar {k : Nat} (hk : k < piece.length) := hchars piece[k] (List.getElem_mem hk)
      rintro (⟨_, ⟨⟩, -, hlexical⟩ | ⟨⟨-, hbefore⟩, himproper⟩)
      · simp [isLexical_of_isNumeralChar (hchar hi)] at hlexical
      · cases i with
        | zero =>
            rw [runAt, List.drop_zero, (span_run hchars hrest).1] at himproper
            exact himproper hproper
        | succ i =>
            have hi' : i < piece.length := by omega
            have := hbefore i _ rfl (hget hi')
            simp [hchar hi'] at this

/-- What is at fault is so behind a piece. -/
theorem Piece.flaw_iff (h : Piece piece rest) :
    Flaw (piece ++ rest) i ↔ ∃ j, i = piece.length + j ∧ Flaw rest j := by
  constructor
  · intro hflaw
    have hi : piece.length ≤ i := Nat.le_of_not_lt fun hlt => h.not_flaw hlt hflaw
    obtain ⟨j, rfl⟩ := Nat.exists_eq_add_of_le hi
    exact ⟨j, rfl, h.flaw_add.mp hflaw⟩
  · rintro ⟨j, rfl, hflaw⟩
    exact h.flaw_add.mpr hflaw

theorem lexical_of_leadingWord (text : List Char) :
    ∀ c ∈ leadingWord units text, isLexical c = true ∧ isNumeralChar c = false := by
  have hword {text : List Char} :
      ∀ c ∈ text.takeWhile isWordChar, isLexical c = true ∧ isNumeralChar c = false := by
    intro c hc
    have hchar : isWordChar c = true := List.all_eq_true.mp List.all_takeWhile c hc
    exact ⟨isLexical_of_isWordChar hchar, isNumeralChar_of_isWordChar hchar⟩
  rcases leadingWord_cases units text with hone | ⟨more, -, -, htwo, -⟩
  · rw [hone]
    exact hword
  · rw [htwo]
    exact List.forall_mem_append.mpr ⟨hword, List.forall_mem_cons.mpr ⟨by decide, hword⟩⟩

/-- A leading token is a piece, and all its characters are lexical. -/
theorem leading?_piece (h : leading? units text = some (kind, lexeme)) :
    (∀ c ∈ lexeme, isLexical c = true) ∧ ∃ rest, text = lexeme ++ rest ∧ Piece lexeme rest := by
  have hplain (hfront : lexeme <+: text)
      (hchars : ∀ c ∈ lexeme, isLexical c = true ∧ isNumeralChar c = false) :
      (∀ c ∈ lexeme, isLexical c = true) ∧ ∃ rest, text = lexeme ++ rest ∧ Piece lexeme rest := by
    obtain ⟨rest, hrest⟩ := hfront
    exact ⟨fun c hc => (hchars c hc).1, rest, hrest.symm,
      .plain fun c hc => ⟨.inr (hchars c hc).1, (hchars c hc).2⟩⟩
  have hfront := (leading?_isPrefix h).2
  rcases leading?_cases h with ⟨-, rfl, hne, hrun⟩ | ⟨-, rfl, -⟩ | ⟨hsign, -⟩
  · have hchars : ∀ c ∈ text.takeWhile isNumeralChar, isNumeralChar c = true := fun c hc =>
      List.all_eq_true.mp List.all_takeWhile c hc
    refine ⟨fun c hc => isLexical_of_isNumeralChar (hchars c hc), text.dropWhile isNumeralChar,
      List.takeWhile_append_dropWhile.symm, .run hchars ((isNumeral_iff hne hchars).mp hrun) ?_⟩
    intro c hc
    have hhead := List.head?_dropWhile_not isNumeralChar text
    rw [hc] at hhead
    exact hhead
  · exact hplain hfront (lexical_of_leadingWord text)
  · have hsigns : ∀ sign ∈ signs, ∀ c ∈ sign.2, isLexical c = true ∧ isNumeralChar c = false := by
      decide
    exact hplain hfront (hsigns _ hsign)

/-- Where no token starts, the first character is at fault. -/
theorem flaw_of_leading?_eq_none (hblank : Text.isBlank c = false)
    (h : leading? units (c :: text) = none) : Flaw (c :: text) 0 := by
  unfold leading? at h
  split at h
  case h_6 _ hopen hclose hequal hcomma heq =>
    cases heq
    split at h
    · next hnumeral =>
      simp only at h
      split at h
      · cases h
      · next hrun =>
        have hne : (c :: text).takeWhile isNumeralChar ≠ [] := by simp [hnumeral]
        have hchars : ∀ d ∈ (c :: text).takeWhile isNumeralChar, isNumeralChar d = true :=
          List.all_eq_true.mp List.all_takeWhile
        refine .inr ⟨⟨⟨c, rfl, hnumeral⟩, nofun⟩, fun hproper => hrun ?_⟩
        exact (isNumeral_iff hne hchars).mpr hproper
    · next hnumeral =>
      split at h
      · cases h
      · next hword =>
        split at h
        · cases h
        · next hsign =>
          refine .inl ⟨c, rfl, hblank, ?_⟩
          simp only [List.contains_iff_mem, List.mem_cons, not_or] at hsign
          simp [isLexical, hword, hnumeral, hsign, show c ≠ '(' from hopen,
            show c ≠ ')' from hclose, show c ≠ '=' from hequal, show c ≠ ',' from hcomma]
  case h_7 heq => cases heq
  all_goals cases h

end Pieces

/-! ## The scan -/

section Scan

variable {units : List String} {marks : List Mark} {ts : List Token}

/-- What a scan should give: tokens if nothing is at fault, and else the leftmost character that
is. -/
def Diagnosed (marks : List Mark) : Except Error (List Token) → Prop
  | .ok _ => ∀ i, ¬ Flaw (marks.map (·.char)) i
  | .error e => ∃ i m, marks[i]? = some m ∧ e = .unexpectedCharacter m.char m.origin ∧
    Flaw (marks.map (·.char)) i ∧ ∀ j < i, ¬ Flaw (marks.map (·.char)) j

theorem Diagnosed.map {x : Except Error (List Token)} (h : Diagnosed marks x)
    (f : List Token → List Token) : Diagnosed marks (x.map f) := by
  cases x with
  | ok ts => exact h
  | error e => exact h

/-- A scan that is right behind a piece is right. -/
theorem Diagnosed.behind {front rest : List Mark} {x : Except Error (List Token)}
    (hpiece : Piece (front.map (·.char)) (rest.map (·.char))) (h : Diagnosed rest x) :
    Diagnosed (front ++ rest) x := by
  have hflaw (i : Nat) : Flaw ((front ++ rest).map (·.char)) i ↔
      ∃ j, i = front.length + j ∧ Flaw (rest.map (·.char)) j := by
    rw [List.map_append, hpiece.flaw_iff, List.length_map]
  cases x with
  | ok ts =>
      intro i hi
      obtain ⟨j, -, hj⟩ := (hflaw i).mp hi
      exact h j hj
  | error e =>
      obtain ⟨i, m, hm, he, hi, hfirst⟩ := h
      refine ⟨front.length + i, m, ?_, he, (hflaw _).mpr ⟨i, rfl, hi⟩, fun k hk hflawed => ?_⟩
      · rw [List.getElem?_append_right (Nat.le_add_right ..), Nat.add_sub_cancel_left, hm]
      · obtain ⟨j, rfl, hj⟩ := (hflaw k).mp hflawed
        exact hfirst j (by omega) hj

/-- **A scan finds what is at fault.** -/
theorem scanFrom_diagnosed (units : List String) (marks : List Mark) :
    Diagnosed marks (scanFrom units 0 (marks.map (·.char)) (marks.map (·.origin))) := by
  -- a piece is taken off, and fewer marks are left
  induction hn : marks.length using Nat.strongRecOn generalizing marks with
  | _ n ih =>
  subst hn
  cases marks with
  | nil => rintro i (⟨c, hc, -⟩ | ⟨⟨⟨c, hc, -⟩, -⟩, -⟩) <;> simp at hc
  | cons m marks =>
      rw [List.map_cons, List.map_cons, scanFrom]
      cases hblank : Text.isBlank m.char with
      | true =>
          rw [if_pos rfl]
          have hpiece : Piece ([m].map (·.char)) (marks.map (·.char)) := by
            refine .plain fun c hc => ?_
            rw [List.mem_singleton.mp hc]
            exact ⟨.inl hblank, isNumeralChar_of_isBlank hblank⟩
          exact (ih marks.length (by simp) marks rfl).behind hpiece
      | false =>
          rw [if_neg (by simp)]
          split
          · next kind lexeme hleading =>
            obtain ⟨-, rest, hrest, hpiece⟩ := leading?_piece hleading
            obtain ⟨front, back, heq, rfl, rfl⟩ :=
              (List.map_eq_append_iff (l := m :: marks)).mp hrest
            cases front with
            | nil => exact absurd rfl (leading?_isPrefix hleading).1
            | cons m' front =>
                rw [List.cons_append] at heq
                obtain ⟨rfl, rfl⟩ := List.cons.inj heq
                have hdrop {α : Type} (f : Mark → α) :
                    ((front ++ back).map f).drop front.length = back.map f := by
                  rw [List.map_append, List.drop_left' (List.length_map f)]
                rw [List.length_map, List.length_cons, Nat.add_sub_cancel, scanFrom_skip, hdrop,
                  hdrop]
                have hback : back.length < (m :: (front ++ back)).length := by
                  rw [List.length_cons, List.length_append]
                  omega
                exact ((ih back.length hback back rfl).behind hpiece).map _
          · next hleading =>
            exact ⟨0, m, rfl, rfl, flaw_of_leading?_eq_none hblank hleading,
              fun j hj => absurd hj (Nat.not_lt_zero j)⟩

/-! ## What is kept -/

/-- The characters of a text that are no white space. -/
def visible (text : List Char) : List Char := text.filter fun c => !Text.isBlank c

theorem visible_append (text more : List Char) :
    visible (text ++ more) = visible text ++ visible more :=
  List.filter_append ..

theorem visible_eq_self {text : List Char} (h : ∀ c ∈ text, isLexical c = true) :
    visible text = text :=
  List.filter_eq_self.mpr fun c hc => by simp [isBlank_of_isLexical (h c hc)]

/-- The tokens of a text have all of its characters but the white space. -/
theorem Split.chars_eq (h : Split units marks ts) : chars ts = visible (marks.map (·.char)) := by
  induction h with
  | nil => rfl
  | blank hblank _ ih =>
      rw [ih, List.map_cons, visible, visible, List.filter_cons_of_neg (by simp [hblank])]
  | @token m ms rest kind ts _ hleading _ ih =>
      rw [chars_cons, ih, List.map_append, visible_append,
        visible_eq_self (leading?_piece hleading).1, String.toList_ofList]

/-- A token stands where its first character does: it is spelled there, and in front of that are
the tokens before it and white space. -/
structure StandsAt (text : List Char) (offsets : List Nat) (before : List Token) (t : Token)
    (i : Nat) : Prop where
  ne_nil : t.lexeme.toList ≠ []
  place : offsets[i]? = some t.place
  spelled : t.lexeme.toList <+: text.drop i
  before : visible (text.take i) = chars before

theorem Split.standsAt (h : Split units marks ts) {before behind : List Token} {t : Token}
    (hts : ts = before ++ t :: behind) :
    ∃ i, StandsAt (marks.map (·.char)) (marks.map (·.origin)) before t i := by
  induction h generalizing before with
  | nil => simp at hts
  | @blank m ms ts hblank _ ih =>
      obtain ⟨i, hi⟩ := ih hts
      refine ⟨i + 1, hi.ne_nil, hi.place, hi.spelled, ?_⟩
      rw [List.map_cons, List.take_succ_cons, visible, List.filter_cons_of_neg (by simp [hblank])]
      exact hi.before
  | @token m ms rest kind ts _ hleading _ ih =>
      cases before with
      | nil =>
          cases hts
          refine ⟨0, by simp, rfl, ?_, rfl⟩
          rw [String.toList_ofList, List.map_append]
          exact List.prefix_append ..
      | cons u before =>
          obtain ⟨rfl, hbehind⟩ := List.cons.inj hts
          obtain ⟨i, hi⟩ := ih hbehind
          have hlength {α : Type} (f : Mark → α) : ((m :: ms).map f).length = (m :: ms).length :=
            List.length_map f
          refine ⟨(m :: ms).length + i, hi.ne_nil, ?_, ?_, ?_⟩
          · rw [List.map_append, ← hlength (·.origin),
              List.getElem?_append_right (Nat.le_add_right ..), Nat.add_sub_cancel_left]
            exact hi.place
          · rw [List.map_append, ← hlength (·.char), List.drop_length_add_append]
            exact hi.spelled
          · rw [List.map_append, ← hlength (·.char), List.take_length_add_append, visible_append,
              hi.before, visible_eq_self (leading?_piece hleading).1, chars_cons,
              String.toList_ofList]

end Scan

/-! ## Sources -/

section Sources

variable {units : List String} {s : Source}

/-- Text and offsets of the same length are those of the marks. -/
theorem marks_eq (h : s.offsets.length = s.text.length) :
    s.marks.map (·.char) = s.text ∧ s.marks.map (·.origin) = s.offsets := by
  have hzip (text : List Char) (offsets : List Nat) (h : offsets.length = text.length) :
      (List.zipWith Mark.mk text offsets).map (·.char) = text ∧
        (List.zipWith Mark.mk text offsets).map (·.origin) = offsets := by
    induction text generalizing offsets with
    | nil => simp [List.eq_nil_of_length_eq_zero h]
    | cons c text ih =>
        cases offsets with
        | nil => cases h
        | cons o offsets => simp [ih offsets (by simpa using h)]
  have hmarks : s.marks = List.zipWith Mark.mk s.text s.offsets := by
    simp [Source.marks, h]
  rw [hmarks]
  exact hzip s.text s.offsets h

theorem scanFrom_of_ofSource_error {e : Error} (h : ofSource units s = .error e) :
    scanFrom units 0 (s.marks.map (·.char)) (s.marks.map (·.origin)) = .error e := by
  unfold ofSource at h
  cases hscan : scanFrom units 0 (s.marks.map (·.char)) (s.marks.map (·.origin)) with
  | ok ts => simp [hscan, Except.map] at h
  | error f =>
      simp [hscan, Except.map] at h
      rw [h]

theorem forall_not_flaw_iff {text : List Char} :
    (∀ i, ¬ Flaw text i) ↔
      (∀ c ∈ text, Text.isBlank c = true ∨ isLexical c = true) ∧
        ∀ i, RunStarts text i → IsProper (runAt text i) := by
  constructor
  · intro h
    refine ⟨fun c hc => ?_, fun i hi => Classical.byContradiction fun hproper =>
      h i (.inr ⟨hi, hproper⟩)⟩
    obtain ⟨i, hi⟩ := List.mem_iff_getElem?.mp hc
    cases hblank : Text.isBlank c with
    | true => exact .inl rfl
    | false =>
        cases hlexical : isLexical c with
        | true => exact .inr rfl
        | false => exact absurd (.inl ⟨c, hi, hblank, hlexical⟩) (h i)
  · rintro ⟨hchars, hruns⟩ i (⟨c, hc, hblank, hlexical⟩ | ⟨hstarts, himproper⟩)
    · have := hchars c (List.mem_of_getElem? hc)
      simp [hblank, hlexical] at this
    · exact himproper (hruns i hstarts)

/-- **A source is split if nothing in it is at fault, and nothing is lost.** Its tokens are spelled
like its text without white space, each has the offset of its first character, and one end mark is
behind them. Else the error is at the offset of the leftmost character that is at fault. -/
theorem ofSource_alphabet (units : List String) (s : Source)
    (hoffsets : s.offsets.length = s.text.length) :
    ((∃ ts, ofSource units s = .ok ts) ↔
      (∀ c ∈ s.text, Text.isBlank c = true ∨ isLexical c = true) ∧
        ∀ i, RunStarts s.text i → IsProper (runAt s.text i)) ∧
    (∀ ts, ofSource units s = .ok ts → chars ts = visible s.text ∧
      ∃ front, ts = front ++ [⟨.finish, "", s.stop⟩] ∧ (∀ t ∈ front, t.kind ≠ .finish) ∧
        ∀ before t behind, front = before ++ t :: behind →
          ∃ i, StandsAt s.text s.offsets before t i) ∧
    ∀ e, ofSource units s = .error e → ∃ i c o, e = .unexpectedCharacter c o ∧
      s.text[i]? = some c ∧ s.offsets[i]? = some o ∧ Flaw s.text i ∧ ∀ j < i, ¬ Flaw s.text j := by
  obtain ⟨htext, horigins⟩ := marks_eq hoffsets
  have hdiagnosed := scanFrom_diagnosed units s.marks
  refine ⟨?_, fun ts hok => ?_, fun e herror => ?_⟩
  · rw [← forall_not_flaw_iff, ← htext]
    constructor
    · rintro ⟨ts, hok⟩
      obtain ⟨front, hsplit, -⟩ := ofSource_ok.mp hok
      rw [hsplit.scanFrom] at hdiagnosed
      exact hdiagnosed
    · intro hclean
      cases hscan : scanFrom units 0 (s.marks.map (·.char)) (s.marks.map (·.origin)) with
      | ok front => exact ⟨_, ofSource_ok.mpr ⟨front, split_of_scanFrom hscan, rfl⟩⟩
      | error e =>
          rw [hscan] at hdiagnosed
          obtain ⟨i, -, -, -, hflaw, -⟩ := hdiagnosed
          exact absurd hflaw (hclean i)
  · obtain ⟨front, hsplit, rfl⟩ := ofSource_ok.mp hok
    refine ⟨?_, front, rfl, fun t ht => (hsplit.readable ht).1, fun before t behind hfront => ?_⟩
    · rw [chars_append, hsplit.chars_eq, htext]
      exact List.append_nil _
    · rw [← htext, ← horigins]
      exact hsplit.standsAt hfront
  · rw [scanFrom_of_ofSource_error herror] at hdiagnosed
    obtain ⟨i, m, hm, rfl, hflaw, hfirst⟩ := hdiagnosed
    rw [htext] at hflaw hfirst
    refine ⟨i, m.char, m.origin, rfl, ?_, ?_, hflaw, hfirst⟩
    · rw [← htext, List.getElem?_map, hm]
      rfl
    · rw [← horigins, List.getElem?_map, hm]
      rfl

/-- A run with two points in front of a character that belongs to no token. -/
theorem ofSource_alphabet_of_points :
    Flaw "1+2..3$".toList 2 ∧ ∀ j < 2, ¬ Flaw "1+2..3$".toList j := by
  let s : Source := ⟨"1+2..3$".toList, List.range 7, "1+2..3$"⟩
  obtain ⟨i, c, o, he, -, ho, hflaw, hfirst⟩ :=
    (ofSource_alphabet [] s rfl).2.2 (.unexpectedCharacter '2' 2) rfl
  cases he
  obtain ⟨-, rfl⟩ : i < 7 ∧ i = 2 := by
    simpa [s, List.getElem?_eq_some_iff] using ho
  exact ⟨hflaw, hfirst⟩

end Sources

end Token

end Reckoner
