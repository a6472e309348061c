import Reckoner.Proofs.Token.Alphabet
import Reckoner.Proofs.Token.Seam

/-!
# Reckoner.Proofs.Token.Respell -- tokens spelled out are the same tokens again

Every token is its own leading token, so that it is read again where it stands alone. Between two
tokens of a respelling there is a blank, which makes a seam. Hence a respelling is split into the
tokens that it is made of.
-/

namespace Reckoner

namespace Token

variable {units : List String} {cs lexeme : List Char} {kind : Class}

/-! ## Tokens that stand alone -/

/-- The word at the start of a text is its own leading word. -/
theorem leadingWord_self (units : List String) (cs : List Char) :
    leadingWord units (leadingWord units cs) = leadingWord units cs := by
  have hletters (cs : List Char) : ∀ c ∈ cs.takeWhile isWordChar, isWordChar c = true :=
    List.all_eq_true.mp List.all_takeWhile
  rcases leadingWord_cases units cs with hone | ⟨more, -, hne, htwo, hunit⟩
  · have hdrop : (cs.takeWhile isWordChar).dropWhile isWordChar = [] :=
      List.dropWhile_eq_nil_iff.mpr (hletters cs)
    rw [hone, leadingWord_eq (by simp [hdrop])]
    exact List.takeWhile_eq_self_iff.mpr (hletters cs)
  · have hslash : ∀ c ∈ ('/' :: more.takeWhile isWordChar).head?, isWordChar c = false := by
      rintro _ ⟨⟩
      decide
    obtain ⟨htake, hdrop⟩ := span_run (hletters cs) hslash
    have hsecond : (more.takeWhile isWordChar).takeWhile isWordChar =
        more.takeWhile isWordChar :=
      List.takeWhile_eq_self_iff.mpr (hletters more)
    rw [htwo] at hunit ⊢
    unfold leadingWord
    rw [htake, hdrop]
    simp only [hsecond]
    refine if_pos ?_
    rw [Bool.and_eq_true, List.contains_iff_mem]
    exact ⟨by simpa using hne, hunit⟩

theorem leading?_of_isWordChar {c : Char} (h : isWordChar c = true) :
    leading? units (c :: cs) = some (.identifier, leadingWord units (c :: cs)) := by
  have hclass : c ∉ ['*', '(', ')', '=', ','] ∧ isNumeralChar c = false :=
    of_isLexical (p := fun c => isWordChar c = true →
      c ∉ ['*', '(', ')', '=', ','] ∧ isNumeralChar c = false) (by decide)
      (isLexical_of_isWordChar h) h
  rw [leading?_of_not_sign hclass.1, if_neg (by simp [hclass.2]), if_pos h]

/-- **A leading token is its own leading token.** -/
theorem leading?_self (h : leading? units cs = some (kind, lexeme)) :
    leading? units lexeme = some (kind, lexeme) := by
  rcases leading?_cases h with ⟨rfl, hlexeme, hne, hrun⟩ | ⟨rfl, rfl, c, rest, rfl, hc⟩ | ⟨hsign, -⟩
  · have hchars : ∀ c ∈ lexeme, isNumeralChar c = true := by
      rw [hlexeme]
      exact List.all_eq_true.mp List.all_takeWhile
    have hself : lexeme.takeWhile isNumeralChar = lexeme := List.takeWhile_eq_self_iff.mpr hchars
    obtain ⟨c, rest, rfl⟩ := List.exists_cons_of_ne_nil hne
    have hnumber : leading? units (c :: rest) =
        some (.number, (c :: rest).takeWhile isNumeralChar) :=
      leading?_of_isNumeralChar (hchars c List.mem_cons_self) (by rw [hself, hrun])
    rwa [hself] at hnumber
  · obtain ⟨hne, hprefix⟩ := leading?_isPrefix h
    have hself := leadingWord_self units (c :: rest)
    generalize leadingWord units (c :: rest) = word at hne hprefix hself
    obtain ⟨d, more, rfl⟩ := List.exists_cons_of_ne_nil hne
    obtain ⟨rfl, -⟩ := List.cons_prefix_cons.mp hprefix
    rw [leading?_of_isWordChar hc, hself]
  · simp only [signs, List.mem_cons, List.not_mem_nil, or_false, Prod.mk.injEq] at hsign
    rcases hsign with ⟨rfl, rfl⟩ | ⟨rfl, rfl⟩ | ⟨rfl, rfl⟩ | ⟨rfl, rfl⟩ | ⟨rfl, rfl⟩ | ⟨rfl, rfl⟩ |
      ⟨rfl, rfl⟩ | ⟨rfl, rfl⟩ | ⟨rfl, rfl⟩ | ⟨rfl, rfl⟩
    all_goals rfl

/-- The tokens of a text are read again where they stand alone. -/
theorem Split.leading_self {marks : List Mark} {ts : List Token} (h : Split units marks ts) :
    ∀ t ∈ ts, leading? units t.lexeme.toList = some (t.kind, t.lexeme.toList) := by
  intro t ht
  obtain ⟨text, -, hleading⟩ := h.leading t ht
  exact leading?_self hleading

/-! ## Tokens with blanks between them -/

section Spaced

variable {marks : List Mark} {ts us : List Token} {t : Token}

theorem split_alone (h : leading? units t.lexeme.toList = some (t.kind, t.lexeme.toList))
    (hmarks : marks.map (·.char) = t.lexeme.toList) :
    ∃ u, Split units marks [u] ∧ u.unplaced = t.unplaced := by
  cases marks with
  | nil =>
      have hne := (leading?_isPrefix h).1
      exact absurd hmarks.symm hne
  | cons m ms =>
      have hblank : Text.isBlank m.char = false := by
        refine isBlank_of_isLexical ((leading?_piece h).1 m.char ?_)
        rw [← hmarks]
        exact List.mem_cons_self
      have hleading : leading? units ((m :: ms ++ []).map Mark.char) =
          some (t.kind, (m :: ms).map Mark.char) := by
        rw [List.append_nil, hmarks, h]
      have hsplit := Split.token hblank hleading .nil
      rw [List.append_nil, hmarks, String.ofList_toList] at hsplit
      exact ⟨_, hsplit, rfl⟩

/-- Tokens with one blank between two of them are read again. -/
theorem split_spaced
    (h : ∀ t ∈ ts, leading? units t.lexeme.toList = some (t.kind, t.lexeme.toList))
    (hmarks : marks.map (·.char) = [' '].intercalate (ts.map (·.lexeme.toList))) :
    ∃ us, Split units marks us ∧ us.map unplaced = ts.map unplaced := by
  induction ts generalizing marks with
  | nil =>
      obtain rfl := List.map_eq_nil_iff.mp hmarks
      exact ⟨[], .nil, rfl⟩
  | cons t ts ih =>
      rw [List.forall_mem_cons] at h
      cases ts with
      | nil =>
          obtain ⟨u, hu, hunplaced⟩ := split_alone h.1 (hmarks.trans List.intercalate_singleton)
          exact ⟨[u], hu, by rw [List.map_singleton, List.map_singleton, hunplaced]⟩
      | cons next ts =>
          rw [List.map_cons, List.map_cons, List.intercalate_cons_cons, List.append_assoc,
            List.map_eq_append_iff] at hmarks
          obtain ⟨front, behind, rfl, hfront, hbehind⟩ := hmarks
          obtain ⟨blank, back, rfl, hblank, hback⟩ := List.map_eq_cons_iff.mp hbehind
          obtain ⟨u, hu, hunplaced⟩ := split_alone h.1 hfront
          obtain ⟨us, hus, hmap⟩ := ih h.2 hback
          -- a token does not go on at a blank
          have hseam : Seam units (front.map (·.char)) ((blank :: back).map (·.char)) := by
            rw [hbehind]
            exact .of_head (by decide) fun _ _ _ => by decide
          refine ⟨u :: us, hu.append (.blank ?_ hus) hseam, ?_⟩
          · rw [hblank]
            decide
          · rw [List.map_cons, hunplaced, hmap, ← List.map_cons]

/-- A respelling depends on classes and spellings only. -/
theorem respell_congr (h : us.map unplaced = ts.map unplaced) : respell us = respell ts := by
  have hspelling (ts : List Token) : respell (ts.map unplaced) = respell ts := by
    have hfilter : (ts.map unplaced).filter (·.kind != .finish) =
        (ts.filter (·.kind != .finish)).map unplaced := by
      rw [List.filter_map]
      rfl
    rw [respell, hfilter, List.map_map]
    rfl
  rw [← hspelling us, h, hspelling ts]

/-- In a respelling the end mark is left out. -/
theorem toList_respell {stop : Token} (h : ∀ t ∈ ts, t.kind ≠ .finish)
    (hstop : stop.kind = .finish) : (respell (ts ++ [stop])).toList =
      [' '].intercalate (ts.map (·.lexeme.toList)) := by
  have hfront : ts.filter (·.kind != .finish) = ts :=
    List.filter_eq_self.mpr fun t ht => bne_iff_ne.mpr (h t ht)
  have hend : [stop].filter (·.kind != .finish) = [] :=
    List.filter_cons_of_neg (by simp [hstop])
  rw [respell, List.filter_append, hfront, hend, List.append_nil, String.toList_intercalate,
    List.map_map]
  rfl

end Spaced

/-! ## Sources -/

/-- **A respelling is split into the tokens that it is made of**, places apart, so that it is
respelled as it is. -/
theorem ofSource_respell (units : List String) (s : Source) {ts : List Token}
    (h : ofSource units s = .ok ts) (again : Source) (htext : again.text = (respell ts).toList)
    (hoffsets : again.offsets.length = again.text.length) :
    ∃ us, ofSource units again = .ok us ∧ us.map unplaced = ts.map unplaced ∧
      respell us = respell ts := by
  obtain ⟨front, hfront, rfl⟩ := ofSource_ok.mp h
  rw [toList_respell (fun t ht => (hfront.readable ht).1) rfl] at htext
  have hmarks := (marks_eq hoffsets).1.trans htext
  obtain ⟨us, hus, hmap⟩ := split_spaced hfront.leading_self hmarks
  have hunplaced : (us ++ [Token.mk .finish "" again.stop]).map unplaced =
      (front ++ [Token.mk .finish "" s.stop]).map unplaced := by
    rw [List.map_append, List.map_append, hmap]
    rfl
  exact ⟨_, ofSource_ok.mpr ⟨us, hus, rfl⟩, hunplaced, respell_congr hunplaced⟩

/-- A compound unit stays one token, and so do two asterisks. -/
theorem ofSource_respell_of_compound :
    ∃ us, ofSource ["km/h"] ⟨"2. km/h ** - .5".toList, List.range 15, "2. km/h ** - .5"⟩ = .ok us ∧
      us.map (·.lexeme) = ["2.", "km/h", "**", "-", ".5", ""] := by
  let s : Source := ⟨"2.km/h**-.5".toList, List.range 11, "2.km/h**-.5"⟩
  let again : Source := ⟨"2. km/h ** - .5".toList, List.range 15, "2. km/h ** - .5"⟩
  have hts : ofSource ["km/h"] s = .ok [⟨.number, "2.", 0⟩, ⟨.identifier, "km/h", 2⟩,
      ⟨.operator, "**", 6⟩, ⟨.operator, "-", 8⟩, ⟨.number, ".5", 9⟩, ⟨.finish, "", 11⟩] := rfl
  obtain ⟨us, hus, hmap, -⟩ := ofSource_respell ["km/h"] s hts again rfl rfl
  refine ⟨us, hus, ?_⟩
  have hlexemes := congrArg (List.map (·.lexeme)) hmap
  rw [List.map_map, List.map_map] at hlexemes
  exact hlexemes

end Token

end Reckoner
