import Mathlib.Data.List.Basic
import Mathlib.Data.List.TakeWhile
import Reckoner.Proofs.Token.Legible
import Reckoner.Proofs.Token.Split

/-!
# Reckoner.Proofs.Token.Seam -- where no token goes over

A text can be split into tokens on the two sides of a place by themselves if no token goes over
that place. This depends on the characters next to it: two digits would be one numeral, two letters
one word, two asterisks one sign, and around a slash there might be the name of a unit. Where none
of this is so there is a *seam* (`Seam`), and the tokens of the whole are those of the part in front
and those of the part behind (`Split.seam_iff`).
-/

namespace Reckoner

namespace Token

/-! ## Runs of a class -/

/-- Whether two texts put together have no two characters of a class next to each other where one
ends and the other starts. -/
def Apart (p : Char → Bool) (front back : List Char) : Prop :=
  ∀ c ∈ front.getLast?, p c = true → ∀ d ∈ back.head?, p d = false

section Apart

variable {p : Char → Bool} {front back piece more : List Char}

instance : Decidable (Apart p front back) :=
  decidable_of_iff (front.getLast?.all (!p ·) = true ∨ back.head?.all (!p ·) = true) <| by
    rw [Apart]
    cases front.getLast? with
    | none => simp
    | some c =>
        cases back.head? with
        | none => simp
        | some d => cases hc : p c <;> simp [hc]

theorem Apart.of_head (h : ∀ d ∈ back.head?, p d = false) : Apart p front back :=
  fun _ _ _ => h

theorem Apart.suffix (h : Apart p (piece ++ more) back) : Apart p more back :=
  fun c hc => h c (List.mem_getLast?_append_of_mem_getLast? hc)

theorem Apart.append_left (h : Apart p more back) (hne : more ≠ []) :
    Apart p (piece ++ more) back := by
  intro c hc
  rw [List.getLast?_append_of_ne_nil piece hne] at hc
  exact h c hc

theorem Apart.append_right (h : Apart p front piece) (hne : piece ≠ []) :
    Apart p front (piece ++ back) := by
  intro c hc hp d hd
  rw [List.head?_append_of_ne_nil piece hne] at hd
  exact h c hc hp d hd

/-- Where a run of a class goes up to the end of the front, none goes on behind. -/
theorem Apart.takeWhile_back (h : Apart p front back) (hne : front ≠ [])
    (hall : front.takeWhile p = front) : back.takeWhile p = [] := by
  have hlast : p (front.getLast hne) = true :=
    List.takeWhile_eq_self_iff.mp hall _ (List.getLast_mem hne)
  have hhead := h _ (List.getLast?_eq_some_getLast hne) hlast
  cases back with
  | nil => rfl
  | cons d back => exact List.takeWhile_cons_of_neg (by simp [hhead d rfl])

theorem Apart.takeWhile_append (h : Apart p front back) (hne : front ≠ []) :
    (front ++ back).takeWhile p = front.takeWhile p := by
  rw [List.takeWhile_append]
  split
  · next hlength =>
    have hall : front.takeWhile p = front :=
      (List.takeWhile_prefix p).eq_of_length hlength
    rw [h.takeWhile_back hne hall, hall, List.append_nil]
  · rfl

theorem Apart.dropWhile_append (h : Apart p front back) (hne : front ≠ []) :
    (front ++ back).dropWhile p = front.dropWhile p ++ back := by
  have htake := h.takeWhile_append hne
  have hsplit : front.takeWhile p ++ (front ++ back).dropWhile p =
      front.takeWhile p ++ (front.dropWhile p ++ back) := by
    rw [← List.append_assoc, List.takeWhile_append_dropWhile, ← htake,
      List.takeWhile_append_dropWhile]
  exact List.append_cancel_left hsplit

end Apart

/-! ## Seams -/

/-- Whether no token goes over the place between two texts. -/
structure Seam (units : List String) (front back : List Char) : Prop where
  /-- No numeral goes over it. -/
  numeral : Apart isNumeralChar front back
  /-- No word goes over it. -/
  word : Apart isWordChar front back
  /-- No sign goes over it. -/
  asterisk : Apart (· == '*') front back
  /-- A unit does not go over it right behind its slash. -/
  behindSlash : ∀ first, first ++ ['/'] <:+ front → back.takeWhile isWordChar ≠ [] →
    String.ofList (first ++ '/' :: back.takeWhile isWordChar) ∉ units
  /-- A unit does not go over it right in front of its slash. -/
  atSlash : ∀ first more, first <:+ front → back = '/' :: more → more.takeWhile isWordChar ≠ [] →
    String.ofList (first ++ '/' :: more.takeWhile isWordChar) ∉ units

section Seam

variable {units : List String} {front back piece more : List Char} {c : Char}

theorem Seam.suffix (h : Seam units (piece ++ more) back) : Seam units more back where
  numeral := h.numeral.suffix
  word := h.word.suffix
  asterisk := h.asterisk.suffix
  behindSlash first hfirst := h.behindSlash first (hfirst.trans (List.suffix_append _ _))
  atSlash first rest hfirst := h.atSlash first rest (hfirst.trans (List.suffix_append _ _))

/-- A character that tokens of more than one character do not have makes a seam in front of it. -/
theorem Seam.of_head (hc : isNumeralChar c = false ∧ isWordChar c = false ∧ c ≠ '/')
    (hstar : ∀ d ∈ front.getLast?, d = '*' → c ≠ '*') : Seam units front (c :: back) where
  numeral := .of_head <| by
    rintro _ ⟨⟩
    exact hc.1
  word := .of_head <| by
    rintro _ ⟨⟩
    exact hc.2.1
  asterisk d hd heq := by
    rintro _ ⟨⟩
    exact beq_false_of_ne (hstar d hd (beq_iff_eq.mp heq))
  behindSlash first _ hne := absurd (List.takeWhile_cons_of_neg (by simp [hc.2.1])) hne
  atSlash first rest _ heq := absurd (List.cons.inj heq).1 hc.2.2

/-- Where no name of a unit goes on behind a slash, the leading word ends at the first character that
is no letter. -/
theorem leadingWord_eq {cs : List Char}
    (h : ∀ more, cs.dropWhile isWordChar = '/' :: more → more.takeWhile isWordChar ≠ [] →
      String.ofList (cs.takeWhile isWordChar ++ '/' :: more.takeWhile isWordChar) ∉ units) :
    leadingWord units cs = cs.takeWhile isWordChar := by
  rcases leadingWord_cases units cs with hone | ⟨more, hmore, hne, htwo, hunit⟩
  · exact hone
  · rw [htwo] at hunit
    exact absurd hunit (h more hmore hne)

/-- A word does not go over a seam. -/
theorem Seam.leadingWord_append (h : Seam units front back) (hne : front ≠ []) :
    leadingWord units (front ++ back) = leadingWord units front := by
  have htake := h.word.takeWhile_append hne
  have hdrop := h.word.dropWhile_append hne
  have hfront : front.takeWhile isWordChar ++ front.dropWhile isWordChar = front :=
    List.takeWhile_append_dropWhile
  cases hrest : front.dropWhile isWordChar with
  | nil =>
      -- the whole front is a word, and a slash would come behind the seam
      rw [hrest, List.append_nil] at hfront
      rw [hrest, List.nil_append] at hdrop
      have hone : leadingWord units front = front.takeWhile isWordChar :=
        leadingWord_eq (by simp [hrest])
      rw [hone, leadingWord_eq, htake]
      intro more hmore hword
      rw [htake, hfront]
      exact h.atSlash front more List.suffix_rfl (hdrop.symm.trans hmore) hword
  | cons c rest =>
      rw [hrest] at hfront hdrop
      by_cases hends : c = '/' ∧ rest = []
      · obtain ⟨rfl, rfl⟩ := hends
        have hone : leadingWord units front = front.takeWhile isWordChar :=
          leadingWord_eq (by simp [hrest])
        rw [hone, leadingWord_eq, htake]
        intro more hmore hword
        obtain rfl : back = more := (List.cons.inj (hdrop.symm.trans hmore)).2
        rw [htake]
        exact h.behindSlash _ ⟨[], hfront⟩ hword
      · unfold leadingWord
        rw [htake, hdrop, hrest]
        by_cases hslash : c = '/'
        · have hword : Apart isWordChar rest back := by
            have hwhole := h.word
            rw [← hfront, List.append_cons] at hwhole
            exact hwhole.suffix
          subst hslash
          simp only [List.cons_append, hword.takeWhile_append fun hnil => hends ⟨rfl, hnil⟩]
        · simp [hslash]

/-- **No token goes over a seam.** -/
theorem Seam.leading?_append (h : Seam units front back) (hne : front ≠ []) :
    leading? units (front ++ back) = leading? units front := by
  obtain ⟨c, rest, rfl⟩ := List.exists_cons_of_ne_nil hne
  by_cases hsign : c ∈ ['*', '(', ')', '=', ',']
  · simp only [List.mem_cons, List.not_mem_nil, or_false] at hsign
    rcases hsign with rfl | rfl | rfl | rfl | rfl
    · cases rest with
      | nil =>
          have hback : ∀ d ∈ back.head?, d ≠ '*' := by
            intro d hd
            exact ne_of_beq_false (h.asterisk '*' rfl rfl d hd)
          exact (leading?_asterisk hback).trans rfl
      | cons d rest =>
          by_cases hstar : d = '*'
          · subst hstar
            rfl
          · have hsingle (cs : List Char) : ∀ c ∈ (d :: cs).head?, c ≠ '*' := by
              rintro _ ⟨⟩
              exact hstar
            rw [List.cons_append, List.cons_append, leading?_asterisk (hsingle _),
              leading?_asterisk (hsingle _)]
    · rfl
    · rfl
    · rfl
    · rfl
  · have hrun := h.numeral.takeWhile_append hne
    have hword := h.leadingWord_append hne
    rw [List.cons_append] at hrun hword ⊢
    rw [leading?_of_not_sign hsign, leading?_of_not_sign hsign, hrun, hword]

end Seam

/-! ## Splitting at a seam -/

namespace Split

variable {units : List String} {front back marks : List Mark} {us vs ts : List Token}

/-- Tokens on the two sides of a seam are those of the whole. -/
theorem append (hfront : Split units front us) (hback : Split units back vs)
    (h : Seam units (front.map (·.char)) (back.map (·.char))) :
    Split units (front ++ back) (us ++ vs) := by
  induction hfront with
  | nil => exact hback
  | @blank m ms ts hblank _ ih =>
      rw [List.map_cons, ← List.singleton_append] at h
      exact .blank hblank (ih h.suffix)
  | @token m ms rest kind ts hblank hleading _ ih =>
      have hwhole := h.leading?_append (by simp)
      rw [List.map_append] at h
      rw [List.append_assoc, List.cons_append]
      refine .token hblank ?_ (ih h.suffix)
      rw [← hleading, ← hwhole, ← List.map_append, List.append_assoc]

/-- The tokens of a text with a seam are those on its two sides. -/
theorem cut (h : Split units (front ++ back) ts)
    (hseam : Seam units (front.map (·.char)) (back.map (·.char))) :
    ∃ us vs, Split units front us ∧ Split units back vs ∧ ts = us ++ vs := by
  generalize hmarks : front ++ back = marks at h
  induction h generalizing front with
  | nil =>
      obtain ⟨rfl, rfl⟩ := List.append_eq_nil_iff.mp hmarks
      exact ⟨[], [], .nil, .nil, rfl⟩
  | @blank m ms ts hblank hsplit ih =>
      cases front with
      | nil =>
          subst hmarks
          exact ⟨[], ts, .nil, .blank hblank hsplit, rfl⟩
      | cons first front =>
          obtain ⟨rfl, hrest⟩ := List.cons.inj hmarks
          rw [List.map_cons, ← List.singleton_append] at hseam
          obtain ⟨us, vs, hus, hvs, rfl⟩ := ih hseam.suffix hrest
          exact ⟨us, vs, .blank hblank hus, hvs, rfl⟩
  | @token m ms rest kind ts hblank hleading hsplit ih =>
      cases front with
      | nil =>
          subst hmarks
          exact ⟨[], _, .nil, .token hblank hleading hsplit, rfl⟩
      | cons first front =>
          obtain ⟨rfl, hrest⟩ := List.cons.inj hmarks
          have hwhole : leading? units ((first :: front).map (·.char)) =
              some (kind, (first :: ms).map (·.char)) := by
            rw [← hseam.leading?_append (by simp), ← hleading, ← hmarks, List.map_append]
          -- the token ends in front of the seam, so that the seam is in what stands behind it
          have hlength : ms.length ≤ front.length := by
            have hprefix := (leading?_isPrefix hwhole).2.length_le
            simpa using hprefix
          obtain ⟨more, rfl⟩ : ms <+: front :=
            List.prefix_of_prefix_length_le ⟨rest, rfl⟩ ⟨_, hrest⟩ hlength
          have hbehind : more ++ back = rest :=
            List.append_cancel_left ((List.append_assoc ms more _).symm.trans hrest)
          rw [← List.cons_append, List.map_append] at hseam
          obtain ⟨us, vs, hus, hvs, rfl⟩ := ih hseam.suffix hbehind
          exact ⟨_ :: us, vs, .token hblank hwhole hus, hvs, rfl⟩

/-- **At a seam a text is split as its two sides are.** -/
theorem seam_iff (h : Seam units (front.map (·.char)) (back.map (·.char))) :
    Split units (front ++ back) ts ↔
      ∃ us vs, Split units front us ∧ Split units back vs ∧ ts = us ++ vs := by
  constructor
  · exact fun hsplit => hsplit.cut h
  · rintro ⟨us, vs, hus, hvs, rfl⟩
    exact hus.append hvs h

/-- Marks with the same characters are split into the same tokens, places apart. -/
theorem respaced (h : Split units marks ts) {others : List Mark}
    (hothers : others.map (·.char) = marks.map (·.char)) :
    ∃ us, Split units others us ∧ us.map unplaced = ts.map unplaced := by
  induction h generalizing others with
  | nil =>
      obtain rfl := List.map_eq_nil_iff.mp hothers
      exact ⟨[], .nil, rfl⟩
  | blank hblank _ ih =>
      obtain ⟨m, others, rfl, hchar, hrest⟩ := List.map_eq_cons_iff.mp hothers
      obtain ⟨us, hus, hmap⟩ := ih hrest
      exact ⟨us, .blank (by rw [hchar, hblank]) hus, hmap⟩
  | @token m ms rest kind ts hblank hleading _ ih =>
      rw [List.map_append, List.map_eq_append_iff] at hothers
      obtain ⟨first, behind, rfl, hfirst, hbehind⟩ := hothers
      obtain ⟨us, hus, hmap⟩ := ih hbehind
      obtain ⟨n, ns, rfl, hchar, hns⟩ := List.map_eq_cons_iff.mp hfirst
      have hothers : leading? units ((n :: ns ++ behind).map (·.char)) =
          some (kind, (n :: ns).map (·.char)) := by
        rw [List.map_append, hfirst, hbehind, ← List.map_append, hleading]
      refine ⟨_, .token (by rw [hchar, hblank]) hothers hus, ?_⟩
      rw [hfirst, List.map_cons, List.map_cons, hmap]
      rfl

end Split

end Token

end Reckoner
