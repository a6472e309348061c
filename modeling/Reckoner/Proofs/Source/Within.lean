import Reckoner.Source.Typed

/-!
# Reckoner.Proofs.Source.Within -- what a respelled line is made of

Respelling a line moves characters, drops some and writes others; it never makes up a place. So
every mark of the outcome has the place of a character that was typed, and every character of the
outcome was there before or was written by a rule. The first keeps reports inside the typed line;
the second tells which characters the scan of tokens can meet: no letter is in upper case.
-/

namespace Reckoner

/-- Marks with characters of a class, at places of a class. -/
def Mark.Within (p : Char → Prop) (q : Nat → Prop) (marks : List Mark) : Prop :=
  ∀ m ∈ marks, p m.char ∧ q m.origin

variable {p : Char → Prop} {q : Nat → Prop}

theorem Mark.Within.chars {marks : List Mark} (h : Within p q marks) :
    ∀ c ∈ marks.map (·.char), p c := by
  rw [List.forall_mem_map]
  exact fun m hm => (h m hm).1

theorem Mark.Within.origins {marks : List Mark} (h : Within p q marks) :
    ∀ o ∈ marks.map (·.origin), q o := by
  rw [List.forall_mem_map]
  exact fun m hm => (h m hm).2

/-! ## Rules -/

namespace Rule

/-- A rule that writes only characters of a class. -/
def Writes (p : Char → Prop) (rule : Rule) : Prop :=
  ∀ before text taken written, rule before text = some (taken, written) → ∀ c ∈ written, p c

variable {rule : Rule}

theorem passFrom_within (hrule : rule.Writes p) {before : Option Char} {skip : Nat}
    {cs : List Char} {os : List Nat} (hcs : ∀ c ∈ cs, p c) (hos : ∀ o ∈ os, q o) :
    Mark.Within p q (passFrom rule before skip cs os) := by
  -- place by place: what is written has the place of the first character it is written for
  induction cs generalizing before skip os with
  | nil =>
      intro m hm
      simp [passFrom] at hm
  | cons c cs ih =>
      rw [List.forall_mem_cons] at hcs
      cases os with
      | nil =>
          intro m hm
          cases skip <;> simp [passFrom] at hm
      | cons o os =>
          rw [List.forall_mem_cons] at hos
          cases skip with
          | succ skip => exact ih hcs.2 hos.2
          | zero =>
              intro m hm
              rw [passFrom] at hm
              split at hm
              · next taken written happlies =>
                rcases List.mem_append.mp hm with hm | hm
                · obtain ⟨w, hw, rfl⟩ := List.mem_map.mp hm
                  exact ⟨hrule _ _ _ _ happlies w hw, hos.1⟩
                · exact ih hcs.2 hos.2 m hm
              · rcases List.mem_cons.mp hm with rfl | hm
                · exact ⟨hcs.1, hos.1⟩
                · exact ih hcs.2 hos.2 m hm

theorem pass_within (hrule : rule.Writes p) {marks : List Mark} (h : Mark.Within p q marks) :
    Mark.Within p q (rule.pass marks) :=
  passFrom_within hrule h.chars h.origins

theorem foldl_pass_within {rules : List Rule} (hrules : ∀ r ∈ rules, r.Writes p)
    {marks : List Mark} (h : Mark.Within p q marks) :
    Mark.Within p q (rules.foldl (fun ms r => r.pass ms) marks) := by
  induction rules generalizing marks with
  | nil => exact h
  | cons r rules ih =>
      rw [List.forall_mem_cons] at hrules
      exact ih hrules.2 (pass_within hrules.1 h)

theorem writes_glyph {glyphs written : List Char} (h : ∀ c ∈ written, p c) :
    (glyph glyphs written).Writes p := by
  intro before text taken written' happlies
  unfold glyph at happlies
  split at happlies
  · split at happlies
    · cases happlies
      exact h
    · cases happlies
  · cases happlies

theorem writes_phrase {pieces : List Piece} {written : List Char} (h : ∀ c ∈ written, p c) :
    (phrase pieces written).Writes p := by
  intro before text taken written' happlies
  unfold phrase at happlies
  split at happlies
  · obtain ⟨length, -, hend⟩ := Option.bind_eq_some_iff.mp happlies
    split at hend
    · cases hend
      exact h
    · cases hend
  · cases happlies

theorem writes_firstOf {rules : List Rule} (h : ∀ r ∈ rules, r.Writes p) :
    (firstOf rules).Writes p := by
  intro before text taken written happlies
  obtain ⟨r, hr, happlies⟩ := List.exists_of_findSome?_eq_some happlies
  exact h r hr before text taken written happlies

end Rule

/-! ## Shorthand -/

namespace Shorthand

open Rule (Writes writes_glyph writes_phrase writes_firstOf)

theorem writes_finalEquals : finalEquals.Writes p := by
  intro before text taken written happlies
  unfold finalEquals at happlies
  split at happlies
  · split at happlies
    · cases happlies
      simp
    · cases happlies
  · cases happlies

theorem writes_spelledPercent (h : p '%') : spelledPercent.Writes p := by
  intro before text taken written happlies
  obtain ⟨⟨length, written'⟩, hphrase, heq⟩ := Option.map_eq_some_iff.mp happlies
  cases heq
  exact writes_phrase (by simpa using h) _ _ _ _ hphrase

/-- What the rules for shorthand write. -/
def written : List Char := ['*', '/', '-', 'p', 'i', 's', 'q', 'r', 't', '2', '3', '%']

/-- The rules write signs, two digits and a few letters in lower case. -/
theorem writes_rules (h : ∀ c ∈ written, p c) : ∀ r ∈ rules, r.Writes p := by
  have hglyph (glyphs : List Char) {cs : List Char} (hcs : ∀ c ∈ cs, c ∈ written) :
      (Rule.glyph glyphs cs).Writes p := writes_glyph fun c hc => h c (hcs c hc)
  have hphrase (pieces : List Rule.Piece) {cs : List Char} (hcs : ∀ c ∈ cs, c ∈ written) :
      (Rule.phrase pieces cs).Writes p := writes_phrase fun c hc => h c (hcs c hc)
  simp only [rules, List.forall_mem_cons]
  refine ⟨?_, hglyph _ (by decide), writes_finalEquals, hglyph _ (by decide),
    hglyph _ (by decide), hglyph _ (by decide), hglyph _ (by decide), hglyph _ (by decide),
    hglyph _ (by decide), hglyph _ (by decide), hglyph _ (by decide), hglyph _ (by decide), ?_,
    hphrase _ (by decide), by simp⟩
  · refine writes_firstOf ?_
    simp only [List.forall_mem_cons]
    exact ⟨hphrase _ (by decide), hphrase _ (by decide), hphrase _ (by decide),
      hphrase _ (by decide), hphrase _ (by decide), hphrase _ (by decide), by simp⟩
  · refine writes_firstOf ?_
    simp only [List.forall_mem_cons]
    exact ⟨hglyph _ (by decide), writes_spelledPercent (h _ (by decide)), by simp⟩

end Shorthand

/-! ## Lower case -/

namespace Text

/-- A character is the one of its code point, or that of zero if no character has the code point. -/
theorem toNat_ofNat (n : Nat) : (Char.ofNat n).toNat = n ∨ (Char.ofNat n).toNat = 0 := by
  by_cases h : n.isValidChar
  · left
    have heq : Char.ofNat n = Char.ofNatAux n h := dif_pos h
    rw [heq]
    rfl
  · right
    have heq : Char.ofNat n = ⟨0, _⟩ := dif_neg h
    rw [heq]
    rfl

theorem isUpper_iff {c : Char} : c.isUpper = true ↔ 65 ≤ c.toNat ∧ c.toNat ≤ 90 := by
  show decide (c.val ≥ 65 ∧ c.val ≤ 90) = true ↔ _
  rw [decide_eq_true_iff, ge_iff_le, UInt32.le_iff_toNat_le, UInt32.le_iff_toNat_le, Char.toNat_val]
  rfl

theorem isUpper_eq_false {c : Char} (h : c.toNat = 0 ∨ 90 < c.toNat) : c.isUpper = false := by
  rw [Bool.eq_false_iff, Ne, isUpper_iff]
  omega

/-- The lower-case forms beyond ASCII stand behind the upper-case letters of ASCII. -/
theorem caseRuns_shift : caseRuns.all (fun r => 90 < r.first + r.shift) = true := by
  decide +kernel

/-- Lowering leaves no letter in upper case. -/
theorem isUpper_of_mem_lower {c d : Char} (h : d ∈ lower c) : d.isUpper = false := by
  unfold lower at h
  split at h
  · next hascii =>
    -- among the first 128 characters all are looked at
    have hall : ∀ n : Fin 128, (Char.ofNat n).toLower.isUpper = false := by decide
    have hc := hall ⟨c.toNat, hascii⟩
    rw [Char.ofNat_toNat] at hc
    rw [List.mem_singleton.mp h]
    exact hc
  split at h
  · simp only [List.mem_cons, List.not_mem_nil, or_false] at h
    rcases h with rfl | rfl <;> decide
  split at h
  · next r hr =>
    have hholds := List.find?_some hr
    have hshift := List.all_eq_true.mp caseRuns_shift r (List.mem_of_find?_eq_some hr)
    simp only [CaseRun.holds, Bool.and_eq_true, decide_eq_true_iff] at hholds hshift
    rw [List.mem_singleton.mp h]
    apply isUpper_eq_false
    rcases toNat_ofNat ((c.toNat : Int) + r.shift).toNat with heq | heq
    · right
      rw [heq]
      omega
    · exact .inl heq
  · next hascii _ _ =>
    rw [List.mem_singleton.mp h]
    exact isUpper_eq_false (.inr (by omega))

end Text

/-! ## Respelled lines -/

namespace Mark

/-- The marks of a typed line have the places of its characters. -/
theorem ofTyped_within (typed : List Char) :
    Within (·.isUpper = false) (· < typed.length) (ofTyped typed) := by
  intro m hm
  obtain ⟨⟨c, index⟩, hindex, hm⟩ := List.mem_flatMap.mp hm
  obtain ⟨d, hd, rfl⟩ := List.mem_map.mp hm
  exact ⟨Text.isUpper_of_mem_lower hd, (List.mem_zipIdx' hindex).1⟩

theorem Within.trim {marks : List Mark} (h : Within p q marks) : Within p q (trim marks) := by
  intro m hm
  refine h m ?_
  have hfront := (List.dropWhile_sublist _).mem (List.mem_reverse.mp hm)
  exact (List.dropWhile_sublist _).mem (List.mem_reverse.mp hfront)

end Mark

namespace Product

theorem insertFrom_within {units : List String} (hsign : p '*') {admitted : Bool}
    {cs : List Char} {os : List Nat} (hcs : ∀ c ∈ cs, p c) (hos : ∀ o ∈ os, q o) :
    Mark.Within p q (insertFrom units admitted cs os) := by
  induction cs generalizing admitted os with
  | nil =>
      intro m hm
      simp [insertFrom] at hm
  | cons c cs ih =>
      rw [List.forall_mem_cons] at hcs
      cases os with
      | nil =>
          intro m hm
          simp [insertFrom] at hm
      | cons o os =>
          rw [List.forall_mem_cons] at hos
          have hrest : Mark.Within p q
              (⟨c, o⟩ :: insertFrom units (admitsFactor admitted c) cs os) :=
            List.forall_mem_cons.mpr ⟨⟨hcs.1, hos.1⟩, ih hcs.2 hos.2⟩
          rw [insertFrom]
          split
          · exact List.forall_mem_cons.mpr ⟨⟨hsign, hos.1⟩, hrest⟩
          · exact hrest

end Product

namespace Source

/-- A typed line as it is before multiplication signs are put in. -/
def trimmed (typed : String) : List Mark :=
  Mark.trim (Shorthand.expand (Mark.ofTyped typed.toList))

theorem trimmed_within (typed : String) :
    Mark.Within (·.isUpper = false) (· < typed.length) (trimmed typed) := by
  refine Mark.Within.trim (Rule.foldl_pass_within (Shorthand.writes_rules (by decide)) ?_)
  rw [← String.length_toList]
  exact Mark.ofTyped_within typed.toList

/-- **What a line is respelled into was typed in it**, and has no letter in upper case. -/
theorem spelledOut_within (units : List String) (typed : String) :
    Mark.Within (·.isUpper = false) (· < typed.length) (spelledOut units typed) :=
  Product.insertFrom_within (by decide) (trimmed_within typed).chars (trimmed_within typed).origins

/-- A line has a source if anything is left of it, which is what it is respelled into. -/
theorem ofTyped_eq_ok {units : List String} {typed : String} {source : Source} :
    ofTyped units typed = .ok source ↔
      spelledOut units typed ≠ [] ∧ source = ofMarks (spelledOut units typed) typed := by
  rw [ofTyped]
  cases spelledOut units typed with
  | nil => exact iff_of_false nofun fun h => h.1 rfl
  | cons m ms =>
      constructor
      · intro h
        cases h
        exact ⟨List.cons_ne_nil m ms, rfl⟩
      · rintro ⟨-, rfl⟩
        rfl

end Source

end Reckoner
