import Reckoner.Proofs.Source.Trim
import Reckoner.Proofs.Source.Within
import Reckoner.Proofs.Token.Legible

/-!
# Reckoner.Proofs.Source.Stretch -- the stretches of a text that a rule takes

A pass goes over a text from left to right and hands stretches of it to its rule. If no stretch
goes over a place of the text, the pass works on what is in front of the place and on what is behind
it one after the other (`Rule.passFrom_append`). The part in front is still seen together with what
is behind it, since a rule looks ahead to tell whether a word ends.
-/

namespace Reckoner

theorem Mark.map_char_mk (cs : List Char) :
    (cs.map (⟨·, 0⟩ : Char → Mark)).map (·.char) = cs := by
  rw [List.map_map]
  exact List.map_id cs

end Reckoner

namespace Reckoner.Rule

open Text (isWordChar wordMayBegin wordMayEnd)

variable {rule rule' : Rule} {before : Option Char} {skip : Nat} {cs rest : List Char}

/-! ## Passes over two texts -/

/-- A rule as it applies to a text with another one behind it. -/
def infront (rule : Rule) (rest : List Char) : Rule :=
  fun before text => rule before (text ++ rest)

/-- Whether something holds at every place of a text, of the character before it and the text from
there on. -/
def Along (q : Option Char → List Char → Prop) : (before : Option Char) → List Char → Prop
  | _, [] => True
  | before, c :: cs => q before (c :: cs) ∧ Along q (some c) cs

theorem along_of_forall {q : Option Char → List Char → Prop}
    (h : ∀ piece more, cs = piece ++ more → more ≠ [] → q piece.getLast? more) :
    Along q none cs := by
  have hbehind (piece more : List Char) (heq : cs = piece ++ more) :
      Along q piece.getLast? more := by
    induction more generalizing piece with
    | nil => trivial
    | cons c more ih =>
        have hrest := ih (piece ++ [c]) (by rw [heq, List.append_assoc, List.singleton_append])
        rw [List.getLast?_concat] at hrest
        exact ⟨h piece (c :: more) heq (List.cons_ne_nil c more), hrest⟩
  exact hbehind [] cs rfl

theorem Along.imp {q r : Option Char → List Char → Prop} (h : Along q before cs)
    (himp : ∀ before text, q before text → r before text) : Along r before cs := by
  induction cs generalizing before with
  | nil => trivial
  | cons c cs ih => exact ⟨himp _ _ h.1, ih h.2⟩

/-- A rule that takes nothing of what is behind a text for a stretch that starts in the text. -/
def StaysIn (rule : Rule) (rest : List Char) : (before : Option Char) → List Char → Prop :=
  Along fun before text => ∀ taken written, rule before (text ++ rest) = some (taken, written) →
    taken ≤ text.length

theorem getLast?_cons_or (c : Char) (cs : List Char) (before : Option Char) :
    (c :: cs).getLast?.or before = cs.getLast?.or (some c) := by
  rw [List.getLast?_cons]
  cases cs.getLast? <;> rfl

/-- **A pass over two texts** is a pass over the first and one over the second. -/
theorem passFrom_append {os ps : List Nat} (h : rule.StaysIn rest before cs)
    (hos : os.length = cs.length) (hskip : skip ≤ cs.length) :
    passFrom rule before skip (cs ++ rest) (os ++ ps) =
      passFrom (rule.infront rest) before skip cs os ++
        passFrom rule (cs.getLast?.or before) 0 rest ps := by
  induction cs generalizing before skip os with
  | nil =>
      obtain rfl := List.length_eq_zero_iff.mp hos
      obtain rfl := Nat.le_zero.mp hskip
      rfl
  | cons c cs ih =>
      cases os with
      | nil => cases hos
      | cons o os =>
          have hlength : os.length = cs.length := Nat.succ.inj hos
          rw [getLast?_cons_or]
          cases skip with
          | succ skip => exact ih h.2 hlength (Nat.le_of_succ_le_succ hskip)
          | zero =>
              have hsame : rule.infront rest before (c :: cs) = rule before (c :: cs ++ rest) := rfl
              rw [List.cons_append, List.cons_append, passFrom, passFrom, hsame,
                ← List.cons_append]
              split
              · next taken written happlies =>
                have hle : taken ≤ (c :: cs).length := h.1 taken written happlies
                rw [List.length_cons] at hle
                rw [ih h.2 hlength (by omega), List.append_assoc]
              · rw [ih h.2 hlength (Nat.zero_le _), List.cons_append]

/-- Two rules that do the same everywhere in a text. -/
def Agree (rule rule' : Rule) : (before : Option Char) → List Char → Prop :=
  Along fun before text => rule before text = rule' before text

theorem Agree.passFrom_eq {os : List Nat} (h : Agree rule rule' before cs) :
    passFrom rule before skip cs os = passFrom rule' before skip cs os := by
  induction cs generalizing before skip os with
  | nil => cases skip <;> simp [passFrom]
  | cons c cs ih =>
      cases os with
      | nil => cases skip <;> rfl
      | cons o os =>
          cases skip with
          | succ skip => exact ih h.2
          | zero =>
              have hfirst : rule before (c :: cs) = rule' before (c :: cs) := h.1
              rw [passFrom, passFrom, hfirst]
              split
              · rw [ih h.2]
              · rw [ih h.2]

/-! ## Stretches at the end -/

/-- Whether a rule applies to a stretch that goes up to the end of a text. -/
def EndsIn (rule : Rule) (cs : List Char) : Prop :=
  ∃ i, i < cs.length ∧
    (rule (cs.take i).getLast? (cs.drop i)).map (·.1) = some (cs.length - i)

instance : Decidable (EndsIn rule cs) :=
  inferInstanceAs (Decidable (∃ i, i < cs.length ∧ _))

theorem endsIn_iff : rule.EndsIn cs ↔ ∃ front back written, cs = front ++ back ∧ back ≠ [] ∧
    rule front.getLast? back = some (back.length, written) := by
  constructor
  · rintro ⟨i, hi, happlies⟩
    obtain ⟨⟨taken, written⟩, hsome, htaken⟩ := Option.map_eq_some_iff.mp happlies
    obtain rfl : taken = cs.length - i := htaken
    refine ⟨cs.take i, cs.drop i, written, (List.take_append_drop i cs).symm, ?_, ?_⟩
    · rw [Ne, List.drop_eq_nil_iff]
      omega
    · rw [hsome, List.length_drop]
  · rintro ⟨front, back, written, rfl, hne, happlies⟩
    have hpos := List.length_pos_iff.mpr hne
    refine ⟨front.length, by rw [List.length_append]; omega, ?_⟩
    rw [List.take_left, List.drop_left, happlies, List.length_append, Nat.add_sub_cancel_left]
    rfl

/-- A rule that takes at least one character and no more than there are. -/
def Bounded (rule : Rule) : Prop :=
  ∀ before text taken written, rule before text = some (taken, written) →
    0 < taken ∧ taken ≤ text.length

theorem bounded_phrase {pieces : List Piece} {written : List Char} (hne : pieces ≠ []) :
    (phrase pieces written).Bounded := by
  intro before text taken written' h
  have hlength := phraseLength?_of_phrase h
  exact ⟨phraseLength?_pos hne hlength, phraseLength?_le hlength⟩

theorem bounded_glyph {glyphs written : List Char} : (glyph glyphs written).Bounded := by
  intro before text taken written' h
  unfold glyph at h
  split at h
  · split at h
    · cases h
      exact ⟨Nat.one_pos, Nat.le_add_left 1 _⟩
    · cases h
  · cases h

theorem bounded_firstOf {rules : List Rule} (h : ∀ r ∈ rules, r.Bounded) :
    (firstOf rules).Bounded := by
  intro before text taken written happlies
  obtain ⟨r, hr, happlies⟩ := List.exists_of_findSome?_eq_some happlies
  exact h r hr before text taken written happlies

/-- Where no stretch goes up to the end of a text, the last character is left alone. -/
theorem Bounded.staysIn (h : rule.Bounded) {c : Char} {front : List Char}
    (hends : ¬ rule.EndsIn (front ++ [c])) : rule.StaysIn [c] none front := by
  refine along_of_forall fun piece more heq hne taken written happlies => ?_
  have hle := (h _ _ _ _ happlies).2
  rw [List.length_append, List.length_singleton] at hle
  by_contra hover
  obtain rfl : taken = (more ++ [c]).length := by
    rw [List.length_append, List.length_singleton]
    omega
  refine hends (endsIn_iff.mpr ⟨piece, more ++ [c], written, ?_, by simp, happlies⟩)
  rw [heq, List.append_assoc]

/-- A pass brings no mark to a new place. -/
theorem pass_origins (rule : Rule) {q : Nat → Prop} {marks : List Mark}
    (hq : ∀ m ∈ marks, q m.origin) : ∀ m ∈ rule.pass marks, q m.origin := by
  have hwithin : Mark.Within (fun _ => True) q (rule.pass marks) :=
    pass_within (fun _ _ _ _ _ _ _ => trivial) fun m hm => ⟨trivial, hq m hm⟩
  exact fun m hm => (hwithin m hm).2

/-- **A mark that no stretch goes up to stays the last one**, and what is in front of it has the
places that it had. -/
theorem Bounded.pass_last (h : rule.Bounded) {front : List Mark} {last : Mark}
    (hends : ¬ rule.EndsIn ((front ++ [last]).map (·.char))) {q : Nat → Prop}
    (hq : ∀ m ∈ front, q m.origin) :
    ∃ kept, rule.pass (front ++ [last]) = kept ++ [last] ∧ ∀ m ∈ kept, q m.origin := by
  rw [List.map_append, List.map_singleton] at hends
  have hnone (before : Option Char) (hbefore : before = (front.map (·.char)).getLast?) :
      rule before [last.char] = none := by
    cases happlies : rule before [last.char] with
    | none => rfl
    | some r =>
        obtain ⟨taken, written⟩ := r
        obtain ⟨hpos, hle⟩ := h _ _ _ _ happlies
        rw [List.length_singleton] at hle
        obtain rfl : taken = 1 := by omega
        rw [hbefore] at happlies
        exact absurd (endsIn_iff.mpr ⟨_, _, written, rfl, by simp, happlies⟩) hends
  have hlast : passFrom rule ((front.map (·.char)).getLast?.or none) 0 [last.char]
      [last.origin] = [last] := by
    rw [Option.or_none, passFrom, hnone _ rfl]
    rfl
  refine ⟨passFrom (rule.infront [last.char]) none 0 (front.map (·.char)) (front.map (·.origin)),
    ?_, ?_⟩
  · rw [pass, List.map_append, List.map_append, List.map_singleton, List.map_singleton,
      passFrom_append (h.staysIn hends) (by rw [List.length_map, List.length_map])
        (Nat.zero_le _), hlast]
  · have hwithin : Mark.Within (fun _ => True) q (passFrom (rule.infront [last.char]) none 0
        (front.map (·.char)) (front.map (·.origin))) :=
      passFrom_within (fun _ _ _ _ _ _ _ => trivial) (fun _ _ => trivial)
        (List.forall_mem_map.mpr hq)
    exact fun m hm => (hwithin m hm).2

end Reckoner.Rule

/-! ## The rules for what people type -/

namespace Reckoner.Shorthand

open Text (isBlank)
open Rule (word glyph phrase firstOf)

/-- The rule for percent signs, as a glyph or as a word. -/
def percents : Rule := firstOf [glyph ['％'] ['%'], spelledPercent]

/-- The rule for the word that asks for a square. -/
def square : Rule := phrase (word "square") ['s', 'q']

/-- The rules that replace symbols, between those that take out fillers and those for words. -/
def symbols : List Rule := (rules.drop 1).take 11

/-- The marks that the rule with an index sees. -/
def marksAt (index : Nat) (typed : List Char) : List Mark :=
  (rules.take index).foldl (fun ms rule => rule.pass ms) (Mark.ofTyped typed)

/-- The text that the rule with an index sees. -/
def seen (index : Nat) (typed : List Char) : List Char := (marksAt index typed).map (·.char)

theorem marksAt_succ {index : Nat} {rule : Rule} (h : rules[index]? = some rule)
    (typed : List Char) : marksAt (index + 1) typed = rule.pass (marksAt index typed) := by
  rw [marksAt, List.take_add_one, h, Option.toList_some, List.foldl_append]
  rfl

theorem seen_succ {index : Nat} {rule : Rule} (h : rules[index]? = some rule)
    (typed : List Char) : seen (index + 1) typed = rule.rewrite (seen index typed) := by
  rw [seen, seen, marksAt_succ h, Rule.map_char_pass]

theorem marksAt_twelve (typed : List Char) : marksAt 12 typed =
    symbols.foldl (fun ms rule => rule.pass ms) (fillers.pass (Mark.ofTyped typed)) := by
  have hrules : rules.take 12 = fillers :: symbols := rfl
  rw [marksAt, hrules, List.foldl_cons]

theorem marksAt_length (typed : List Char) : marksAt 14 typed = expand (Mark.ofTyped typed) := by
  have hrules : rules.take 14 = rules := rfl
  rw [marksAt, hrules, expand]

theorem bounded_finalEquals : finalEquals.Bounded := by
  intro before text taken written h
  unfold finalEquals at h
  split at h
  · split at h
    · cases h
      exact ⟨Nat.succ_pos _, Nat.le_refl _⟩
    · cases h
  · cases h

theorem bounded_percents : percents.Bounded := by
  refine Rule.bounded_firstOf ?_
  simp only [List.forall_mem_cons]
  exact ⟨Rule.bounded_glyph, fun _ _ _ _ h => spelledPercent_bounds h, List.forall_mem_nil _⟩

theorem bounded_square : square.Bounded := Rule.bounded_phrase (by decide)

theorem bounded_fillers : fillers.Bounded := by
  refine Rule.bounded_firstOf ?_
  simp only [List.forall_mem_cons]
  exact ⟨Rule.bounded_phrase (by decide), Rule.bounded_phrase (by decide),
    Rule.bounded_phrase (by decide), Rule.bounded_phrase (by decide),
    Rule.bounded_phrase (by decide), Rule.bounded_phrase (by decide), List.forall_mem_nil _⟩

/-- White space and what is behind it: the word for a percent sign is looked for behind. -/
theorem spelledPercent_append {blanks rest : List Char} (hblanks : ∀ b ∈ blanks, isBlank b = true)
    (hrest : ∀ c ∈ rest.head?, isBlank c = false) (before : Option Char) :
    spelledPercent before (blanks ++ rest) =
      (phrase (word "percent") ['%'] (blanks.getLast?.or before) rest).map
        fun (taken, written) => (blanks.length + taken, written) := by
  have htake := (Token.span_run hblanks hrest).1
  simp only [spelledPercent, htake, List.drop_left]

end Reckoner.Shorthand
