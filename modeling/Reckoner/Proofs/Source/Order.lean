import Reckoner.Proofs.Expr.Place
import Reckoner.Proofs.Source.Stop

/-!
# Reckoner.Proofs.Source.Order -- places stay in the order of the line

What a rule writes has the place of the first character that it is written for, a multiplication
sign has the place of the factor behind it, and nothing that is left changes sides. So whatever has
been done to a line, its text has one offset for each character, the offsets do not decrease, and
all of them lie in the line (`Source.Aligned`). The tokens of the text stand in the same order, with
the end mark behind them.
-/

namespace Reckoner

/-- Marks whose places do not decrease. -/
def Mark.InOrder (marks : List Mark) : Prop := marks.Pairwise (·.origin ≤ ·.origin)

/-- Marks at one place are in order. -/
theorem Mark.inOrder_constant (cs : List Char) (o : Nat) : InOrder (cs.map (⟨·, o⟩)) := by
  apply List.pairwise_map.mpr
  exact List.pairwise_of_forall fun _ _ => Nat.le_refl o

/-! ## What is done to a line -/

/-- What a pass leaves of a text stands no further in front than the text does. -/
theorem Rule.le_origin_passFrom (rule : Rule) {before : Option Char} {skip o : Nat}
    {cs : List Char} {os : List Nat} (hos : ∀ p ∈ os, o ≤ p) :
    ∀ m ∈ passFrom rule before skip cs os, o ≤ m.origin := by
  have hwithin : Mark.Within (fun _ => True) (o ≤ ·) (passFrom rule before skip cs os) :=
    passFrom_within (fun _ _ _ _ _ _ _ => trivial) (fun _ _ => trivial) hos
  intro m hm
  exact (hwithin m hm).2

theorem Rule.passFrom_inOrder (rule : Rule) {before : Option Char} {skip : Nat}
    {cs : List Char} {os : List Nat} (hos : os.Pairwise (· ≤ ·)) :
    Mark.InOrder (passFrom rule before skip cs os) := by
  induction cs generalizing before skip os with
  | nil =>
      cases skip <;> exact List.Pairwise.nil
  | cons c cs ih =>
      cases os with
      | nil =>
          cases skip <;> exact List.Pairwise.nil
      | cons o os =>
          obtain ⟨hfirst, hrest⟩ := List.pairwise_cons.mp hos
          cases skip with
          | succ skip => exact ih hrest
          | zero =>
              rw [passFrom]
              split
              · next taken written _ =>
                -- all that is written stands at the first character, which nothing is in front of
                apply List.pairwise_append.mpr
                refine ⟨Mark.inOrder_constant written o, ih hrest, ?_⟩
                intro m hm n hn
                obtain ⟨w, -, rfl⟩ := List.mem_map.mp hm
                exact rule.le_origin_passFrom hfirst n hn
              · apply List.pairwise_cons.mpr
                exact ⟨rule.le_origin_passFrom hfirst, ih hrest⟩

theorem Product.insertFrom_inOrder (units : List String) {admitted : Bool} {cs : List Char}
    {os : List Nat} (hos : os.Pairwise (· ≤ ·)) :
    Mark.InOrder (insertFrom units admitted cs os) := by
  induction cs generalizing admitted os with
  | nil => exact List.Pairwise.nil
  | cons c cs ih =>
      cases os with
      | nil => exact List.Pairwise.nil
      | cons o os =>
          obtain ⟨hfirst, hrest⟩ := List.pairwise_cons.mp hos
          have hbehind : ∀ m ∈ insertFrom units (admitsFactor admitted c) cs os, o ≤ m.origin := by
            have hwithin : Mark.Within (fun _ => True) (o ≤ ·)
                (insertFrom units (admitsFactor admitted c) cs os) :=
              insertFrom_within trivial (fun _ _ => trivial) hfirst
            intro m hm
            exact (hwithin m hm).2
          have hkept : Mark.InOrder
              (⟨c, o⟩ :: insertFrom units (admitsFactor admitted c) cs os) :=
            List.pairwise_cons.mpr ⟨hbehind, ih hrest⟩
          rw [insertFrom]
          split
          · -- the sign shares the place of the factor
            apply List.pairwise_cons.mpr
            refine ⟨?_, hkept⟩
            intro m hm
            rcases List.mem_cons.mp hm with rfl | hm
            · exact Nat.le_refl o
            · exact hbehind m hm
          · exact hkept

namespace Mark

/-- Each typed character becomes one mark or two at its own place. -/
theorem inOrder_ofTyped (typed : List Char) : InOrder (ofTyped typed) := by
  have hfrom (k : Nat) : InOrder ((typed.zipIdx k).flatMap fun p =>
      (Text.lower p.1).map (⟨·, p.2⟩)) := by
    induction typed generalizing k with
    | nil => exact List.Pairwise.nil
    | cons c typed ih =>
        rw [List.zipIdx_cons, List.flatMap_cons]
        apply List.pairwise_append.mpr
        refine ⟨inOrder_constant (Text.lower c) k, ih (k + 1), ?_⟩
        intro m hm n hn
        obtain ⟨d, -, rfl⟩ := List.mem_map.mp hm
        obtain ⟨⟨e, index⟩, hindex, hn⟩ := List.mem_flatMap.mp hn
        obtain ⟨d', -, rfl⟩ := List.mem_map.mp hn
        have hle : k + 1 ≤ index := List.le_snd_of_mem_zipIdx hindex
        exact Nat.le_of_succ_le hle
  exact hfrom 0

theorem trim_sublist (marks : List Mark) : (trim marks).Sublist marks := by
  have hback := List.dropWhile_sublist (Text.isBlank ·.char)
    (l := (marks.dropWhile (Text.isBlank ·.char)).reverse)
  rw [← List.reverse_sublist, List.reverse_reverse] at hback
  exact hback.trans (List.dropWhile_sublist _)

end Mark

/-- After any number of rules the marks are in order. -/
theorem Shorthand.inOrder_marksAt (index : Nat) (typed : List Char) :
    Mark.InOrder (marksAt index typed) := by
  have hpasses (rules : List Rule) {marks : List Mark} (h : Mark.InOrder marks) :
      Mark.InOrder (rules.foldl (fun ms rule => rule.pass ms) marks) := by
    induction rules generalizing marks with
    | nil => exact h
    | cons rule rules ih => exact ih (rule.passFrom_inOrder (List.pairwise_map.mpr h))
  exact hpasses _ (Mark.inOrder_ofTyped typed)

namespace Source

/-- A source that is in step with its line: one offset for each character, in order, and all of
them offsets of characters of the line. -/
structure Aligned (s : Source) : Prop where
  length_offsets : s.offsets.length = s.text.length
  inOrder : s.offsets.Pairwise (· ≤ ·)
  lt_length : ∀ o ∈ s.offsets, o < s.typed.length

variable {units : List String} {typed : String} {marks : List Mark}

theorem aligned_ofMarks (horder : Mark.InOrder marks)
    (hplaces : ∀ m ∈ marks, m.origin < typed.length) : Aligned (ofMarks marks typed) where
  length_offsets := length_ofMarks marks typed
  inOrder := List.pairwise_map.mpr horder
  lt_length := List.forall_mem_map.mpr hplaces

theorem aligned_marksAt (index : Nat) (typed : String) :
    Aligned (ofMarks (Shorthand.marksAt index typed.toList) typed) := by
  apply aligned_ofMarks (Shorthand.inOrder_marksAt index typed.toList)
  have hrules : ∀ rule ∈ Shorthand.rules.take index, rule.Writes (·.isUpper = false) := by
    intro rule hrule
    exact Shorthand.writes_rules (by decide) rule (List.mem_of_mem_take hrule)
  have hwithin := Rule.foldl_pass_within hrules (Mark.ofTyped_within typed.toList)
  intro m hm
  rw [← String.length_toList]
  exact (hwithin m hm).2

theorem inOrder_trimmed (typed : String) : Mark.InOrder (trimmed typed) := by
  have hrules := Shorthand.inOrder_marksAt 14 typed.toList
  rw [Shorthand.marksAt_length] at hrules
  exact List.Pairwise.sublist (Mark.trim_sublist _) hrules

theorem inOrder_spelledOut (units : List String) (typed : String) :
    Mark.InOrder (spelledOut units typed) :=
  Product.insertFrom_inOrder units (List.pairwise_map.mpr (inOrder_trimmed typed))

/-- No character has a place behind the end. -/
theorem Aligned.le_stop {s : Source} (h : Aligned s) : ∀ o ∈ s.offsets, o ≤ s.stop := by
  intro o ho
  obtain ⟨front, last, hoffsets⟩ : ∃ front last, s.offsets = front ++ [last] :=
    ⟨_, _, (List.dropLast_concat_getLast (List.ne_nil_of_mem ho)).symm⟩
  have hstop : s.stop = last + 1 := by
    rw [stop, hoffsets, List.getLast?_concat]
  have horder := h.inOrder
  rw [hoffsets, List.pairwise_append] at horder
  rw [hoffsets, List.mem_append, List.mem_singleton] at ho
  rw [hstop]
  rcases ho with ho | rfl
  · exact Nat.le_succ_of_le (horder.2.2 o ho last (List.mem_singleton_self last))
  · exact Nat.le_succ o

end Source

/-! ## What is left of a line -/

/-- No multiplication sign is put in front of a text. -/
theorem Product.head?_insert (units : List String) (marks : List Mark) :
    (insert units marks).head? = marks.head? := by
  cases marks with
  | nil => rfl
  | cons m marks =>
      rw [insert, List.map_cons, List.map_cons, insertFrom, if_neg (by simp)]
      rfl

/-- The text of a line that something is left of: there is no white space around it. -/
structure Source.Trimmed (s : Source) : Prop where
  ne_nil : s.text ≠ []
  head : ∀ c ∈ s.text.head?, Text.isBlank c = false
  last : ∀ c ∈ s.text.getLast?, Text.isBlank c = false

namespace Mark

theorem not_isBlank_of_head? {marks : List Mark} {m : Mark} (h : (trim marks).head? = some m) :
    Text.isBlank m.char = false := by
  -- what the trimming leaves in front is what it leaves of the white space behind
  have hprefix : trim marks <+: marks.dropWhile (Text.isBlank ·.char) := by
    rw [← List.reverse_suffix, trim, List.reverse_reverse]
    exact List.dropWhile_suffix _
  obtain ⟨behind, hbehind⟩ := hprefix
  have hhead := List.head?_dropWhile_not (Text.isBlank ·.char) marks
  rw [← hbehind, List.head?_append, h] at hhead
  exact hhead

theorem not_isBlank_of_getLast? {marks : List Mark} {m : Mark}
    (h : (trim marks).getLast? = some m) : Text.isBlank m.char = false := by
  rw [trim, List.getLast?_reverse] at h
  have hhead := List.head?_dropWhile_not (Text.isBlank ·.char)
    (marks.dropWhile (Text.isBlank ·.char)).reverse
  rw [h] at hhead
  exact hhead

end Mark

/-! ## Tokens -/

/-- Tokens stand in the order of the characters that they are made of. -/
theorem Token.Split.inOrder {units : List String} {marks : List Mark} {ts : List Token}
    (h : Split units marks ts) (horder : Mark.InOrder marks) :
    ts.Pairwise (·.place ≤ ·.place) := by
  induction h with
  | nil => exact List.Pairwise.nil
  | blank _ _ ih => exact ih horder.of_cons
  | @token m ms rest kind ts _ _ hrest ih =>
      obtain ⟨-, hbehind, hacross⟩ := List.pairwise_append.mp horder
      apply List.pairwise_cons.mpr
      refine ⟨?_, ih hbehind⟩
      intro t ht
      obtain ⟨n, hn, hplace⟩ := List.mem_map.mp (hrest.place_mem t ht)
      rw [← hplace]
      exact hacross m List.mem_cons_self n hn

namespace Source

variable {units : List String} {typed : String} {marks : List Mark}

theorem head?_spelledOut (units : List String) (typed : String) :
    (spelledOut units typed).head? = (trimmed typed).head? :=
  Product.head?_insert units (trimmed typed)

theorem getLast?_spelledOut (units : List String) (typed : String) :
    (spelledOut units typed).getLast? = (trimmed typed).getLast? :=
  Product.getLast?_insert units (trimmed typed)

/-- Something is left of a line if something is left of its text. -/
theorem spelledOut_eq_nil : spelledOut units typed = [] ↔ trimmed typed = [] := by
  rw [← List.head?_eq_none_iff, head?_spelledOut, List.head?_eq_none_iff]

theorem trimmed_ofMarks (hne : marks ≠ [])
    (hhead : ∀ m, marks.head? = some m → Text.isBlank m.char = false)
    (hlast : ∀ m, marks.getLast? = some m → Text.isBlank m.char = false) :
    Trimmed (ofMarks marks typed) where
  ne_nil := by
    rw [ofMarks, ne_eq, List.map_eq_nil_iff]
    exact hne
  head := by
    intro c hc
    rw [ofMarks, List.head?_map] at hc
    obtain ⟨m, hm, rfl⟩ := Option.map_eq_some_iff.mp hc
    exact hhead m hm
  last := by
    intro c hc
    rw [ofMarks, List.getLast?_map] at hc
    obtain ⟨m, hm, rfl⟩ := Option.map_eq_some_iff.mp hc
    exact hlast m hm

/-- What is left of a line has no white space around it. -/
theorem trimmed_spelledOut (hne : trimmed typed ≠ []) :
    Trimmed (ofMarks (spelledOut units typed) typed) := by
  apply trimmed_ofMarks
  · exact mt spelledOut_eq_nil.mp hne
  · intro m hm
    rw [head?_spelledOut] at hm
    exact Mark.not_isBlank_of_head? hm
  · intro m hm
    rw [getLast?_spelledOut] at hm
    exact Mark.not_isBlank_of_getLast? hm

/-- The tokens of an aligned text stand in order, and the end mark is behind them. -/
theorem Aligned.tokens (h : Aligned (ofMarks marks typed)) {ts : List Token}
    (hts : Token.ofSource units (ofMarks marks typed) = .ok ts) :
    ts.Pairwise (·.place ≤ ·.place) := by
  obtain ⟨front, hsplit, rfl⟩ := Token.ofSource_ofMarks.mp hts
  apply List.pairwise_append.mpr
  refine ⟨hsplit.inOrder (List.pairwise_map.mp h.inOrder), List.pairwise_singleton _ _, ?_⟩
  intro t ht stop hstop
  rw [List.mem_singleton.mp hstop]
  exact h.le_stop t.place (hsplit.place_mem t ht)

/-- A line that nothing is left of has no source. -/
theorem ofTyped_eq_error :
    ofTyped units typed = .error .nothingEntered ↔ trimmed typed = [] := by
  rw [← @spelledOut_eq_nil units, ofTyped]
  cases spelledOut units typed with
  | nil => exact iff_of_true rfl rfl
  | cons m ms =>
      constructor
      · intro hresult
        cases hresult
      · intro hempty
        cases hempty

/-- **Whatever has been done to a line, its text is in step with it**: in lower case and after any
number of rules, once it is trimmed, and with its multiplication signs. If nothing is left of the
line, that is an error. Otherwise it has a source without white space around it, and the tokens of
the source stand in the order of the line with the end mark behind them. -/
theorem ofTyped_aligned (units : List String) (typed : String) :
    (∀ index, Aligned (ofMarks (Shorthand.marksAt index typed.toList) typed)) ∧
    Aligned (ofMarks (trimmed typed) typed) ∧
    Aligned (ofMarks (spelledOut units typed) typed) ∧
    (ofTyped units typed = .error .nothingEntered ↔ trimmed typed = []) ∧
    (trimmed typed ≠ [] → ∃ source, ofTyped units typed = .ok source ∧
      source = ofMarks (spelledOut units typed) typed ∧ Trimmed source ∧
      ∀ names ts, Token.ofSource names source = .ok ts →
        Token.Ended ts ∧ ts.Pairwise (·.place ≤ ·.place)) := by
  have hspelled : Aligned (ofMarks (spelledOut units typed) typed) := by
    apply aligned_ofMarks (inOrder_spelledOut units typed)
    intro m hm
    exact (spelledOut_within units typed m hm).2
  have htrimmed : Aligned (ofMarks (trimmed typed) typed) := by
    apply aligned_ofMarks (inOrder_trimmed typed)
    intro m hm
    exact (trimmed_within typed m hm).2
  refine ⟨fun index => aligned_marksAt index typed, htrimmed, hspelled, ofTyped_eq_error, ?_⟩
  intro hne
  have hleft : spelledOut units typed ≠ [] := mt spelledOut_eq_nil.mp hne
  refine ⟨_, ofTyped_eq_ok.mpr ⟨hleft, rfl⟩, rfl, trimmed_spelledOut hne, ?_⟩
  intro names ts hts
  exact ⟨Token.ended_of_ofSource hts, hspelled.tokens hts⟩

/-- A question is stripped of its words, and what is written for its glyphs has their places. -/
theorem ofTyped_aligned_of_question :
    ∃ source, ofTyped ["m"] " What is 2π² m?" = .ok source ∧
      source.text = "2*pi**2 m".toList ∧ Aligned source ∧ Trimmed source ∧
      ∀ ts, Token.ofSource ["m"] source = .ok ts → ts.Pairwise (·.place ≤ ·.place) := by
  obtain ⟨-, -, haligned, -, hsource⟩ := ofTyped_aligned ["m"] " What is 2π² m?"
  obtain ⟨source, hok, rfl, htrimmed, htokens⟩ := hsource (by decide +kernel)
  refine ⟨_, hok, by decide +kernel, haligned, htrimmed, ?_⟩
  intro ts hts
  exact (htokens ["m"] ts hts).2

end Source

end Reckoner
