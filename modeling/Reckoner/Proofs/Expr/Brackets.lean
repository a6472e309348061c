import Reckoner.Expr.OfTokens

/-!
# Reckoner.Proofs.Expr.Brackets -- what the check of brackets finds

The check lets just those tokens pass whose brackets are a balanced word. Of others it reports the
first closing bracket in front of which as many brackets are opened as closed, and the last token
if there is none.

The check counts the brackets that are open. That counting finds the words that the rules for
balanced ones give is shown the other way round: put behind as many opening brackets as are open,
the rest of a word that counts down to zero is balanced, since brackets with nothing between them
can be put into a balanced word anywhere.
-/

namespace Reckoner

/-- Brackets. -/
inductive Bracket where
  | opening
  | closing
deriving DecidableEq, Repr

/-- The bracket that a token is, if it is one. -/
def Token.bracket? (t : Token) : Option Bracket :=
  match t.kind with
  | .openBracket => some .opening
  | .closeBracket => some .closing
  | _ => none

namespace Brackets

/-- The brackets among tokens. -/
def word (ts : List Token) : List Bracket := ts.filterMap Token.bracket?

/-- Balanced words: the empty one, a balanced one in brackets, and two of them in a row. -/
inductive Balanced : List Bracket → Prop
  | nil : Balanced []
  | enclosed {w : List Bracket} (hw : Balanced w) : Balanced (.opening :: w ++ [.closing])
  | append {v w : List Bracket} (hv : Balanced v) (hw : Balanced w) : Balanced (v ++ w)

/-- How many brackets are open behind a word, if `opened` are in front of it and it closes none
that is not open. -/
def openBehind : (opened : Nat) → List Bracket → Option Nat
  | opened, [] => some opened
  | opened, .opening :: w => openBehind (opened + 1) w
  | 0, .closing :: _ => none
  | others + 1, .closing :: w => openBehind others w

/-! ## Balanced words -/

section Words

variable {opened : Nat} {u v w : List Bracket}

theorem openBehind_append (opened : Nat) (v w : List Bracket) :
    openBehind opened (v ++ w) = (openBehind opened v).bind (openBehind · w) := by
  induction v generalizing opened with
  | nil => rfl
  | cons b v ih =>
      cases b with
      | opening => exact ih (opened + 1)
      | closing =>
          cases opened with
          | zero => rfl
          | succ others => exact ih others

theorem Balanced.openBehind_eq (h : Balanced w) (opened : Nat) :
    openBehind opened w = some opened := by
  induction h generalizing opened with
  | nil => rfl
  | @enclosed w _ ih =>
      show openBehind (opened + 1) (w ++ [.closing]) = some opened
      rw [openBehind_append, ih]
      rfl
  | append _ _ ihv ihw =>
      rw [openBehind_append, ihv]
      exact ihw opened

/-- As many brackets are open behind a word as are opened in all and not closed. -/
theorem count_of_openBehind {others : Nat} (h : openBehind opened w = some others) :
    others + w.count .closing = opened + w.count .opening := by
  induction w generalizing opened with
  | nil =>
      cases h
      rfl
  | cons b w ih =>
      cases b with
      | opening =>
          have hrest : openBehind (opened + 1) w = some others := h
          have hcount := ih hrest
          rw [List.count_cons_self, List.count_cons_of_ne (by decide)]
          omega
      | closing =>
          cases opened with
          | zero => cases h
          | succ opened =>
              have hrest : openBehind opened w = some others := h
              have hcount := ih hrest
              rw [List.count_cons_self, List.count_cons_of_ne (by decide)]
              omega

/-- Brackets with nothing between them keep a word balanced, wherever they are put. -/
theorem Balanced.insert (h : Balanced (u ++ w)) : Balanced (u ++ .opening :: .closing :: w) := by
  have hpair : Balanced [.opening, .closing] := .enclosed .nil
  generalize hz : u ++ w = z at h
  induction h generalizing u w with
  | nil =>
      obtain ⟨rfl, rfl⟩ := List.append_eq_nil_iff.mp hz
      exact hpair
  | @enclosed z hz' ih =>
      -- the pair is put in front of the outer brackets, behind them or between them
      rcases List.append_eq_cons_iff.mp hz with ⟨rfl, rfl⟩ | ⟨u, rfl, hbehind⟩
      · exact hpair.append hz'.enclosed
      rcases List.eq_nil_or_concat w with rfl | ⟨w, last, rfl⟩
      · rw [List.append_nil] at hbehind
        rw [← hbehind]
        exact .append (.enclosed hz') hpair
      · rw [List.concat_eq_append, ← List.append_assoc] at hbehind
        obtain ⟨hbetween, hlast⟩ := List.append_inj' hbehind rfl
        cases hlast
        have := Balanced.enclosed (ih hbetween.symm)
        simpa using this
  | @append v v' hv hv' ihv ihv' =>
      rcases List.append_eq_append_iff.mp hz with ⟨a, rfl, rfl⟩ | ⟨a, rfl, rfl⟩
      · have := Balanced.append (ihv rfl) hv'
        simpa using this
      · have := Balanced.append hv (ihv' rfl)
        simpa using this

theorem balanced_of_openBehind (h : openBehind opened w = some 0) :
    Balanced (List.replicate opened .opening ++ w) := by
  induction w generalizing opened with
  | nil =>
      cases h
      exact .nil
  | cons b w ih =>
      cases b with
      | opening =>
          have hrest : openBehind (opened + 1) w = some 0 := h
          have hbalanced := ih hrest
          rwa [List.replicate_succ', List.append_assoc] at hbalanced
      | closing =>
          cases opened with
          | zero => cases h
          | succ others =>
              have hrest : openBehind others w = some 0 := h
              rw [List.replicate_succ', List.append_assoc]
              exact (ih hrest).insert

/-- **Counting finds the balanced words.** -/
theorem balanced_iff : Balanced w ↔ openBehind 0 w = some 0 :=
  ⟨fun h => h.openBehind_eq 0, balanced_of_openBehind⟩

end Words

/-! ## The check -/

section Check

variable {opened others last j : Nat} {t u : Token} {ts : List Token}

/-- Whether the token `t` with index `j` is a closing bracket in front of which as many brackets
are closed as opened, counting `opened` more that are open in front of all tokens. -/
def UnopenedBehind (opened : Nat) (ts : List Token) (j : Nat) (t : Token) : Prop :=
  ts[j]? = some t ∧ t.kind = .closeBracket ∧
    (word (ts.take j)).count .closing = opened + (word (ts.take j)).count .opening

/-- Whether the token `t` with index `j` is a closing bracket in front of which as many brackets
are closed as opened. -/
def Unopened (ts : List Token) (j : Nat) (t : Token) : Prop :=
  ts[j]? = some t ∧ t.kind = .closeBracket ∧
    (word (ts.take j)).count .closing = (word (ts.take j)).count .opening

theorem unopened_iff : Unopened ts j t ↔ UnopenedBehind 0 ts j t := by
  rw [UnopenedBehind, Unopened, Nat.zero_add]

/-- How many brackets are open behind a token, if it closes none that is not open. -/
def openBehindToken (opened : Nat) (t : Token) : Option Nat :=
  openBehind opened t.bracket?.toList

theorem word_cons (t : Token) (ts : List Token) :
    word (t :: ts) = t.bracket?.toList ++ word ts := by
  rw [word, List.filterMap_cons]
  cases t.bracket? <;> rfl

theorem openBehind_word_cons (opened : Nat) (t : Token) (ts : List Token) :
    openBehind opened (word (t :: ts)) =
      (openBehindToken opened t).bind (openBehind · (word ts)) := by
  rw [word_cons, openBehind_append]
  rfl

theorem openBehindToken_eq_none :
    openBehindToken opened t = none ↔ t.kind = .closeBracket ∧ opened = 0 := by
  cases hkind : t.kind <;> cases opened <;>
    simp [openBehindToken, openBehind, Token.bracket?, hkind]

theorem unopenedBehind_head :
    UnopenedBehind opened (t :: ts) 0 u ↔ t = u ∧ openBehindToken opened t = none := by
  rw [openBehindToken_eq_none]
  simp only [UnopenedBehind, word, List.getElem?_cons_zero, List.take_zero, List.filterMap_nil,
    List.count_nil, Option.some.injEq]
  constructor
  · rintro ⟨rfl, hkind, hopened⟩
    exact ⟨rfl, hkind, hopened.symm⟩
  · rintro ⟨rfl, hkind, hopened⟩
    exact ⟨rfl, hkind, hopened.symm⟩

theorem unopenedBehind_tail (h : openBehindToken opened t = some others) :
    UnopenedBehind opened (t :: ts) (j + 1) u ↔ UnopenedBehind others ts j u := by
  have hcount := count_of_openBehind h
  simp only [UnopenedBehind, List.getElem?_cons_succ, List.take_succ_cons, word_cons,
    List.count_append]
  refine and_congr_right fun _ => and_congr_right fun _ => ?_
  omega

/-- At a token the check goes on, or there is no bracket for the token to close. -/
theorem checkFrom_token (opened last : Nat) (t : Token) (ts : List Token) :
    checkFrom opened last (t :: ts) =
      match openBehindToken opened t with
      | some others => checkFrom others t.place ts
      | none => .error (.misplaced .unopenedBracket t.place) := by
  cases hkind : t.kind <;> cases opened <;>
    simp [openBehindToken, openBehind, Token.bracket?, checkFrom, hkind]

/-- The check lets tokens pass whose brackets leave none open. -/
theorem checkFrom_eq_ok :
    checkFrom opened last ts = .ok () ↔ openBehind opened (word ts) = some 0 := by
  induction ts generalizing opened last with
  | nil => cases opened <;> simp [checkFrom, word, openBehind]
  | cons t ts ih =>
      rw [checkFrom_token, openBehind_word_cons]
      cases openBehindToken opened t with
      | some others => exact ih
      | none => simp

/-- The check reports the first closing bracket that has none to close. -/
theorem checkFrom_of_unopened (h : UnopenedBehind opened ts j t)
    (hfirst : ∀ i < j, ∀ u, ¬ UnopenedBehind opened ts i u) :
    checkFrom opened last ts = .error (.misplaced .unopenedBracket t.place) := by
  induction ts generalizing opened last j with
  | nil => cases h.1
  | cons t' ts ih =>
      rw [checkFrom_token]
      cases hbehind : openBehindToken opened t' with
      | none =>
          -- the token is the first of the list, so that it is the one
          cases j with
          | zero => rw [(unopenedBehind_head.mp h).1]
          | succ j => exact absurd (unopenedBehind_head.mpr ⟨rfl, hbehind⟩) (hfirst 0 (by simp) t')
      | some others =>
          cases j with
          | zero => cases (unopenedBehind_head.mp h).2.symm.trans hbehind
          | succ j =>
              refine ih ((unopenedBehind_tail hbehind).mp h) fun i hi u hu => ?_
              exact hfirst (i + 1) (by omega) u ((unopenedBehind_tail hbehind).mpr hu)

/-- If there is no such closing bracket, an opening one has none that closes it, or the check
passes. What is reported then is the last token. -/
theorem checkFrom_of_not_unopened (last : Nat) {front : List Token} {stop : Token}
    (h : ∀ j t, ¬ UnopenedBehind opened (front ++ [stop]) j t) :
    checkFrom opened last (front ++ [stop]) = .ok () ∨
      checkFrom opened last (front ++ [stop]) =
        .error (.misplaced .unclosedBracket stop.place) := by
  induction front generalizing opened last with
  | nil =>
      rw [List.nil_append] at h ⊢
      rw [checkFrom_token]
      cases hbehind : openBehindToken opened stop with
      | none => exact absurd (unopenedBehind_head.mpr ⟨rfl, hbehind⟩) (h 0 stop)
      | some others =>
          cases others with
          | zero => exact .inl rfl
          | succ others => exact .inr rfl
  | cons t front ih =>
      rw [List.cons_append] at h ⊢
      rw [checkFrom_token]
      cases hbehind : openBehindToken opened t with
      | none => exact absurd (unopenedBehind_head.mpr ⟨rfl, hbehind⟩) (h 0 t)
      | some others =>
          exact ih t.place fun j u hu => h (j + 1) u ((unopenedBehind_tail hbehind).mpr hu)

/-- The check reports brackets only. -/
theorem kind_of_check {e : Error} (h : checkFrom opened last ts = .error e) :
    e.kind = .unmatchedBracket := by
  induction ts generalizing opened last with
  | nil =>
      cases opened with
      | zero => cases h
      | succ others =>
          cases h
          rfl
  | cons t ts ih =>
      rw [checkFrom_token] at h
      split at h
      · exact ih h
      · cases h
        rfl

/-- An opening bracket that is not closed is reported at the last token. -/
theorem place_of_unclosed {place : Nat}
    (h : checkFrom opened last ts = .error (.misplaced .unclosedBracket place)) :
    place = (ts.getLast?.map (·.place)).getD last := by
  induction ts generalizing opened last with
  | nil =>
      cases opened with
      | zero => cases h
      | succ others =>
          cases h
          rfl
  | cons t ts ih =>
      have hplace : ((t :: ts).getLast?.map (·.place)).getD last =
          (ts.getLast?.map (·.place)).getD t.place := by
        rw [List.getLast?_cons]
        cases ts.getLast? <;> rfl
      rw [checkFrom_token] at h
      rw [hplace]
      split at h
      · exact ih h
      · cases h

theorem check_eq_ok : check ts = .ok () ↔ Balanced (word ts) :=
  checkFrom_eq_ok.trans balanced_iff.symm

end Check

end Brackets

end Reckoner
