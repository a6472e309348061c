import Reckoner.Expr.OfTokens
import Reckoner.Proofs.Eval.Faultless
import Reckoner.Proofs.Token.Split

/-!
# Reckoner.Proofs.Expr.Steady -- a reader meets no fault

A reader faults where tokens run out before an end mark and where a numeral is none. Given a list
of tokens with an end mark it never runs out, since no reader goes past an end mark: what it leaves
has one too, and is shorter than what it was given, so that the loops over operations and over
arguments have room for all of it. So its only fault is a number of the list that is no numeral, and
if there is none, it meets no fault. What it reports has the place of one of the tokens, for it has
no other places to report.
-/

namespace Reckoner

/-- What a reader can report: tokens that do not go together at a place of a class, or its limit. -/
inductive Error.OfReader (q : Nat → Prop) : Error → Prop
  | misplaced (why : Misplacement) {place : Nat} (h : q place) : OfReader q (.misplaced why place)
  | tooDeep (limit : Nat) : OfReader q (.tooDeep limit)

/-- What a reader can fail with: its error, or a number whose spelling is of a class. -/
inductive Failure.OfReader (q : Nat → Prop) (r : String → Prop) : Failure → Prop
  | error {e : Error} (h : e.OfReader q) : OfReader q r (.error e)
  | notANumeral {lexeme : String} (h : r lexeme) : OfReader q r (.fault (.notANumeral lexeme))

theorem Failure.OfReader.of_failsWith {α : Type} {q : Nat → Prop} {r : String → Prop}
    {x : Except Failure α} {f : Failure} (hx : FailsWith (·.OfReader q) x)
    (hf : x = .error f) : f.OfReader q r := by
  obtain ⟨e, rfl, he⟩ := hx f hf
  exact .error he

/-- A list of tokens for a reader: an end mark is among them, and what is called a number is a
numeral, or its spelling is of a class. The places of the tokens are of a class. -/
structure Token.Readable (q : Nat → Prop) (r : String → Prop) (ts : List Token) : Prop where
  finish : ∃ t ∈ ts, t.kind = .finish
  numeral : ∀ t ∈ ts, t.kind = .number → Number.numeral? t.lexeme = none → r t.lexeme
  place : ∀ t ∈ ts, q t.place

namespace Token.Readable

variable {q : Nat → Prop} {r : String → Prop} {t : Token} {ts : List Token}

theorem ne_nil (h : Readable q r ts) : ts ≠ [] := by
  rintro rfl
  obtain ⟨t, ht, -⟩ := h.finish
  cases ht

theorem head (h : Readable q r (t :: ts)) : q t.place := h.place t List.mem_cons_self

theorem tail (h : Readable q r (t :: ts)) (hkind : t.kind ≠ .finish) : Readable q r ts := by
  refine ⟨?_, fun u hu => h.numeral u (List.mem_cons_of_mem t hu),
    fun u hu => h.place u (List.mem_cons_of_mem t hu)⟩
  obtain ⟨u, hu, hfinish⟩ := h.finish
  rcases List.mem_cons.mp hu with rfl | hu
  · exact absurd hfinish hkind
  · exact ⟨u, hu, hfinish⟩

end Token.Readable

namespace ExprReader

variable {α β : Type} {q : Nat → Prop} {r : String → Prop} {n m : Nat} {t : Token}
  {ts : List Token}

/-- A reader's outcome as it should be: a failure that a reader can have, or a result with fewer
than `n` tokens behind it that can be read further. -/
def Steady (q : Nat → Prop) (r : String → Prop) (n : Nat) :
    Except Failure (α × List Token) → Prop
  | .ok (_, rest) => Token.Readable q r rest ∧ rest.length < n
  | .error f => f.OfReader q r

/-- Whether the place of a token before, if there is one, is of a class. -/
def Follows (q : Nat → Prop) (before : Option Token) : Prop := ∀ t ∈ before, q t.place

theorem follows_some (ht : q t.place) : Follows q (some t) := by
  rintro _ ⟨⟩
  exact ht

/-- A reader that is steady on all it can be given. -/
def IsSteady (q : Nat → Prop) (r : String → Prop) (inner : ExprReader) : Prop :=
  ∀ (level : Nat) (before : Option Token) (ts : List Token), Follows q before →
    Token.Readable q r ts → Steady q r ts.length (inner level before ts)

theorem Steady.bind {x : Except Failure (α × List Token)}
    {g : α × List Token → Except Failure (β × List Token)} (hx : Steady q r n x)
    (hg : ∀ a t rest, Token.Readable q r (t :: rest) → (t :: rest).length < n →
      Steady q r m (g (a, t :: rest))) :
    Steady q r m (x >>= g) := by
  match x, hx with
  | .ok (a, t :: rest), hx => exact hg a t rest hx.1 hx.2
  | .ok (a, []), hx => exact absurd rfl hx.1.ne_nil
  | .error f, hx => exact hx

theorem Steady.mono {x : Except Failure (α × List Token)} (hx : Steady q r n x) (hle : n ≤ m) :
    Steady q r m x := by
  match x, hx with
  | .ok (a, rest), hx => exact ⟨hx.1, Nat.lt_of_lt_of_le hx.2 hle⟩
  | .error f, hx => exact hx

theorem Steady.misplaced {why : Misplacement} (ht : q t.place) :
    Steady q r n (misplaced why t : Except Failure (α × List Token)) :=
  .error (.misplaced why ht)

theorem Steady.stray (ht : q t.place) :
    Steady q r n (stray t : Except Failure (α × List Token)) :=
  .misplaced ht

/-! ## Operands -/

theorem withUnit_steady (units : List String) (place : Nat) (amount : Expr)
    (h : Token.Readable q r ts) :
    Token.Readable q r (withUnit units place amount ts).2 ∧
      (withUnit units place amount ts).2.length ≤ ts.length := by
  unfold withUnit
  split
  · next t ts =>
    split
    · next hunit =>
      have hkind : t.kind ≠ .finish := by
        rw [Bool.and_eq_true, beq_iff_eq] at hunit
        simp [hunit.1]
      exact ⟨h.tail hkind, Nat.le_succ _⟩
    · exact ⟨h, Nat.le_refl _⟩
  · exact ⟨h, Nat.le_refl _⟩

theorem withPercents_steady {e : Expr} (h : Token.Readable q r ts) :
    Token.Readable q r (withPercents e ts).2 ∧ (withPercents e ts).2.length ≤ ts.length := by
  induction ts generalizing e with
  | nil => exact absurd rfl h.ne_nil
  | cons t ts ih =>
      rw [withPercents]
      split
      · next hsign =>
        have hkind : t.kind ≠ .finish := by
          rw [Token.isSign, Bool.and_eq_true, Token.isOperator, beq_iff_eq] at hsign
          simp [hsign.1]
        obtain ⟨hrest, hlength⟩ := ih (e := .unary .percent e t.place) (h.tail hkind)
        exact ⟨hrest, Nat.le_succ_of_le hlength⟩
      · exact ⟨h, Nat.le_refl _⟩

variable {inner : ExprReader}

theorem arguments_steady (hinner : IsSteady q r inner) {room : Nat} {before : Token}
    (hbefore : q before.place) (h : Token.Readable q r ts) (hroom : ts.length ≤ room) :
    Steady q r ts.length (arguments inner room before ts) := by
  -- the room shrinks by one with each argument, and the tokens by one at least
  induction room generalizing before ts with
  | zero => exact absurd (List.eq_nil_of_length_eq_zero (Nat.le_zero.mp hroom)) h.ne_nil
  | succ room ih =>
      rw [arguments]
      refine (hinner sumLevel (some before) ts (follows_some hbefore) h).bind
        fun arg t rest hrest hlength => ?_
      rw [List.length_cons] at hlength
      simp only
      split
      · next hclosing => exact ⟨hrest.tail (by simp [hclosing]), by omega⟩
      · next hcomma =>
        have htail : Steady q r rest.length (arguments inner room t rest) :=
          ih hrest.head (hrest.tail (by simp [hcomma])) (by omega)
        refine htail.bind fun args t' rest' hrest' hlength' => ?_
        exact ⟨hrest', Nat.lt_of_lt_of_le hlength' (by omega)⟩
      · exact .stray hrest.head

theorem call_steady (hinner : IsSteady q r inner) {function opening : Token}
    (hopening : q opening.place) (h : Token.Readable q r ts) :
    Steady q r ts.length (call inner function opening ts) := by
  unfold call
  split
  · exact absurd rfl h.ne_nil
  · next t ts =>
    split
    · next hclosing => exact ⟨h.tail (by rw [beq_iff_eq] at hclosing; simp [hclosing]), by simp⟩
    · refine (arguments_steady hinner hopening h (Nat.le_refl _)).bind
        fun args t' rest hrest hlength => ?_
      exact ⟨hrest, hlength⟩

theorem named_steady (hinner : IsSteady q r inner) {name : Token} (hname : q name.place)
    (h : Token.Readable q r ts) :
    Steady q r (ts.length + 1) (named inner name ts) := by
  unfold named
  split
  · exact absurd rfl h.ne_nil
  · next t ts =>
    split
    · next hopening =>
      have htail := h.tail (by rw [beq_iff_eq] at hopening; simp [hopening])
      exact (call_steady hinner h.head htail).mono (by simp; omega)
    split
    · refine (hinner signLevel (some name) _ (follows_some hname) h).bind
        fun arg t' rest hrest hlength => ?_
      exact ⟨hrest, by omega⟩
    · exact ⟨h, Nat.lt_succ_self _⟩

theorem primary_steady (hinner : IsSteady q r inner) {units : List String}
    (h : Token.Readable q r (t :: ts)) (hkind : t.kind ≠ .finish) :
    Steady q r (ts.length + 1) (primary inner units t ts) := by
  have htail := h.tail hkind
  have hunit (amount : Expr) {rest : List Token} (hrest : Token.Readable q r rest)
      (hlength : rest.length ≤ ts.length) :
      Steady q r (ts.length + 1) (.ok (withUnit units t.place amount rest)) := by
    obtain ⟨hreadable, hle⟩ := withUnit_steady units t.place amount hrest
    exact ⟨hreadable, Nat.lt_succ_of_le (Nat.le_trans hle hlength)⟩
  unfold primary
  split
  · next hnumber =>
    split
    · exact hunit _ htail (Nat.le_refl _)
    · next hnone => exact .notANumeral (h.numeral t List.mem_cons_self hnumber hnone)
  · refine (hinner sumLevel (some t) ts (follows_some h.head) htail).bind
      fun e t' rest hrest hlength => ?_
    simp only
    split
    · next hclosing =>
      rw [List.length_cons] at hlength
      exact hunit e (hrest.tail (by rw [beq_iff_eq] at hclosing; simp [hclosing])) (by omega)
    · exact .stray hrest.head
  · exact named_steady hinner h.head htail
  · exact .stray h.head

theorem missing_steady {before : Option Token} (hbefore : Follows q before) (ht : q t.place) :
    Steady q r n (missing before t : Except Failure (α × List Token)) := by
  unfold missing
  split
  · next b =>
    split
    · exact .misplaced (hbefore b rfl)
    split
    · exact .misplaced ht
    · exact .misplaced ht
  · exact .misplaced ht

theorem strayOperator_steady {before : Option Token} (ht : q t.place) :
    Steady q r n (strayOperator before t : Except Failure (α × List Token)) := by
  unfold strayOperator
  split
  · split
    · exact .misplaced ht
    · exact .misplaced ht
  · exact .misplaced ht

theorem operand_steady (hinner : IsSteady q r inner) {units : List String} {before : Option Token}
    (hbefore : Follows q before) (h : Token.Readable q r ts) :
    Steady q r ts.length (operand inner units before ts) := by
  unfold operand
  split
  · exact absurd rfl h.ne_nil
  next t ts =>
  split
  · exact missing_steady hbefore h.head
  · exact missing_steady hbefore h.head
  · exact missing_steady hbefore h.head
  · next hoperator =>
    split
    · have htail := h.tail (by simp [hoperator])
      refine (hinner signLevel (some t) ts (follows_some h.head) htail).bind
        fun e t' rest hrest hlength => ?_
      exact ⟨hrest, Nat.lt_succ_of_lt hlength⟩
    · exact strayOperator_steady h.head
  · next hfinish _ _ _ =>
    refine (primary_steady hinner h hfinish).bind fun e t' rest hrest hlength => ?_
    obtain ⟨hreadable, hle⟩ := withPercents_steady (e := e) hrest
    exact ⟨hreadable, Nat.lt_of_le_of_lt hle hlength⟩

/-! ## Operations -/

theorem operations_steady (hinner : IsSteady q r inner) {level room : Nat} {left : Expr}
    (h : Token.Readable q r ts) (hroom : ts.length ≤ room) :
    Steady q r (ts.length + 1) (operations inner level room left ts) := by
  induction room generalizing left ts with
  | zero => exact absurd (List.eq_nil_of_length_eq_zero (Nat.le_zero.mp hroom)) h.ne_nil
  | succ room ih =>
      cases ts with
      | nil => exact absurd rfl h.ne_nil
      | cons t ts =>
          rw [operations]
          split
          · next op hop =>
            split
            · exact ⟨h, Nat.lt_succ_self _⟩
            · -- what stands for an operation is no end mark
              have hkind : t.kind ≠ .finish := by
                intro hfinish
                simp [BinaryOp.ofToken?, Token.isSign, Token.isOperator, hfinish] at hop
              rw [List.length_cons] at hroom
              refine (hinner op.rightLevel (some t) ts (follows_some h.head) (h.tail hkind)).bind
                fun right t' rest hrest hlength => ?_
              have hshorter : (t' :: rest).length + 1 ≤ (t :: ts).length + 1 :=
                Nat.succ_le_succ (Nat.le_succ_of_le (Nat.le_of_lt hlength))
              exact (ih hrest (by omega)).mono hshorter
          · exact ⟨h, Nat.lt_succ_self _⟩

theorem expression_steady (units : List String) (limit depth : Nat) :
    IsSteady q r (expression units limit depth) := by
  induction depth with
  | zero =>
      intro level before ts _ _
      exact .error (.tooDeep limit)
  | succ depth ih =>
      intro level before ts hbefore h
      refine (operand_steady ih hbefore h).bind fun left t rest hrest hlength => ?_
      exact (operations_steady ih hrest (Nat.le_refl _)).mono hlength

end ExprReader

/-! ## Statements -/

namespace Brackets

variable {q : Nat → Prop} {ts : List Token}

/-- A token opens or closes a bracket or does neither, or there is none for it to close. -/
theorem checkFrom_cons (opened last : Nat) (t : Token) (ts : List Token) :
    (∃ others, checkFrom opened last (t :: ts) = checkFrom others t.place ts) ∨
      checkFrom opened last (t :: ts) = .error (.misplaced .unopenedBracket t.place) := by
  cases hkind : t.kind with
  | openBracket => exact .inl ⟨opened + 1, by simp only [checkFrom, hkind]⟩
  | closeBracket =>
      cases opened with
      | zero => exact .inr (by simp only [checkFrom, hkind])
      | succ others => exact .inl ⟨others, by simp only [checkFrom, hkind]⟩
  | _ => exact .inl ⟨opened, by simp [checkFrom, hkind]⟩

theorem checkFrom_error {opened last : Nat} (hlast : opened ≠ 0 → q last)
    (h : ∀ t ∈ ts, q t.place) {e : Error} (he : checkFrom opened last ts = .error e) :
    e.OfReader q := by
  -- a bracket that is not closed is reported at the last token, which then there is
  induction ts generalizing opened last with
  | nil =>
      cases opened with
      | zero => cases he
      | succ opened =>
          cases he
          exact .misplaced _ (hlast (Nat.succ_ne_zero opened))
  | cons t ts ih =>
      rw [List.forall_mem_cons] at h
      rcases checkFrom_cons opened last t ts with ⟨others, heq⟩ | heq
      · exact ih (fun _ => h.1) h.2 (heq ▸ he)
      · rw [heq] at he
        cases he
        exact .misplaced _ h.1

end Brackets

namespace Statement

variable {q : Nat → Prop} {r : String → Prop} {units : List String} {limit : Nat}
  {ts : List Token}

theorem atEnd_failsWith (h : Token.Readable q r ts) : FailsWith (·.OfReader q) (atEnd ts) := by
  unfold atEnd
  split
  · exact absurd rfl h.ne_nil
  · split
    · exact .ok ()
    · exact .fail (.misplaced _ h.head)
    · exact .fail (.misplaced _ h.head)

theorem conversion_failsWith (h : Token.Readable q r ts) (value : Expr) :
    FailsWith (·.OfReader q) (conversion value ts) := by
  unfold conversion
  split
  · exact absurd rfl h.ne_nil
  next keyword ts =>
  split
  · next hkeyword =>
    rw [Bool.and_eq_true, beq_iff_eq] at hkeyword
    have htail := h.tail (by simp [hkeyword.1])
    split
    · exact absurd rfl htail.ne_nil
    next unit rest =>
    split
    · next hunit =>
      rw [beq_iff_eq] at hunit
      exact (atEnd_failsWith (htail.tail (by simp [hunit]))).bind fun _ _ => .ok _
    · exact .fail (.misplaced _ htail.head)
  · exact (atEnd_failsWith h).bind fun _ _ => .ok _

theorem orError_failsWith {α : Type} {p : Error → Prop} {x : Except Error α}
    (h : ∀ e, x = .error e → p e) : FailsWith p (orError x) := by
  cases x with
  | ok a => exact .ok a
  | error e => exact .fail (h e rfl)

theorem orError_eq_ok {α : Type} {x : Except Error α} {a : α} :
    orError x = .ok a ↔ x = .ok a := by
  cases x with
  | ok b =>
      constructor
      · rintro ⟨⟩
        rfl
      · rintro ⟨⟩
        rfl
  | error e => constructor <;> rintro ⟨⟩

/-- **The reader of statements never runs out of tokens**, for any depth. It fails with an error at
the place of a token, or for a number among them that is no numeral. -/
theorem ofTokens_error (h : Token.Readable q r ts) {f : Failure}
    (hfails : ofTokens units limit ts = .error f) : f.OfReader q r := by
  have hread {before : Option Token} (hbefore : ExprReader.Follows q before) {ts : List Token}
      (h : Token.Readable q r ts) {g : Expr × List Token → Except Failure Statement}
      (hg : ∀ e rest, Token.Readable q r rest → FailsWith (·.OfReader q) (g (e, rest)))
      (hf : (ExprReader.expression units limit limit sumLevel before ts >>= g) = .error f) :
      f.OfReader q r := by
    have hsteady := ExprReader.expression_steady units limit limit sumLevel before ts hbefore h
    rcases bind_eq_error hf with hf | ⟨⟨e, rest⟩, hresult, hf⟩
    · rw [hf] at hsteady
      exact hsteady
    · rw [hresult] at hsteady
      exact .of_failsWith (hg e rest hsteady.1) hf
  have hcheck : FailsWith (·.OfReader q) (orError (Brackets.check ts)) :=
    orError_failsWith fun e he => Brackets.checkFrom_error (absurd rfl) h.place he
  rcases bind_eq_error hfails with hf | ⟨_, -, hf⟩
  · exact .of_failsWith hcheck hf
  clear hfails
  split at hf
  · next target sign rest hassign =>
    obtain ⟨rfl, htarget, hsign⟩ := assignment?_eq_some hassign
    have hbehind := h.tail (by simp [htarget])
    have hrest := hbehind.tail (by simp [hsign])
    exact hread (ExprReader.follows_some hbehind.head) hrest
      (fun e rest hrest => (atEnd_failsWith hrest).bind fun _ _ => .ok _) hf
  · have hnone : ExprReader.Follows q none := by rintro _ ⟨⟩
    exact hread hnone h (fun e rest hrest => conversion_failsWith hrest e) hf

/-- Where all numbers are numerals, the reader of statements meets no fault. -/
theorem ofTokens_failsWith (h : Token.Readable q (fun _ => False) ts) :
    FailsWith (·.OfReader q) (ofTokens units limit ts) := by
  intro f hf
  cases ofTokens_error h hf with
  | error he => exact ⟨_, rfl, he⟩
  | notANumeral hlexeme => exact hlexeme.elim

end Statement

end Reckoner
