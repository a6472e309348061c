import Reckoner.Proofs.Eval.Run
import Reckoner.Proofs.Expr.Derivation

/-!
# Reckoner.Proofs.Expr.Sound -- what is read is derived

A reader that gives a tree and the tokens behind it has gone past tokens that a derivation derives,
and the tree is that of the derivation.

The loop over the operations at one depth meets them in the order of how tightly they bind, the
tightest first, since what stands behind a sign is read up to the next sign that binds no tighter.
`Progress` says how far the loop is: it has an operand, a signed operand, a product or a sum on the
left.
-/

namespace Reckoner

variable {units : List String}

/-- A derivation derives some tokens in front of the token `next`, and its tree is `e`. -/
structure Derivation.Spans {X : Symbol} (d : Derivation X) (units : List String)
    (consumed : List Token) (e : X.Tree) (next : Token) : Prop where
  tokens : d.tokens = consumed
  tree : d.tree = e
  fits : d.Fits units next

namespace ExprReader

variable {inner : ExprReader} {limit level : Nat} {before : Option Token} {next t : Token}
  {ts rest consumed : List Token} {e left : Expr}

/-! ## What a reader of a level gives -/

/-- What a reader of a level has derived: a sum, a product that does not start with a plus sign,
or a signed operand. -/
structure Reading (units : List String) (level : Nat) (consumed : List Token) (e : Expr)
    (next : Token) : Prop where
  sum : level ≤ 1 → ∃ d : Derivation .sum, d.Spans units consumed e next
  product : level = 2 → ∃ d : Derivation (.product false), d.Spans units consumed e next
  signed : 3 ≤ level → ∃ d : Derivation .signed, d.Spans units consumed e next

/-- No plus sign can be taken for that of an operand: there is none, or it stands behind an
operator. -/
def Unled (before : Option Token) (ts : List Token) : Prop :=
  before.any Token.isOperator = true ∨ ∀ t ∈ ts.head?, t.isSign "+" = false

/-- A reader gives what the grammar derives. -/
def Sound (units : List String) (inner : ExprReader) : Prop :=
  ∀ (level : Nat) (before : Option Token) (ts : List Token) (e : Expr) (next : Token)
    (rest : List Token),
    (2 ≤ level → Unled before ts) → inner level before ts = .ok (e, next :: rest) →
    ∃ consumed, ts = consumed ++ next :: rest ∧ Reading units level consumed e next ∧
      next.Ends level

/-! ## Operands -/

theorem withUnit_sound {place : Nat} {result : Expr}
    (h : withUnit units place e ts = (result, rest)) :
    ∃ unit, ts = unit.toList ++ rest ∧ Derivation.UnitFits units unit ∧
      result = Derivation.amountTree place e unit := by
  unfold withUnit at h
  split at h
  · next t ts =>
    split at h
    · next hunit =>
      rw [Bool.and_eq_true, beq_iff_eq, List.contains_iff_mem] at hunit
      cases h
      refine ⟨some t, rfl, ?_, rfl⟩
      rintro _ ⟨⟩
      exact hunit
    · cases h
      exact ⟨none, rfl, by rintro _ ⟨⟩, rfl⟩
  · cases h
    exact ⟨none, rfl, by rintro _ ⟨⟩, rfl⟩

theorem withPercents_sound {result : Expr} (h : withPercents e ts = (result, next :: rest)) :
    ∃ signs, ts = signs ++ next :: rest ∧ (∀ t ∈ signs, t.isSign "%") ∧
      result = Derivation.percentTree e signs ∧ next.isSign "%" = false := by
  induction ts generalizing e with
  | nil => cases h
  | cons t ts ih =>
      rw [withPercents] at h
      split at h
      · next hsign =>
        obtain ⟨signs, rfl, hsigns, rfl, hnext⟩ := ih h
        exact ⟨t :: signs, rfl, List.forall_mem_cons.mpr ⟨hsign, hsigns⟩, rfl, hnext⟩
      · next hsign =>
        cases h
        exact ⟨[], rfl, by simp, rfl, by simpa using hsign⟩

/-- The arguments of a call are read up to its closing bracket. -/
theorem arguments_sound (hinner : Sound units inner) {room : Nat} {before : Token}
    {args : List Expr} (h : arguments inner room before ts = .ok (args, rest)) :
    ∃ (d : Derivation .arguments) (closing : Token), closing.kind = .closeBracket ∧
      ts = d.tokens ++ closing :: rest ∧ d.tree = args ∧ d.Fits units closing := by
  -- one argument for each round
  induction room generalizing before ts args with
  | zero => cases h
  | succ room ih =>
      rw [arguments] at h
      obtain ⟨⟨e, rest'⟩, hread, h⟩ := bind_eq_ok.mp h
      simp only at h
      split at h
      · cases h
      · next t rest' =>
        obtain ⟨consumed, rfl, hreading, -⟩ :=
          hinner sumLevel (some before) ts e t rest' (fun h => absurd h (by decide)) hread
        obtain ⟨d, rfl, rfl, hfits⟩ := hreading.sum (by decide)
        split at h
        · next hclosing =>
          cases h
          exact ⟨.last d, t, hclosing, rfl, rfl, hfits⟩
        · next hcomma =>
          obtain ⟨⟨args', rest''⟩, hargs, h⟩ := bind_eq_ok.mp h
          cases h
          obtain ⟨ds, closing, hclosing, rfl, rfl, hds⟩ := ih hargs
          refine ⟨.more d t ds, closing, hclosing, ?_, rfl, hcomma, hfits, hds⟩
          rw [Derivation.tokens, List.append_assoc]
          rfl
        · cases h

theorem call_sound (hinner : Sound units inner) {function opening : Token}
    (hfunction : function.kind = .identifier) (hopening : opening.kind = .openBracket)
    (h : call inner function opening ts = .ok (e, next :: rest)) :
    ∃ (p : Derivation .primary) (consumed : List Token),
      function :: opening :: ts = consumed ++ next :: rest ∧ p.Spans units consumed e next := by
  unfold call at h
  split at h
  · cases h
  · next t ts =>
    split at h
    · next hclosing =>
      cases h
      exact ⟨.emptyCall function opening t, _, rfl, rfl, rfl, hfunction, hopening,
        by simpa using hclosing⟩
    · obtain ⟨⟨args, rest'⟩, hargs, h⟩ := bind_eq_ok.mp h
      cases h
      obtain ⟨ds, closing, hclosing, hts, rfl, hds⟩ := arguments_sound hinner hargs
      refine ⟨.call function opening ds closing, _, ?_, rfl, rfl, hfunction, hopening, hclosing,
        hds⟩
      simp [Derivation.tokens, hts]

theorem named_sound (hinner : Sound units inner) {name : Token} (hname : name.kind = .identifier)
    (h : named inner name ts = .ok (e, next :: rest)) :
    ∃ consumed, name :: ts = consumed ++ next :: rest ∧
      ((∃ p : Derivation .primary, p.Spans units consumed e next) ∨
        ∃ p : Derivation .power, p.Spans units consumed e next ∧ next.Ends 3) := by
  unfold named at h
  split at h
  · cases h
  · next t ts =>
    split at h
    · next hopening =>
      obtain ⟨p, consumed, hts, hp⟩ := call_sound hinner hname (by simpa using hopening) h
      exact ⟨consumed, hts, .inl ⟨p, hp⟩⟩
    split at h
    · next happlied =>
      rw [Bool.and_eq_true, startsArgument_iff] at happlied
      obtain ⟨hfunction, hstarts⟩ := happlied
      obtain ⟨⟨arg, rest'⟩, hread, h⟩ := bind_eq_ok.mp h
      cases h
      -- the argument is read as a signed operand, which must not start with a plus sign
      have hunled : Unled (some name) (t :: ts) := by
        refine .inr ?_
        rintro _ ⟨⟩
        exact hstarts.notPlus
      obtain ⟨consumed, hts, hreading, hends⟩ :=
        hinner signLevel (some name) (t :: ts) arg next rest (fun _ => hunled) hread
      obtain ⟨u, rfl, rfl, hfits⟩ := hreading.signed (by decide)
      refine ⟨name :: u.tokens, by rw [hts]; rfl, .inr ⟨.applied name u, ⟨rfl, rfl, ?_⟩, hends⟩⟩
      refine ⟨⟨hname, hfunction⟩, ?_, hfits⟩
      obtain ⟨first, us, hfirst, -⟩ := hfits.starts
      rw [hfirst, List.cons_append, List.cons.injEq] at hts
      rw [hfirst, ← hts.1]
      rintro _ ⟨⟩
      exact hstarts
    · next happlied =>
      cases h
      refine ⟨[name], rfl, .inl ⟨.name name, rfl, rfl, hname, fun hstarts => happlied ?_⟩⟩
      rw [Bool.and_eq_true, startsArgument_iff]
      exact ⟨hstarts.1.2, hstarts.2⟩

/-- What starts with a token that is no sign is a primary, or a function with its argument beside
it. -/
theorem primary_sound (hinner : Sound units inner)
    (h : primary inner units t ts = .ok (e, next :: rest)) :
    ∃ consumed, t :: ts = consumed ++ next :: rest ∧
      ((∃ p : Derivation .primary, p.Spans units consumed e next) ∨
        ∃ p : Derivation .power, p.Spans units consumed e next ∧ next.Ends 3) := by
  unfold primary at h
  split at h
  · next hkind =>
    split at h
    · next x hx =>
      obtain ⟨unit, rfl, hunit, rfl⟩ := withUnit_sound (Except.ok.inj h)
      exact ⟨t :: unit.toList, rfl, .inl ⟨.number t x unit, rfl, rfl, hkind, hx, hunit⟩⟩
    · cases h
  · next hkind =>
    obtain ⟨⟨e', rest'⟩, hread, h⟩ := bind_eq_ok.mp h
    simp only at h
    split at h
    · cases h
    · next closing rest' =>
      split at h
      · next hclosing =>
        obtain ⟨unit, rfl, hunit, rfl⟩ := withUnit_sound (Except.ok.inj h)
        obtain ⟨consumed, rfl, hreading, -⟩ :=
          hinner sumLevel (some t) ts e' closing _ (fun h => absurd h (by decide)) hread
        obtain ⟨d, rfl, rfl, hfits⟩ := hreading.sum (by decide)
        refine ⟨_, ?_, .inl ⟨.bracketed t d closing unit, rfl, rfl, hkind, by simpa using hclosing,
          hfits, hunit⟩⟩
        simp [Derivation.tokens]
      · cases h
  · next hkind => exact named_sound hinner hkind h
  · cases h

/-! ## Operations -/

/-- What stands on the left while the operations of a level are read: an operand, a signed operand
behind which no power can follow, a product or a sum. -/
inductive Progress (units : List String) (lead : Bool) (level : Nat) (consumed : List Token)
    (e : Expr) (next : Token) : Prop where
  | operand (o : Derivation .operand) (h : o.Spans units consumed e next) (hnext : next.Ends 5)
  | signed (u : Derivation .signed) (h : u.Spans units consumed e next) (hnext : next.Ends 3)
  | product (p : Derivation (.product lead)) (h : p.Spans units consumed e next)
      (hnext : next.Ends 3) (hlevel : level ≤ 2)
  | sum (s : Derivation .sum) (h : s.Spans units consumed e next) (hnext : next.Ends 2)
      (hlevel : level ≤ 1)

namespace Progress

variable {lead : Bool}

theorem toSum (h : Progress units true level consumed e next) :
    ∃ s : Derivation .sum, s.Spans units consumed e next := by
  cases h with
  | operand o h => exact ⟨.single (.factor (.unsigned (.unraised o))), h.tokens, h.tree, h.fits⟩
  | signed u h => exact ⟨.single (.factor u), h.tokens, h.tree, h.fits⟩
  | product p h => exact ⟨.single p, h.tokens, h.tree, h.fits⟩
  | sum s h => exact ⟨s, h⟩

theorem toProduct (h : Progress units lead level consumed e next)
    (hsum : level ≤ 1 → ¬ next.Ends 2) :
    ∃ p : Derivation (.product lead), p.Spans units consumed e next := by
  cases h with
  | operand o h => exact ⟨.factor (.unsigned (.unraised o)), h.tokens, h.tree, h.fits⟩
  | signed u h => exact ⟨.factor u, h.tokens, h.tree, h.fits⟩
  | product p h => exact ⟨p, h⟩
  | sum s h hnext hlevel => exact absurd hnext (hsum hlevel)

theorem toSigned (h : Progress units lead level consumed e next) (hlevel : 3 ≤ level) :
    ∃ u : Derivation .signed, u.Spans units consumed e next := by
  cases h with
  | operand o h => exact ⟨.unsigned (.unraised o), h.tokens, h.tree, h.fits⟩
  | signed u h => exact ⟨u, h⟩
  | product p h hnext hle => omega
  | sum s h hnext hle => omega

theorem toOperand (h : Progress units lead level consumed e next) (hpower : ¬ next.Ends 3) :
    ∃ o : Derivation .operand, o.Spans units consumed e next := by
  cases h with
  | operand o h => exact ⟨o, h⟩
  | signed u h hnext => exact absurd hnext hpower
  | product p h hnext => exact absurd hnext hpower
  | sum s h hnext => exact absurd (hnext.mono (by decide)) hpower

theorem notPercent (h : Progress units lead level consumed e next) : next.isSign "%" = false := by
  cases h with
  | operand o h hnext => exact hnext.notPercent
  | signed u h hnext => exact hnext.notPercent
  | product p h hnext => exact hnext.notPercent
  | sum s h hnext => exact hnext.notPercent

/-- Where no operation of the level follows, what stands on the left has been read. -/
theorem reading (h : Progress units lead level consumed e next) (hlead : lead = true ↔ level ≤ 1) :
    Reading units level consumed e next where
  sum hlevel := by
    obtain rfl := hlead.mpr hlevel
    exact h.toSum
  product hlevel := by
    obtain rfl : lead = false := by
      rw [← Bool.not_eq_true, hlead]
      omega
    exact h.toProduct (fun hle => absurd hle (by omega))
  signed hlevel := h.toSigned hlevel

/-- One operation further on. -/
theorem step {op : Token} {o : BinaryOp} {right : Expr} {behind : List Token}
    (h : Progress units lead level consumed left op) (hlead : lead = true ↔ level ≤ 1)
    (ho : BinaryOp.ofToken? op = some o) (hlevel : level ≤ o.level)
    (hright : Reading units o.rightLevel behind right next) (hnext : next.Ends o.rightLevel) :
    Progress units lead level (consumed ++ op :: behind) (o.apply left right op.place) next := by
  have hsum (hs : op.isSign "+" ∨ op.isSign "-") (hrightLevel : o.rightLevel = 2)
      (hle : level ≤ 1) :
      Progress units lead level (consumed ++ op :: behind) (o.apply left right op.place) next := by
    obtain rfl := hlead.mpr hle
    obtain ⟨s, rfl, rfl, hs'⟩ := h.toSum
    obtain ⟨p, rfl, rfl, hp⟩ := hright.product hrightLevel
    obtain ⟨_, ho', -, -, htree⟩ := BinaryOp.ofToken?_sum hs
    cases ho.symm.trans ho'
    rw [htree]
    exact .sum (.adding s op p) ⟨rfl, rfl, hs, hs', hp⟩ (hrightLevel ▸ hnext) hle
  have hproduct (hs : op.isSign "*" ∨ op.isSign "/") (hrightLevel : o.rightLevel = 3)
      (hle : level ≤ 2) :
      Progress units lead level (consumed ++ op :: behind) (o.apply left right op.place) next := by
    obtain ⟨_, ho', holevel, -, htree⟩ := BinaryOp.ofToken?_product hs
    cases ho.symm.trans ho'
    -- a sum on the left has ended in front of a sign of its own level, and this is none
    obtain ⟨p, rfl, rfl, hp⟩ := h.toProduct fun _ hends =>
      absurd (hends.looser o ho) (by omega)
    obtain ⟨u, rfl, rfl, hu⟩ := hright.signed (by omega)
    rw [htree]
    exact .product (.multiplying p op u) ⟨rfl, rfl, hs, hp, hu⟩ (hrightLevel ▸ hnext) hle
  rcases BinaryOp.ofToken?_eq_some ho with ⟨rfl, hs⟩ | ⟨rfl, hs⟩ | ⟨rfl, hs⟩ | ⟨rfl, hs⟩ | ⟨rfl, hs⟩
  · exact hsum (.inl hs) rfl hlevel
  · exact hsum (.inr hs) rfl hlevel
  · exact hproduct (.inl hs) rfl hlevel
  · exact hproduct (.inr hs) rfl hlevel
  · -- a power has an operand on its left, and its right side has taken all further powers
    obtain ⟨b, rfl, rfl, hb⟩ := h.toOperand fun hends => absurd (hends.looser _ ho) (by decide)
    obtain ⟨u, rfl, rfl, hu⟩ := hright.signed (by decide)
    refine .signed (.unsigned (.raised b op u)) ⟨rfl, rfl, hs, hb, hu⟩
      { hnext with looser := fun o' ho' => ?_ }
    have hlt := hnext.looser o' ho'
    cases o' <;> first | decide | exact absurd hlt (by decide)

end Progress

theorem operations_sound (hinner : Sound units inner) {lead : Bool}
    (hlead : lead = true ↔ level ≤ 1) {room : Nat}
    (hprogress : Progress units lead level consumed left t)
    (h : operations inner level room left (t :: ts) = .ok (e, next :: rest)) :
    ∃ consumed', consumed ++ t :: ts = consumed' ++ next :: rest ∧
      Progress units lead level consumed' e next ∧ next.Ends level := by
  -- each round takes one operation, and its tree is what stands on the left in the next
  induction room generalizing consumed left t ts with
  | zero => cases h
  | succ room ih =>
      rw [operations] at h
      split at h
      · next op hop =>
        split at h
        · next hlooser =>
          cases h
          refine ⟨consumed, rfl, hprogress, hprogress.notPercent, fun op' hop' => ?_⟩
          cases hop.symm.trans hop'
          exact hlooser
        · next hlevel =>
          obtain ⟨⟨right, rest'⟩, hread, hloop⟩ := bind_eq_ok.mp h
          cases rest' with
          | nil => cases room <;> cases hloop
          | cons t' ts' =>
              have hoperator : t.isOperator = true := by
                simp [Token.isOperator, BinaryOp.kind_of_ofToken? hop]
              obtain ⟨behind, rfl, hright, hends⟩ :=
                hinner op.rightLevel (some t) ts right t' ts' (fun _ => .inl hoperator) hread
              have hstep := hprogress.step hlead hop (Nat.not_lt.mp hlevel) hright hends
              obtain ⟨consumed', hts, hresult⟩ := ih hstep hloop
              exact ⟨consumed', by rw [← hts, List.append_assoc]; rfl, hresult⟩
      · next hop =>
        cases h
        refine ⟨consumed, rfl, hprogress, hprogress.notPercent, fun op' hop' => ?_⟩
        rw [hop] at hop'
        cases hop'

theorem missing_ne_ok {result : Expr × List Token} : missing before t ≠ .ok result := by
  unfold missing
  intro h
  split at h
  · split at h
    · cases h
    · split at h <;> cases h
  · cases h

theorem strayOperator_ne_ok {result : Expr × List Token} : strayOperator before t ≠ .ok result := by
  unfold strayOperator
  intro h
  split at h
  · split at h <;> cases h
  · cases h

theorem signOf?_eq_some {sign : UnaryOp} (h : signOf? before t = some sign) :
    (sign = .neg ∧ t.isSign "-") ∨
      (sign = .pos ∧ t.isSign "+" ∧ before.any Token.isOperator = false) := by
  unfold signOf? at h
  split at h
  · next hminus =>
    cases h
    exact .inl ⟨rfl, hminus⟩
  split at h
  · next hplus =>
    cases h
    rw [Bool.and_eq_true, Bool.not_eq_true'] at hplus
    exact .inr ⟨rfl, hplus⟩
  · cases h

theorem operand_sound (hinner : Sound units inner) {lead : Bool}
    (hlead : lead = true ↔ level ≤ 1) (hunled : 2 ≤ level → Unled before ts)
    (h : operand inner units before ts = .ok (e, next :: rest)) :
    ∃ consumed, ts = consumed ++ next :: rest ∧ Progress units lead level consumed e next := by
  unfold operand at h
  split at h
  · cases h
  next t ts =>
  split at h
  · exact absurd h missing_ne_ok
  · exact absurd h missing_ne_ok
  · exact absurd h missing_ne_ok
  · next hkind =>
    split at h
    · next sign hsign =>
      obtain ⟨⟨e', rest'⟩, hread, hresult⟩ := bind_eq_ok.mp h
      cases hresult
      have hoperator : t.isOperator = true := by simp [Token.isOperator, hkind]
      obtain ⟨consumed, rfl, hreading, hends⟩ :=
        hinner signLevel (some t) ts e' next rest (fun _ => .inl hoperator) hread
      obtain ⟨u, rfl, rfl, hu⟩ := hreading.signed (by decide)
      refine ⟨t :: u.tokens, rfl, ?_⟩
      rcases signOf?_eq_some hsign with ⟨rfl, hminus⟩ | ⟨rfl, hplus, hbefore⟩
      · exact .signed (.minus t u) ⟨rfl, rfl, hminus, hu⟩ hends
      · -- a plus sign is that of an operand only where a sum starts
        have hle : level ≤ 1 := by
          refine Nat.le_of_not_lt fun hlt => ?_
          rcases hunled hlt with hb | hplain
          · exact absurd (hb.symm.trans hbefore) (by decide)
          · exact absurd (hplus.symm.trans (hplain t rfl)) (by decide)
        obtain rfl := hlead.mpr hle
        exact .product (.plus t u) ⟨rfl, rfl, hplus, hu⟩ hends (Nat.le_succ_of_le hle)
    · exact absurd h strayOperator_ne_ok
  · obtain ⟨⟨e', rest'⟩, hprimary, hresult⟩ := bind_eq_ok.mp h
    obtain ⟨signs, rfl, hsigns, rfl, hnext⟩ := withPercents_sound (Except.ok.inj hresult)
    have hends : next.Ends 5 := ⟨hnext, fun op _ => by cases op <;> decide⟩
    cases signs with
    | nil =>
        obtain ⟨consumed, hts, ⟨p, rfl, rfl, hp⟩ | ⟨p, ⟨rfl, rfl, hp⟩, hlooser⟩⟩ :=
          primary_sound hinner hprimary
        · exact ⟨p.tokens, hts, .operand (.percents p [])
            ⟨List.append_nil _, rfl, by simp, hp⟩ hends⟩
        · exact ⟨p.tokens, hts, .signed (.unsigned p) ⟨rfl, rfl, hp⟩ hlooser⟩
    | cons sign signs =>
        obtain ⟨consumed, hts, ⟨p, rfl, rfl, hp⟩ | ⟨p, ⟨rfl, rfl, hp⟩, hlooser⟩⟩ :=
          primary_sound hinner hprimary
        · refine ⟨p.tokens ++ sign :: signs, by rw [hts, List.append_assoc]; rfl,
            .operand (.percents p (sign :: signs)) ⟨rfl, rfl, hsigns, hp⟩ hends⟩
        · -- behind a function with its argument there is no percent sign left
          exact absurd (hsigns sign (by simp)) (by simp [hlooser.notPercent])

/-- **What is read is derived.** -/
theorem expression_sound (depth : Nat) : Sound units (expression units limit depth) := by
  induction depth with
  | zero => intro level before ts e next rest _ h; cases h
  | succ depth ih =>
      intro level before ts e next rest hunled h
      obtain ⟨⟨left, rest'⟩, hoperand, hloop⟩ := bind_eq_ok.mp h
      cases rest' with
      | nil => cases hloop
      | cons t ts' =>
          have hlead : decide (level ≤ 1) = true ↔ level ≤ 1 := decide_eq_true_iff
          obtain ⟨consumed, rfl, hprogress⟩ := operand_sound ih hlead hunled hoperand
          obtain ⟨consumed', hts, hresult, hends⟩ := operations_sound ih hlead hprogress hloop
          exact ⟨consumed', hts, hresult.reading hlead, hends⟩

end ExprReader

end Reckoner
