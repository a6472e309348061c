import Reckoner.Proofs.Expr.Derivation

/-!
# Reckoner.Proofs.Expr.Unique -- derivations are unique

Two derivations from one symbol whose tokens start one list, each in front of a token at which its
symbol ends, are the same derivation.

Sums and products grow to the left, and in front of a further operation they have not ended. So two
of them over one list are not equal in general, but one is an initial part of the other
(`Comparable`), and where both have ended they are equal.
-/

namespace Reckoner

variable {units : List String}

namespace Derivation

/-! ## Initial parts of sums and products -/

/-- A sum or a product with further operations behind it. -/
inductive Grows : {X : Symbol} → Derivation X → Derivation X → Prop where
  | refl {X : Symbol} (d : Derivation X) : Grows d d
  | adding {d left : Derivation .sum} (op : Token) (right : Derivation (.product false)) :
      Grows d left → Grows d (.adding left op right)
  | multiplying {lead : Bool} {d left : Derivation (.product lead)} (op : Token)
      (right : Derivation .signed) : Grows d left → Grows d (.multiplying left op right)

/-- One derivation is an initial part of the other. -/
def Comparable {X : Symbol} (d d' : Derivation X) : Prop := d.Grows d' ∨ d'.Grows d

variable {X : Symbol} {d d' : Derivation X}

theorem grows_adding_iff {d left : Derivation .sum} {op : Token}
    {right : Derivation (.product false)} :
    d.Grows (.adding left op right) ↔ d = .adding left op right ∨ d.Grows left := by
  constructor
  · intro h
    cases h with
    | refl => exact .inl rfl
    | adding _ _ h => exact .inr h
  · rintro (rfl | h)
    · exact .refl _
    · exact .adding op right h

theorem grows_multiplying_iff {lead : Bool} {d left : Derivation (.product lead)} {op : Token}
    {right : Derivation .signed} :
    d.Grows (.multiplying left op right) ↔ d = .multiplying left op right ∨ d.Grows left := by
  constructor
  · intro h
    cases h with
    | refl => exact .inl rfl
    | multiplying _ _ h => exact .inr h
  · rintro (rfl | h)
    · exact .refl _
    · exact .multiplying op right h

/-- A link of a product has nothing smaller for an initial part. -/
theorem Grows.eq_of_link {lead : Bool} {x d : Derivation (.product lead)} (h : x.Grows d)
    (hd : ∀ left op right, d ≠ .multiplying left op right) : x = d := by
  cases h with
  | refl => rfl
  | multiplying op right h => exact absurd rfl (hd _ op right)

/-- The level of the operations that a sum or a product is a chain of. -/
def chainLevel : Symbol → Nat
  | .sum => sumLevel
  | _ => 2

/-- What has grown has an operation of its own level behind its initial part. -/
theorem Grows.eq_or_tokens {next : Token} (h : d.Grows d') (hfits : d'.Fits units next) :
    d = d' ∨ ∃ op ts, d'.tokens = d.tokens ++ op :: ts ∧ ¬ op.Ends (chainLevel X) := by
  induction h generalizing next with
  | refl d => exact .inl rfl
  | @adding d left op right h ih =>
      right
      rcases ih hfits.2.1 with rfl | ⟨first, ts, hts, hends⟩
      · refine ⟨op, right.tokens, rfl, fun hends => ?_⟩
        obtain ⟨o, ho, hlevel, -⟩ := BinaryOp.ofToken?_sum hfits.1
        exact absurd (hends.looser o ho) (hlevel ▸ Nat.lt_irrefl _)
      · exact ⟨first, ts ++ op :: right.tokens, by rw [tokens, hts, List.append_assoc]; rfl, hends⟩
  | @multiplying lead d left op right h ih =>
      right
      rcases ih hfits.2.1 with rfl | ⟨first, ts, hts, hends⟩
      · refine ⟨op, right.tokens, rfl, fun hends => ?_⟩
        obtain ⟨o, ho, hlevel, -⟩ := BinaryOp.ofToken?_product hfits.1
        exact absurd (hends.looser o ho) (hlevel ▸ Nat.lt_irrefl _)
      · exact ⟨first, ts ++ op :: right.tokens, by rw [tokens, hts, List.append_assoc]; rfl, hends⟩

theorem Grows.antisymm {next next' : Token} (h : d.Grows d') (h' : d'.Grows d)
    (hfits : d.Fits units next) (hfits' : d'.Fits units next') : d = d' := by
  rcases h.eq_or_tokens hfits' with rfl | ⟨op, ts, hts, -⟩
  · rfl
  rcases h'.eq_or_tokens hfits with rfl | ⟨op', ts', hts', -⟩
  · rfl
  -- neither list of tokens can be longer than the other
  have hlength := congrArg List.length hts
  have hlength' := congrArg List.length hts'
  rw [List.length_append, List.length_cons] at hlength hlength'
  omega

/-- Where a chain has ended nothing has grown. -/
theorem Grows.eq_of_ends {next next' : Token} {rest rest' : List Token} (h : d.Grows d')
    (hfits : d'.Fits units next') (hends : next.Ends (chainLevel X))
    (heq : d.tokens ++ next :: rest = d'.tokens ++ next' :: rest') : d = d' := by
  rcases h.eq_or_tokens hfits with rfl | ⟨op, ts, hts, hop⟩
  · rfl
  · rw [hts, List.append_assoc, List.append_cancel_left_eq, List.cons_append] at heq
    exact absurd ((List.cons.inj heq).1 ▸ hends) hop

/-- Comparable chains that have both ended are equal. -/
theorem Comparable.eq {next next' : Token} {rest rest' : List Token} (h : Comparable d d')
    (hfits : d.Fits units next) (hfits' : d'.Fits units next')
    (hends : next.Ends (chainLevel X)) (hends' : next'.Ends (chainLevel X))
    (heq : d.tokens ++ next :: rest = d'.tokens ++ next' :: rest') : d = d' := by
  rcases h with h | h
  · exact h.eq_of_ends hfits' hends heq
  · exact (h.eq_of_ends hfits hends' heq.symm).symm

/-- A chain of one link is comparable with what grows out of what it is comparable with. -/
theorem Comparable.of_link {left' : Derivation X}
    (hd : ∀ x : Derivation X, x.Grows d → x = d)
    (hd' : ∀ x : Derivation X, x.Grows d' ↔ x = d' ∨ x.Grows left') (h : Comparable d left') :
    Comparable d d' := by
  rcases h with h | h
  · exact .inl ((hd' d).mpr (.inr h))
  · exact .inl ((hd' d).mpr (.inr (hd left' h ▸ .refl _)))

/-- Two chains are comparable if each is with the other less its last operation, and if that
operation is determined by what stands on its left. -/
theorem Comparable.of_last {left left' : Derivation X} {next next' : Token}
    (hfits : left.Fits units next) (hfits' : left'.Fits units next')
    (hd : ∀ x : Derivation X, x.Grows d ↔ x = d ∨ x.Grows left)
    (hd' : ∀ x : Derivation X, x.Grows d' ↔ x = d' ∨ x.Grows left')
    (h : Comparable left d') (h' : Comparable d left') (hlast : left = left' → d = d') :
    Comparable d d' := by
  rcases h with h | h
  · rcases (hd' left).mp h with rfl | hleft
    · exact .inr ((hd left).mpr (.inr (.refl left)))
    rcases h' with h' | h'
    · exact .inl ((hd' d).mpr (.inr h'))
    rcases (hd left').mp h' with rfl | hleft'
    · exact .inl ((hd' left').mpr (.inr (.refl left')))
    · rw [hlast (hleft.antisymm hleft' hfits hfits')]
      exact .inl (.refl d')
  · exact .inr ((hd d').mpr (.inr h))

/-! ## What the induction carries -/

/-- A derivation is related to each derivation from its symbol over the same list of tokens, where
both stand in front of a token of a kind. -/
def Agrees (units : List String) (behind : Token → Prop)
    (related : Derivation X → Derivation X → Prop) (d : Derivation X) : Prop :=
  ∀ (d' : Derivation X) (next next' : Token) (rest rest' : List Token),
    d.Fits units next → d'.Fits units next' → behind next → behind next' →
    d.tokens ++ next :: rest = d'.tokens ++ next' :: rest' → related d d'

/-- The derivation of a list of tokens from a symbol is unique. -/
def Unique (units : List String) : {X : Symbol} → Derivation X → Prop
  | .sum, d => Agrees units (·.Stops units 2) Comparable d
  | .product _, d => Agrees units (·.Stops units 3) Comparable d
  | .signed, d => Agrees units (·.Stops units 3) (· = ·) d
  | .power, d => Agrees units (·.Stops units 3) (· = ·) d
  | .operand, d => Agrees units (fun t => t.Follows units ∧ t.isSign "%" = false) (· = ·) d
  | .primary, d => Agrees units (·.Follows units) (· = ·) d
  | .arguments, d => Agrees units (·.kind = .closeBracket) (· = ·) d

variable {next next' : Token} {rest rest' : List Token}

/-- A sum that has ended is the only one over its tokens. -/
theorem Unique.sum_eq {d d' : Derivation .sum} (h : Unique units d) (hfits : d.Fits units next)
    (hfits' : d'.Fits units next') (hnext : next.Stops units sumLevel)
    (hnext' : next'.Stops units sumLevel)
    (heq : d.tokens ++ next :: rest = d'.tokens ++ next' :: rest') : d = d' :=
  (h d' next next' rest rest' hfits hfits' (hnext.mono (by decide)) (hnext'.mono (by decide))
    heq).eq hfits hfits' hnext.toEnds hnext'.toEnds heq

/-- A product that has ended is the only one over its tokens. -/
theorem Unique.product_eq {lead : Bool} {d d' : Derivation (.product lead)} (h : Unique units d)
    (hfits : d.Fits units next) (hfits' : d'.Fits units next') (hnext : next.Stops units 2)
    (hnext' : next'.Stops units 2)
    (heq : d.tokens ++ next :: rest = d'.tokens ++ next' :: rest') : d = d' :=
  (h d' next next' rest rest' hfits hfits' (hnext.mono (by decide)) (hnext'.mono (by decide))
    heq).eq hfits hfits' hnext.toEnds hnext'.toEnds heq

/-! ## Sums and products -/

theorem sum_induction {motive : Derivation .sum → Prop} (single : ∀ p, motive (.single p))
    (adding : ∀ left op right, motive left → motive (.adding left op right)) :
    ∀ d, motive d
  | .single p => single p
  | .adding left op right => adding left op right (sum_induction single adding left)

theorem product_induction : ∀ {lead : Bool} {motive : Derivation (.product lead) → Prop}
    (_link : ∀ d, (∀ left op right, d ≠ .multiplying left op right) → motive d)
    (_multiplying : ∀ left op right, motive left → motive (.multiplying left op right)) (d),
    motive d
  | _, _, link, _, .factor _ => link _ (fun _ _ _ h => nomatch h)
  | _, _, link, _, .plus _ _ => link _ (fun _ _ _ h => nomatch h)
  | _, _, link, step, .multiplying left op right =>
    step left op right (product_induction link step left)

theorem unique_single {p : Derivation (.product true)} (hp : Unique units p) :
    Unique units (.single p) := by
  intro d' next next' rest rest' hfits hfits' hnext hnext' heq
  -- by induction on the other sum, whose last operation may be one that this sum has not reached
  induction d' using sum_induction generalizing next' rest' with
  | single p' =>
      obtain rfl := hp.product_eq hfits hfits' hnext hnext' heq
      exact .inl (.refl _)
  | adding left' op' right' ih =>
      rw [tokens_adding] at heq
      refine .of_link ?_ (fun _ => grows_adding_iff)
        (ih op' _ hfits'.2.1 (.of_sum hfits'.1) heq)
      rintro _ ⟨⟩
      rfl

theorem unique_adding {left : Derivation .sum} {op : Token} {right : Derivation (.product false)}
    (hleft : Unique units left) (hright : Unique units right) :
    Unique units (.adding left op right) := by
  intro d' next next' rest rest' hfits hfits' hnext hnext' heq
  rw [tokens_adding] at heq
  -- less its last operation this sum is comparable with the other
  have hcomparable := hleft d' op next' _ rest' hfits.2.1 hfits' (.of_sum hfits.1) hnext' heq
  induction d' using sum_induction generalizing next' rest' with
  | single p' =>
      refine (Comparable.of_link ?_ (fun _ => grows_adding_iff) hcomparable.symm).symm
      rintro _ ⟨⟩
      rfl
  | adding left' op' right' ih =>
      rw [tokens_adding] at heq
      have hlater := hleft left' op op' _ _ hfits.2.1 hfits'.2.1 (.of_sum hfits.1)
        (.of_sum hfits'.1) heq
      refine .of_last hfits.2.1 hfits'.2.1 (fun _ => grows_adding_iff) (fun _ => grows_adding_iff)
        hcomparable (ih op' _ hfits'.2.1 (.of_sum hfits'.1) heq hlater) ?_
      -- behind the same sum on the left stands the same sign with the same product
      rintro rfl
      obtain ⟨rfl, hbehind⟩ := List.cons.inj (List.append_cancel_left heq)
      rw [hright.product_eq hfits.2.2 hfits'.2.2 hnext hnext' hbehind]

/-- A link of a product is unique if it is among the links. -/
theorem unique_link {lead : Bool} {d : Derivation (.product lead)}
    (hd : ∀ left op right, d ≠ .multiplying left op right)
    (hlink : Agrees units (·.Stops units 3)
      (fun d d' => (∀ left op right, d' ≠ .multiplying left op right) → d = d') d) :
    Unique units d := by
  intro d' next next' rest rest' hfits hfits' hnext hnext' heq
  induction d' using product_induction generalizing next' rest' with
  | _link d' hd' =>
      rw [hlink d' next next' rest rest' hfits hfits' hnext hnext' heq hd']
      exact .inl (.refl _)
  | _multiplying left' op' right' ih =>
      rw [tokens_multiplying] at heq
      exact .of_link (fun _ hx => hx.eq_of_link hd) (fun _ => grows_multiplying_iff)
        (ih op' _ hfits'.2.1 (.of_product hfits'.1) heq)

/-- No signed operand starts with a plus sign. -/
theorem Fits.notPlus {u : Derivation .signed} {sign : Token} {ts : List Token}
    (hfits : u.Fits units next) (heq : u.tokens ++ rest = sign :: ts) :
    sign.isSign "+" = false := by
  rcases hfits.starts_of_eq heq with hstarts | hminus
  · exact Token.isSign_eq_false hstarts.notOperator _
  · exact Token.isSign_ne hminus (by decide)

theorem unique_factor {lead : Bool} {u : Derivation .signed} (hu : Unique units u) :
    Unique units (.factor u : Derivation (.product lead)) := by
  refine unique_link (fun _ _ _ h => nomatch h) ?_
  intro d' next next' rest rest' hfits hfits' hnext hnext' heq hd'
  cases d' with
  | factor u' => rw [hu u' next next' rest rest' hfits hfits' hnext hnext' heq]
  | plus sign u' =>
      have hplus : sign.isSign "+" = false := Fits.notPlus (u := u) hfits heq
      exact absurd hfits'.1 (by simp [hplus])
  | multiplying left op right => exact absurd rfl (hd' left op right)

theorem unique_plus {sign : Token} {u : Derivation .signed} (hu : Unique units u) :
    Unique units (.plus sign u) := by
  refine unique_link (fun _ _ _ h => nomatch h) ?_
  intro d' next next' rest rest' hfits hfits' hnext hnext' heq hd'
  cases d' with
  | factor u' =>
      have hplus : sign.isSign "+" = false := Fits.notPlus (u := u') hfits' heq.symm
      exact absurd hfits.1 (by simp [hplus])
  | plus sign' u' =>
      obtain ⟨rfl, hbehind⟩ := List.cons.inj heq
      rw [hu u' next next' rest rest' hfits.2 hfits'.2 hnext hnext' hbehind]
  | multiplying left op right => exact absurd rfl (hd' left op right)

theorem unique_multiplying {lead : Bool} {left : Derivation (.product lead)} {op : Token}
    {right : Derivation .signed} (hleft : Unique units left) (hright : Unique units right) :
    Unique units (.multiplying left op right) := by
  intro d' next next' rest rest' hfits hfits' hnext hnext' heq
  rw [tokens_multiplying] at heq
  have hcomparable := hleft d' op next' _ rest' hfits.2.1 hfits' (.of_product hfits.1) hnext' heq
  induction d' using product_induction generalizing next' rest' with
  | _link d' hd' =>
      exact (Comparable.of_link (fun _ hx => hx.eq_of_link hd') (fun _ => grows_multiplying_iff)
        hcomparable.symm).symm
  | _multiplying left' op' right' ih =>
      rw [tokens_multiplying] at heq
      have hlater := hleft left' op op' _ _ hfits.2.1 hfits'.2.1 (.of_product hfits.1)
        (.of_product hfits'.1) heq
      refine .of_last hfits.2.1 hfits'.2.1 (fun _ => grows_multiplying_iff)
        (fun _ => grows_multiplying_iff) hcomparable
        (ih op' _ hfits'.2.1 (.of_product hfits'.1) heq hlater) ?_
      rintro rfl
      obtain ⟨rfl, hbehind⟩ := List.cons.inj (List.append_cancel_left heq)
      rw [hright right' next next' rest rest' hfits.2.2 hfits'.2.2 hnext hnext' hbehind]

/-! ## Signed operands and powers -/

theorem unique_minus {sign : Token} {u : Derivation .signed} (hu : Unique units u) :
    Unique units (.minus sign u) := by
  intro d' next next' rest rest' hfits hfits' hnext hnext' heq
  cases d' with
  | minus sign' u' =>
      obtain ⟨rfl, hbehind⟩ := List.cons.inj heq
      rw [hu u' next next' rest rest' hfits.2 hfits'.2 hnext hnext' hbehind]
  | unsigned p' =>
      have hstarts := Fits.starts_of_eq (d := p') hfits' heq.symm
      exact absurd (Token.kind_of_isSign hfits.1) (Token.OpensPrimary.notOperator hstarts)

theorem unique_unsigned {p : Derivation .power} (hp : Unique units p) :
    Unique units (.unsigned p) := by
  intro d' next next' rest rest' hfits hfits' hnext hnext' heq
  cases d' with
  | minus sign' u' =>
      have hstarts := Fits.starts_of_eq (d := p) hfits heq
      exact absurd (Token.kind_of_isSign hfits'.1) (Token.OpensPrimary.notOperator hstarts)
  | unsigned p' => rw [hp p' next next' rest rest' hfits hfits' hnext hnext' heq]

/-- A function behind whose name an argument starts is not the start of an operand. -/
theorem Fits.notApplied {o : Derivation .operand} {next function t : Token}
    {ts rest : List Token} (hfits : o.Fits units next) (hfunction : IsFunction function)
    (ht : StartsArgument t) : o.tokens ++ next :: rest ≠ function :: t :: ts := by
  intro heq
  cases o with
  | percents p signs =>
      obtain ⟨tail, htail⟩ := headD_append signs next rest
      rw [tokens_percents, htail] at heq
      -- a name asks for the token behind it, and a call has a bracket there
      cases p with
      | number t' x unit =>
          obtain ⟨rfl, -⟩ := List.cons.inj heq
          exact absurd (hfits.2.1.symm.trans hfunction.1) (by decide)
      | bracketed opening e closing unit =>
          obtain ⟨rfl, -⟩ := List.cons.inj heq
          exact absurd (hfits.2.1.symm.trans hfunction.1) (by decide)
      | name t' =>
          obtain ⟨rfl, hbehind⟩ := List.cons.inj heq
          obtain ⟨hnext, -⟩ := List.cons.inj hbehind
          exact hfits.2.2 ⟨hfunction, hnext ▸ ht⟩
      | emptyCall function' opening closing =>
          obtain ⟨-, hbehind⟩ := List.cons.inj heq
          obtain ⟨rfl, -⟩ := List.cons.inj hbehind
          exact ht.notOpening hfits.2.2.1
      | call function' opening args closing =>
          obtain ⟨-, hbehind⟩ := List.cons.inj heq
          obtain ⟨rfl, -⟩ := List.cons.inj hbehind
          exact ht.notOpening hfits.2.2.1

/-- The tokens of a function with its argument beside it start with those two. -/
theorem Fits.applied_tokens {function : Token} {arg : Derivation .signed} {next : Token}
    (hfits : (applied function arg).Fits units next) (rest : List Token) :
    ∃ t ts, (applied function arg).tokens ++ next :: rest = function :: t :: ts ∧
      IsFunction function ∧ StartsArgument t := by
  obtain ⟨hfunction, hstarts, harg⟩ := hfits
  obtain ⟨t, ts, ht, -⟩ := harg.starts
  refine ⟨t, ts ++ next :: rest, ?_, hfunction, hstarts t (by rw [ht]; rfl)⟩
  rw [tokens, ht]
  rfl

/-- An operand in front of the sign of a power does not end there. -/
theorem notStops_power {op : Token} (hop : op.isSign "**") : ¬ op.Stops units 3 :=
  fun h => absurd (h.looser _ (BinaryOp.ofToken?_power hop)) (by decide)

theorem behindOperand_power {op : Token} (hop : op.isSign "**") :
    op.Follows units ∧ op.isSign "%" = false :=
  ⟨.of_operator (Token.kind_of_isSign hop), Token.isSign_ne hop (by decide)⟩

theorem unique_raised {base : Derivation .operand} {op : Token} {exponent : Derivation .signed}
    (hbase : Unique units base) (hexponent : Unique units exponent) :
    Unique units (.raised base op exponent) := by
  intro d' next next' rest rest' hfits hfits' hnext hnext' heq
  obtain ⟨hop, hb, he⟩ := hfits
  rw [tokens_raised] at heq
  cases d' with
  | raised base' op' exponent' =>
      obtain ⟨hop', hb', he'⟩ := hfits'
      rw [tokens_raised] at heq
      obtain rfl := hbase base' op op' _ _ hb hb' (behindOperand_power hop)
        (behindOperand_power hop') heq
      obtain ⟨rfl, hbehind⟩ := List.cons.inj (List.append_cancel_left heq)
      rw [hexponent exponent' next next' rest rest' he he' hnext hnext' hbehind]
  | unraised o' =>
      -- the operand would have ended in front of the sign of the power
      obtain rfl := hbase o' op next' _ rest' hb hfits' (behindOperand_power hop)
        ⟨hnext'.toFollows, hnext'.notPercent⟩ heq
      obtain ⟨rfl, -⟩ := List.cons.inj (List.append_cancel_left heq)
      exact absurd hnext' (notStops_power hop)
  | applied function arg =>
      obtain ⟨t, ts, hts, hfunction, ht⟩ := Fits.applied_tokens hfits' rest'
      exact absurd (heq.trans hts) (hb.notApplied hfunction ht)

theorem unique_unraised {o : Derivation .operand} (ho : Unique units o) :
    Unique units (.unraised o) := by
  intro d' next next' rest rest' hfits hfits' hnext hnext' heq
  cases d' with
  | raised base' op' exponent' =>
      obtain ⟨hop', hb', he'⟩ := hfits'
      rw [tokens_raised] at heq
      obtain rfl := ho base' next op' rest _ hfits hb' ⟨hnext.toFollows, hnext.notPercent⟩
        (behindOperand_power hop') heq
      obtain ⟨rfl, -⟩ := List.cons.inj (List.append_cancel_left heq)
      exact absurd hnext (notStops_power hop')
  | unraised o' =>
      rw [ho o' next next' rest rest' hfits hfits' ⟨hnext.toFollows, hnext.notPercent⟩
        ⟨hnext'.toFollows, hnext'.notPercent⟩ heq]
  | applied function arg =>
      obtain ⟨t, ts, hts, hfunction, ht⟩ := Fits.applied_tokens hfits' rest'
      exact absurd (heq.trans hts) (Fits.notApplied hfits hfunction ht)

theorem unique_applied {function : Token} {arg : Derivation .signed} (harg : Unique units arg) :
    Unique units (.applied function arg) := by
  intro d' next next' rest rest' hfits hfits' hnext hnext' heq
  cases d' with
  | raised base' op' exponent' =>
      obtain ⟨t, ts, hts, hfunction, ht⟩ := Fits.applied_tokens hfits rest
      rw [tokens_raised] at heq
      exact absurd (heq.symm.trans hts) (hfits'.2.1.notApplied hfunction ht)
  | unraised o' =>
      obtain ⟨t, ts, hts, hfunction, ht⟩ := Fits.applied_tokens hfits rest
      exact absurd (heq.symm.trans hts) (Fits.notApplied hfits' hfunction ht)
  | applied function' arg' =>
      obtain ⟨rfl, hbehind⟩ := List.cons.inj heq
      rw [harg arg' next next' rest rest' hfits.2.2 hfits'.2.2 hnext hnext' hbehind]

/-! ## Operands -/

theorem signs_unique {signs signs' : List Token} (hsigns : ∀ t ∈ signs, t.isSign "%")
    (hsigns' : ∀ t ∈ signs', t.isSign "%") (hnext : next.isSign "%" = false)
    (hnext' : next'.isSign "%" = false)
    (heq : signs ++ next :: rest = signs' ++ next' :: rest') : signs = signs' := by
  -- whichever list ends first has behind it a token that is no percent sign
  induction signs generalizing signs' with
  | nil =>
      cases signs' with
      | nil => rfl
      | cons sign' signs' =>
          obtain ⟨rfl, -⟩ := List.cons.inj heq
          exact absurd (hsigns' next (by simp)) (by simp [hnext])
  | cons sign signs ih =>
      rw [List.forall_mem_cons] at hsigns
      cases signs' with
      | nil =>
          obtain ⟨rfl, -⟩ := List.cons.inj heq
          exact absurd hsigns.1 (by simp [hnext'])
      | cons sign' signs' =>
          rw [List.forall_mem_cons] at hsigns'
          obtain ⟨rfl, hbehind⟩ := List.cons.inj heq
          rw [ih hsigns.2 hsigns'.2 hbehind]

theorem unit_unique {unit unit' : Option Token} (hunit : UnitFits units unit)
    (hunit' : UnitFits units unit') (hnext : next.Follows units) (hnext' : next'.Follows units)
    (heq : unit.toList ++ next :: rest = unit'.toList ++ next' :: rest') : unit = unit' := by
  cases unit with
  | none =>
      cases unit' with
      | none => rfl
      | some u' =>
          obtain ⟨rfl, -⟩ := List.cons.inj heq
          exact absurd (hunit' next rfl).2 (hnext.notUnit (hunit' next rfl).1)
  | some u =>
      cases unit' with
      | none =>
          obtain ⟨rfl, -⟩ := List.cons.inj heq
          exact absurd (hunit u rfl).2 (hnext'.notUnit (hunit u rfl).1)
      | some u' =>
          obtain ⟨rfl, -⟩ := List.cons.inj heq
          rfl

theorem unique_percents {p : Derivation .primary} {signs : List Token} (hp : Unique units p) :
    Unique units (.percents p signs) := by
  intro d' next next' rest rest' ⟨hsigns, hfits⟩ hfits' ⟨hnext, hpercent⟩ ⟨hnext', hpercent'⟩ heq
  cases d' with
  | percents p' signs' =>
      obtain ⟨hsigns', hfits'⟩ := hfits'
      rw [tokens_percents, tokens_percents] at heq
      obtain ⟨tail, htail⟩ := headD_append signs next rest
      obtain ⟨tail', htail'⟩ := headD_append signs' next' rest'
      obtain rfl := hp p' _ _ tail tail' hfits hfits' (follows_headD hsigns hnext)
        (follows_headD hsigns' hnext') (by rw [← htail, ← htail', heq])
      rw [signs_unique hsigns hsigns' hpercent hpercent' (List.append_cancel_left heq)]

theorem unique_number (t : Token) (x : Float) (unit : Option Token) :
    Unique units (.number t x unit) := by
  intro d' next next' rest rest' ⟨hkind, hx, hunit⟩ hfits' hnext hnext' heq
  cases d' with
  | number t' x' unit' =>
      obtain ⟨rfl, hbehind⟩ := List.cons.inj heq
      obtain rfl := Option.some.inj (hx.symm.trans hfits'.2.1)
      rw [unit_unique hunit hfits'.2.2 hnext hnext' hbehind]
  | bracketed opening' e' closing' unit' =>
      obtain ⟨rfl, -⟩ := List.cons.inj heq
      exact absurd (hkind.symm.trans hfits'.1) (by decide)
  | name t' | emptyCall t' opening' closing' | call t' opening' args' closing' =>
      obtain ⟨rfl, -⟩ := List.cons.inj heq
      exact absurd (hkind.symm.trans hfits'.1) (by decide)

theorem unique_bracketed {opening : Token} {e : Derivation .sum} {closing : Token}
    {unit : Option Token} (he : Unique units e) :
    Unique units (.bracketed opening e closing unit) := by
  intro d' next next' rest rest' ⟨hopening, hclosing, hfits, hunit⟩ hfits' hnext hnext' heq
  cases d' with
  | bracketed opening' e' closing' unit' =>
      obtain ⟨-, hclosing', hfits', hunit'⟩ := hfits'
      rw [tokens_bracketed, tokens_bracketed] at heq
      obtain ⟨rfl, hinside⟩ := List.cons.inj heq
      obtain rfl := he.sum_eq hfits hfits' (.of_delimiter (.inl hclosing))
        (.of_delimiter (.inl hclosing')) hinside
      obtain ⟨rfl, hbehind⟩ := List.cons.inj (List.append_cancel_left hinside)
      rw [unit_unique hunit hunit' hnext hnext' hbehind]
  | number t' | name t' | emptyCall t' opening' closing' | call t' opening' args' closing' =>
      obtain ⟨rfl, -⟩ := List.cons.inj heq
      exact absurd (hopening.symm.trans hfits'.1) (by decide)

theorem unique_name (t : Token) : Unique units (.name t) := by
  intro d' next next' rest rest' hfits hfits' hnext hnext' heq
  cases d' with
  | name t' =>
      obtain ⟨rfl, -⟩ := List.cons.inj heq
      rfl
  | number t' | bracketed t' e' closing' unit' =>
      obtain ⟨rfl, -⟩ := List.cons.inj heq
      exact absurd (hfits.1.symm.trans hfits'.1) (by decide)
  | emptyCall function' opening' closing' | call function' opening' args' closing' =>
      obtain ⟨-, hbehind⟩ := List.cons.inj heq
      obtain ⟨rfl, -⟩ := List.cons.inj hbehind
      exact absurd hfits'.2.1 hnext.notOpening

theorem unique_emptyCall (function opening closing : Token) :
    Unique units (.emptyCall function opening closing) := by
  intro d' next next' rest rest' hfits hfits' hnext hnext' heq
  cases d' with
  | emptyCall function' opening' closing' =>
      obtain ⟨rfl, hbehind⟩ := List.cons.inj heq
      obtain ⟨rfl, hinside⟩ := List.cons.inj hbehind
      obtain ⟨rfl, -⟩ := List.cons.inj hinside
      rfl
  | call function' opening' args' closing' =>
      rw [tokens_call] at heq
      obtain ⟨-, hbehind⟩ := List.cons.inj heq
      obtain ⟨-, hinside⟩ := List.cons.inj hbehind
      exact absurd hfits.2.2 (hfits'.2.2.2.starts_of_eq hinside.symm).notClosing
  | name t' =>
      obtain ⟨-, hbehind⟩ := List.cons.inj heq
      obtain ⟨rfl, -⟩ := List.cons.inj hbehind
      exact absurd hfits.2.1 hnext'.notOpening
  | number t' | bracketed t' e' closing' unit' =>
      obtain ⟨rfl, -⟩ := List.cons.inj heq
      exact absurd (hfits.1.symm.trans hfits'.1) (by decide)

theorem unique_call {function opening : Token} {args : Derivation .arguments} {closing : Token}
    (hargs : Unique units args) : Unique units (.call function opening args closing) := by
  intro d' next next' rest rest' hfits hfits' hnext hnext' heq
  rw [tokens_call] at heq
  cases d' with
  | call function' opening' args' closing' =>
      rw [tokens_call] at heq
      obtain ⟨rfl, hbehind⟩ := List.cons.inj heq
      obtain ⟨rfl, hinside⟩ := List.cons.inj hbehind
      obtain rfl := hargs args' closing closing' _ _ hfits.2.2.2 hfits'.2.2.2 hfits.2.2.1
        hfits'.2.2.1 hinside
      obtain ⟨rfl, -⟩ := List.cons.inj (List.append_cancel_left hinside)
      rfl
  | emptyCall function' opening' closing' =>
      obtain ⟨-, hbehind⟩ := List.cons.inj heq
      obtain ⟨-, hinside⟩ := List.cons.inj hbehind
      exact absurd hfits'.2.2 (hfits.2.2.2.starts_of_eq hinside).notClosing
  | name t' =>
      obtain ⟨-, hbehind⟩ := List.cons.inj heq
      obtain ⟨rfl, -⟩ := List.cons.inj hbehind
      exact absurd hfits.2.1 hnext'.notOpening
  | number t' | bracketed t' e' closing' unit' =>
      obtain ⟨rfl, -⟩ := List.cons.inj heq
      exact absurd (hfits.1.symm.trans hfits'.1) (by decide)

theorem unique_last {e : Derivation .sum} (he : Unique units e) : Unique units (.last e) := by
  intro d' next next' rest rest' hfits hfits' hnext hnext' heq
  cases d' with
  | last e' =>
      rw [he.sum_eq hfits hfits' (.of_delimiter (.inl hnext)) (.of_delimiter (.inl hnext')) heq]
  | more e' comma' args' =>
      rw [tokens_more] at heq
      obtain rfl := he.sum_eq hfits hfits'.2.1 (.of_delimiter (.inl hnext))
        (.of_delimiter (.inr (.inl hfits'.1))) heq
      obtain ⟨rfl, -⟩ := List.cons.inj (List.append_cancel_left heq)
      exact absurd (hnext.symm.trans hfits'.1) (by decide)

theorem unique_more {e : Derivation .sum} {comma : Token} {args : Derivation .arguments}
    (he : Unique units e) (hargs : Unique units args) : Unique units (.more e comma args) := by
  intro d' next next' rest rest' hfits hfits' hnext hnext' heq
  rw [tokens_more] at heq
  cases d' with
  | last e' =>
      obtain rfl := he.sum_eq hfits.2.1 hfits' (.of_delimiter (.inr (.inl hfits.1)))
        (.of_delimiter (.inl hnext')) heq
      obtain ⟨rfl, -⟩ := List.cons.inj (List.append_cancel_left heq)
      exact absurd (hfits.1.symm.trans hnext') (by decide)
  | more e' comma' args' =>
      rw [tokens_more] at heq
      obtain rfl := he.sum_eq hfits.2.1 hfits'.2.1 (.of_delimiter (.inr (.inl hfits.1)))
        (.of_delimiter (.inr (.inl hfits'.1))) heq
      obtain ⟨rfl, hbehind⟩ := List.cons.inj (List.append_cancel_left heq)
      rw [hargs args' next next' rest rest' hfits.2.2 hfits'.2.2 hnext hnext' hbehind]

/-- **Derivations are unique.** -/
theorem unique (d : Derivation X) : Unique units d := by
  induction d with
  | single p ih => exact unique_single ih
  | adding left op right ihl ihr => exact unique_adding ihl ihr
  | factor u ih => exact unique_factor ih
  | plus sign u ih => exact unique_plus ih
  | multiplying left op right ihl ihr => exact unique_multiplying ihl ihr
  | minus sign u ih => exact unique_minus ih
  | unsigned p ih => exact unique_unsigned ih
  | raised base op exponent ihb ihe => exact unique_raised ihb ihe
  | unraised o ih => exact unique_unraised ih
  | applied function arg ih => exact unique_applied ih
  | percents p signs ih => exact unique_percents ih
  | number t x unit => exact unique_number t x unit
  | bracketed opening e closing unit ih => exact unique_bracketed ih
  | name t => exact unique_name t
  | emptyCall function opening closing => exact unique_emptyCall function opening closing
  | call function opening args closing ih => exact unique_call ih
  | last e ih => exact unique_last ih
  | more e comma args ihe iha => exact unique_more ihe iha

end Derivation

end Reckoner
