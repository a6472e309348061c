import Reckoner.Proofs.Expr.Derivation

/-!
# Reckoner.Proofs.Expr.Complete -- what is derived is read

A reader that is given tokens that a derivation derives, and behind them a token that it stops at,
gives the tree of the derivation and the tokens behind it, if expressions may lie in one another as
deep as there are tokens.

The reader builds a sum from the left while it goes on, so a sum is not read and then looked at:
the statement that the induction carries is that reading goes on behind the tokens of the
derivation as if it had started with its tree on the left (`Continues`).
-/

namespace Reckoner

namespace ExprReader

variable {inner : ExprReader} {units : List String} {limit : Nat}

/-! ## One step of a reader -/

section Steps

variable {level room : Nat} {before : Option Token} {t next : Token} {ts rest : List Token}
  {left e : Expr}

theorem operations_stop (h : next.Stops units level) :
    operations inner level (room + 1) left (next :: rest) = .ok (left, next :: rest) := by
  rw [operations]
  split
  · next op hop =>
    -- a sign, but of an operation that is left to the reader outside
    rw [if_pos (h.looser op hop)]
    rfl
  · rfl

theorem operations_step {op : BinaryOp} (hop : BinaryOp.ofToken? t = some op)
    (hlevel : level ≤ op.level) (hinner : inner op.rightLevel (some t) ts = .ok (e, rest)) :
    operations inner level (room + 1) left (t :: ts) =
      operations inner level room (op.apply left e t.place) rest := by
  rw [operations, hop]
  simp only
  rw [if_neg (Nat.not_lt.mpr hlevel), hinner]
  rfl

theorem expression_of_operand {depth : Nat}
    (h : operand (expression units limit depth) units before ts = .ok (left, rest)) :
    expression units limit (depth + 1) level before ts =
      operations (expression units limit depth) level rest.length left rest := by
  rw [expression, h]
  rfl

theorem operand_sign {sign : UnaryOp} (ht : t.kind = .operator)
    (hsign : signOf? before t = some sign)
    (hinner : inner signLevel (some t) ts = .ok (e, rest)) :
    operand inner units before (t :: ts) = .ok (.unary sign e t.place, rest) := by
  rw [operand, ht]
  simp only [hsign]
  rw [hinner]
  rfl

theorem operand_primary (before : Option Token) (ht : t.OpensPrimary)
    (hprimary : primary inner units t ts = .ok (e, rest)) :
    operand inner units before (t :: ts) = .ok (withPercents e rest) := by
  rw [operand]
  rcases ht with ht | ht | ht <;> rw [ht] <;> simp only [hprimary] <;> rfl

theorem withPercents_append {signs : List Token} (hsigns : ∀ t ∈ signs, t.isSign "%")
    (hnext : next.isSign "%" = false) :
    withPercents e (signs ++ next :: rest) = (Derivation.percentTree e signs, next :: rest) := by
  -- each sign wraps the expression that the signs behind it are read with
  induction signs generalizing e with
  | nil =>
      rw [List.nil_append, withPercents, hnext]
      rfl
  | cons sign signs ih =>
      rw [List.forall_mem_cons] at hsigns
      rw [List.cons_append, withPercents, hsigns.1, if_pos rfl, ih hsigns.2]
      rfl

theorem withUnit_append {unit : Option Token} {place : Nat}
    (hunit : Derivation.UnitFits units unit) (hnext : next.Follows units) :
    withUnit units place e (unit.toList ++ next :: rest) =
      (Derivation.amountTree place e unit, next :: rest) := by
  cases unit with
  | some u =>
      obtain ⟨hkind, hmem⟩ := hunit u rfl
      simp [withUnit, hkind, hmem, Derivation.amountTree]
  | none =>
      have hstop : ¬ (next.kind = .identifier ∧ next.lexeme ∈ units) :=
        fun h => hnext.notUnit h.1 h.2
      simp [withUnit, hstop, Derivation.amountTree]

theorem named_name (ht : t.kind = .identifier)
    (hfits : ¬ (Derivation.IsFunction t ∧ Derivation.StartsArgument next))
    (hnext : next.Follows units) :
    named inner t (next :: rest) = .ok (.name t.lexeme t.place, next :: rest) := by
  have hplain : ¬ (Builtin.isName t.lexeme && startsArgument next) = true := by
    rw [Bool.and_eq_true, startsArgument_iff]
    exact fun h => hfits ⟨⟨ht, h.1⟩, h.2⟩
  rw [named, if_neg (by simpa using hnext.notOpening), if_neg hplain]
  rfl

theorem named_applied {function : Token} (hfunction : Derivation.IsFunction function)
    (ht : Derivation.StartsArgument t)
    (hinner : inner signLevel (some function) (t :: ts) = .ok (e, rest)) :
    named inner function (t :: ts) =
      .ok (.call function.lexeme [e] function.place, rest) := by
  have happlied : (Builtin.isName function.lexeme && startsArgument t) = true := by
    rw [Bool.and_eq_true, startsArgument_iff]
    exact ⟨hfunction.2, ht⟩
  rw [named, if_neg (by simpa using ht.notOpening), if_pos happlied, hinner]
  rfl

theorem named_call {function opening : Token} (hopening : opening.kind = .openBracket) :
    named inner function (opening :: ts) = call inner function opening ts := by
  rw [named, if_pos (by simp [hopening])]

end Steps

/-! ## What the induction carries -/

/-- Reading goes on behind the tokens of a derivation as if it had started with the tree `e` on
the left. The reader may be of any level up to `level`, the token behind the derivation must not
belong to an operation that binds as tightly as `bound`, and if the derivation may start with a
plus sign, no operator stands in front of it. -/
def Continues (units : List String) (limit level bound : Nat) (lead : Bool) {X : Symbol}
    (d : Derivation X) (e : Expr) : Prop :=
  ∀ (depth lvl : Nat) (before : Option Token) (next : Token) (rest : List Token)
    (result : Except Failure (Expr × List Token)),
    lvl ≤ level → (lead = true → before.any Token.isOperator = false) →
    d.Fits units next → next.Stops units bound → (d.tokens ++ next :: rest).length ≤ depth + 1 →
    (∀ room, rest.length < room →
      operations (expression units limit depth) lvl room e (next :: rest) = result) →
    expression units limit (depth + 1) lvl before (d.tokens ++ next :: rest) = result

/-- The readers read the tokens of a derivation. -/
def IsRead (units : List String) (limit : Nat) : {X : Symbol} → Derivation X → Prop
  | .sum, d => Continues units limit sumLevel 2 true d d.tree
  | .product lead, d => Continues units limit 2 3 lead d d.tree
  | .signed, d => Continues units limit 4 3 false d d.tree
  | .power, d => Continues units limit 4 3 false d d.tree
  | .operand, d =>
    ∀ (depth : Nat) (before : Option Token) (next : Token) (rest : List Token),
      d.Fits units next → next.Follows units → next.isSign "%" = false →
      (d.tokens ++ next :: rest).length ≤ depth + 1 →
      operand (expression units limit depth) units before (d.tokens ++ next :: rest) =
        .ok (d.tree, next :: rest)
  | .primary, d =>
    ∀ (depth : Nat) (first next : Token) (ts rest : List Token),
      d.tokens = first :: ts → d.Fits units next → next.Follows units →
      (d.tokens ++ next :: rest).length ≤ depth + 1 →
      primary (expression units limit depth) units first (ts ++ next :: rest) =
        .ok (d.tree, next :: rest)
  | .arguments, d =>
    ∀ (depth room : Nat) (before closing : Token) (rest : List Token),
      before.kind ≠ .operator → closing.kind = .closeBracket → d.Fits units closing →
      (d.tokens ++ closing :: rest).length ≤ depth → d.tokens.length ≤ room →
      arguments (expression units limit depth) room before (d.tokens ++ closing :: rest) =
        .ok (d.tree, rest)

/-- An expression at whose end the reader stops is read as a whole. -/
theorem Continues.whole {level bound lvl depth : Nat} {lead : Bool} {X : Symbol}
    {d : Derivation X} {e : Expr} {before : Option Token} {next : Token} {rest : List Token}
    (h : Continues units limit level bound lead d e) (hlevel : lvl ≤ level)
    (hbefore : lead = true → before.any Token.isOperator = false) (hfits : d.Fits units next)
    (hnext : next.Stops units bound) (hstop : next.Stops units lvl)
    (hdepth : (d.tokens ++ next :: rest).length ≤ depth) :
    expression units limit depth lvl before (d.tokens ++ next :: rest) =
      .ok (e, next :: rest) := by
  obtain ⟨depth, rfl⟩ : ∃ k, depth = k + 1 := by
    refine ⟨depth - 1, ?_⟩
    rw [List.length_append, List.length_cons] at hdepth
    omega
  refine h depth lvl before next rest _ hlevel hbefore hfits hnext hdepth fun room hroom => ?_
  obtain ⟨room, rfl⟩ : ∃ k, room = k + 1 := ⟨room - 1, by omega⟩
  exact operations_stop hstop

/-- Reading goes on behind an operation and its right operand as if it had started with the
operation on the left. -/
theorem Continues.behind {level bound lvl depth room : Nat} {X : Symbol} {right : Derivation X}
    {r left : Expr} {op next : Token} {rest : List Token} {o : BinaryOp}
    {result : Except Failure (Expr × List Token)}
    (h : Continues units limit level bound false right r)
    (ho : BinaryOp.ofToken? op = some o) (hlvl : lvl ≤ o.level) (hlevel : o.rightLevel ≤ level)
    (hfits : right.Fits units next) (hnext : next.Stops units bound)
    (hstop : next.Stops units o.rightLevel)
    (hdepth : (right.tokens ++ next :: rest).length ≤ depth)
    (hroom : (right.tokens ++ next :: rest).length < room)
    (hresult : ∀ room, rest.length < room →
      operations (expression units limit depth) lvl room (o.apply left r op.place)
        (next :: rest) = result) :
    operations (expression units limit depth) lvl room left (op :: (right.tokens ++ next :: rest)) =
      result := by
  obtain ⟨room, rfl⟩ : ∃ k, room = k + 1 := ⟨room - 1, by omega⟩
  have hread : expression units limit depth o.rightLevel (some op) (right.tokens ++ next :: rest) =
      .ok (r, next :: rest) :=
    h.whole hlevel (fun h => absurd h Bool.false_ne_true) hfits hnext hstop hdepth
  rw [operations_step ho hlvl hread]
  refine hresult room ?_
  rw [List.length_append, List.length_cons] at hroom
  omega

/-! ## Sums, products and powers -/

section Cases

theorem isRead_adding {left : Derivation .sum} {op : Token} {right : Derivation (.product false)}
    (hleft : IsRead units limit left) (hright : IsRead units limit right) :
    IsRead units limit (.adding left op right) := by
  intro depth lvl before next rest result hlvl hbefore ⟨hop, hl, hr⟩ hnext hdepth hresult
  obtain ⟨o, ho, hlevel, hrightLevel, htree⟩ := BinaryOp.ofToken?_sum hop
  rw [Derivation.tokens_adding] at hdepth ⊢
  -- the tree on the left first: it stands in front of the sign, and reading goes on there
  refine hleft depth lvl before op _ result hlvl hbefore hl (.of_sum hop) hdepth
    fun room hroom => ?_
  rw [List.length_append, List.length_cons] at hdepth
  refine Continues.behind hright ho (hlevel ▸ hlvl) (Nat.le_of_eq hrightLevel) hr
    (hnext.mono (by decide)) (hrightLevel ▸ hnext) (by omega) hroom ?_
  rw [htree]
  exact hresult

theorem isRead_multiplying {lead : Bool} {left : Derivation (.product lead)} {op : Token}
    {right : Derivation .signed} (hleft : IsRead units limit left)
    (hright : IsRead units limit right) : IsRead units limit (.multiplying left op right) := by
  intro depth lvl before next rest result hlvl hbefore ⟨hop, hl, hr⟩ hnext hdepth hresult
  obtain ⟨o, ho, hlevel, hrightLevel, htree⟩ := BinaryOp.ofToken?_product hop
  rw [Derivation.tokens_multiplying] at hdepth ⊢
  refine hleft depth lvl before op _ result hlvl hbefore hl (.of_product hop) hdepth
    fun room hroom => ?_
  rw [List.length_append, List.length_cons] at hdepth
  refine Continues.behind hright ho (hlevel ▸ hlvl) (hrightLevel ▸ by decide) hr
    hnext (hrightLevel ▸ hnext) (by omega) hroom ?_
  rw [htree]
  exact hresult

/-- A sign with what it binds is read in front of any operation looser than a power. -/
theorem continues_sign {X : Symbol} {d : Derivation X} {u : Derivation .signed} {sign : Token}
    {o : UnaryOp} {lead : Bool} {level : Nat} (hu : IsRead units limit u)
    (htokens : d.tokens = sign :: u.tokens)
    (hfits : ∀ next, d.Fits units next → sign.kind = .operator ∧ u.Fits units next)
    (hsign : ∀ before : Option Token, (lead = true → before.any Token.isOperator = false) →
      ∀ next, d.Fits units next → signOf? before sign = some o) :
    Continues units limit level 3 lead d (.unary o u.tree sign.place) := by
  intro depth lvl before next rest result hlvl hbefore hd hnext hdepth hresult
  rw [htokens, List.cons_append] at hdepth ⊢
  have hread : expression units limit depth signLevel (some sign) (u.tokens ++ next :: rest) =
      .ok (u.tree, next :: rest) :=
    Continues.whole hu (by decide) (fun h => absurd h Bool.false_ne_true) (hfits next hd).2 hnext
      hnext (by simpa using hdepth)
  rw [expression_of_operand
    (operand_sign (hfits next hd).1 (hsign before hbefore next hd) hread)]
  exact hresult _ (Nat.lt_succ_self _)

theorem isRead_plus {sign : Token} {u : Derivation .signed} (hu : IsRead units limit u) :
    IsRead units limit (.plus sign u) := by
  refine continues_sign hu rfl (fun next h => ⟨Token.kind_of_isSign h.1, h.2⟩) ?_
  intro before hbefore next h
  rw [signOf?, if_neg (by simp [Token.isSign_ne h.1]),
    if_pos (by simp [show sign.isSign "+" from h.1, hbefore rfl])]

theorem isRead_minus {sign : Token} {u : Derivation .signed} (hu : IsRead units limit u) :
    IsRead units limit (.minus sign u) := by
  refine continues_sign hu rfl (fun next h => ⟨Token.kind_of_isSign h.1, h.2⟩) ?_
  intro before hbefore next h
  rw [signOf?, if_pos h.1]

theorem isRead_raised {base : Derivation .operand} {op : Token} {exponent : Derivation .signed}
    (hbase : IsRead units limit base) (hexponent : IsRead units limit exponent) :
    IsRead units limit (.raised base op exponent) := by
  intro depth lvl before next rest result hlvl hbefore ⟨hop, hb, he⟩ hnext hdepth hresult
  rw [Derivation.tokens_raised] at hdepth ⊢
  have hread := hbase depth before op _ hb (.of_operator (Token.kind_of_isSign hop))
    (Token.isSign_ne hop (by decide)) hdepth
  rw [expression_of_operand hread]
  rw [List.length_append, List.length_cons] at hdepth
  exact Continues.behind hexponent (BinaryOp.ofToken?_power hop) hlvl (Nat.le_refl 4) he hnext
    (hnext.mono (by decide)) (by omega) (Nat.lt_succ_self _) hresult

theorem isRead_unraised {o : Derivation .operand} (ho : IsRead units limit o) :
    IsRead units limit (.unraised o) := by
  intro depth lvl before next rest result hlvl hbefore hd hnext hdepth hresult
  rw [Derivation.tokens_unraised] at hdepth ⊢
  rw [expression_of_operand (ho depth before next rest hd hnext.toFollows hnext.notPercent hdepth)]
  exact hresult _ (Nat.lt_succ_self _)

theorem isRead_applied {function : Token} {arg : Derivation .signed}
    (harg : IsRead units limit arg) : IsRead units limit (.applied function arg) := by
  intro depth lvl before next rest result hlvl hbefore ⟨hfunction, hstarts, ha⟩ hnext hdepth hresult
  rw [Derivation.tokens_applied] at hdepth ⊢
  have hread : expression units limit depth signLevel (some function)
      (arg.tokens ++ next :: rest) = .ok (arg.tree, next :: rest) :=
    Continues.whole harg (by decide) (fun h => absurd h Bool.false_ne_true) ha hnext hnext
      (by simpa using hdepth)
  -- the reader looks at the first token of the argument before it reads the argument
  obtain ⟨t, ts, ht, -⟩ := ha.starts
  rw [ht] at hstarts hread ⊢
  have hprimary : primary (expression units limit depth) units function
      (t :: ts ++ next :: rest) =
        .ok (.call function.lexeme [arg.tree] function.place, next :: rest) := by
    rw [primary, hfunction.1]
    exact named_applied hfunction (hstarts t rfl) hread
  have hoperand := operand_primary before (.inr (.inl hfunction.1)) hprimary
  rw [withPercents, hnext.notPercent] at hoperand
  rw [expression_of_operand hoperand]
  exact hresult _ (Nat.lt_succ_self _)

/-! ## Operands -/

theorem isRead_percents {p : Derivation .primary} {signs : List Token}
    (hp : IsRead units limit p) : IsRead units limit (.percents p signs) := by
  intro depth before next rest ⟨hsigns, hfits⟩ hnext hpercent hdepth
  -- the primary stands in front of the first percent sign, if there is one
  obtain ⟨tail, htail⟩ := Derivation.headD_append signs next rest
  obtain ⟨first, ts, hfirst, hstarts⟩ := hfits.starts
  rw [Derivation.tokens_percents, htail] at hdepth ⊢
  have hprimary := hp depth first _ ts tail hfirst hfits
    (Derivation.follows_headD hsigns hnext) hdepth
  rw [hfirst, List.cons_append, operand_primary before hstarts hprimary, ← htail,
    withPercents_append hsigns hpercent]
  rfl

theorem isRead_number (t : Token) (x : Float) (unit : Option Token) :
    IsRead units limit (.number t x unit) := by
  rintro depth first next ts rest ⟨⟩ ⟨hkind, hx, hunit⟩ hnext hdepth
  rw [primary, hkind]
  simp only [hx]
  rw [withUnit_append hunit hnext]
  rfl

theorem isRead_bracketed {opening : Token} {e : Derivation .sum} {closing : Token}
    {unit : Option Token} (he : IsRead units limit e) :
    IsRead units limit (.bracketed opening e closing unit) := by
  intro depth first next ts rest hfirst ⟨hopening, hclosing, hfits, hunit⟩ hnext hdepth
  obtain ⟨rfl, rfl⟩ : opening = first ∧ e.tokens ++ closing :: unit.toList = ts :=
    List.cons.inj hfirst
  have hread : expression units limit depth sumLevel (some opening)
      (e.tokens ++ closing :: (unit.toList ++ next :: rest)) =
        .ok (e.tree, closing :: (unit.toList ++ next :: rest)) := by
    refine Continues.whole he (by decide) ?_ hfits (.of_delimiter (.inl hclosing))
      (.of_delimiter (.inl hclosing)) ?_
    · simp [Token.isOperator, hopening]
    · rw [Derivation.tokens_bracketed] at hdepth
      exact Nat.le_of_succ_le_succ hdepth
  rw [List.append_assoc, List.cons_append, primary, hopening]
  simp only [hread]
  show (if (closing.kind == .closeBracket) = true then _ else _) = _
  rw [if_pos (by simp [hclosing]), withUnit_append hunit hnext]
  rfl

theorem isRead_name (t : Token) : IsRead units limit (.name t) := by
  rintro depth first next ts rest ⟨⟩ ⟨hkind, hfits⟩ hnext hdepth
  rw [primary, hkind]
  exact named_name hkind hfits hnext

theorem isRead_emptyCall (function opening closing : Token) :
    IsRead units limit (.emptyCall function opening closing) := by
  rintro depth first next ts rest ⟨⟩ ⟨hkind, hopening, hclosing⟩ hnext hdepth
  rw [primary, hkind]
  simp only [List.cons_append, List.nil_append]
  rw [named_call hopening, call, if_pos (by simp [hclosing])]
  rfl

theorem isRead_call {function opening : Token} {args : Derivation .arguments} {closing : Token}
    (hargs : IsRead units limit args) :
    IsRead units limit (.call function opening args closing) := by
  intro depth first next ts rest hfirst ⟨hkind, hopening, hclosing, hfits⟩ hnext hdepth
  obtain ⟨rfl, rfl⟩ : function = first ∧ opening :: (args.tokens ++ [closing]) = ts :=
    List.cons.inj hfirst
  rw [primary, hkind]
  simp only [List.cons_append, List.append_assoc, List.nil_append]
  have hread := hargs depth (args.tokens ++ closing :: next :: rest).length opening closing
    (next :: rest) (by simp [hopening]) hclosing hfits ?_ ?_
  · -- the arguments start with no closing bracket, so the call is not taken for an empty one
    obtain ⟨t, us, ht, hstarts⟩ := hfits.starts
    have hnotClosing : t.kind ≠ .closeBracket := hstarts.notClosing
    rw [ht] at hread ⊢
    rw [named_call hopening, List.cons_append, call, if_neg (by simpa using hnotClosing)]
    rw [List.cons_append] at hread
    rw [hread]
    rfl
  · rw [Derivation.tokens_call, List.length_cons, List.length_cons] at hdepth
    omega
  · rw [List.length_append]
    exact Nat.le_add_right _ _

theorem isRead_last {e : Derivation .sum} (he : IsRead units limit e) :
    IsRead units limit (.last e) := by
  intro depth room before closing rest hbefore hclosing hfits hdepth hroom
  -- the argument has a token, so there is room for one argument
  obtain ⟨t, ts, ht, -⟩ := hfits.starts
  obtain ⟨room, rfl⟩ : ∃ k, room = k + 1 := by
    rw [ht, List.length_cons] at hroom
    exact ⟨room - 1, by omega⟩
  have hread : expression units limit depth sumLevel (some before)
      (e.tokens ++ closing :: rest) = .ok (e.tree, closing :: rest) :=
    Continues.whole he (by decide) (by simp [Token.isOperator, hbefore]) hfits
      (.of_delimiter (.inl hclosing)) (.of_delimiter (.inl hclosing)) hdepth
  rw [Derivation.tokens_last, arguments, hread]
  simp only [bind, Except.bind, hclosing]
  rfl

theorem isRead_more {e : Derivation .sum} {comma : Token} {args : Derivation .arguments}
    (he : IsRead units limit e) (hargs : IsRead units limit args) :
    IsRead units limit (.more e comma args) := by
  intro depth room before closing rest hbefore hclosing ⟨hcomma, hfits, hrest⟩ hdepth hroom
  rw [Derivation.tokens_more] at hdepth ⊢
  replace hroom : (e.tokens ++ comma :: args.tokens).length ≤ room := hroom
  rw [List.length_append, List.length_cons] at hroom
  obtain ⟨room, rfl⟩ : ∃ k, room = k + 1 := ⟨room - 1, by omega⟩
  have hread : expression units limit depth sumLevel (some before)
      (e.tokens ++ comma :: (args.tokens ++ closing :: rest)) =
        .ok (e.tree, comma :: (args.tokens ++ closing :: rest)) :=
    Continues.whole he (by decide) (by simp [Token.isOperator, hbefore]) hfits
      (.of_delimiter (.inr (.inl hcomma))) (.of_delimiter (.inr (.inl hcomma))) hdepth
  rw [List.length_append, List.length_cons] at hdepth
  have hreadRest := hargs depth room comma closing rest (by simp [hcomma]) hclosing hrest
    (by omega) (by omega)
  rw [arguments, hread]
  simp only [bind, Except.bind, hcomma, hreadRest]
  rfl

end Cases

/-- **What is derived is read.** -/
theorem isRead {X : Symbol} (d : Derivation X) : IsRead units limit d := by
  induction d with
  | single p ih =>
      intro depth lvl before next rest result hlvl hbefore hd hnext
      exact ih depth lvl before next rest result (Nat.le_trans hlvl (by decide))
        (fun _ => hbefore rfl) hd (hnext.mono (by decide))
  | adding left op right ihl ihr => exact isRead_adding ihl ihr
  | factor u ih =>
      intro depth lvl before next rest result hlvl hbefore
      exact ih depth lvl before next rest result (Nat.le_trans hlvl (by decide))
        (fun h => absurd h Bool.false_ne_true)
  | plus sign u ih => exact isRead_plus ih
  | multiplying left op right ihl ihr => exact isRead_multiplying ihl ihr
  | minus sign u ih => exact isRead_minus ih
  | unsigned p ih => exact ih
  | raised base op exponent ihb ihe => exact isRead_raised ihb ihe
  | unraised o ih => exact isRead_unraised ih
  | applied function arg ih => exact isRead_applied ih
  | percents p signs ih => exact isRead_percents ih
  | number t x unit => exact isRead_number t x unit
  | bracketed opening e closing unit ih => exact isRead_bracketed ih
  | name t => exact isRead_name t
  | emptyCall function opening closing => exact isRead_emptyCall function opening closing
  | call function opening args closing ih => exact isRead_call ih
  | last e ih => exact isRead_last ih
  | more e comma args ihe iha => exact isRead_more ihe iha

end ExprReader

end Reckoner
