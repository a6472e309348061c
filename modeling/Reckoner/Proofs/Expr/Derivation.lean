import Reckoner.Expr.Grammar
import Reckoner.Expr.OfTokens

/-!
# Reckoner.Proofs.Expr.Derivation -- the tokens of a derivation

What can be said of the tokens that a derivation derives without reading them: which token they
start with, that neither an equals sign nor an end mark is among them, and that their brackets
match. Beside it, which tokens may stand behind a derivation so that a reader stops there.
-/

namespace Reckoner

/-! ## Signs -/

namespace Token

theorem isSign_iff {t : Token} {sign : String} :
    t.isSign sign = true ↔ t.kind = .operator ∧ t.lexeme = sign := by
  simp [isSign, isOperator]

theorem kind_of_isSign {t : Token} {sign : String} (h : t.isSign sign) : t.kind = .operator :=
  (isSign_iff.mp h).1

theorem kind_of_isSign_or {t : Token} {a b : String} (h : t.isSign a ∨ t.isSign b) :
    t.kind = .operator :=
  h.elim kind_of_isSign kind_of_isSign

theorem isSign_eq_false {t : Token} (h : t.kind ≠ .operator) (sign : String) :
    t.isSign sign = false := by
  simp [isSign, isOperator, h]

/-- A token is one sign at most. -/
theorem isSign_ne {t : Token} {a b : String} (h : t.isSign a) (hab : a ≠ b) :
    t.isSign b = false := by
  simp [isSign, isOperator, (isSign_iff.mp h).2, hab]

end Token

namespace BinaryOp

/-- The operations and their signs. -/
theorem ofToken?_eq_some {t : Token} {op : BinaryOp} (h : ofToken? t = some op) :
    (op = add ∧ t.isSign "+") ∨ (op = sub ∧ t.isSign "-") ∨ (op = mul ∧ t.isSign "*") ∨
      (op = div ∧ t.isSign "/") ∨ (op = pow ∧ t.isSign "**") := by
  -- one sign after another, in the order in which they are asked for
  unfold ofToken? at h
  split at h
  case isTrue hs => cases h; simp [hs]
  split at h
  case isTrue hs => cases h; simp [hs]
  split at h
  case isTrue hs => cases h; simp [hs]
  split at h
  case isTrue hs => cases h; simp [hs]
  split at h
  case isTrue hs => cases h; simp [hs]
  cases h

theorem kind_of_ofToken? {t : Token} {op : BinaryOp} (h : ofToken? t = some op) :
    t.kind = .operator := by
  rcases ofToken?_eq_some h with ⟨-, h⟩ | ⟨-, h⟩ | ⟨-, h⟩ | ⟨-, h⟩ | ⟨-, h⟩ <;>
    exact Token.kind_of_isSign h

theorem ofToken?_plus {t : Token} (h : t.isSign "+") : ofToken? t = some add := by
  rw [ofToken?, if_pos h]

theorem ofToken?_minus {t : Token} (h : t.isSign "-") : ofToken? t = some sub := by
  rw [ofToken?, Token.isSign_ne h (by decide : "-" ≠ "+"), if_neg Bool.false_ne_true, if_pos h]

theorem ofToken?_times {t : Token} (h : t.isSign "*") : ofToken? t = some mul := by
  simp [ofToken?, h, Token.isSign_ne h (by decide : "*" ≠ "+"),
    Token.isSign_ne h (by decide : "*" ≠ "-")]

theorem ofToken?_over {t : Token} (h : t.isSign "/") : ofToken? t = some div := by
  simp [ofToken?, h, Token.isSign_ne h (by decide : "/" ≠ "+"),
    Token.isSign_ne h (by decide : "/" ≠ "-"), Token.isSign_ne h (by decide : "/" ≠ "*")]

theorem ofToken?_power {t : Token} (h : t.isSign "**") : ofToken? t = some pow := by
  simp [ofToken?, h, Token.isSign_ne h (by decide : "**" ≠ "+"),
    Token.isSign_ne h (by decide : "**" ≠ "-"), Token.isSign_ne h (by decide : "**" ≠ "*"),
    Token.isSign_ne h (by decide : "**" ≠ "/")]

/-- The sign of a sum stands for an operation of the loosest level, and the reader makes the same
tree of its operands as the derivation. -/
theorem ofToken?_sum {t : Token} (h : t.isSign "+" ∨ t.isSign "-") :
    ∃ op, ofToken? t = some op ∧ op.level = sumLevel ∧ op.rightLevel = 2 ∧
      ∀ left right, op.apply left right t.place = Derivation.sumTree t left right := by
  rcases h with h | h
  · refine ⟨add, ofToken?_plus h, rfl, rfl, fun left right => ?_⟩
    have hlexeme := (Token.isSign_iff.mp h).2
    unfold apply Derivation.sumTree
    split <;> simp_all
  · refine ⟨sub, ofToken?_minus h, rfl, rfl, fun left right => ?_⟩
    have hlexeme := (Token.isSign_iff.mp h).2
    unfold apply Derivation.sumTree
    split <;> simp_all

/-- The sign of a product stands for an operation of the middle level. -/
theorem ofToken?_product {t : Token} (h : t.isSign "*" ∨ t.isSign "/") :
    ∃ op, ofToken? t = some op ∧ op.level = 2 ∧ op.rightLevel = 3 ∧
      ∀ left right, op.apply left right t.place = Derivation.productTree t left right := by
  rcases h with h | h
  · refine ⟨mul, ofToken?_times h, rfl, rfl, fun left right => ?_⟩
    simp [apply, Derivation.productTree, (Token.isSign_iff.mp h).2]
  · refine ⟨div, ofToken?_over h, rfl, rfl, fun left right => ?_⟩
    simp [apply, Derivation.productTree, (Token.isSign_iff.mp h).2]

end BinaryOp

/-! ## What stands behind a derivation -/

/-- A token that is neither a unit nor an opening bracket. An amount or a name in front of it is
over. -/
structure Token.Follows (units : List String) (next : Token) : Prop where
  notOpening : next.kind ≠ .openBracket
  notUnit : next.kind = .identifier → next.lexeme ∉ units

/-- A token at which operations of a level end: it is no sign of one that binds as tightly as
that, and no percent sign. -/
structure Token.Ends (level : Nat) (next : Token) : Prop where
  notPercent : next.isSign "%" = false
  looser : ∀ op, BinaryOp.ofToken? next = some op → op.level < level

/-- A token at which the reader of expressions of a level stops. -/
structure Token.Stops (units : List String) (level : Nat) (next : Token) : Prop extends
    Token.Follows units next, Token.Ends level next

namespace Token

variable {units : List String} {level : Nat} {next : Token}

theorem Follows.of_operator (h : next.kind = .operator) : next.Follows units :=
  ⟨by simp [h], by simp [h]⟩

theorem Ends.mono {other : Nat} (h : next.Ends level) (hle : level ≤ other) : next.Ends other :=
  { h with looser := fun op hop => Nat.lt_of_lt_of_le (h.looser op hop) hle }

theorem Stops.mono {other : Nat} (h : next.Stops units level) (hle : level ≤ other) :
    next.Stops units other :=
  ⟨h.toFollows, h.toEnds.mono hle⟩

/-- A reader of any level stops at a token that is neither an operator, nor an opening bracket, nor
a unit. -/
theorem Follows.stops (h : next.Follows units) (hkind : next.kind ≠ .operator) :
    next.Stops units level :=
  { h with
    notPercent := isSign_eq_false hkind _
    looser := fun _ hop => absurd (BinaryOp.kind_of_ofToken? hop) hkind }

/-- A reader of any level stops at a closing bracket, at a comma and at the end mark. -/
theorem Stops.of_delimiter
    (h : next.kind = .closeBracket ∨ next.kind = .comma ∨ next.kind = .finish) :
    next.Stops units level := by
  refine Follows.stops ⟨?_, ?_⟩ ?_ <;> rcases h with h | h | h <;> simp [h]

theorem Stops.of_sum (h : next.isSign "+" ∨ next.isSign "-") : next.Stops units 2 := by
  obtain ⟨op, hop, hlevel, -⟩ := BinaryOp.ofToken?_sum h
  refine ⟨Follows.of_operator (kind_of_isSign_or h), ?_, fun op' hop' => ?_⟩
  · rcases h with h | h
    · exact isSign_ne h (by decide)
    · exact isSign_ne h (by decide)
  · cases hop.symm.trans hop'
    exact hlevel ▸ (by decide : sumLevel < 2)

theorem Stops.of_product (h : next.isSign "*" ∨ next.isSign "/") : next.Stops units 3 := by
  obtain ⟨op, hop, hlevel, -⟩ := BinaryOp.ofToken?_product h
  refine ⟨Follows.of_operator (kind_of_isSign_or h), ?_, fun op' hop' => ?_⟩
  · rcases h with h | h
    · exact isSign_ne h (by decide)
    · exact isSign_ne h (by decide)
  · cases hop.symm.trans hop'
    exact hlevel ▸ (by decide : 2 < 3)

end Token

/-! ## What a derivation starts with -/

/-- Whether a token can be the first of a primary. -/
def Token.OpensPrimary (t : Token) : Prop :=
  t.kind = .number ∨ t.kind = .identifier ∨ t.kind = .openBracket

/-- Whether a token can be the first of what a symbol derives. -/
def Symbol.Starts : Symbol → Token → Prop
  | .sum, t | .product true, t | .arguments, t =>
    t.OpensPrimary ∨ t.isSign "-" ∨ t.isSign "+"
  | .product false, t | .signed, t => t.OpensPrimary ∨ t.isSign "-"
  | .power, t | .operand, t | .primary, t => t.OpensPrimary

theorem Token.OpensPrimary.notOperator {t : Token} (h : t.OpensPrimary) : t.kind ≠ .operator := by
  rcases h with h | h | h <;> simp [h]

theorem Symbol.starts_product {lead : Bool} {t : Token} (h : Symbol.signed.Starts t) :
    (Symbol.product lead).Starts t := by
  cases lead with
  | false => exact h
  | true =>
      rcases h with h | h
      · exact .inl h
      · exact .inr (.inl h)

/-- No closing bracket is the first token of the arguments of a call. -/
theorem Symbol.Starts.notClosing {t : Token} (h : Symbol.arguments.Starts t) :
    t.kind ≠ .closeBracket := by
  rcases h with (h | h | h) | h | h
  · simp [h]
  · simp [h]
  · simp [h]
  · simp [Token.kind_of_isSign h]
  · simp [Token.kind_of_isSign h]

theorem ExprReader.startsArgument_iff {t : Token} :
    startsArgument t = true ↔ Derivation.StartsArgument t := by
  unfold startsArgument Derivation.StartsArgument
  cases hkind : t.kind <;> simp [Token.isSign, Token.isOperator, hkind]

namespace Derivation

/-- No opening bracket starts an argument that has no brackets. -/
theorem StartsArgument.notOpening {t : Token} (h : StartsArgument t) : t.kind ≠ .openBracket := by
  rcases h with h | h | h
  · simp [h]
  · simp [Token.kind_of_isSign h]
  · simp [h.1]

/-- No plus sign starts an argument that has no brackets. -/
theorem StartsArgument.notPlus {t : Token} (h : StartsArgument t) : t.isSign "+" = false := by
  rcases h with h | h | h
  · exact Token.isSign_eq_false (by simp [h]) _
  · exact Token.isSign_ne h (by decide)
  · exact Token.isSign_eq_false (by simp [h.1]) _

variable {units : List String}

/-! ## Tokens in front of others -/

theorem tokens_adding (left : Derivation .sum) (op : Token) (right : Derivation (.product false))
    (ts : List Token) :
    (adding left op right).tokens ++ ts = left.tokens ++ op :: (right.tokens ++ ts) :=
  List.append_assoc ..

theorem tokens_multiplying {lead : Bool} (left : Derivation (.product lead)) (op : Token)
    (right : Derivation .signed) (ts : List Token) :
    (multiplying left op right).tokens ++ ts = left.tokens ++ op :: (right.tokens ++ ts) :=
  List.append_assoc ..

theorem tokens_unraised (o : Derivation .operand) : (unraised o).tokens = o.tokens := rfl

theorem tokens_applied (function : Token) (arg : Derivation .signed) (ts : List Token) :
    (applied function arg).tokens ++ ts = function :: (arg.tokens ++ ts) := rfl

theorem tokens_raised (base : Derivation .operand) (op : Token) (exponent : Derivation .signed)
    (ts : List Token) :
    (raised base op exponent).tokens ++ ts = base.tokens ++ op :: (exponent.tokens ++ ts) :=
  List.append_assoc ..

theorem tokens_percents (p : Derivation .primary) (signs ts : List Token) :
    (percents p signs).tokens ++ ts = p.tokens ++ (signs ++ ts) :=
  List.append_assoc ..

theorem tokens_bracketed (opening : Token) (e : Derivation .sum) (closing : Token)
    (unit : Option Token) (ts : List Token) :
    (bracketed opening e closing unit).tokens ++ ts =
      opening :: (e.tokens ++ closing :: (unit.toList ++ ts)) :=
  List.append_assoc ..

theorem tokens_call (function opening : Token) (args : Derivation .arguments) (closing : Token)
    (ts : List Token) :
    (call function opening args closing).tokens ++ ts =
      function :: opening :: (args.tokens ++ closing :: ts) :=
  List.append_assoc ..

theorem tokens_last (e : Derivation .sum) : (last e).tokens = e.tokens := rfl

theorem tokens_more (e : Derivation .sum) (comma : Token) (args : Derivation .arguments)
    (ts : List Token) :
    (more e comma args).tokens ++ ts = e.tokens ++ comma :: (args.tokens ++ ts) :=
  List.append_assoc ..

/-- What stands in front of percent signs has the first of them behind it, or else what stands
behind them. -/
theorem headD_append (signs : List Token) (next : Token) (rest : List Token) :
    ∃ tail, signs ++ next :: rest = signs.headD next :: tail := by
  cases signs with
  | nil => exact ⟨rest, rfl⟩
  | cons sign signs => exact ⟨signs ++ next :: rest, rfl⟩

theorem follows_headD {signs : List Token} {next : Token} (hsigns : ∀ t ∈ signs, t.isSign "%")
    (hnext : next.Follows units) : (signs.headD next).Follows units := by
  cases signs with
  | nil => exact hnext
  | cons sign signs => exact .of_operator (Token.kind_of_isSign (hsigns sign (by simp)))

/-! ## The first token -/

theorem Fits.starts {X : Symbol} {d : Derivation X} {next : Token} (h : d.Fits units next) :
    ∃ t ts, d.tokens = t :: ts ∧ X.Starts t := by
  -- the leftmost part stands in front of another token than the whole
  induction d generalizing next with
  | single p ih => exact ih h
  | adding left op right ihl ihr =>
      obtain ⟨t, ts, ht, hstart⟩ := ihl h.2.1
      exact ⟨t, _, by rw [tokens, ht, List.cons_append], hstart⟩
  | factor u ih =>
      obtain ⟨t, ts, ht, hstart⟩ := ih h
      exact ⟨t, ts, ht, Symbol.starts_product hstart⟩
  | plus sign u ih => exact ⟨sign, _, rfl, .inr (.inr h.1)⟩
  | multiplying left op right ihl ihr =>
      obtain ⟨t, ts, ht, hstart⟩ := ihl h.2.1
      exact ⟨t, _, by rw [tokens, ht, List.cons_append], hstart⟩
  | minus sign u ih => exact ⟨sign, _, rfl, .inr h.1⟩
  | unsigned p ih =>
      obtain ⟨t, ts, ht, hstart⟩ := ih h
      exact ⟨t, ts, ht, .inl hstart⟩
  | raised base op exponent ihb ihe =>
      obtain ⟨t, ts, ht, hstart⟩ := ihb h.2.1
      exact ⟨t, _, by rw [tokens, ht, List.cons_append], hstart⟩
  | unraised o ih => exact ih h
  | applied function arg ih => exact ⟨function, _, rfl, .inr (.inl h.1.1)⟩
  | percents p signs ih =>
      obtain ⟨t, ts, ht, hstart⟩ := ih h.2
      exact ⟨t, _, by rw [tokens, ht, List.cons_append], hstart⟩
  | number t x unit => exact ⟨t, _, rfl, .inl h.1⟩
  | bracketed opening e closing unit ih => exact ⟨opening, _, rfl, .inr (.inr h.1)⟩
  | name t => exact ⟨t, _, rfl, .inr (.inl h.1)⟩
  | emptyCall function opening closing => exact ⟨function, _, rfl, .inr (.inl h.1)⟩
  | call function opening args closing ih => exact ⟨function, _, rfl, .inr (.inl h.1)⟩
  | last e ih => exact ih h
  | more e comma args ihe iha =>
      obtain ⟨t, ts, ht, hstart⟩ := ihe h.2.1
      exact ⟨t, _, by rw [tokens, ht, List.cons_append], hstart⟩

theorem Fits.starts_of_eq {X : Symbol} {d : Derivation X} {next t : Token} {ts rest : List Token}
    (h : d.Fits units next) (heq : d.tokens ++ rest = t :: ts) : X.Starts t := by
  obtain ⟨first, us, hfirst, hstarts⟩ := h.starts
  rw [hfirst, List.cons_append] at heq
  exact (List.cons.inj heq).1 ▸ hstarts

/-! ## The tokens inside a derivation -/

/-- Neither an equals sign nor an end mark stands inside a derivation. -/
theorem Fits.inside {X : Symbol} {d : Derivation X} {next : Token} (h : d.Fits units next) :
    ∀ t ∈ d.tokens, t.kind ≠ .equal ∧ t.kind ≠ .finish := by
  -- a sign is an operator, hence neither
  have hsign {t : Token} (ht : t.kind = .operator) : t.kind ≠ .equal ∧ t.kind ≠ .finish := by
    simp [ht]
  have hunit {unit : Option Token} (hu : UnitFits units unit) :
      ∀ t ∈ unit.toList, t.kind ≠ .equal ∧ t.kind ≠ .finish := by
    intro t ht
    simp [(hu t (Option.mem_toList.mp ht)).1]
  induction d generalizing next with
  | single p ih => exact ih h
  | adding left op right ihl ihr =>
      simp only [tokens, List.forall_mem_append, List.forall_mem_cons]
      exact ⟨ihl h.2.1, hsign (Token.kind_of_isSign_or h.1), ihr h.2.2⟩
  | factor u ih => exact ih h
  | plus sign u ih =>
      simp only [tokens, List.forall_mem_cons]
      exact ⟨hsign (Token.kind_of_isSign h.1), ih h.2⟩
  | multiplying left op right ihl ihr =>
      simp only [tokens, List.forall_mem_append, List.forall_mem_cons]
      exact ⟨ihl h.2.1, hsign (Token.kind_of_isSign_or h.1), ihr h.2.2⟩
  | minus sign u ih =>
      simp only [tokens, List.forall_mem_cons]
      exact ⟨hsign (Token.kind_of_isSign h.1), ih h.2⟩
  | unsigned p ih => exact ih h
  | raised base op exponent ihb ihe =>
      simp only [tokens, List.forall_mem_append, List.forall_mem_cons]
      exact ⟨ihb h.2.1, hsign (Token.kind_of_isSign h.1), ihe h.2.2⟩
  | unraised o ih => exact ih h
  | applied function arg ih =>
      simp only [tokens, List.forall_mem_cons]
      exact ⟨by simp [h.1.1], ih h.2.2⟩
  | percents p signs ih =>
      simp only [tokens, List.forall_mem_append]
      exact ⟨ih h.2, fun t ht => hsign (Token.kind_of_isSign (h.1 t ht))⟩
  | number t x unit =>
      simp only [tokens, List.forall_mem_cons]
      exact ⟨by simp [h.1], hunit h.2.2⟩
  | bracketed opening e closing unit ih =>
      simp only [tokens, List.cons_append, List.forall_mem_append, List.forall_mem_cons]
      exact ⟨by simp [h.1], ih h.2.2.1, by simp [h.2.1], hunit h.2.2.2⟩
  | name t => simp [tokens, h.1]
  | emptyCall function opening closing => simp [tokens, h.1, h.2.1, h.2.2]
  | call function opening args closing ih =>
      simp only [tokens, List.cons_append, List.forall_mem_append, List.forall_mem_cons]
      exact ⟨by simp [h.1], by simp [h.2.1], ih h.2.2.2, by simp [h.2.2.1]⟩
  | last e ih => exact ih h
  | more e comma args ihe iha =>
      simp only [tokens, List.forall_mem_append, List.forall_mem_cons]
      exact ⟨ihe h.2.1, by simp [h.1], iha h.2.2⟩

end Derivation

/-! ## Brackets -/

namespace Brackets

/-- Tokens whose brackets match. The check goes on behind them as if they were not there. -/
def Matched (ts : List Token) : Prop :=
  ∀ opened last rest, ∃ last', checkFrom opened last (ts ++ rest) = checkFrom opened last' rest

theorem Matched.nil : Matched [] := fun _ last _ => ⟨last, rfl⟩

theorem Matched.append {ts us : List Token} (ht : Matched ts) (hu : Matched us) :
    Matched (ts ++ us) := by
  intro opened last rest
  obtain ⟨between, h⟩ := ht opened last (us ++ rest)
  obtain ⟨last', h'⟩ := hu opened between rest
  exact ⟨last', by rw [List.append_assoc, h, h']⟩

theorem Matched.cons {t : Token} {ts : List Token} (ht : t.kind ≠ .openBracket)
    (ht' : t.kind ≠ .closeBracket) (hts : Matched ts) : Matched (t :: ts) := by
  intro opened last rest
  obtain ⟨last', h⟩ := hts opened t.place rest
  refine ⟨last', h ▸ ?_⟩
  rw [List.cons_append]
  -- inside brackets and outside of them the check goes past such a token
  cases hkind : t.kind <;> cases opened <;> simp_all [checkFrom]

/-- Matched brackets in brackets are matched. -/
theorem Matched.enclosed {opening closing : Token} {ts : List Token}
    (hopening : opening.kind = .openBracket) (hclosing : closing.kind = .closeBracket)
    (hts : Matched ts) : Matched (opening :: ts ++ [closing]) := by
  intro opened last rest
  obtain ⟨last', h⟩ := hts (opened + 1) opening.place (closing :: rest)
  refine ⟨closing.place, ?_⟩
  calc checkFrom opened last (opening :: ts ++ [closing] ++ rest)
      = checkFrom (opened + 1) opening.place (ts ++ closing :: rest) := by
        simp only [List.cons_append, List.append_assoc, List.nil_append, checkFrom, hopening]
    _ = checkFrom opened closing.place rest := by
        rw [h]
        simp only [checkFrom, hclosing]

theorem Matched.of_forall {ts : List Token}
    (h : ∀ t ∈ ts, t.kind ≠ .openBracket ∧ t.kind ≠ .closeBracket) : Matched ts := by
  induction ts with
  | nil => exact .nil
  | cons t ts ih =>
      rw [List.forall_mem_cons] at h
      exact .cons h.1.1 h.1.2 (ih h.2)

end Brackets

namespace Derivation

open Brackets (Matched)

/-- The brackets of a derivation match. -/
theorem Fits.matched {X : Symbol} {d : Derivation X} {next : Token} (h : d.Fits units next) :
    Matched d.tokens := by
  have hop {t : Token} {ts : List Token} (ht : t.kind = .operator) (hts : Matched ts) :
      Matched (t :: ts) := hts.cons (by simp [ht]) (by simp [ht])
  have hunit {unit : Option Token} (hu : UnitFits units unit) : Matched unit.toList := by
    refine .of_forall fun t ht => ?_
    simp [(hu t (Option.mem_toList.mp ht)).1]
  induction d generalizing next with
  | single p ih => exact ih h
  | adding left op right ihl ihr =>
      exact (ihl h.2.1).append (hop (Token.kind_of_isSign_or h.1) (ihr h.2.2))
  | factor u ih => exact ih h
  | plus sign u ih => exact hop (Token.kind_of_isSign h.1) (ih h.2)
  | multiplying left op right ihl ihr =>
      exact (ihl h.2.1).append (hop (Token.kind_of_isSign_or h.1) (ihr h.2.2))
  | minus sign u ih => exact hop (Token.kind_of_isSign h.1) (ih h.2)
  | unsigned p ih => exact ih h
  | raised base op exponent ihb ihe =>
      exact (ihb h.2.1).append (hop (Token.kind_of_isSign h.1) (ihe h.2.2))
  | unraised o ih => exact ih h
  | applied function arg ih => exact (ih h.2.2).cons (by simp [h.1.1]) (by simp [h.1.1])
  | percents p signs ih =>
      exact (ih h.2).append (.of_forall fun t ht => by simp [Token.kind_of_isSign (h.1 t ht)])
  | number t x unit => exact (hunit h.2.2).cons (by simp [h.1]) (by simp [h.1])
  | bracketed opening e closing unit ih =>
      have he := Matched.enclosed h.1 h.2.1 (ih h.2.2.1)
      have := he.append (hunit h.2.2.2)
      rwa [List.append_assoc] at this
  | name t => exact Matched.nil.cons (by simp [h.1]) (by simp [h.1])
  | emptyCall function opening closing =>
      exact (Matched.nil.enclosed h.2.1 h.2.2).cons (by simp [h.1]) (by simp [h.1])
  | call function opening args closing ih =>
      exact (Matched.enclosed h.2.1 h.2.2.1 (ih h.2.2.2)).cons (by simp [h.1]) (by simp [h.1])
  | last e ih => exact ih h
  | more e comma args ihe iha =>
      exact (ihe h.2.1).append ((iha h.2.2).cons (by simp [h.1]) (by simp [h.1]))

end Derivation

end Reckoner
