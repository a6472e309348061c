import Reckoner.Expr.Basic
import Reckoner.Proofs.Expr.Grammar

/-!
# Reckoner.Proofs.Expr.Names -- the names in a statement were typed

A reader makes no names of its own: every name in the expression of a statement is the spelling of
one of its tokens. The induction is on the derivation that the statement is read off.
-/

namespace Reckoner

/-- Some tokens hold some words if each of them is the spelling of a name among the tokens. -/
def Token.Hold (ts : List Token) (words : List String) : Prop :=
  ∀ word ∈ words, ∃ t ∈ ts, t.kind = .identifier ∧ t.lexeme = word

namespace Token.Hold

variable {ts us : List Token} {words more : List String}

theorem nil : Hold ts [] := List.forall_mem_nil _

theorem mono (h : Hold ts words) (hsub : ts ⊆ us) : Hold us words := by
  intro word hword
  obtain ⟨t, ht, hname⟩ := h word hword
  exact ⟨t, hsub ht, hname⟩

theorem append (h : Hold ts words) (h' : Hold us more) : Hold (ts ++ us) (words ++ more) := by
  intro word hword
  rcases List.mem_append.mp hword with hword | hword
  · exact h.mono (List.subset_append_left ts us) word hword
  · exact h'.mono (List.subset_append_right ts us) word hword

theorem cons (h : Hold ts words) (t : Token) : Hold (t :: ts) words :=
  h.mono (List.subset_cons_self t ts)

end Token.Hold

namespace Derivation

/-! ## The names of trees -/

theorem names_sumTree (sign : Token) (left right : Expr) :
    (sumTree sign left right).names = left.names ++ right.names := by
  unfold sumTree
  split <;> simp only [Expr.names]

theorem names_percentTree (e : Expr) (signs : List Token) :
    (percentTree e signs).names = e.names := by
  induction signs generalizing e with
  | nil => rfl
  | cons sign signs ih =>
      rw [percentTree, List.foldl_cons]
      exact (ih _).trans (by rw [Expr.names])

theorem names_amountTree (place : Nat) (amount : Expr) (unit : Option Token) :
    (amountTree place amount unit).names = amount.names := by
  cases unit with
  | none => rfl
  | some unit => rw [amountTree, Expr.names]

/-- The names in what is read off a derivation. -/
def names : {X : Symbol} → X.Tree → List String
  | .arguments, es => Expr.namesAll es
  | .sum, e | .product _, e | .signed, e | .power, e | .operand, e | .primary, e => Expr.names e

/-- **The names in a tree are spelled by the tokens that it is read off.** -/
theorem hold {units : List String} : ∀ {X : Symbol} (d : Derivation X) {next : Token},
    d.Fits units next → Token.Hold d.tokens (names d.tree)
  | _, single p, next, h => p.hold h
  | _, adding left op right, next, h => by
      show Token.Hold _ (sumTree op left.tree right.tree).names
      rw [names_sumTree]
      exact (left.hold h.2.1).append ((right.hold h.2.2).cons op)
  | _, factor u, next, h => u.hold h
  | _, plus sign u, next, h => by
      show Token.Hold _ (Expr.unary .pos u.tree sign.place).names
      rw [Expr.names]
      exact (u.hold h.2).cons sign
  | _, multiplying left op right, next, h => by
      show Token.Hold _ (productTree op left.tree right.tree).names
      rw [productTree, Expr.names]
      exact (left.hold h.2.1).append ((right.hold h.2.2).cons op)
  | _, minus sign u, next, h => by
      show Token.Hold _ (Expr.unary .neg u.tree sign.place).names
      rw [Expr.names]
      exact (u.hold h.2).cons sign
  | _, unsigned p, next, h => p.hold h
  | _, raised base op exponent, next, h => by
      show Token.Hold _ (Expr.binary .pow base.tree exponent.tree op.place).names
      rw [Expr.names]
      exact (base.hold h.2.1).append ((exponent.hold h.2.2).cons op)
  | _, unraised o, next, h => o.hold h
  | _, applied function arg, next, h => by
      show Token.Hold _ (Expr.call function.lexeme [arg.tree] function.place).names
      rw [Expr.names, Expr.namesAll, Expr.namesAll, List.append_nil]
      exact (arg.hold h.2.2).cons function
  | _, percents p signs, next, h => by
      show Token.Hold _ (percentTree p.tree signs).names
      rw [names_percentTree]
      exact (p.hold h.2).mono (List.subset_append_left _ _)
  | _, number t x unit, next, h => by
      show Token.Hold _ (amountTree t.place (.number x t.place) unit).names
      rw [names_amountTree, Expr.names]
      exact .nil
  | _, bracketed opening e closing unit, next, h => by
      show Token.Hold _ (amountTree opening.place e.tree unit).names
      rw [names_amountTree]
      exact ((e.hold h.2.2.1).cons opening).mono (List.subset_append_left _ _)
  | _, name t, next, h => by
      show Token.Hold [t] (Expr.name t.lexeme t.place).names
      rw [Expr.names]
      rintro _ hword
      exact ⟨t, List.mem_singleton_self t, h.1, (List.mem_singleton.mp hword).symm⟩
  | _, emptyCall function opening closing, next, h => by
      show Token.Hold _ (Expr.call function.lexeme [] function.place).names
      rw [Expr.names, Expr.namesAll]
      exact .nil
  | _, call function opening args closing, next, h => by
      show Token.Hold _ (Expr.call function.lexeme args.tree function.place).names
      rw [Expr.names]
      exact (((args.hold h.2.2.2).cons opening).cons function).mono
        (List.subset_append_left _ _)
  | _, last e, next, h => by
      show Token.Hold _ (Expr.namesAll [e.tree])
      rw [Expr.namesAll, Expr.namesAll, List.append_nil]
      exact e.hold h
  | _, more e comma args, next, h => by
      show Token.Hold _ (Expr.namesAll (e.tree :: args.tree))
      rw [Expr.namesAll]
      exact (e.hold h.2.1).append ((args.hold h.2.2).cons comma)

end Derivation

/-- **The names in a statement are among its tokens.** -/
theorem Statement.hold_of_ofTokens {units : List String} {limit : Nat} {ts : List Token}
    {s : Statement} (hended : Token.Ended ts) (h : ofTokens units limit ts = .ok s) :
    Token.Hold ts s.names := by
  obtain ⟨d, ⟨hfits, rfl⟩, rfl⟩ := derives_of_ofTokens hended h
  cases d with
  | expression e stop => exact (e.hold hfits.2).mono (List.subset_append_left _ _)
  | assign target sign value stop =>
      exact (((value.hold hfits.2.2.2).cons sign).cons target).mono (List.subset_append_left _ _)
  | convert value keyword unit stop =>
      exact (value.hold hfits.2.2.2).mono (List.subset_append_left _ _)

end Reckoner
