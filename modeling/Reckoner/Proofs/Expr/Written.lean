import Reckoner.Proofs.Expr.Grammar
import Reckoner.Proofs.Source.Legible

/-!
# Reckoner.Proofs.Expr.Written -- typed expressions are read back

An expression that is typed in full is a list of legible tokens, and the list has a derivation
whose tree is the expression. So all three readers together undo the typing.
-/

namespace Reckoner

open Token (opening closing comma sign marks enders chars unplaced unplaced_eq_iff Legible)

/-! ## The tokens of a typed expression -/

/-- The sign in front of the operand of an operation. -/
def UnaryOp.front : UnaryOp → List Token
  | neg => [Token.sign "-"]
  | pos => [Token.sign "+"]
  | percent => []

/-- What stands behind the operand of an operation. -/
def UnaryOp.trailer : UnaryOp → List Token
  | percent => [Token.sign "%"]
  | _ => []

/-- What stands behind the operands of an operation: the percent sign of a share. -/
def BinaryOp.trailer : BinaryOp → List Token
  | percentAdd | percentSub => [Token.sign "%"]
  | _ => []

namespace Written

mutual

/-- The tokens that are typed for an expression. -/
def tokens : Written → List Token
  | number n => [⟨.number, n.text, 0⟩]
  | name w => [opening, ⟨.identifier, w.text, 0⟩, closing]
  | unary op e => opening :: (op.front ++ (e.tokens ++ (op.trailer ++ [closing])))
  | binary op left right =>
    opening :: (left.tokens ++ sign op.sign :: (right.tokens ++ (op.trailer ++ [closing])))
  | call function args =>
    ⟨.identifier, function.text, 0⟩ :: opening :: (argsTokens args ++ [closing])
  | quantity amount unit =>
    opening :: opening :: (amount.tokens ++ [closing, ⟨.identifier, unit.text, 0⟩, closing])

/-- The tokens that are typed for arguments. -/
def argsTokens : List Written → List Token
  | [] => []
  | [e] => e.tokens
  | e :: e' :: es => e.tokens ++ comma :: argsTokens (e' :: es)

end

mutual

theorem chars_tokens : (w : Written) → chars w.tokens = w.text.toList
  | number n => by simp [tokens, text]
  | name w => by simp [tokens, text, opening, closing]
  | unary op e => by
      have ih := chars_tokens e
      cases op <;> simp [tokens, text, UnaryOp.front, UnaryOp.trailer, opening, closing, sign, ih]
  | binary op left right => by
      have ihl := chars_tokens left
      have ihr := chars_tokens right
      cases op <;>
        simp [tokens, text, BinaryOp.sign, BinaryOp.trailer, opening, closing, sign, ihl, ihr]
  | call function args => by
      simp [tokens, text, opening, closing, chars_argsTokens args]
  | quantity amount unit => by
      simp [tokens, text, opening, closing, chars_tokens amount]

theorem chars_argsTokens : (args : List Written) → chars (argsTokens args) = (argsText args).toList
  | [] => rfl
  | [e] => by rw [argsTokens, argsText, chars_tokens e]
  | e :: e' :: es => by
      simp [argsTokens, argsText, comma, chars_tokens e, chars_argsTokens (e' :: es)]

end

/-! ## The tokens are legible -/

/-- No typed expression starts with an asterisk. -/
theorem chars_tokens_eq_cons (w : Written) : ∃ c cs, chars w.tokens = c :: cs ∧ c ≠ '*' := by
  have hletter {c : Char} (h : Product.isWordLetter c = true) : c ≠ '*' := by
    rintro rfl
    exact absurd h (by decide)
  have hdigit {c : Char} (h : Number.isAsciiDigit c = true) : c ≠ '*' := by
    rintro rfl
    exact absurd h (by decide)
  have hbracket (cs : List Char) : ∃ c cs', '(' :: cs = c :: cs' ∧ c ≠ '*' :=
    ⟨'(', cs, rfl, by decide⟩
  cases w with
  | number n =>
      obtain ⟨c, cs, hcons, hc⟩ := n.text_eq_cons
      exact ⟨c, cs, by simp [tokens, hcons], hdigit hc⟩
  | call function args =>
      obtain ⟨c, cs, hcons, hc⟩ := function.text_eq_cons
      exact ⟨c, _, by rw [tokens, Token.chars_cons, hcons]; rfl, hletter hc⟩
  | unary op e => exact hbracket _
  | name w => exact hbracket _
  | binary op left right => exact hbracket _
  | quantity amount unit => exact hbracket _

theorem head_tokens (w : Written) (rest : List Token) :
    ∀ c ∈ (chars (w.tokens ++ rest)).head?, c ≠ '*' := by
  obtain ⟨c, cs, hcons, hc⟩ := w.chars_tokens_eq_cons
  rw [Token.chars_append, hcons]
  rintro _ ⟨⟩
  exact hc

/-- A closing bracket may stand behind an operand, with a percent sign in front or without. -/
theorem legible_trailer (trailer : List Token) {rest : List Token}
    (htrailer : trailer = [] ∨ trailer = [sign "%"]) (hrest : Legible (closing :: rest)) :
    Legible (trailer ++ closing :: rest) ∧
      ∀ c ∈ (chars (trailer ++ closing :: rest)).head?, c ∈ enders := by
  rcases htrailer with rfl | rfl
  · refine ⟨hrest, ?_⟩
    rintro _ ⟨⟩
    decide
  · refine ⟨hrest.free (by decide), ?_⟩
    rintro _ ⟨⟩
    decide

mutual

/-- The tokens of a typed expression are legible in front of legible ones that do not go on with
it. -/
theorem legible : (w : Written) → {rest : List Token} →
    (∀ c ∈ (chars rest).head?, c ∈ enders) → Legible rest → Legible (w.tokens ++ rest)
  | number n, rest, hnext, h => .number n hnext h
  | name w, rest, hnext, h => by
      have hword := Legible.word w (by simp [closing]) (h.closed hnext)
      exact hword.opened
  | unary op e, rest, hnext, h => by
      obtain ⟨htrailer, hends⟩ :=
        legible_trailer op.trailer (by cases op <;> decide) (h.closed hnext)
      have he := legible e hends htrailer
      have hfront : Legible (op.front ++ (e.tokens ++ (op.trailer ++ closing :: rest))) := by
        cases op with
        | neg => exact he.free (by decide)
        | pos => exact he.free (by decide)
        | percent => exact he
      rw [tokens]
      simp only [List.cons_append, List.append_assoc, List.nil_append]
      exact hfront.opened
  | binary op left right, rest, hnext, h => by
      -- built from behind: each part is in front of what is legible already
      obtain ⟨htrailer, hends⟩ :=
        legible_trailer op.trailer (by cases op <;> decide) (h.closed hnext)
      have hright := legible right hends htrailer
      -- a sign may be an asterisk, and no operand starts with another
      have hsign : Legible (sign op.sign :: _) :=
        .marked (by cases op <;> decide) (by cases op <;> decide) (head_tokens right _) hright
      have hleft := legible left (by cases op <;> rintro _ ⟨⟩ <;> decide) hsign
      rw [tokens]
      simp only [List.cons_append, List.append_assoc, List.nil_append]
      exact hleft.opened
  | call function args, rest, hnext, h => by
      have hargs := argsLegible args (by rintro _ ⟨⟩; rfl) (h.closed hnext)
      rw [tokens, List.cons_append, List.cons_append, List.append_assoc]
      exact .word function (by rintro _ ⟨⟩; exact .inl rfl) hargs.opened
  | quantity amount unit, rest, hnext, h => by
      have hunit := Legible.unit unit (by rintro _ ⟨⟩; rfl) (h.closed hnext)
      have hamount := legible amount (by rintro _ ⟨⟩; decide) hunit
      rw [tokens, List.cons_append, List.cons_append, List.append_assoc]
      exact hamount.opened.opened

/-- The same of the arguments of a call, in front of its closing bracket. -/
theorem argsLegible : (args : List Written) → {rest : List Token} →
    (∀ c ∈ (chars rest).head?, c = ')') → Legible rest → Legible (argsTokens args ++ rest)
  | [], rest, hnext, h => h
  | [e], rest, hnext, h => by
      have henders : ∀ c ∈ (chars rest).head?, c ∈ enders := by
        intro c hc
        rw [hnext c hc]
        decide
      exact legible e henders h
  | e :: e' :: es, rest, hnext, h => by
      have hcomma : Legible (comma :: (argsTokens (e' :: es) ++ rest)) :=
        (argsLegible (e' :: es) hnext h).free (by decide)
      rw [argsTokens, List.append_assoc]
      exact legible e (by rintro _ ⟨⟩; decide) hcomma

end

/-! ## The tokens are derived -/

variable {ts : List Token}

/-- A derivation that stands for an expression: it derives the tokens wherever they stand, and its
tree is the expression, places aside. -/
structure Derives (d : Derivation .primary) (ts : List Token) (e : Expr) : Prop where
  tokens : d.tokens = ts
  fits : ∀ next, d.Fits UnitTable.standard.names next
  tree : d.tree.unplaced = e

/-- A primary with percent signs behind it. -/
def signed (d : Derivation .primary) (signs : List Token) : Derivation .signed :=
  .unsigned (.unraised (.percents d signs))

/-- A primary alone, as a sum. -/
def summed (d : Derivation .primary) : Derivation .sum := .single (.factor (signed d []))

theorem tokens_summed (d : Derivation .primary) : (summed d).tokens = d.tokens :=
  List.append_nil d.tokens

theorem fits_summed {d : Derivation .primary} {next : Token}
    (h : d.Fits UnitTable.standard.names next) : (summed d).Fits UnitTable.standard.names next :=
  ⟨by simp, h⟩

/-- What is in brackets is derived if what is between them is. -/
theorem exists_bracketed (inner : List Token) {x : Expr}
    (h : ts.map unplaced = opening :: (inner ++ [closing]))
    (hinner : ∀ us, us.map unplaced = inner → ∃ d : Derivation .sum, d.tokens = us ∧
      (∀ next, next.kind = .closeBracket → d.Fits UnitTable.standard.names next) ∧
      d.tree.unplaced = x) :
    ∃ d, Derives d ts x := by
  obtain ⟨first, behind, rfl, hfirst, hbehind⟩ := List.map_eq_cons_iff.mp h
  obtain ⟨us, tail, rfl, hus, htail⟩ := List.map_eq_append_iff.mp hbehind
  obtain ⟨last, rfl, hlast⟩ := List.map_eq_singleton_iff.mp htail
  obtain ⟨d, hd, hfits, htree⟩ := hinner us hus
  have hopening := (unplaced_eq_iff.mp hfirst).1
  have hclosing := (unplaced_eq_iff.mp hlast).1
  refine ⟨.bracketed first d last none, ?_, fun _ => ⟨hopening, hclosing, hfits last hclosing, ?_⟩,
    htree⟩
  · rw [Derivation.tokens, hd]
    rfl
  · rintro _ ⟨⟩

/-- The derivation of an operation on one operand, from that of its operand. -/
theorem exists_unary {op : UnaryOp} {es us : List Token} {x : Expr}
    (hus : us.map unplaced = op.front ++ (es ++ op.trailer))
    (he : ∀ ts, ts.map unplaced = es → ∃ d, Derives d ts x) :
    ∃ d : Derivation .sum, d.tokens = us ∧ (∀ next, d.Fits UnitTable.standard.names next) ∧
      d.tree.unplaced = .unary op x 0 := by
  cases op with
  | neg =>
      obtain ⟨t, ts, rfl, ht, hts⟩ := List.map_eq_cons_iff.mp hus
      obtain ⟨d, rfl, hfits, rfl⟩ := he ts (by rw [hts]; exact List.append_nil es)
      have hsign : t.isSign "-" := Token.isSign_iff.mpr (unplaced_eq_iff.mp ht)
      refine ⟨.single (.factor (.minus t (signed d []))), ?_,
        fun _ => ⟨hsign, by simp, hfits _⟩, rfl⟩
      exact congrArg (t :: ·) (List.append_nil d.tokens)
  | pos =>
      obtain ⟨t, ts, rfl, ht, hts⟩ := List.map_eq_cons_iff.mp hus
      obtain ⟨d, rfl, hfits, rfl⟩ := he ts (by rw [hts]; exact List.append_nil es)
      have hsign : t.isSign "+" := Token.isSign_iff.mpr (unplaced_eq_iff.mp ht)
      refine ⟨.single (.plus t (signed d [])), ?_, fun _ => ⟨hsign, by simp, hfits _⟩, rfl⟩
      exact congrArg (t :: ·) (List.append_nil d.tokens)
  | percent =>
      have hus' : us.map unplaced = es ++ [sign "%"] := hus
      obtain ⟨ts, behind, rfl, hts, hbehind⟩ := List.map_eq_append_iff.mp hus'
      obtain ⟨t, rfl, ht⟩ := List.map_eq_singleton_iff.mp hbehind
      obtain ⟨d, rfl, hfits, rfl⟩ := he ts hts
      have hsign : t.isSign "%" := Token.isSign_iff.mpr (unplaced_eq_iff.mp ht)
      exact ⟨.single (.factor (signed d [t])), rfl, fun _ => ⟨by simp [hsign], hfits _⟩, rfl⟩

/-- The tree of a sum of what is no percentage. -/
theorem unplaced_sumTree {t : Token} {left right : Expr}
    (hshare : ∀ z, right.unplaced ≠ .unary .percent z 0) :
    (Derivation.sumTree t left right).unplaced =
      .binary (if t.lexeme = "+" then .add else .sub) left.unplaced right.unplaced 0 := by
  unfold Derivation.sumTree
  split
  · exact absurd rfl (hshare _)
  · rfl

/-- The derivation of an operation on two operands, with its sign between them. -/
def combined (op : BinaryOp) (left right : Derivation .primary) (t : Token) (signs : List Token) :
    Derivation .sum :=
  match op with
  | .add | .sub | .percentAdd | .percentSub =>
    .adding (summed left) t (.factor (signed right signs))
  | .mul | .div => .single (.multiplying (.factor (signed left [])) t (signed right signs))
  | .pow => .single (.factor (.unsigned (.raised (.percents left []) t (signed right signs))))

section Combined

variable {op : BinaryOp} {left right : Derivation .primary} {t : Token} {signs : List Token}

theorem tokens_combined :
    (combined op left right t signs).tokens = left.tokens ++ t :: (right.tokens ++ signs) := by
  cases op <;> simp [combined, summed, signed, Derivation.tokens]

theorem fits_combined (ht : t.isSign op.sign) (hsigns : ∀ s ∈ signs, s.isSign "%")
    (hleft : ∀ next, left.Fits UnitTable.standard.names next)
    (hright : ∀ next, right.Fits UnitTable.standard.names next) (next : Token) :
    (combined op left right t signs).Fits UnitTable.standard.names next := by
  have hl : (summed left).Fits UnitTable.standard.names t := fits_summed (hleft t)
  have hr : (signed right signs).Fits UnitTable.standard.names next := ⟨hsigns, hright _⟩
  cases op with
  | add | percentAdd | mul => exact ⟨.inl ht, hl, hr⟩
  | sub | percentSub | div => exact ⟨.inr ht, hl, hr⟩
  | pow => exact ⟨ht, hl, hr⟩

theorem unplaced_tree_combined (ht : t.lexeme = op.sign) (hsigns : signs.map unplaced = op.trailer)
    (hshare : op = .add ∨ op = .sub → ∀ z, right.tree.unplaced ≠ .unary .percent z 0) :
    (combined op left right t signs).tree.unplaced =
      .binary op left.tree.unplaced right.tree.unplaced 0 := by
  -- percent signs are typed for shares only
  have hnone (h : op.trailer = []) : signs = [] := List.map_eq_nil_iff.mp (hsigns.trans h)
  cases op with
  | add =>
      obtain rfl := hnone rfl
      have hplus : t.lexeme = "+" := ht
      exact (unplaced_sumTree (hshare (.inl rfl))).trans (by rw [if_pos hplus]; rfl)
  | sub =>
      obtain rfl := hnone rfl
      have hminus : t.lexeme = "-" := ht
      exact (unplaced_sumTree (hshare (.inr rfl))).trans (by rw [hminus]; rfl)
  | mul =>
      obtain rfl := hnone rfl
      have htimes : t.lexeme = "*" := ht
      show Expr.unplaced (Derivation.productTree t left.tree right.tree) = _
      rw [Derivation.productTree, if_pos htimes]
      rfl
  | div =>
      obtain rfl := hnone rfl
      have hover : t.lexeme = "/" := ht
      show Expr.unplaced (Derivation.productTree t left.tree right.tree) = _
      rw [Derivation.productTree, hover]
      rfl
  | pow =>
      obtain rfl := hnone rfl
      rfl
  | percentAdd =>
      obtain ⟨s, rfl, -⟩ := List.map_eq_singleton_iff.mp hsigns
      have hplus : t.lexeme = "+" := ht
      show Expr.unplaced (.binary (if t.lexeme = "+" then .percentAdd else .percentSub) _ _ _) = _
      rw [if_pos hplus]
      rfl
  | percentSub =>
      obtain ⟨s, rfl, -⟩ := List.map_eq_singleton_iff.mp hsigns
      have hminus : t.lexeme = "-" := ht
      show Expr.unplaced (.binary (if t.lexeme = "+" then .percentAdd else .percentSub) _ _ _) = _
      rw [hminus]
      rfl

end Combined

/-- The derivation of an operation on two operands, from those of its operands. -/
theorem exists_binary {op : BinaryOp} {ls rs us : List Token} {x y : Expr}
    (hus : us.map unplaced = ls ++ sign op.sign :: (rs ++ op.trailer))
    (hl : ∀ ts, ts.map unplaced = ls → ∃ d, Derives d ts x)
    (hr : ∀ ts, ts.map unplaced = rs → ∃ d, Derives d ts y)
    (hshare : op = .add ∨ op = .sub → ∀ z, y ≠ .unary .percent z 0) :
    ∃ d : Derivation .sum, d.tokens = us ∧ (∀ next, d.Fits UnitTable.standard.names next) ∧
      d.tree.unplaced = .binary op x y 0 := by
  obtain ⟨ts, behind, rfl, hts, hbehind⟩ := List.map_eq_append_iff.mp hus
  obtain ⟨t, behind', rfl, ht, hbehind'⟩ := List.map_eq_cons_iff.mp hbehind
  obtain ⟨ts', signs, rfl, hts', hsigns⟩ := List.map_eq_append_iff.mp hbehind'
  obtain ⟨l, rfl, hfits, rfl⟩ := hl ts hts
  obtain ⟨r, rfl, hfits', rfl⟩ := hr ts' hts'
  have hsign : t.isSign op.sign := Token.isSign_iff.mpr (unplaced_eq_iff.mp ht)
  have hpercents : ∀ s ∈ signs, s.isSign "%" := by
    intro s hs
    have htrailer : ∀ s ∈ op.trailer, s = sign "%" := by cases op <;> decide
    have hs' := htrailer _ (hsigns ▸ List.mem_map_of_mem hs)
    exact Token.isSign_iff.mpr (unplaced_eq_iff.mp hs')
  exact ⟨combined op l r t signs, tokens_combined, fits_combined hsign hpercents hfits hfits',
    unplaced_tree_combined (unplaced_eq_iff.mp ht).2 hsigns hshare⟩

theorem expr_ne_percent {w : Written} (h : w.isPercent = false) (z : Expr) :
    w.expr ≠ .unary .percent z 0 := by
  intro heq
  cases w with
  | unary op e =>
      rw [expr] at heq
      cases heq
      cases h
  | number n => cases heq
  | name w => cases heq
  | binary op left right => cases heq
  | call function args => cases heq
  | quantity amount unit => cases heq

mutual

/-- **A typed expression has a derivation** from its tokens, wherever they stand, and the tree of
that is the expression. -/
theorem exists_derives : (w : Written) → w.SharesNamed → ∀ {ts : List Token},
    ts.map unplaced = w.tokens → ∃ d, Derives d ts w.expr
  | number n, _, ts, h => by
      obtain ⟨t, rfl, ht⟩ := List.map_eq_singleton_iff.mp h
      obtain ⟨hkind, hlexeme⟩ := unplaced_eq_iff.mp ht
      refine ⟨.number t n.value none, rfl, fun _ => ⟨hkind, hlexeme ▸ n.numeral?_text, ?_⟩, rfl⟩
      rintro _ ⟨⟩
  | name w, _, ts, h => by
      refine exists_bracketed [⟨.identifier, w.text, 0⟩] h fun us hus => ?_
      obtain ⟨t, rfl, ht⟩ := List.map_eq_singleton_iff.mp hus
      obtain ⟨hkind, hlexeme⟩ := unplaced_eq_iff.mp ht
      refine ⟨summed (.name t), tokens_summed _, fun next hnext => ?_, ?_⟩
      · -- the name of a function in brackets is a name, since a bracket starts no argument
        have harg : ¬ Derivation.StartsArgument next := by
          simp [Derivation.StartsArgument, hnext, Token.isSign_eq_false]
        exact fits_summed ⟨hkind, fun h => harg h.2⟩
      · show Expr.name t.lexeme 0 = _
        rw [hlexeme]
        rfl
  | unary op e, hw, ts, h => by
      refine exists_bracketed (op.front ++ (e.tokens ++ op.trailer)) ?_ fun us hus => ?_
      · rw [h, tokens]
        simp only [List.append_assoc]
      · obtain ⟨d, hd, hfits, htree⟩ := exists_unary hus fun ts hts => exists_derives e hw hts
        exact ⟨d, hd, fun next _ => hfits next, htree⟩
  | binary op left right, hw, ts, h => by
      obtain ⟨hshare, hl, hr⟩ := hw
      refine exists_bracketed (left.tokens ++ sign op.sign :: (right.tokens ++ op.trailer)) ?_
        fun us hus => ?_
      · rw [h, tokens]
        simp only [List.append_assoc, List.cons_append]
      · obtain ⟨d, hd, hfits, htree⟩ := exists_binary hus (fun ts hts => exists_derives left hl hts)
          (fun ts hts => exists_derives right hr hts) fun hop => expr_ne_percent (hshare hop)
        exact ⟨d, hd, fun next _ => hfits next, htree⟩
  | call function args, hw, ts, h => by
      obtain ⟨t, behind, rfl, ht, hbehind⟩ := List.map_eq_cons_iff.mp h
      obtain ⟨first, behind', rfl, hfirst, hbehind'⟩ := List.map_eq_cons_iff.mp hbehind
      obtain ⟨us, tail, rfl, hus, htail⟩ := List.map_eq_append_iff.mp hbehind'
      obtain ⟨last, rfl, hlast⟩ := List.map_eq_singleton_iff.mp htail
      obtain ⟨hkind, hlexeme⟩ := unplaced_eq_iff.mp ht
      have hopening := (unplaced_eq_iff.mp hfirst).1
      have hclosing := (unplaced_eq_iff.mp hlast).1
      -- the grammar has a case of its own for a call without arguments
      by_cases hargs : args = []
      · obtain rfl := hargs
        obtain rfl := List.map_eq_nil_iff.mp hus
        refine ⟨.emptyCall t first last, rfl, fun _ => ⟨hkind, hopening, hclosing⟩, ?_⟩
        show Expr.call t.lexeme [] 0 = _
        rw [hlexeme]
        rfl
      · obtain ⟨d, rfl, hfits, htree⟩ := exists_arguments args hargs hw hus
        refine ⟨.call t first d last, rfl, fun _ => ⟨hkind, hopening, hclosing, hfits _⟩, ?_⟩
        show Expr.call t.lexeme (Expr.unplacedAll d.tree) 0 = _
        rw [hlexeme, htree]
        rfl
  | quantity amount unit, hw, ts, h => by
      refine exists_bracketed (opening :: (amount.tokens ++ [closing, ⟨.identifier, unit.text, 0⟩]))
        ?_ fun us hus => ?_
      · rw [h, tokens]
        simp only [List.append_assoc, List.cons_append, List.nil_append]
      obtain ⟨first, behind, rfl, hfirst, hbehind⟩ := List.map_eq_cons_iff.mp hus
      obtain ⟨us, tail, rfl, hus', htail⟩ := List.map_eq_append_iff.mp hbehind
      obtain ⟨last, tail', rfl, hlast, htail'⟩ := List.map_eq_cons_iff.mp htail
      obtain ⟨t, rfl, ht⟩ := List.map_eq_singleton_iff.mp htail'
      obtain ⟨hkind, hlexeme⟩ := unplaced_eq_iff.mp ht
      have hopening := (unplaced_eq_iff.mp hfirst).1
      have hclosing := (unplaced_eq_iff.mp hlast).1
      have hunit : Derivation.UnitFits UnitTable.standard.names (some t) := by
        rintro _ ⟨⟩
        exact ⟨hkind, hlexeme ▸ unit.standard⟩
      obtain ⟨d, rfl, hfits, htree⟩ := exists_derives amount hw hus'
      refine ⟨summed (.bracketed first (summed d) last (some t)), ?_, fun next _ =>
        fits_summed ⟨hopening, hclosing, fits_summed (hfits last), hunit⟩, ?_⟩
      · rw [tokens_summed, Derivation.tokens, tokens_summed]
        rfl
      · show Expr.quantity d.tree.unplaced t.lexeme 0 = _
        rw [hlexeme, htree]
        rfl

/-- The same of the arguments of a call, if there are any. -/
theorem exists_arguments : (args : List Written) → args ≠ [] → ArgsSharesNamed args →
    ∀ {ts : List Token}, ts.map unplaced = argsTokens args →
      ∃ d : Derivation .arguments, d.tokens = ts ∧
        (∀ next, d.Fits UnitTable.standard.names next) ∧ Expr.unplacedAll d.tree = argsExpr args
  | [], hne, _, ts, _ => absurd rfl hne
  | [e], _, hargs, ts, h => by
      obtain ⟨d, rfl, hfits, htree⟩ := exists_derives e hargs.1 h
      refine ⟨.last (summed d), tokens_summed d, fun next => fits_summed (hfits next), ?_⟩
      exact congrArg (fun x => [x]) htree
  | e :: e' :: es, _, hargs, ts, h => by
      obtain ⟨us, behind, rfl, hus, hbehind⟩ := List.map_eq_append_iff.mp h
      obtain ⟨t, us', rfl, ht, hus'⟩ := List.map_eq_cons_iff.mp hbehind
      have hcomma := (unplaced_eq_iff.mp ht).1
      obtain ⟨d, rfl, hfits, htree⟩ := exists_derives e hargs.1 hus
      obtain ⟨d', rfl, hfits', htree'⟩ := exists_arguments (e' :: es) (by simp) hargs.2 hus'
      refine ⟨.more (summed d) t d', ?_,
        fun next => ⟨hcomma, fits_summed (hfits t), hfits' next⟩, ?_⟩
      · rw [Derivation.tokens, tokens_summed]
      · show d.tree.unplaced :: Expr.unplacedAll d'.tree = _
        rw [htree, htree']
        rfl

end

end Written

/-- **Typing an expression and reading it back is the identity**, places aside, if expressions may
lie in one another as deep as there are characters and one more. -/
theorem Statement.ofTyped_text (w : Written) (hw : w.SharesNamed) (limit : Nat)
    (hlimit : w.text.length + 1 ≤ limit) :
    ∃ e, Statement.ofTyped UnitTable.standard.names limit w.text = .ok (.expression e) ∧
      e.unplaced = w.expr := by
  have hlegible : Legible w.tokens := by
    have h := w.legible (by simp) .nil
    rwa [List.append_nil] at h
  have htext : String.ofList (chars w.tokens) = w.text := by
    rw [w.chars_tokens, String.ofList_toList]
  have hne : chars w.tokens ≠ [] := by
    obtain ⟨c, cs, hcons, -⟩ := w.chars_tokens_eq_cons
    simp [hcons]
  obtain ⟨us, stop, hread, hmap⟩ := Token.ofTyped_of_legible hlegible hne
  obtain ⟨d, rfl, hfits, htree⟩ := w.exists_derives hw hmap
  let sentence : Sentence := .expression (Written.summed d) ⟨.finish, "", stop⟩
  have hsentence :
      sentence.Derives UnitTable.standard.names (d.tokens ++ [⟨.finish, "", stop⟩]) := by
    refine ⟨⟨rfl, Written.fits_summed (hfits _)⟩, ?_⟩
    show (Written.summed d).tokens ++ _ = _
    rw [Written.tokens_summed]
  -- no more tokens than characters, and the end mark
  have hlength : (d.tokens ++ [(⟨.finish, "", stop⟩ : Token)]).length ≤ limit := by
    have hcount : d.tokens.length = w.tokens.length := by rw [← hmap, List.length_map]
    have hchars : (chars w.tokens).length = w.text.length := by
      rw [w.chars_tokens, String.length_toList]
    have hle := hlegible.length_le
    rw [List.length_append, List.length_singleton]
    omega
  have hkeywords : ∀ k ∈ conversionKeywords, k ∉ UnitTable.standard.names := by decide
  refine ⟨d.tree, ?_, htree⟩
  rw [htext] at hread
  rw [ofTyped, hread]
  exact ofTokens_of_derives hkeywords hlength hsentence

/-- A share of a length, with a call for its percentage. -/
theorem Statement.ofTyped_of_share :
    ∃ e, Statement.ofTyped UnitTable.standard.names 27 "(((1.5)km/h)+max((x),20)%)" =
        .ok (.expression e) ∧
      e.unplaced = .binary .percentAdd (.quantity (.number 1.5 0) "km/h" 0)
        (.call "max" [.name "x" 0, .number 20 0] 0) 0 := by
  let amount : Numeral := ⟨['1'], some ['5'], by decide, by decide, by decide⟩
  let share : Numeral := ⟨['2', '0'], none, by decide, by decide, by decide⟩
  let x : Word := ⟨['x'], by decide, by decide, by decide⟩
  let max : Word := ⟨['m', 'a', 'x'], by decide, by decide, by decide⟩
  let w : Written := .binary .percentAdd (.quantity (.number amount) ⟨"km/h", by decide⟩)
    (.call max [.name x, .number share])
  have hw : w.SharesNamed := by simp [w, Written.SharesNamed, Written.ArgsSharesNamed]
  have htext : w.text = "(((1.5)km/h)+max((x),20)%)" := by decide
  have hlimit : w.text.length + 1 ≤ 27 := by rw [htext]; decide
  have hvalue : share.value = 20 := by decide
  obtain ⟨e, he, hexpr⟩ := Statement.ofTyped_text w hw 27 hlimit
  rw [htext] at he
  refine ⟨e, he, hexpr.trans ?_⟩
  rw [← hvalue]
  rfl

end Reckoner
