import Reckoner.Expr.OfTokens

/-!
# Reckoner.Proofs.Expr.Limit -- a lower limit only cuts a reader off

A reader asks for its limit in one place, where an expression starts, and stops at once if it is
exceeded. So of two readers with different limits the one with the lower limit is stopped by it
(`Cut`), or the two do the same. What a reader is built from keeps this relation, since everything
it does behind a part depends on what that part gave and on nothing else.
-/

namespace Reckoner

/-- An outcome under a lower limit: the error that the limit has been exceeded, or what comes out
under a higher limit. -/
def Cut {α : Type} (limit : Nat) (low high : Except Failure α) : Prop :=
  low = .error (.error (.tooDeep limit)) ∨ low = high

namespace Cut

variable {α β : Type} {limit : Nat}

theorem same {x : Except Failure α} : Cut limit x x := .inr rfl

theorem bind {low high : Except Failure α} {g h : α → Except Failure β} (hx : Cut limit low high)
    (hg : ∀ a, Cut limit (g a) (h a)) : Cut limit (low >>= g) (high >>= h) := by
  rcases hx with rfl | rfl
  · exact .inl rfl
  · cases low with
    | ok a => exact hg a
    | error e => exact .same

/-- What comes behind a part is the same under both limits. -/
theorem bind_same {low high : Except Failure α} (hx : Cut limit low high)
    (g : α → Except Failure β) : Cut limit (low >>= g) (high >>= g) :=
  hx.bind fun _ => .same

end Cut

namespace ExprReader

/-- Two readers, one of which is the other under a lower limit. -/
def IsCut (limit : Nat) (low high : ExprReader) : Prop :=
  ∀ (level : Nat) (before : Option Token) (ts : List Token),
    Cut limit (low level before ts) (high level before ts)

variable {limit : Nat} {low high : ExprReader} (h : IsCut limit low high)

include h

/-! ## Operands -/

theorem arguments_cut (room : Nat) (before : Token) (ts : List Token) :
    Cut limit (arguments low room before ts) (arguments high room before ts) := by
  induction room generalizing before ts with
  | zero => exact .same
  | succ room ih =>
      rw [arguments, arguments]
      refine (h sumLevel (some before) ts).bind fun (arg, rest) => ?_
      cases rest with
      | nil => exact .same
      | cons t rest =>
          simp only
          split
          · exact .same
          · exact (ih t rest).bind_same _
          · exact .same

theorem call_cut (function bracket : Token) (ts : List Token) :
    Cut limit (call low function bracket ts) (call high function bracket ts) := by
  unfold call
  split
  · exact .same
  · split
    · exact .same
    · exact (arguments_cut h _ bracket _).bind_same _

theorem named_cut (name : Token) (ts : List Token) :
    Cut limit (named low name ts) (named high name ts) := by
  unfold named
  split
  · exact .same
  · split
    · exact call_cut h name _ _
    split
    · exact (h signLevel (some name) _).bind_same _
    · exact .same

theorem primary_cut (units : List String) (first : Token) (ts : List Token) :
    Cut limit (primary low units first ts) (primary high units first ts) := by
  unfold primary
  split
  · exact .same
  · exact (h sumLevel (some first) ts).bind_same _
  · exact named_cut h first ts
  · exact .same

theorem operand_cut (units : List String) (before : Option Token) (ts : List Token) :
    Cut limit (operand low units before ts) (operand high units before ts) := by
  unfold operand
  split
  · exact .same
  · split
    · exact .same
    · exact .same
    · exact .same
    · split
      · exact (h signLevel _ _).bind_same _
      · exact .same
    · exact (primary_cut h units _ _).bind_same _

/-! ## Operations -/

theorem operations_cut (level room : Nat) (left : Expr) (ts : List Token) :
    Cut limit (operations low level room left ts) (operations high level room left ts) := by
  induction room generalizing left ts with
  | zero => exact .same
  | succ room ih =>
      cases ts with
      | nil => exact .same
      | cons t ts =>
          rw [operations, operations]
          split
          · split
            · exact .same
            · exact (h _ (some t) ts).bind fun (right, rest) => ih _ rest
          · exact .same

omit h in
/-- **A reader under a lower limit is cut off by it, or reads the same.** -/
theorem expression_cut (units : List String) {limit limit' depth depth' : Nat}
    (hdepth : depth ≤ depth') :
    IsCut limit (expression units limit depth) (expression units limit' depth') := by
  -- both go one level down together, and the lower of the two is the first at the bottom
  induction depth generalizing depth' with
  | zero => exact fun level before ts => .inl rfl
  | succ depth ih =>
      intro level before ts
      cases depth' with
      | zero => exact absurd hdepth (Nat.not_succ_le_zero depth)
      | succ depth' =>
          have hinner := ih (Nat.le_of_succ_le_succ hdepth)
          exact (operand_cut hinner units before ts).bind fun (left, rest) =>
            operations_cut hinner level rest.length left rest

end ExprReader

namespace Statement

variable {limit limit' : Nat}

/-- Tokens are read alike under two limits, or the lower one is exceeded. -/
theorem ofTokens_cut (hle : limit ≤ limit') (units : List String) (ts : List Token) :
    Cut limit (ofTokens units limit ts) (ofTokens units limit' ts) := by
  have hread : ExprReader.IsCut limit (ExprReader.expression units limit limit)
      (ExprReader.expression units limit' limit') := ExprReader.expression_cut units hle
  refine Cut.same.bind fun _ => ?_
  split
  · exact (hread sumLevel _ _).bind_same _
  · exact (hread sumLevel none ts).bind_same _

/-- So are typed lines: the tokens of a line do not depend on a limit. -/
theorem ofTyped_cut (hle : limit ≤ limit') (units : List String) (typed : String) :
    Cut limit (ofTyped units limit typed) (ofTyped units limit' typed) :=
  Cut.same.bind fun ts => ofTokens_cut hle units ts

end Statement

end Reckoner
