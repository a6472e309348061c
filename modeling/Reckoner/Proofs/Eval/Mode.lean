import Reckoner.Eval.Statement
import Reckoner.Proofs.Eval.Run

/-!
# Reckoner.Proofs.Eval.Mode -- what an evaluation does to the angle mode

A switch of the angle mode confirms itself by a text, and no operation takes a text: every function
wants numbers, every sign and every operation refuses it, and so does a unit. So an expression
whose value is a number or a quantity has switched nothing on its way, and the only expression
whose value is a text is a switch itself.
-/

namespace Reckoner

open Number (AngleMode)

/-! ## Functions -/

namespace Builtin

theorem numberArg_ok {f : Builtin} {a : Value} {x : Float} :
    f.numberArg a = .ok x ↔ a = .number x := by
  cases a with
  | number y =>
      constructor
      · rintro ⟨⟩
        rfl
      · rintro ⟨⟩
        rfl
  | quantity q => constructor <;> rintro ⟨⟩
  | text s => constructor <;> rintro ⟨⟩

theorem numbers_of_mapM {f : Builtin} {args : List Value} {xs : List Float}
    (h : args.mapM f.numberArg = .ok xs) : ∀ a ∈ args, ∃ x, a = .number x := by
  induction args generalizing xs with
  | nil => simp
  | cons a args ih =>
      rw [List.mapM_cons, bind_eq_ok] at h
      obtain ⟨x, hx, h⟩ := h
      obtain ⟨ys, hys, -⟩ := bind_eq_ok.mp h
      rw [List.forall_mem_cons]
      exact ⟨⟨x, numberArg_ok.mp hx⟩, ih hys⟩

theorem numbers_of_integerArgs {f : Builtin} {args : List Value} {ns : List Int}
    (h : f.integerArgs args = .ok ns) : ∀ a ∈ args, ∃ x, a = .number x := by
  obtain ⟨xs, hxs, -⟩ := bind_eq_ok.mp h
  exact numbers_of_mapM hxs

/-- **What a function that answers has done.** It is a switch, without arguments, and has switched
the mode and said so; or it has left the mode alone and made a number of numbers. -/
theorem apply_ok {f : Builtin} {args : List Value} {mode after : AngleMode} {v : Value}
    (h : (f.apply args).run mode = .ok (v, after)) :
    (f = .setMode after ∧ args = [] ∧ v = .text (confirmation after)) ∨
      (after = mode ∧ (∃ x, v = .number x) ∧ ∀ a ∈ args, ∃ x, a = .number x) := by
  -- one case for each shape of function: only the seventh, the switch, does more than to compute
  unfold apply at h
  split at h <;>
    simp only [Operation.run_bind_ok, Operation.run_lift_ok, Operation.run_pure_ok,
      Operation.run_get_ok] at h
  case h_1 =>
    obtain ⟨x, _, ⟨hx, rfl⟩, _, _, ⟨rfl, rfl⟩, y, _, ⟨-, rfl⟩, rfl, rfl⟩ := h
    rw [numberArg_ok] at hx
    exact .inr ⟨rfl, ⟨y, rfl⟩, by simp [hx]⟩
  case h_2 | h_3 =>
    obtain ⟨x, _, ⟨hx, rfl⟩, y, _, ⟨hy, rfl⟩, rfl, rfl⟩ := h
    rw [numberArg_ok] at hx hy
    exact .inr ⟨rfl, ⟨_, rfl⟩, by simp [hx, hy]⟩
  case h_4 =>
    obtain ⟨x, _, ⟨hx, rfl⟩, y, _, ⟨hy, rfl⟩, u, _, ⟨hu, rfl⟩, w, _, ⟨hw, rfl⟩, rfl, rfl⟩ := h
    rw [numberArg_ok] at hx hy hu hw
    exact .inr ⟨rfl, ⟨_, rfl⟩, by simp [hx, hy, hu, hw]⟩
  case h_5 | h_6 =>
    obtain ⟨ns, _, ⟨hns, rfl⟩, rfl, rfl⟩ := h
    exact .inr ⟨rfl, ⟨_, rfl⟩, numbers_of_integerArgs hns⟩
  case h_7 =>
    obtain ⟨_, _, ⟨⟩, rfl, rfl⟩ := h
    exact .inl ⟨rfl, rfl, rfl⟩
  case h_8 =>
    -- a switch with arguments is refused
    cases h.1

end Builtin

/-! ## Operations -/

namespace Value

/-- Whether a value is a number or a quantity, and no confirmation. -/
def IsAmount : Value → Prop
  | number _ | quantity _ => True
  | text _ => False

/-- What measures differ in is reported, so no value comes of it. -/
theorem mismatch_ne_ok {α : Type} {units : UnitTable} {a b : Value} {r : α} :
    mismatch units a b ≠ .ok r := by
  intro h
  obtain ⟨_, -, h⟩ := bind_eq_ok.mp h
  obtain ⟨_, -, h⟩ := bind_eq_ok.mp h
  cases h

theorem add_ok {units : UnitTable} {operation : String} {a b v : Value}
    (h : a.add units operation b = .ok v) : a.IsAmount ∧ b.IsAmount ∧ v.IsAmount := by
  unfold add at h
  split at h
  · cases h
    exact ⟨trivial, trivial, trivial⟩
  · obtain ⟨_, -, rfl⟩ := map_eq_ok.mp h
    exact ⟨trivial, trivial, trivial⟩
  · exact absurd h mismatch_ne_ok
  · exact absurd h mismatch_ne_ok
  · cases h

theorem sub_ok {units : UnitTable} {operation : String} {a b v : Value}
    (h : a.sub units operation b = .ok v) : a.IsAmount ∧ b.IsAmount ∧ v.IsAmount := by
  unfold sub at h
  split at h
  · cases h
    exact ⟨trivial, trivial, trivial⟩
  · obtain ⟨_, -, rfl⟩ := map_eq_ok.mp h
    exact ⟨trivial, trivial, trivial⟩
  · exact absurd h mismatch_ne_ok
  · exact absurd h mismatch_ne_ok
  · cases h

theorem mul_ok {operation : String} {a b v : Value} (h : a.mul operation b = .ok v) :
    a.IsAmount ∧ b.IsAmount ∧ v.IsAmount := by
  unfold mul at h
  split at h
  · cases h
    exact ⟨trivial, trivial, trivial⟩
  · cases h
    exact ⟨trivial, trivial, trivial⟩
  · cases h
    exact ⟨trivial, trivial, trivial⟩
  · cases h

theorem div_ok {units : UnitTable} {operation : String} {a b v : Value}
    (h : a.div units operation b = .ok v) : a.IsAmount ∧ b.IsAmount ∧ v.IsAmount := by
  unfold div at h
  split at h
  · obtain ⟨_, -, rfl⟩ := map_eq_ok.mp h
    exact ⟨trivial, trivial, trivial⟩
  · obtain ⟨_, -, rfl⟩ := map_eq_ok.mp h
    exact ⟨trivial, trivial, trivial⟩
  · obtain ⟨_, -, rfl⟩ := map_eq_ok.mp h
    exact ⟨trivial, trivial, trivial⟩
  · cases h

theorem pow_ok {operation : String} {a b v : Value} (h : a.pow operation b = .ok v) :
    a.IsAmount ∧ b.IsAmount ∧ v.IsAmount := by
  unfold pow at h
  split at h
  · cases h
    exact ⟨trivial, trivial, trivial⟩
  · cases h

theorem percent_ok {a v : Value} (h : a.percent = .ok v) : a.IsAmount ∧ v.IsAmount := by
  unfold percent at h
  split at h
  · cases h
    exact ⟨trivial, trivial⟩
  · cases h

theorem share_ok {operation : String} {a b v : Value} (h : share operation a b = .ok v) :
    a.IsAmount ∧ b.IsAmount ∧ v.IsAmount := by
  obtain ⟨p, hp, h⟩ := bind_eq_ok.mp h
  exact ⟨(mul_ok h).1, (percent_ok hp).1, (mul_ok h).2.2⟩

theorem convert_ok {units : UnitTable} {target : String} {a v : Value}
    (h : a.convert units target = .ok v) : a.IsAmount ∧ ∃ x, v = .quantity ⟨x, target⟩ := by
  obtain ⟨d, -, h⟩ := bind_eq_ok.mp h
  cases a with
  | quantity q =>
      obtain ⟨x, -, h⟩ := bind_eq_ok.mp h
      cases h
      exact ⟨trivial, x, rfl⟩
  | number x =>
      obtain ⟨_, -, h⟩ := bind_eq_ok.mp h
      cases h
  | text s =>
      obtain ⟨_, -, h⟩ := bind_eq_ok.mp h
      cases h

end Value

theorem UnaryOp.apply_ok {op : UnaryOp} {a v : Value} (h : op.apply a = .ok v) :
    a.IsAmount ∧ v.IsAmount := by
  cases op with
  | percent => exact Value.percent_ok h
  | neg | pos =>
      cases a with
      | text s => cases h
      | number x =>
          cases h
          exact ⟨trivial, trivial⟩
      | quantity q =>
          cases h
          exact ⟨trivial, trivial⟩

/-- **No operation takes a confirmation or makes one.** -/
theorem BinaryOp.combine_ok {units : UnitTable} {op : BinaryOp} {a b v : Value}
    (h : op.combine units a b = .ok v) : a.IsAmount ∧ b.IsAmount ∧ v.IsAmount := by
  cases op with
  | add => exact Value.add_ok h
  | sub => exact Value.sub_ok h
  | mul => exact Value.mul_ok h
  | div => exact Value.div_ok h
  | pow => exact Value.pow_ok h
  | percentAdd =>
      obtain ⟨s, hs, h⟩ := bind_eq_ok.mp h
      exact ⟨(Value.add_ok h).1, (Value.share_ok hs).2.1, (Value.add_ok h).2.2⟩
  | percentSub =>
      obtain ⟨s, hs, h⟩ := bind_eq_ok.mp h
      exact ⟨(Value.sub_ok h).1, (Value.share_ok hs).2.1, (Value.sub_ok h).2.2⟩

/-! ## Expressions -/

namespace Expr

/-- Whether an expression is a call without arguments that switches to an angle mode. -/
def IsSwitch (e : Expr) (mode : AngleMode) : Prop :=
  ∃ name place, e = .call name [] place ∧ Builtin.ofName? name = some (.setMode mode)

/-- The value of an amount, or the confirmation of a switch, and what became of the mode. -/
def ModeEffect (e : Expr) (mode : AngleMode) (v : Value) (after : AngleMode) : Prop :=
  (v.IsAmount ∧ after = mode) ∨ (e.IsSwitch after ∧ v = .text (Builtin.confirmation after))

variable {m : Memory} {limit : Nat}

theorem ModeEffect.eq_of_isAmount {e : Expr} {mode after : AngleMode} {v : Value}
    (h : e.ModeEffect mode v after) (hv : v.IsAmount) : after = mode := by
  rcases h with ⟨-, rfl⟩ | ⟨-, rfl⟩
  · rfl
  · exact hv.elim

mutual

/-- **An evaluation that answers with an amount has left the mode alone.** By induction on the
expression: the parts have amounts for values, or their operation would have refused them. -/
theorem eval_mode : ∀ (e : Expr) {depth : Nat} {mode after : AngleMode} {v : Value},
    (e.eval m limit depth).run mode = (.ok v, after) → e.ModeEffect mode v after
  | .number x place, depth, mode, after, v, h => by
      rw [eval] at h
      split at h
      · cases h
      · obtain ⟨rfl, rfl⟩ := Computation.run_pure_ok.mp h
        exact .inl ⟨trivial, rfl⟩
  | .name n place, depth, mode, after, v, h => by
      rw [eval] at h
      split at h
      · cases h
      · split at h
        · obtain ⟨rfl, rfl⟩ := Computation.run_pure_ok.mp h
          exact .inl ⟨trivial, rfl⟩
        · cases h
  | .quantity amount unit place, depth, mode, after, v, h => by
      rw [eval] at h
      split at h
      · cases h
      · obtain ⟨a, between, ha, hrest⟩ := Computation.run_bind_ok.mp h
        obtain ⟨_, _, hunit, hvalue⟩ := Computation.run_bind_ok.mp hrest
        obtain ⟨-, rfl⟩ := Computation.run_lift_ok.mp hunit
        -- only a number takes a unit
        cases a with
        | number x =>
            obtain ⟨rfl, rfl⟩ := Computation.run_pure_ok.mp hvalue
            exact .inl ⟨trivial, (eval_mode amount ha).eq_of_isAmount trivial⟩
        | quantity q => cases hvalue
        | text s => cases hvalue
  | .call function args place, depth, mode, after, v, h => by
      rw [eval] at h
      split at h
      · cases h
      · split at h
        · next f hf =>
          obtain ⟨vs, between, hvs, h⟩ := Computation.run_bind_ok.mp h
          rw [Evaluation.run_operation_ok] at h
          obtain ⟨hlength, hmode⟩ := evalAll_mode args hvs
          rcases Builtin.apply_ok h with ⟨rfl, rfl, rfl⟩ | ⟨rfl, ⟨x, rfl⟩, hnumbers⟩
          · -- as many values as arguments: a switch had none of either
            obtain rfl := List.length_eq_zero_iff.mp hlength.symm
            exact .inr ⟨⟨function, place, rfl, hf⟩, rfl⟩
          · refine .inl ⟨trivial, hmode fun a ha => ?_⟩
            obtain ⟨y, rfl⟩ := hnumbers a ha
            trivial
        · cases h
  | .binary op left right place, depth, mode, after, v, h => by
      rw [eval] at h
      split at h
      · cases h
      · obtain ⟨a, first, ha, h⟩ := Computation.run_bind_ok.mp h
        obtain ⟨b, second, hb, h⟩ := Computation.run_bind_ok.mp h
        obtain ⟨hop, rfl⟩ := Computation.run_lift_ok.mp h
        obtain ⟨haa, hba, hva⟩ := BinaryOp.combine_ok hop
        -- both operands are amounts, so neither of them has switched the mode
        refine .inl ⟨hva, ?_⟩
        rw [(eval_mode right hb).eq_of_isAmount hba, (eval_mode left ha).eq_of_isAmount haa]
  | .unary op operand place, depth, mode, after, v, h => by
      rw [eval] at h
      split at h
      · cases h
      · obtain ⟨a, between, ha, h⟩ := Computation.run_bind_ok.mp h
        obtain ⟨hop, rfl⟩ := Computation.run_lift_ok.mp h
        obtain ⟨haa, hva⟩ := UnaryOp.apply_ok hop
        exact .inl ⟨hva, (eval_mode operand ha).eq_of_isAmount haa⟩

theorem evalAll_mode : ∀ (es : List Expr) {depth : Nat} {mode after : AngleMode}
    {vs : List Value}, (evalAll m limit depth es).run mode = (.ok vs, after) →
      vs.length = es.length ∧ ((∀ v ∈ vs, v.IsAmount) → after = mode)
  | [], depth, mode, after, vs, h => by
      rw [evalAll] at h
      obtain ⟨rfl, rfl⟩ := Computation.run_pure_ok.mp h
      exact ⟨rfl, fun _ => rfl⟩
  | e :: es, depth, mode, after, vs, h => by
      rw [evalAll] at h
      obtain ⟨v, between, hv, h⟩ := Computation.run_bind_ok.mp h
      obtain ⟨ws, last, hws, h⟩ := Computation.run_bind_ok.mp h
      obtain ⟨rfl, rfl⟩ := Computation.run_pure_ok.mp h
      obtain ⟨hlength, hmode⟩ := evalAll_mode es hws
      refine ⟨by rw [List.length_cons, List.length_cons, hlength], fun hall => ?_⟩
      rw [List.forall_mem_cons] at hall
      rw [hmode hall.2, (eval_mode e hv).eq_of_isAmount hall.1]

end

end Expr

end Reckoner
