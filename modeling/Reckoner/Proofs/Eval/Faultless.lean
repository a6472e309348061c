import Reckoner.Eval.Statement
import Reckoner.Expr.Basic
import Reckoner.Proofs.Eval.Run

/-!
# Reckoner.Proofs.Eval.Faultless -- evaluation keeps its promises

The one fault that evaluation could meet is a division by the scale of a unit. With a table of
units whose scales are not zero no computation faults: it answers, or it stops with an error of
the user. An operation stops only with an error about values. An expression has one more way to
stop, at its greatest depth, and it does so only if it is higher than that. No error of either kind
has a place in the line. The lemmas follow the operations from conversions up to whole
expressions; each is about one operation and cites those below it.
-/

namespace Reckoner

open Number (AngleMode)

/-- A result without a fault, and without errors outside a class. -/
def FailsWith {α : Type} (p : Error → Prop) (x : Except Failure α) : Prop :=
  ∀ f, x = .error f → ∃ e, f = .error e ∧ p e

/-- A result that is no fault. -/
def Faultless {α : Type} (x : Except Failure α) : Prop := ∀ f, x ≠ .error (.fault f)

/-- A result that is no fault, nor an error with a place in the line. -/
def Placeless {α : Type} (x : Except Failure α) : Prop := FailsWith (·.place? = none) x

namespace FailsWith

variable {α β : Type} {p : Error → Prop}

theorem ok (a : α) : FailsWith p (.ok a) := by
  rintro f ⟨⟩

theorem fail {e : Error} (h : p e) : FailsWith p (Reckoner.fail e : Except Failure α) := by
  rintro f ⟨⟩
  exact ⟨e, rfl, h⟩

theorem misused {why : Misuse} (h : p (.misused why)) :
    FailsWith p (Reckoner.misused why : Except Failure α) :=
  fail h

theorem bind {x : Except Failure α} {g : α → Except Failure β} (hx : FailsWith p x)
    (hg : ∀ a, x = .ok a → FailsWith p (g a)) : FailsWith p (x >>= g) := by
  cases x with
  | ok a => exact hg a rfl
  | error e =>
      rintro f ⟨⟩
      exact hx e rfl

theorem map {x : Except Failure α} (hx : FailsWith p x) (g : α → β) : FailsWith p (x.map g) := by
  cases x with
  | ok a => exact ok (g a)
  | error e =>
      rintro f ⟨⟩
      exact hx e rfl

theorem mapM {g : α → Except Failure β} (hg : ∀ a, FailsWith p (g a)) (l : List α) :
    FailsWith p (l.mapM g) := by
  induction l with
  | nil => exact ok []
  | cons a l ih =>
      rw [List.mapM_cons]
      exact (hg a).bind fun b _ => ih.bind fun bs _ => ok (b :: bs)

theorem faultless {x : Except Failure α} (hx : FailsWith p x) : Faultless x := by
  intro f h
  obtain ⟨e, ⟨⟩, -⟩ := hx _ h

theorem error {e : Error} (h : FailsWith p (.error (.error e) : Except Failure α)) : p e := by
  obtain ⟨_, ⟨⟩, he⟩ := h _ rfl
  exact he

theorem imp {q : Error → Prop} {x : Except Failure α} (hx : FailsWith p x)
    (h : ∀ e, p e → q e) : FailsWith q x := by
  intro f hf
  obtain ⟨e, rfl, he⟩ := hx f hf
  exact ⟨e, rfl, h e he⟩

end FailsWith

/-! ## Errors about values -/

/-- Whether an error is about values: it is neither of reading a line nor of the depth of one. -/
def Error.IsOfValues : Error → Prop
  | nothingEntered | unexpectedCharacter _ _ | misplaced _ _ | tooDeep _ => False
  | _ => True

theorem Error.IsOfValues.kind_ne {e : Error} (h : e.IsOfValues) : e.kind ≠ .tooComplex := by
  cases e with
  | nothingEntered => exact h.elim
  | unexpectedCharacter => exact h.elim
  | misplaced => exact h.elim
  | tooDeep => exact h.elim
  | _ => nofun

theorem Error.IsOfValues.place?_eq_none {e : Error} (h : e.IsOfValues) : e.place? = none := by
  cases e with
  | unexpectedCharacter => exact h.elim
  | misplaced => exact h.elim
  | _ => rfl

/-! ## Units -/

/-- Whether an error is about units: one that the table does not have, or two that do not go
together. -/
def Error.IsOfUnits (e : Error) : Prop := e.kind = .unknownUnit ∨ e.kind = .dimensionMismatch

theorem Error.IsOfUnits.isOfValues {e : Error} (h : e.IsOfUnits) : e.IsOfValues := by
  cases e with
  | nothingEntered => simp [IsOfUnits, kind] at h
  | unexpectedCharacter => simp [IsOfUnits, kind] at h
  | misplaced why => cases why <;> simp [IsOfUnits, kind, Misplacement.kind] at h
  | tooDeep => simp [IsOfUnits, kind] at h
  | _ => trivial

theorem FailsWith.of_units {α : Type} {x : Except Failure α} (hx : FailsWith Error.IsOfUnits x) :
    FailsWith Error.IsOfValues x :=
  hx.imp fun _ he => he.isOfValues

namespace UnitTable

/-- No unit of the table has the scale zero. -/
def Scaled (units : UnitTable) : Prop := ∀ entry ∈ units.entries, (entry.2.scale == 0) = false

theorem standard_scaled : standard.Scaled := by
  unfold Scaled
  decide

theorem mem_of_measure {units : UnitTable} {name : String} {m : Measure}
    (h : units.measure name = .ok m) : (name, m) ∈ units.entries := by
  unfold measure at h
  split at h
  · next found =>
    injection h with h
    subst h
    exact Ledger.mem_of_findIn found
  · cases h

theorem scale_ne_zero {units : UnitTable} (hu : units.Scaled) {name : String} {m : Measure}
    (h : units.measure name = .ok m) : (m.scale == 0) = false :=
  hu (name, m) (mem_of_measure h)

theorem measure_failsWith (units : UnitTable) (name : String) :
    FailsWith Error.IsOfUnits (units.measure name) := by
  unfold measure
  split
  · exact .ok _
  · exact .fail (.inl rfl)

theorem dimension_failsWith (units : UnitTable) (name : String) :
    FailsWith Error.IsOfUnits (units.dimension name) :=
  (units.measure_failsWith name).map _

variable {units : UnitTable} (hu : units.Scaled)

include hu

/-- A conversion fails only for its units: the divisor is the scale of one of the table. -/
theorem convert_failsWith (x : Float) (source target : String) :
    FailsWith Error.IsOfUnits (units.convert x source target) := by
  refine (units.measure_failsWith source).bind fun src _ => ?_
  refine (units.measure_failsWith target).bind fun dst hdst => ?_
  split
  · split
    · next hzero => exact absurd hzero (Bool.eq_false_iff.mp (scale_ne_zero hu hdst))
    · exact .ok _
  · exact .fail (.inr rfl)

theorem toBase_failsWith (q : Quantity) : FailsWith Error.IsOfUnits (units.toBase q) :=
  (units.dimension_failsWith q.unit).bind fun _ _ =>
    (convert_failsWith hu _ _ _).bind fun _ _ => .ok _

theorem add_failsWith (p q : Quantity) : FailsWith Error.IsOfUnits (units.add p q) := by
  refine (units.dimension_failsWith p.unit).bind fun d _ => ?_
  refine (units.dimension_failsWith q.unit).bind fun e _ => ?_
  split
  · exact (toBase_failsWith hu p).bind fun a _ => (toBase_failsWith hu q).bind fun b _ => .ok _
  · exact .fail (.inr rfl)

end UnitTable

/-! ## Operations on values -/

namespace Value

theorem measured_failsWith (units : UnitTable) (v : Value) :
    FailsWith Error.IsOfValues (v.measured units) := by
  cases v with
  | number x => exact .ok _
  | quantity q => exact (units.dimension_failsWith q.unit).of_units.map _
  | text s => exact .ok _

theorem mismatch_failsWith {α : Type} (units : UnitTable) (a b : Value) :
    FailsWith Error.IsOfValues (mismatch units a b : Except Failure α) :=
  (a.measured_failsWith units).bind fun _ _ =>
    (b.measured_failsWith units).bind fun _ _ => .fail trivial

/-- A quotient fails only for zero by zero. -/
theorem quotient_failsWith (a b : Float) : FailsWith (· = .zeroByZero) (quotient a b) := by
  unfold quotient
  split
  · split
    · exact .fail rfl
    split
    · exact .ok _
    split
    · exact .ok _
    · exact .ok _
  · exact .ok _

theorem quotient_ofValues (a b : Float) : FailsWith Error.IsOfValues (quotient a b) :=
  (quotient_failsWith a b).imp fun _ he => he ▸ trivial

theorem mul_failsWith (operation : String) (a b : Value) :
    FailsWith Error.IsOfValues (a.mul operation b) := by
  unfold mul
  split
  · exact .ok _
  · exact .ok _
  · exact .ok _
  · exact .misused trivial

theorem pow_failsWith (operation : String) (a b : Value) :
    FailsWith Error.IsOfValues (a.pow operation b) := by
  unfold pow
  split
  · exact .ok _
  · exact .misused trivial

theorem percent_failsWith (v : Value) : FailsWith Error.IsOfValues v.percent := by
  unfold percent
  split
  · exact .ok _
  · exact .misused trivial

theorem share_failsWith (operation : String) (a b : Value) :
    FailsWith Error.IsOfValues (share operation a b) :=
  b.percent_failsWith.bind fun _ _ => mul_failsWith operation a _

variable {units : UnitTable} (hu : units.Scaled)

include hu

theorem add_failsWith (operation : String) (a b : Value) :
    FailsWith Error.IsOfValues (a.add units operation b) := by
  unfold add
  split
  · exact .ok _
  · exact (UnitTable.add_failsWith hu _ _).of_units.map _
  · exact mismatch_failsWith units _ _
  · exact mismatch_failsWith units _ _
  · exact .misused trivial

theorem sub_failsWith (operation : String) (a b : Value) :
    FailsWith Error.IsOfValues (a.sub units operation b) := by
  unfold sub
  split
  · exact .ok _
  · exact (UnitTable.add_failsWith hu _ _).of_units.map _
  · exact mismatch_failsWith units _ _
  · exact mismatch_failsWith units _ _
  · exact .misused trivial

theorem ratio_failsWith (p q : Quantity) : FailsWith Error.IsOfValues (ratio units p q) := by
  refine (UnitTable.toBase_failsWith hu p).of_units.bind fun a _ => ?_
  refine (UnitTable.toBase_failsWith hu q).of_units.bind fun b _ => ?_
  split
  · exact quotient_ofValues _ _
  · exact mismatch_failsWith units _ _

theorem div_failsWith (operation : String) (a b : Value) :
    FailsWith Error.IsOfValues (a.div units operation b) := by
  unfold div
  split
  · exact (quotient_ofValues _ _).map _
  · exact (quotient_ofValues _ _).map _
  · exact (ratio_failsWith hu _ _).map _
  · exact .misused trivial

theorem convert_failsWith (target : String) (v : Value) :
    FailsWith Error.IsOfValues (v.convert units target) := by
  refine (units.dimension_failsWith target).of_units.bind fun d _ => ?_
  cases v with
  | quantity q =>
      exact (UnitTable.convert_failsWith hu _ _ _).of_units.bind fun _ _ => .ok _
  | number x => exact (measured_failsWith units _).bind fun _ _ => .fail trivial
  | text s => exact (measured_failsWith units _).bind fun _ _ => .fail trivial

end Value

theorem UnaryOp.apply_failsWith (op : UnaryOp) (v : Value) :
    FailsWith Error.IsOfValues (op.apply v) := by
  cases op with
  | percent => exact v.percent_failsWith
  | neg =>
      cases v with
      | number x => exact .ok _
      | quantity q => exact .ok _
      | text s => exact .misused trivial
  | pos =>
      cases v with
      | number x => exact .ok _
      | quantity q => exact .ok _
      | text s => exact .misused trivial

theorem BinaryOp.combine_failsWith {units : UnitTable} (hu : units.Scaled) (op : BinaryOp)
    (a b : Value) : FailsWith Error.IsOfValues (op.combine units a b) := by
  cases op with
  | add => exact Value.add_failsWith hu _ a b
  | sub => exact Value.sub_failsWith hu _ a b
  | mul => exact Value.mul_failsWith _ a b
  | div => exact Value.div_failsWith hu _ a b
  | pow => exact Value.pow_failsWith _ a b
  | percentAdd =>
      exact (Value.share_failsWith _ a b).bind fun s _ => Value.add_failsWith hu _ a s
  | percentSub =>
      exact (Value.share_failsWith _ a b).bind fun s _ => Value.sub_failsWith hu _ a s

/-! ## Functions -/

/-- Whether an error is about the arguments of a function. -/
def Error.IsOfArguments : Error → Prop
  | misused _ | factorialDomain _ => True
  | _ => False

theorem Error.IsOfArguments.isOfValues {e : Error} (h : e.IsOfArguments) : e.IsOfValues := by
  cases e with
  | nothingEntered => exact h
  | unexpectedCharacter => exact h
  | misplaced => exact h
  | tooDeep => exact h
  | _ => trivial

namespace Operation

variable {α β : Type} {mode : AngleMode} {p : Error → Prop}

theorem bind_failsWith {x : Operation α} {g : α → Operation β}
    (hx : ∀ mode, FailsWith p (x.run mode)) (hg : ∀ a mode, FailsWith p ((g a).run mode)) :
    FailsWith p ((x >>= g).run mode) := by
  rw [StateT.run_bind]
  exact (hx mode).bind fun r _ => hg r.1 r.2

theorem lift_failsWith {x : Except Failure α} (hx : FailsWith p x) :
    FailsWith p ((liftM x : Operation α).run mode) :=
  hx.bind fun a _ => .ok (a, mode)

theorem pure_failsWith (a : α) : FailsWith p ((pure a : Operation α).run mode) := .ok _

end Operation

theorem factorialOf_failsWith (x : Float) : FailsWith Error.IsOfArguments (factorialOf x) := by
  unfold factorialOf
  split
  · split
    · exact .ok _
    · exact .fail trivial
  · exact .fail trivial

theorem UnaryFunction.apply_failsWith (mode : AngleMode) (x : Float) (f : UnaryFunction) :
    FailsWith Error.IsOfArguments (f.apply mode x) := by
  cases f with
  | factorial => exact factorialOf_failsWith x
  | _ => exact .ok _

namespace Builtin

theorem numberArg_failsWith (f : Builtin) (a : Value) :
    FailsWith Error.IsOfArguments (f.numberArg a) := by
  cases a with
  | number x => exact .ok x
  | quantity q => exact .misused trivial
  | text s => exact .misused trivial

theorem integerArg_failsWith (f : Builtin) (x : Float) :
    FailsWith Error.IsOfArguments (f.integerArg x) := by
  unfold integerArg
  split
  · exact .ok _
  · exact .misused trivial

theorem integerArgs_failsWith (f : Builtin) (args : List Value) :
    FailsWith Error.IsOfArguments (f.integerArgs args) :=
  (FailsWith.mapM f.numberArg_failsWith args).bind fun xs _ =>
    FailsWith.mapM f.integerArg_failsWith xs

open Operation in
/-- **A function that gives no value blames its arguments.** -/
theorem apply_failsWith (f : Builtin) (args : List Value) (mode : AngleMode) :
    FailsWith Error.IsOfArguments ((f.apply args).run mode) := by
  -- every shape of function starts by asking for its numbers
  have number (g : Builtin) (a : Value) (mode : AngleMode) :
      FailsWith Error.IsOfArguments ((liftM (g.numberArg a) : Operation Float).run mode) :=
    lift_failsWith (g.numberArg_failsWith a)
  unfold apply
  split
  · refine bind_failsWith (number _ _) fun x mode => ?_
    refine bind_failsWith (fun mode => .ok (mode, mode)) fun current mode => ?_
    refine bind_failsWith (fun mode => lift_failsWith (UnaryFunction.apply_failsWith _ _ _)) ?_
    exact fun y mode => pure_failsWith _
  · refine bind_failsWith (number _ _) fun x mode => ?_
    exact bind_failsWith (number _ _) fun y mode => pure_failsWith _
  · refine bind_failsWith (number _ _) fun x mode => ?_
    exact bind_failsWith (number _ _) fun y mode => pure_failsWith _
  · refine bind_failsWith (number _ _) fun x mode => ?_
    refine bind_failsWith (number _ _) fun y mode => ?_
    refine bind_failsWith (number _ _) fun u mode => ?_
    exact bind_failsWith (number _ _) fun v mode => pure_failsWith _
  · refine bind_failsWith (fun mode => lift_failsWith (integerArgs_failsWith _ _)) ?_
    exact fun ns mode => pure_failsWith _
  · refine bind_failsWith (fun mode => lift_failsWith (integerArgs_failsWith _ _)) ?_
    exact fun ns mode => pure_failsWith _
  · exact .ok _
  · exact lift_failsWith (.fail trivial)

end Builtin

/-! ## Expressions -/

namespace Computation

variable {σ α β : Type} {p : Error → Prop}

theorem bind_failsWith {x : Computation σ α} {g : α → Computation σ β} {s : σ}
    (hx : FailsWith p (x.run s).1) (hg : ∀ a s, FailsWith p ((g a).run s).1) :
    FailsWith p ((x >>= g).run s).1 := by
  rw [run_bind]
  revert hx
  obtain ⟨outcome, between⟩ := x.run s
  cases outcome with
  | ok a => exact fun _ => hg a between
  | error e =>
      intro hx f h
      exact hx f (by cases h; rfl)

end Computation

theorem Evaluation.operation_failsWith {α : Type} {p : Error → Prop} {x : Operation α}
    {mode : AngleMode} (hx : FailsWith p (x.run mode)) :
    FailsWith p ((liftM x : Evaluation α).run mode).1 := by
  rw [run_operation]
  revert hx
  cases x.run mode with
  | ok r => exact fun _ => .ok _
  | error e =>
      intro h f heq
      exact h f (by cases heq; rfl)

/-- Whether an error is about values, or is the one for a depth beyond the limit where something is
as deep as that. -/
def Error.IsOfEvaluation (limit deepest : Nat) (e : Error) : Prop :=
  e.IsOfValues ∨ e = .tooDeep limit ∧ limit < deepest

theorem Error.IsOfEvaluation.place?_eq_none {limit deepest : Nat} {e : Error}
    (h : e.IsOfEvaluation limit deepest) : e.place? = none := by
  rcases h with h | ⟨rfl, -⟩
  · exact h.place?_eq_none
  · rfl

theorem Error.IsOfEvaluation.mono {limit deepest deeper : Nat} {e : Error}
    (h : e.IsOfEvaluation limit deepest) (hle : deepest ≤ deeper) :
    e.IsOfEvaluation limit deeper :=
  h.imp_right fun ⟨he, hlt⟩ => ⟨he, Nat.lt_of_lt_of_le hlt hle⟩

theorem FailsWith.of_values {α : Type} {limit deepest : Nat} {x : Except Failure α}
    (hx : FailsWith Error.IsOfValues x) : FailsWith (Error.IsOfEvaluation limit deepest) x :=
  hx.imp fun _ he => .inl he

namespace Expr

variable {m : Memory} {limit : Nat}

/-- A node at some depth stops for its depth, or it stops as what is done there does. -/
theorem node_failsWith {α : Type} {x : Evaluation α} {depth deepest : Nat} {mode : AngleMode}
    (hle : depth ≤ deepest) (hx : FailsWith (Error.IsOfEvaluation limit deepest) (x.run mode).1) :
    FailsWith (Error.IsOfEvaluation limit deepest)
      ((if limit < depth then liftM (fail (.tooDeep limit) : Except Failure α) else x :
        Evaluation α).run mode).1 := by
  split
  · next hdepth => exact .fail (.inr ⟨rfl, Nat.lt_of_lt_of_le hdepth hle⟩)
  · exact hx

mutual

/-- **An evaluation answers, or stops with an error of the user.** It is about values, or the
expression reaches deeper than the limit. -/
theorem eval_failsWith (hu : m.units.Scaled) : ∀ (e : Expr) (depth : Nat) (mode : AngleMode),
    FailsWith (Error.IsOfEvaluation limit (depth + e.height)) ((e.eval m limit depth).run mode).1
  | .number x place, depth, mode => by
      rw [eval]
      exact node_failsWith (Nat.le_add_right ..) (.ok _)
  | .name n place, depth, mode => by
      rw [eval]
      refine node_failsWith (Nat.le_add_right ..) ?_
      split
      · exact .ok _
      · exact .fail (.inl trivial)
  | .quantity amount unit place, depth, mode => by
      rw [eval]
      refine node_failsWith (Nat.le_add_right ..) ?_
      refine Computation.bind_failsWith ((eval_failsWith hu amount _ _).imp fun _ he => ?_)
        fun a mode => ?_
      · refine he.mono ?_
        rw [height]
        omega
      refine Computation.bind_failsWith (m.units.measure_failsWith unit).of_units.of_values
        fun _ mode => ?_
      cases a with
      | number x => exact .ok _
      | quantity q => exact .misused (.inl trivial)
      | text s => exact .misused (.inl trivial)
  | .call function args place, depth, mode => by
      rw [eval]
      refine node_failsWith (Nat.le_add_right ..) ?_
      split
      · next f _ =>
        refine Computation.bind_failsWith (evalAll_failsWith hu args _ _) fun vs mode => ?_
        refine Evaluation.operation_failsWith ((f.apply_failsWith vs mode).imp fun _ he => ?_)
        exact .inl he.isOfValues
      · exact .fail (.inl trivial)
  | .binary op left right place, depth, mode => by
      rw [eval]
      refine node_failsWith (Nat.le_add_right ..) ?_
      refine Computation.bind_failsWith ((eval_failsWith hu left _ _).imp fun _ he => ?_)
        fun a mode => ?_
      · refine he.mono ?_
        rw [height]
        omega
      refine Computation.bind_failsWith ((eval_failsWith hu right _ _).imp fun _ he => ?_)
        fun b mode => ?_
      · refine he.mono ?_
        rw [height]
        omega
      exact (op.combine_failsWith hu a b).of_values
  | .unary op operand place, depth, mode => by
      rw [eval]
      refine node_failsWith (Nat.le_add_right ..) ?_
      refine Computation.bind_failsWith ((eval_failsWith hu operand _ _).imp fun _ he => ?_)
        fun a mode => ?_
      · refine he.mono ?_
        rw [height]
        omega
      exact (op.apply_failsWith a).of_values

/-- The expressions are those below a node. -/
theorem evalAll_failsWith (hu : m.units.Scaled) : ∀ (es : List Expr) (depth : Nat)
    (mode : AngleMode), FailsWith (Error.IsOfEvaluation limit (depth + heightAbove es))
      ((evalAll m limit (depth + 1) es).run mode).1
  | [], depth, mode => by
      rw [evalAll]
      exact .ok _
  | e :: es, depth, mode => by
      rw [evalAll]
      refine Computation.bind_failsWith ((eval_failsWith hu e _ _).imp fun _ he => ?_)
        fun v mode => ?_
      · refine he.mono ?_
        rw [heightAbove]
        omega
      refine Computation.bind_failsWith ((evalAll_failsWith hu es _ _).imp fun _ he => ?_)
        fun vs mode => ?_
      · refine he.mono ?_
        rw [heightAbove]
        omega
      exact .ok _

end

end Expr

end Reckoner
