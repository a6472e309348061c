import Reckoner.Expr.Basic
import Reckoner.Proofs.Eval.Effect

/-!
# Reckoner.Proofs.Eval.Mention -- evaluation depends on what a statement mentions

Of a memory an evaluation reads the units and the numbers of the names that it meets, besides the
angle mode that it runs in. Two memories that agree on these cannot be told apart by it, whatever
else they remember.

Only the circular functions and their inverses look at the angle mode. Where an expression calls
none of them its outcome is the same in both modes, and a switch in the middle of it changes
nothing: an outcome that does not depend on the mode it starts in does not depend on the mode that
the part before it leaves.

Together this is all that a statement can learn from a memory: the units, the numbers of the names
in it, and the angle mode if it calls one of those functions.
-/

namespace Reckoner

/-! ## Names -/

/-- Two memories that have the same units and the same numbers under some names. -/
structure Memory.AgreeOn (names : List String) (m n : Memory) : Prop where
  units : m.units = n.units
  number? : ∀ name ∈ names, m.number? name = n.number? name

namespace Memory.AgreeOn

variable {names more : List String} {m n : Memory}

theorem left (h : AgreeOn (names ++ more) m n) : AgreeOn names m n :=
  ⟨h.units, fun name hname => h.number? name (List.mem_append_left _ hname)⟩

theorem right (h : AgreeOn (names ++ more) m n) : AgreeOn more m n :=
  ⟨h.units, fun name hname => h.number? name (List.mem_append_right _ hname)⟩

end Memory.AgreeOn

namespace Expr

variable {m m' : Memory} {limit : Nat}

mutual

/-- **An evaluation depends on the names in the expression only.** By induction on the expression:
a part has no names that the whole does not have. -/
theorem eval_congr : ∀ (e : Expr) (depth : Nat), m.AgreeOn e.names m' →
    e.eval m limit depth = e.eval m' limit depth
  | .number x place, depth, h => by rw [eval, eval]
  | .name n place, depth, h => by
      rw [names] at h
      rw [eval, eval, h.number? n (List.mem_singleton_self n)]
  | .quantity amount unit place, depth, h => by
      rw [names] at h
      rw [eval, eval, eval_congr amount (depth + 1) h, h.units]
  | .call function args place, depth, h => by
      rw [names] at h
      rw [eval, eval, evalAll_congr args (depth + 1) h]
  | .binary op left right place, depth, h => by
      rw [names] at h
      rw [eval, eval, eval_congr left (depth + 1) h.left, eval_congr right (depth + 1) h.right,
        h.units]
  | .unary op operand place, depth, h => by
      rw [names] at h
      rw [eval, eval, eval_congr operand (depth + 1) h]

theorem evalAll_congr : ∀ (es : List Expr) (depth : Nat), m.AgreeOn (namesAll es) m' →
    evalAll m limit depth es = evalAll m' limit depth es
  | [], depth, h => by rw [evalAll, evalAll]
  | e :: es, depth, h => by
      rw [namesAll] at h
      rw [evalAll, evalAll, eval_congr e depth h.left, evalAll_congr es depth h.right]

end

end Expr

open Number (AngleMode)

/-- The functions whose value depends on the angle mode. -/
def circularFunctions : List String := ["sin", "cos", "tan", "asin", "acos", "atan"]

/-! ## Outcomes that are the same in both modes -/

/-- A computation whose outcome does not depend on the state that it starts in. -/
def Computation.Constant {σ α : Type} (x : Computation σ α) : Prop :=
  ∀ s t, (x.run s).1 = (x.run t).1

namespace Computation.Constant

variable {σ α β : Type}

theorem lift (x : Except Failure α) : Constant (liftM x : Computation σ α) := fun _ _ => rfl

/-- What is behind a part may start in any state that the part leaves. -/
theorem bind {x : Computation σ α} {g : α → Computation σ β} (hx : x.Constant)
    (hg : ∀ a, (g a).Constant) : (x >>= g).Constant := by
  intro s t
  rw [run_bind, run_bind]
  have houtcome : (x.run s).1 = (x.run t).1 := hx s t
  revert houtcome
  obtain ⟨outcome, after⟩ := x.run s
  obtain ⟨outcome', after'⟩ := x.run t
  rintro ⟨⟩
  cases outcome with
  | ok a => exact hg a after after'
  | error f => rfl

end Computation.Constant

/-- An operation whose outcome does not depend on the mode. -/
def Operation.Constant {α : Type} (x : Operation α) : Prop :=
  ∀ mode other, (x.run mode).map Prod.fst = (x.run other).map Prod.fst

namespace Operation.Constant

variable {α β : Type}

theorem lift (x : Except Failure α) : Constant (liftM x : Operation α) := by
  intro mode other
  cases x with
  | ok a => rfl
  | error f => rfl

theorem pure (a : α) : Constant (pure a : Operation α) := fun _ _ => rfl

theorem bind {x : Operation α} {g : α → Operation β} (hx : x.Constant)
    (hg : ∀ a, (g a).Constant) : (x >>= g).Constant := by
  intro mode other
  rw [StateT.run_bind, StateT.run_bind]
  have houtcome := hx mode other
  revert houtcome
  cases x.run mode with
  | error f =>
      cases x.run other with
      | error f' => rintro ⟨⟩; rfl
      | ok r' => rintro ⟨⟩
  | ok r =>
      cases x.run other with
      | error f' => rintro ⟨⟩
      | ok r' =>
          obtain ⟨a, after⟩ := r
          obtain ⟨a', after'⟩ := r'
          rintro ⟨⟩
          exact hg a after after'

/-- An operation that asks for the mode, if it does the same with either answer. -/
theorem get_bind {g : AngleMode → Operation α}
    (hg : ∀ mode other, ((g mode).run mode).map Prod.fst = ((g other).run other).map Prod.fst) :
    (get >>= g : Operation α).Constant :=
  fun mode other => hg mode other

/-- As a part of a computation it gives the same from either mode, too. -/
theorem computation {x : Operation α} (hx : x.Constant) :
    Computation.Constant (liftM x : Evaluation α) := by
  have houtcome (mode : AngleMode) :
      ((liftM x : Evaluation α).run mode).1 = (x.run mode).map Prod.fst := by
    rw [Evaluation.run_operation]
    cases x.run mode with
    | ok r => rfl
    | error f => rfl
  intro mode other
  rw [houtcome, houtcome]
  exact hx mode other

end Operation.Constant

/-! ## Functions -/

namespace Builtin

variable {name : String}

/-- A function of one number that is no circular one is the same in both modes. -/
theorem unary_apply_eq {g : UnaryFunction} (hg : ofName? name = some (unary g))
    (hname : name ∉ circularFunctions) (x : Float) (mode other : AngleMode) :
    g.apply mode x = g.apply other x := by
  have htable : ∀ row ∈ table, row.1 ∉ circularFunctions →
      row.2 ∉ [unary .sin, unary .cos, unary .tan, unary .asin, unary .acos, unary .atan] := by
    decide
  have hother := htable _ (mem_table hg) hname
  cases g with
  | sin | cos | tan | asin | acos | atan => exact absurd (by simp) hother
  | _ => rfl

open Operation.Constant in
/-- **A function that is no circular one gives the same in both modes.** So does a switch: what it
confirms is the mode that it switches to. -/
theorem apply_constant {f : Builtin} (hf : ofName? name = some f)
    (hname : name ∉ circularFunctions) (args : List Value) : (f.apply args).Constant := by
  have number (g : Builtin) (a : Value) :
      (liftM (g.numberArg a) : Operation Float).Constant := lift _
  unfold apply
  split
  · next g a =>
    -- the one place that asks for the mode, and this function makes nothing of it
    refine bind (number _ a) fun x => get_bind fun mode other => ?_
    rw [unary_apply_eq hf hname x mode other]
    exact bind (lift _) (fun y => pure _) mode other
  · next a b => exact bind (number _ a) fun x => bind (number _ b) fun y => pure _
  · next a b => exact bind (number _ a) fun x => bind (number _ b) fun y => pure _
  · next a b c d =>
    refine bind (number _ a) fun x => bind (number _ b) fun y => ?_
    exact bind (number _ c) fun u => bind (number _ d) fun v => pure _
  · exact bind (lift _) fun ns => pure _
  · exact bind (lift _) fun ns => pure _
  · exact fun _ _ => rfl
  · exact lift _

end Builtin

/-! ## Expressions -/

namespace Expr

open Computation.Constant

variable {m : Memory} {limit : Nat}

mutual

/-- **The outcome of an expression that calls no circular function is the same in both modes.** By
induction on the expression: what a part leaves behind is a mode, and the next part gives the same
in any. -/
theorem eval_constant : ∀ (e : Expr) (depth : Nat), (∀ f ∈ e.callees, f ∉ circularFunctions) →
    (e.eval m limit depth).Constant
  | .number x place, depth, h => by
      rw [eval]
      split
      · exact lift _
      · exact lift (.ok _)
  | .name n place, depth, h => by
      rw [eval]
      split
      · exact lift _
      · split
        · exact lift (.ok _)
        · exact lift _
  | .quantity amount unit place, depth, h => by
      rw [callees] at h
      rw [eval]
      split
      · exact lift _
      · refine bind (eval_constant amount (depth + 1) h) fun v => bind (lift _) fun _ => ?_
        cases v with
        | number x => exact lift (.ok _)
        | quantity q => exact lift _
        | text s => exact lift _
  | .call function args place, depth, h => by
      rw [callees, List.forall_mem_cons] at h
      rw [eval]
      split
      · exact lift _
      · split
        · next f hf =>
          exact bind (evalAll_constant args (depth + 1) h.2) fun vs =>
            (Builtin.apply_constant hf h.1 vs).computation
        · exact lift _
  | .binary op left right place, depth, h => by
      rw [callees, List.forall_mem_append] at h
      rw [eval]
      split
      · exact lift _
      · exact bind (eval_constant left (depth + 1) h.1) fun a =>
          bind (eval_constant right (depth + 1) h.2) fun b => lift _
  | .unary op operand place, depth, h => by
      rw [callees] at h
      rw [eval]
      split
      · exact lift _
      · exact bind (eval_constant operand (depth + 1) h) fun v => lift _

theorem evalAll_constant : ∀ (es : List Expr) (depth : Nat),
    (∀ f ∈ calleesAll es, f ∉ circularFunctions) → (evalAll m limit depth es).Constant
  | [], depth, h => by
      rw [evalAll]
      exact lift (.ok _)
  | e :: es, depth, h => by
      rw [calleesAll, List.forall_mem_append] at h
      rw [evalAll]
      exact bind (eval_constant e depth h.1) fun v =>
        bind (evalAll_constant es depth h.2) fun vs => lift (.ok _)

end

end Expr

/-! ## Statements -/

/-- What the numbers of some names come from is the same in two memories: their variables, and the
result before if its name is among them. -/
theorem Memory.agreeOn_of_bindings {names : List String} {m n : Memory} (hunits : m.units = n.units)
    (hbindings : ∀ name ∈ names, m.bindings.find? name = n.bindings.find? name)
    (hlast : previousResult ∈ names → m.lastResult = n.lastResult) : m.AgreeOn names n := by
  refine ⟨hunits, fun name hname => ?_⟩
  unfold number?
  rw [hbindings name hname]
  by_cases hprevious : name = previousResult
  · rw [hlast (hprevious ▸ hname)]
  · rw [if_neg hprevious, if_neg hprevious]

namespace Statement

variable {m n : Memory} {limit : Nat}

theorem valueOf_congr {e : Expr} (hagree : m.AgreeOn e.names n)
    (hmode : (∃ f ∈ e.callees, f ∈ circularFunctions) → m.angleMode = n.angleMode) :
    ((valueOf limit e).run m).1 = ((valueOf limit e).run n).1 := by
  show ((e.eval m limit 0).run m.angleMode).1 = ((e.eval n limit 0).run n.angleMode).1
  rw [e.eval_congr 0 hagree]
  by_cases hcircular : ∃ f ∈ e.callees, f ∈ circularFunctions
  · rw [hmode hcircular]
  · exact e.eval_constant 0 (fun f hf hmem => hcircular ⟨f, hf, hmem⟩) _ _

/-- Behind an expression a statement goes on in memories with the same units. -/
theorem run_valueOf_congr {e : Expr} {g : Value → Action Value} (hagree : m.AgreeOn e.names n)
    (hmode : (∃ f ∈ e.callees, f ∈ circularFunctions) → m.angleMode = n.angleMode)
    (hg : ∀ (v : Value) (m n : Memory), m.units = n.units →
      ((g v).run m).1 = ((g v).run n).1) :
    ((valueOf limit e >>= g).run m).1 = ((valueOf limit e >>= g).run n).1 := by
  have hvalue : ((valueOf limit e).run m).1 = ((valueOf limit e).run n).1 :=
    valueOf_congr hagree hmode
  have hunits : ((valueOf limit e).run m).2.units = ((valueOf limit e).run n).2.units :=
    hagree.units
  rw [Computation.run_bind, Computation.run_bind]
  revert hvalue hunits
  obtain ⟨outcome, between⟩ := (valueOf limit e).run m
  obtain ⟨outcome', between'⟩ := (valueOf limit e).run n
  rintro ⟨⟩ hunits
  cases outcome with
  | error f => rfl
  | ok v => exact hg v between between' hunits

/-- Storing a value gives it back, if it can be stored. -/
theorem run_store (name : String) (v : Value) (m : Memory) :
    ((do set (← stored (← get) name v); return v : Action Value).run m).1 =
      (stored m name v).map fun _ => v := by
  show ((liftM (stored m name v) >>= fun after => set after >>= fun _ => pure v :
    Action Value).run m).1 = _
  cases stored m name v with
  | ok after => rfl
  | error f => rfl

/-- Whether a value can be stored under a name depends on the units of the memory alone. -/
theorem stored_congr (hunits : m.units = n.units) (name : String) (v : Value) :
    (stored m name v).map (fun _ => v) = (stored n name v).map (fun _ => v) := by
  have hreserved : m.isReserved name = n.isReserved name := by
    rw [Memory.isReserved, Memory.isReserved, hunits]
  unfold stored
  rw [hreserved]
  split
  · rfl
  · cases v with
    | number x => rfl
    | quantity q => rfl
    | text s => rfl

theorem attempt_congr {s : Statement} (hagree : m.AgreeOn s.names n)
    (hmode : (∃ f ∈ s.callees, f ∈ circularFunctions) → m.angleMode = n.angleMode) :
    ((s.attempt limit).run m).1 = ((s.attempt limit).run n).1 := by
  cases s with
  | expression e => exact valueOf_congr hagree hmode
  | assign name e place =>
      refine run_valueOf_congr hagree hmode fun v m n hunits => ?_
      rw [run_store, run_store]
      exact stored_congr hunits name v
  | convert e unit place =>
      refine run_valueOf_congr hagree hmode fun v m n hunits => ?_
      exact congrArg (v.convert · unit) hunits

/-- Putting the mode back leaves the outcome as it is. -/
theorem perform_outcome (limit : Nat) (s : Statement) (m : Memory) :
    ((s.perform limit).run m).1 = ((s.attempt limit).run m).1 := by
  rw [run_perform]
  split
  · next heq => rw [heq]
  · rfl

/-- **The outcome of a statement depends on what it mentions only.** Two memories with the same
units give a statement the same value, or the same error, if they agree on the variables with a
name in it, on the result before if that is one of the names, and on the angle mode if a circular
function or an inverse of one is called. The name that is assigned to does not count. -/
theorem perform_congr (limit : Nat) (s : Statement) (m n : Memory) (hunits : m.units = n.units)
    (hbindings : ∀ name ∈ s.names, m.bindings.find? name = n.bindings.find? name)
    (hlast : previousResult ∈ s.names → m.lastResult = n.lastResult)
    (hmode : (∃ f ∈ s.callees, f ∈ circularFunctions) → m.angleMode = n.angleMode) :
    ((s.perform limit).run m).1 = ((s.perform limit).run n).1 := by
  have hagree : m.AgreeOn s.names n := Memory.agreeOn_of_bindings hunits hbindings hlast
  rw [perform_outcome, perform_outcome]
  exact attempt_congr hagree hmode

/-- The sine of the result before, times `x`, under the name `y`: another variable, and a `y` that
is there already, make no difference. -/
theorem perform_congr_of_sine :
    let s : Statement :=
      .assign "y" (.binary .mul (.name "x" 4) (.call "sin" [.name "prev" 12] 8) 6) 0
    let m : Memory := ⟨.radians, ⟨[("x", 2)]⟩, 1, .standard, .degrees⟩
    let n : Memory := ⟨.radians, ⟨[("y", 3), ("z", 0), ("x", 2)]⟩, 1, .standard, .radians⟩
    m.bindings.find? "y" = none ∧ n.bindings.find? "y" = some 3 ∧
      ((s.perform 9).run m).1 = ((s.perform 9).run n).1 := by
  refine ⟨rfl, rfl, perform_congr 9 _ _ _ rfl (fun name hname => ?_) (fun _ => rfl) fun _ => rfl⟩
  have hnames : name = "x" ∨ name = "prev" := by
    simpa [Statement.names, Expr.names, Expr.namesAll] using hname
  rcases hnames with rfl | rfl
  · rfl
  · rfl

end Statement

end Reckoner
