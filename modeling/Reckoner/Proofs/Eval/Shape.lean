import Reckoner.Eval.Shape
import Reckoner.Proofs.Eval.Effect

/-!
# Reckoner.Proofs.Eval.Shape -- units and sorts do not depend on numbers

The shape of an expression foresees its evaluation: a value has that shape, and an error about
units comes only where there is no shape. The lemmas follow the operations, each with the shape
that is worked out beside it. Since a shape is a matter of the expression and the table of units,
two memories with the same units cannot disagree about it.
-/

namespace Reckoner

open Number (AngleMode)

theorem Error.IsOfArguments.not_isOfUnits {e : Error} (h : e.IsOfArguments) : ¬ e.IsOfUnits := by
  cases e with
  | misused => simp [IsOfUnits, kind]
  | factorialDomain => simp [IsOfUnits, kind]
  | _ => exact h.elim

/-- An outcome as it has been foreseen: a result looks as expected, and where units are in error
nothing has been expected. -/
def Foreseen {α σ : Type} (view : α → σ) (expected : Option σ) : Except Failure α → Prop
  | .ok a => expected = some (view a)
  | .error (.error e) => e.IsOfUnits → expected = none
  | .error (.fault _) => True

namespace Foreseen

variable {α β σ τ : Type} {view : α → σ} {view' : β → τ} {expected : Option σ}

theorem fail {e : Error} (h : ¬ e.IsOfUnits) :
    Foreseen view expected (Reckoner.fail e : Except Failure α) := fun he => absurd he h

theorem misused (why : Misuse) :
    Foreseen view expected (Reckoner.misused why : Except Failure α) :=
  fail (by simp [Error.IsOfUnits, Error.kind])

/-- Where nothing is expected, nothing may come. -/
theorem never {x : Except Failure α} (h : ∀ a, x ≠ .ok a) : Foreseen view none x := by
  cases x with
  | ok a => exact absurd rfl (h a)
  | error f =>
      cases f with
      | error e => exact fun _ => rfl
      | fault f => trivial

theorem of_failsWith {x : Except Failure α} (hok : ∀ a, x = .ok a → expected = some (view a))
    (hfails : FailsWith (fun e => ¬ e.IsOfUnits) x) : Foreseen view expected x := by
  cases x with
  | ok a => exact hok a rfl
  | error f =>
      obtain ⟨e, rfl, he⟩ := hfails f rfl
      exact fail he

theorem bind {x : Except Failure α} {g : α → Except Failure β} {next : σ → Option τ}
    (hx : Foreseen view expected x) (hg : ∀ a, x = .ok a → Foreseen view' (next (view a)) (g a)) :
    Foreseen view' (expected >>= next) (x >>= g) := by
  cases x with
  | ok a =>
      rw [show expected = some (view a) from hx]
      exact hg a rfl
  | error f =>
      cases f with
      | error e =>
          intro he
          rw [show expected = none from hx he]
          rfl
      | fault f => trivial

theorem map {x : Except Failure α} {g : α → β} {next : σ → τ} (hx : Foreseen view expected x)
    (hg : ∀ a, view' (g a) = next (view a)) :
    Foreseen view' (expected.map next) (x.map g) := by
  cases x with
  | ok a =>
      rw [show expected = some (view a) from hx]
      exact congrArg some (hg a).symm
  | error f =>
      cases f with
      | error e =>
          intro he
          rw [show expected = none from hx he]
          rfl
      | fault f => trivial

end Foreseen

/-! ## Units -/

namespace UnitTable

variable (units : UnitTable)

theorem measure_foreseen (name : String) :
    Foreseen Measure.dimension (units.dimension? name) (units.measure name) := by
  unfold dimension? measure
  cases units.find? name with
  | some m => exact rfl
  | none => exact fun _ => rfl

theorem dimension_foreseen (name : String) :
    Foreseen id (units.dimension? name) (units.dimension name) := by
  unfold dimension? dimension measure
  cases units.find? name with
  | some m => exact rfl
  | none => exact fun _ => rfl

/-- Two dimensions go together if they are the same; otherwise they are an error about units. -/
theorem agreement_foreseen {α σ : Type} {view : α → σ} {expected : Option σ} {d e : Dimension}
    {x : Except Failure α} (h : Foreseen view expected x) :
    Foreseen view (if d = e then expected else none) (if d = e then x else mismatch d e) := by
  split
  · exact h
  · exact fun _ => rfl

theorem convert_foreseen (x : Float) (source target : String) :
    Foreseen (fun _ => ()) (units.converts? source target) (units.convert x source target) := by
  refine (units.measure_foreseen source).bind fun src _ => ?_
  refine (units.measure_foreseen target).bind fun dst _ => ?_
  refine agreement_foreseen ?_
  split
  · trivial
  · exact rfl

theorem toBase_foreseen (q : Quantity) :
    Foreseen Quantity.unit (units.base? q.unit) (units.toBase q) := by
  refine (units.dimension_foreseen q.unit).bind fun d _ => ?_
  exact (units.convert_foreseen q.amount q.unit d.baseUnit).bind fun x _ => rfl

theorem add_foreseen (p q : Quantity) :
    Foreseen Quantity.unit (units.sum? p.unit q.unit) (units.add p q) := by
  refine (units.dimension_foreseen p.unit).bind fun d _ => ?_
  refine (units.dimension_foreseen q.unit).bind fun e _ => ?_
  refine agreement_foreseen ?_
  refine (units.toBase_foreseen p).bind fun a _ => ?_
  exact (units.toBase_foreseen q).bind fun b _ => rfl

end UnitTable

/-! ## Operations -/

namespace Value

theorem mismatch_foreseen {α σ : Type} {view : α → σ} {units : UnitTable} {a b : Value} :
    Foreseen view none (mismatch units a b : Except Failure α) :=
  .never fun _ => mismatch_ne_ok

theorem quotient_foreseen (x y : Float) :
    Foreseen (fun _ => ()) (some ()) (quotient x y) := by
  refine .of_failsWith (fun _ _ => rfl) ((quotient_failsWith x y).imp ?_)
  rintro _ rfl
  simp [Error.IsOfUnits, Error.kind]

variable (units : UnitTable) (operation : String)

theorem add_foreseen (a b : Value) :
    Foreseen shape (a.shape.sum? units b.shape) (a.add units operation b) := by
  unfold add
  split
  · exact rfl
  · exact (units.add_foreseen _ _).map fun _ => rfl
  · exact mismatch_foreseen
  · exact mismatch_foreseen
  · exact .misused _

theorem sub_foreseen (a b : Value) :
    Foreseen shape (a.shape.sum? units b.shape) (a.sub units operation b) := by
  unfold sub
  split
  · exact rfl
  · next p q => exact (units.add_foreseen p ⟨-q.amount, q.unit⟩).map fun _ => rfl
  · exact mismatch_foreseen
  · exact mismatch_foreseen
  · exact .misused _

theorem mul_foreseen (a b : Value) :
    Foreseen shape (a.shape.product? b.shape) (a.mul operation b) := by
  unfold mul
  split
  · exact rfl
  · exact rfl
  · exact rfl
  · exact .misused _

theorem ratio_foreseen (p q : Quantity) :
    Foreseen (fun _ => ()) (units.ratio? p.unit q.unit) (ratio units p q) := by
  refine (units.toBase_foreseen p).bind fun a _ => ?_
  refine (units.toBase_foreseen q).bind fun b _ => ?_
  split
  · exact quotient_foreseen _ _
  · exact mismatch_foreseen

theorem div_foreseen (a b : Value) :
    Foreseen shape (a.shape.quotient? units b.shape) (a.div units operation b) := by
  unfold div
  split
  · show Foreseen shape ((some ()).map fun _ => Shape.number) _
    exact (quotient_foreseen _ _).map fun _ => rfl
  · next p y =>
    show Foreseen shape ((some ()).map fun _ => Shape.quantity p.unit) _
    exact (quotient_foreseen _ _).map fun _ => rfl
  · exact (ratio_foreseen units _ _).map fun _ => rfl
  · exact .misused _

theorem pow_foreseen (a b : Value) :
    Foreseen shape (a.shape.power? b.shape) (a.pow operation b) := by
  unfold pow
  split
  · exact rfl
  · exact .misused _

theorem percent_foreseen (a : Value) : Foreseen shape a.shape.percent? a.percent := by
  unfold percent
  split
  · exact rfl
  · exact .misused _

theorem share_foreseen (a b : Value) :
    Foreseen shape (b.shape.percent? >>= a.shape.product?) (share operation a b) :=
  b.percent_foreseen.bind fun p _ => mul_foreseen operation a p

theorem convert_foreseen (target : String) (v : Value) :
    Foreseen shape
      (do let _ ← units.dimension? target
          v.shape.converted? units target)
      (v.convert units target) := by
  refine (units.dimension_foreseen target).bind fun d _ => ?_
  cases v with
  | quantity q => exact (units.convert_foreseen q.amount q.unit target).map fun _ => rfl
  | number x => exact fun _ => rfl
  | text s => exact fun _ => rfl

end Value

theorem UnaryOp.apply_foreseen (op : UnaryOp) (v : Value) :
    Foreseen Value.shape (op.shape? v.shape) (op.apply v) := by
  cases op with
  | percent => exact v.percent_foreseen
  | neg | pos =>
      cases v with
      | number x => exact rfl
      | quantity q => exact rfl
      | text s => exact .misused _

theorem BinaryOp.combine_foreseen (units : UnitTable) (op : BinaryOp) (a b : Value) :
    Foreseen Value.shape (op.shape? units a.shape b.shape) (op.combine units a b) := by
  cases op with
  | add => exact a.add_foreseen units _ b
  | sub => exact a.sub_foreseen units _ b
  | mul => exact a.mul_foreseen _ b
  | div => exact a.div_foreseen units _ b
  | pow => exact a.pow_foreseen _ b
  | percentAdd =>
      have h := (Value.share_foreseen "Percentage" a b).bind fun s _ =>
        a.add_foreseen units "Percentage" s
      rwa [bind_assoc] at h
  | percentSub =>
      have h := (Value.share_foreseen "Percentage" a b).bind fun s _ =>
        a.sub_foreseen units "Percentage" s
      rwa [bind_assoc] at h

/-! ## Expressions -/

namespace Computation

variable {s α β σ τ : Type} {view : α → σ} {view' : β → τ} {expected : Option σ}

theorem bind_foreseen {x : Computation s α} {g : α → Computation s β} {next : σ → Option τ}
    {current : s} (hx : Foreseen view expected (x.run current).1)
    (hg : ∀ a between, x.run current = (.ok a, between) →
      Foreseen view' (next (view a)) ((g a).run between).1) :
    Foreseen view' (expected >>= next) ((x >>= g).run current).1 := by
  rw [run_bind]
  revert hx hg
  obtain ⟨outcome, between⟩ := x.run current
  intro hx hg
  cases outcome with
  | ok a =>
      rw [show expected = some (view a) from hx]
      exact hg a between rfl
  | error f =>
      cases f with
      | error e =>
          intro he
          rw [show expected = none from hx he]
          rfl
      | fault f => trivial

end Computation

theorem Builtin.apply_shape {f : Builtin} {args : List Value} {mode after : AngleMode} {v : Value}
    (h : (f.apply args).run mode = .ok (v, after)) : v.shape = f.shape := by
  cases f with
  | setMode target =>
      cases args with
      | nil =>
          cases h
          rfl
      | cons a args => cases h
  | _ =>
      obtain ⟨⟨⟩, -⟩ | ⟨-, ⟨x, rfl⟩, -⟩ := apply_ok h
      rfl

theorem Builtin.apply_foreseen (f : Builtin) (args : List Value) (mode : AngleMode) :
    Foreseen Value.shape (some f.shape)
      ((liftM (f.apply args) : Evaluation Value).run mode).1 := by
  refine .of_failsWith (fun v hv => ?_) (Evaluation.operation_failsWith
    ((f.apply_failsWith args mode).imp fun e he => he.not_isOfUnits))
  rw [apply_shape (Evaluation.run_operation_ok.mp (Prod.ext hv rfl))]

namespace Expr

variable {m : Memory} {limit : Nat}

/-- A node that is too deep is in error, but not for its units. -/
theorem node_foreseen {s α σ : Type} {view : α → σ} {expected : Option σ} {depth : Nat}
    {x : Computation s α} {current : s} (hx : Foreseen view expected (x.run current).1) :
    Foreseen view expected
      ((if limit < depth then liftM (fail (.tooDeep limit) : Except Failure α)
        else x).run current).1 := by
  split
  · exact .fail (by simp [Error.IsOfUnits, Error.kind])
  · exact hx

mutual

/-- **The shape of an expression foresees its evaluation.** By induction on the expression: the
values of its parts have the shapes of its parts, and an operation looks at no more. -/
theorem eval_foreseen : ∀ (e : Expr) (depth : Nat) (mode : AngleMode),
    Foreseen Value.shape (e.shape? m.units) ((e.eval m limit depth).run mode).1
  | .number x place, depth, mode => by
      rw [eval, shape?]
      exact node_foreseen rfl
  | .name n place, depth, mode => by
      rw [eval, shape?]
      refine node_foreseen ?_
      split
      · exact rfl
      · exact .fail (by simp [Error.IsOfUnits, Error.kind])
  | .quantity amount unit place, depth, mode => by
      rw [eval, shape?]
      refine node_foreseen ?_
      refine Computation.bind_foreseen (eval_foreseen amount _ mode) fun a mode _ => ?_
      refine Computation.bind_foreseen (m.units.measure_foreseen unit) fun _ mode _ => ?_
      cases a with
      | number x => exact rfl
      | quantity q => exact .misused _
      | text s => exact .misused _
  | .call function args place, depth, mode => by
      rw [eval, shape?]
      refine node_foreseen ?_
      split
      · next f hf =>
        rw [hf]
        show Foreseen _ (shapes? m.units args >>= fun _ => some f.shape) _
        exact Computation.bind_foreseen (evalAll_foreseen args _ mode) fun vs mode _ =>
          f.apply_foreseen vs mode
      · exact .fail (by simp [Error.IsOfUnits, Error.kind])
  | .binary op left right place, depth, mode => by
      rw [eval, shape?]
      refine node_foreseen ?_
      refine Computation.bind_foreseen (eval_foreseen left _ mode) fun a mode _ => ?_
      refine Computation.bind_foreseen (eval_foreseen right _ mode) fun b mode _ => ?_
      exact op.combine_foreseen m.units a b
  | .unary op operand place, depth, mode => by
      rw [eval, shape?]
      refine node_foreseen ?_
      refine Computation.bind_foreseen (eval_foreseen operand _ mode) fun a mode _ => ?_
      exact op.apply_foreseen a

theorem evalAll_foreseen : ∀ (es : List Expr) (depth : Nat) (mode : AngleMode),
    Foreseen (List.map Value.shape) (shapes? m.units es) ((evalAll m limit depth es).run mode).1
  | [], depth, mode => by
      rw [evalAll, shapes?]
      exact rfl
  | e :: es, depth, mode => by
      rw [evalAll, shapes?]
      refine Computation.bind_foreseen (eval_foreseen e _ mode) fun v mode _ => ?_
      exact Computation.bind_foreseen (evalAll_foreseen es _ mode) fun vs mode _ => rfl

end

end Expr

/-! ## Units of shapes -/

/-- A shape whose unit, if it has one, is in the table. -/
def Shape.Known (units : UnitTable) : Shape → Prop
  | quantity unit => unit ∈ units.names
  | _ => True

namespace UnitTable

variable {units : UnitTable}

theorem mem_names_of_dimension? {name : String} {d : Dimension}
    (h : units.dimension? name = some d) : name ∈ units.names := by
  obtain ⟨m, hm, -⟩ := Option.map_eq_some_iff.mp h
  exact List.mem_map_of_mem (Ledger.mem_of_findIn hm)

theorem mem_names_of_converts? {source target : String} {u : Unit}
    (h : units.converts? source target = some u) : target ∈ units.names := by
  obtain ⟨_, -, h⟩ := Option.bind_eq_some_iff.mp h
  obtain ⟨_, htarget, -⟩ := Option.bind_eq_some_iff.mp h
  exact mem_names_of_dimension? htarget

theorem mem_names_of_sum? {left right unit : String}
    (h : units.sum? left right = some unit) : unit ∈ units.names := by
  obtain ⟨_, -, h⟩ := Option.bind_eq_some_iff.mp h
  obtain ⟨_, -, h⟩ := Option.bind_eq_some_iff.mp h
  split at h
  · obtain ⟨base, hbase, h⟩ := Option.bind_eq_some_iff.mp h
    obtain ⟨_, -, ⟨⟩⟩ := Option.bind_eq_some_iff.mp h
    -- a base unit is the target of a conversion
    obtain ⟨_, -, hbase⟩ := Option.bind_eq_some_iff.mp hbase
    obtain ⟨_, hconverts, ⟨⟩⟩ := Option.bind_eq_some_iff.mp hbase
    exact mem_names_of_converts? hconverts
  · cases h

end UnitTable

namespace Shape

variable {units : UnitTable} {a b c : Shape}

theorem known_of_sum? (h : a.sum? units b = some c) : c.Known units := by
  unfold sum? at h
  split at h
  · cases h
    trivial
  · obtain ⟨unit, hunit, rfl⟩ := Option.map_eq_some_iff.mp h
    exact UnitTable.mem_names_of_sum? hunit
  · cases h

theorem known_of_product? (ha : a.Known units) (hb : b.Known units)
    (h : a.product? b = some c) : c.Known units := by
  unfold product? at h
  split at h <;> cases h
  · trivial
  · exact ha
  · exact hb

theorem known_of_quotient? (ha : a.Known units) (h : a.quotient? units b = some c) :
    c.Known units := by
  unfold quotient? at h
  split at h
  · cases h
    trivial
  · cases h
    exact ha
  · obtain ⟨_, -, rfl⟩ := Option.map_eq_some_iff.mp h
    trivial
  · cases h

theorem known_of_power? (h : a.power? b = some c) : c.Known units := by
  unfold power? at h
  split at h <;> cases h
  trivial

end Shape

theorem UnaryOp.known_of_shape? {units : UnitTable} {op : UnaryOp} {a b : Shape}
    (ha : a.Known units) (h : op.shape? a = some b) : b.Known units := by
  cases op <;> cases a <;> cases h <;> exact ha

theorem BinaryOp.known_of_shape? {units : UnitTable} {op : BinaryOp} {a b c : Shape}
    (ha : a.Known units) (hb : b.Known units) (h : op.shape? units a b = some c) :
    c.Known units := by
  cases op with
  | add | sub => exact Shape.known_of_sum? h
  | mul => exact Shape.known_of_product? ha hb h
  | div => exact Shape.known_of_quotient? ha h
  | pow => exact Shape.known_of_power? h
  | percentAdd | percentSub =>
      obtain ⟨_, -, h⟩ := Option.bind_eq_some_iff.mp h
      obtain ⟨_, -, h⟩ := Option.bind_eq_some_iff.mp h
      exact Shape.known_of_sum? h

/-- **The unit of an expression is in the table.** -/
theorem Expr.known_of_shape? {units : UnitTable} : ∀ (e : Expr) {a : Shape},
    e.shape? units = some a → a.Known units
  | .number x place, a, h => by
      rw [shape?] at h
      cases h
      trivial
  | .name n place, a, h => by
      rw [shape?] at h
      cases h
      trivial
  | .quantity amount unit place, a, h => by
      rw [shape?] at h
      obtain ⟨b, -, h⟩ := Option.bind_eq_some_iff.mp h
      obtain ⟨_, hunit, h⟩ := Option.bind_eq_some_iff.mp h
      cases b <;> cases h
      exact UnitTable.mem_names_of_dimension? hunit
  | .call function args place, a, h => by
      rw [shape?] at h
      obtain ⟨f, -, h⟩ := Option.bind_eq_some_iff.mp h
      obtain ⟨_, -, ⟨⟩⟩ := Option.bind_eq_some_iff.mp h
      cases f <;> trivial
  | .binary op left right place, a, h => by
      rw [shape?] at h
      obtain ⟨b, hb, h⟩ := Option.bind_eq_some_iff.mp h
      obtain ⟨c, hc, h⟩ := Option.bind_eq_some_iff.mp h
      exact op.known_of_shape? (known_of_shape? left hb) (known_of_shape? right hc) h
  | .unary op operand place, a, h => by
      rw [shape?] at h
      obtain ⟨b, hb, h⟩ := Option.bind_eq_some_iff.mp h
      exact op.known_of_shape? (known_of_shape? operand hb) h

/-! ## Statements -/

namespace Statement

variable {m n : Memory} {limit : Nat}

theorem known_of_shape? {units : UnitTable} {s : Statement} {a : Shape}
    (h : s.shape? units = some a) : a.Known units := by
  cases s with
  | expression e => exact e.known_of_shape? h
  | assign name e place =>
      obtain ⟨b, -, h⟩ := Option.bind_eq_some_iff.mp h
      cases b <;> cases h
      trivial
  | convert e unit place =>
      obtain ⟨b, -, h⟩ := Option.bind_eq_some_iff.mp h
      obtain ⟨_, hunit, h⟩ := Option.bind_eq_some_iff.mp h
      cases b with
      | quantity u =>
          obtain ⟨_, -, rfl⟩ := Option.map_eq_some_iff.mp h
          exact UnitTable.mem_names_of_dimension? hunit
      | number => cases h
      | text => cases h

theorem stored_foreseen (m : Memory) (name : String) (v : Value) :
    Foreseen (fun _ => v.shape) v.shape.stored? (stored m name v) := by
  unfold stored
  split
  · exact .fail (by simp [Error.IsOfUnits, Error.kind])
  · cases v with
    | number x => exact rfl
    | quantity q => exact .misused _
    | text s => exact .misused _

theorem attempt_foreseen (m : Memory) (limit : Nat) (s : Statement) :
    Foreseen Value.shape (s.shape? m.units) ((s.attempt limit).run m).1 := by
  have hvalue (e : Expr) :
      Foreseen Value.shape (e.shape? m.units) ((valueOf limit e).run m).1 :=
    e.eval_foreseen 0 m.angleMode
  cases s with
  | expression e => exact hvalue e
  | assign name e place =>
      refine Computation.bind_foreseen (hvalue e) fun v between _ => ?_
      -- what is stored is the value itself
      have h : Foreseen Value.shape (v.shape.stored? >>= some)
          ((liftM (stored between name v) >>= fun after => set after >>= fun _ => pure v :
            Action Value).run between).1 :=
        Computation.bind_foreseen (stored_foreseen between name v) fun after _ _ => rfl
      rwa [show v.shape.stored? >>= some = v.shape.stored? from bind_pure _] at h
  | convert e unit place =>
      refine Computation.bind_foreseen (hvalue e) fun v between hv => ?_
      obtain ⟨mode, -, rfl⟩ := run_valueOf.mp hv
      exact v.convert_foreseen m.units unit

theorem perform_foreseen (m : Memory) (limit : Nat) (s : Statement) :
    Foreseen Value.shape (s.shape? m.units) ((s.perform limit).run m).1 := by
  have h := attempt_foreseen m limit s
  rw [run_perform]
  split
  · next heq =>
    rw [heq] at h
    exact h
  · exact h

/-- **Units and sorts do not depend on numbers.** Two memories with the same units may differ in
their variables, their results before and their modes. If a statement has a value in both, the
values are of one sort and one unit, and that unit is in the table; if its units are in error in
one, it has no value in the other. -/
theorem perform_shape (s : Statement) (limit limit' : Nat) {m n : Memory}
    (hunits : m.units = n.units) :
    (∀ v w, ((s.perform limit).run m).1 = .ok v → ((s.perform limit').run n).1 = .ok w →
      v.shape = w.shape ∧ ∀ q, v = .quantity q → q.unit ∈ m.units.names) ∧
    ∀ e, ((s.perform limit).run m).1 = .error (.error e) → e.IsOfUnits →
      ∀ w, ((s.perform limit').run n).1 ≠ .ok w := by
  have hm := perform_foreseen m limit s
  have hn := perform_foreseen n limit' s
  rw [← hunits] at hn
  constructor
  · intro v w hv hw
    rw [hv] at hm
    rw [hw] at hn
    have hv : s.shape? m.units = some v.shape := hm
    have hw : s.shape? m.units = some w.shape := hn
    refine ⟨Option.some.inj (hv.symm.trans hw), ?_⟩
    rintro q rfl
    exact known_of_shape? hv
  · intro e he hof w hw
    rw [he] at hm
    rw [hw] at hn
    have hnone : s.shape? m.units = none := hm hof
    have hsome : s.shape? m.units = some w.shape := hn
    rw [hnone] at hsome
    cases hsome

/-- A distance of `x` kilometres and five hundred metres comes in metres whatever `x` is, and one
of `x` kilometres and five hundred seconds never comes. -/
theorem perform_shape_of_distance :
    let near : Memory := { Memory.fresh .degrees with bindings := .ofList [("x", 1)] }
    let far : Memory := { Memory.fresh .radians with bindings := .ofList [("x", 20)] }
    let sum (unit : String) : Statement := .expression
      (.binary .add (.quantity (.name "x" 0) "km" 2) (.quantity (.number 500 7) unit 11) 5)
    near.units = far.units ∧
      (∃ v w, (((sum "m").perform 9).run near).1 = .ok v ∧
        (((sum "m").perform 9).run far).1 = .ok w ∧ v.shape = .quantity "m" ∧
        v.shape = w.shape) ∧
      ∃ e, (((sum "s").perform 9).run near).1 = .error (.error e) ∧ e.IsOfUnits ∧
        ∀ w, (((sum "s").perform 9).run far).1 ≠ .ok w := by
  intro near far sum
  have hunits : near.units = far.units := rfl
  have hsame := perform_shape (sum "m") 9 9 hunits
  have hnever := perform_shape (sum "s") 9 9 hunits
  obtain ⟨x, hnear⟩ : ∃ x, (((sum "m").perform 9).run near).1 = .ok (.quantity ⟨x, "m"⟩) :=
    ⟨_, rfl⟩
  obtain ⟨y, hfar⟩ : ∃ y, (((sum "m").perform 9).run far).1 = .ok (.quantity ⟨y, "m"⟩) :=
    ⟨_, rfl⟩
  obtain ⟨left, right, herror⟩ : ∃ left right,
      (((sum "s").perform 9).run near).1 = .error (.error (.mismatch left right)) := ⟨_, _, rfl⟩
  exact ⟨hunits, ⟨_, _, hnear, hfar, rfl, (hsame.1 _ _ hnear hfar).1⟩, _, herror, .inr rfl,
    hnever.2 _ herror (.inr rfl)⟩

end Statement

end Reckoner
