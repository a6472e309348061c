import Reckoner.Proofs.Eval.Faultless
import Reckoner.Proofs.Eval.Mode

/-!
# Reckoner.Proofs.Eval.Effect -- what a statement does to a memory

Up to its failure a statement in error can have switched the angle mode, and nothing else; so
putting the mode back puts the whole memory back. A statement that answers with an amount has
switched nothing (`Expr.eval_mode`), and writes at most the one variable that it assigns.
-/

namespace Reckoner

open Number (AngleMode)

/-- A ledger in which one name has been written: in its place if it was there before, behind all
others if not. What stands under any other name has not changed. -/
structure Ledger.Binds {α : Type} (before : Ledger α) (name : String) (a : α)
    (after : Ledger α) : Prop where
  names : after.names = if name ∈ before.names then before.names else before.names ++ [name]
  find : ∀ other, after.find? other = if name = other then some a else before.find? other

theorem Ledger.binds_put {α : Type} (l : Ledger α) (name : String) (a : α) :
    l.Binds name a (l.put name a) :=
  ⟨l.names_put name a, l.find?_put name a⟩

/-- The functions that switch the angle mode, and the modes that they switch to. -/
def modeSwitches : List (String × AngleMode) :=
  [("deg", .degrees), ("setdeg", .degrees), ("rad", .radians), ("setrad", .radians)]

/-- The function of a name is a row of the table. -/
theorem Builtin.mem_table {name : String} {f : Builtin} (h : ofName? name = some f) :
    (name, f) ∈ table := by
  obtain ⟨front, back, htable, -⟩ := List.lookup_eq_some_iff.mp h
  rw [htable]
  exact List.mem_append_right front List.mem_cons_self

theorem Builtin.mem_modeSwitches {name : String} {mode : AngleMode}
    (h : ofName? name = some (setMode mode)) : (name, mode) ∈ modeSwitches := by
  have hrow : (name, setMode mode) ∈ table := mem_table h
  -- of all the rows of the table only four are switches
  simp only [table, List.mem_cons, List.not_mem_nil, Prod.mk.injEq, reduceCtorEq, and_false,
    or_false, false_or, setMode.injEq] at hrow
  simpa [modeSwitches] using hrow

namespace Statement

variable {m after : Memory} {limit : Nat}

/-! ## Storing a value -/

theorem stored_ok {name : String} {v : Value} (h : stored m name v = .ok after) :
    ∃ x, v = .number x ∧
      after = if x.isFinite then { m with bindings := m.bindings.put name x } else m := by
  unfold stored at h
  split at h
  · cases h
  · split at h
    · next x =>
      cases h
      exact ⟨x, rfl, rfl⟩
    · cases h

theorem stored_failsWith (m : Memory) (name : String) (v : Value) :
    FailsWith Error.IsOfValues (stored m name v) := by
  unfold stored
  split
  · exact .fail trivial
  · cases v with
    | number x => exact .ok _
    | quantity q => exact .misused trivial
    | text s => exact .misused trivial

/-! ## Up to the end or to the failure -/

theorem run_valueOf {e : Expr} {outcome : Except Failure Value} :
    (valueOf limit e).run m = (outcome, after) ↔
      ∃ mode, (e.eval m limit 0).run m.angleMode = (outcome, mode) ∧
        after = { m with angleMode := mode } := by
  constructor
  · intro h
    obtain ⟨rfl, rfl⟩ := Prod.mk.inj h
    exact ⟨_, rfl, rfl⟩
  · rintro ⟨mode, heval, rfl⟩
    show (((e.eval m limit 0).run m.angleMode).1,
      { m with angleMode := ((e.eval m limit 0).run m.angleMode).2 }) = _
    rw [heval]

/-- A value that is worked out leaves the memory alone, or it confirms that the mode has been
switched. -/
theorem valueOf_ok {e : Expr} {v : Value} (h : (valueOf limit e).run m = (.ok v, after)) :
    (v.IsAmount ∧ after = m) ∨
      ∃ mode, e.IsSwitch mode ∧ v = .text (Builtin.confirmation mode) ∧
        after = { m with angleMode := mode } := by
  obtain ⟨mode, heval, rfl⟩ := run_valueOf.mp h
  rcases e.eval_mode heval with ⟨hv, rfl⟩ | ⟨hswitch, rfl⟩
  · exact .inl ⟨hv, rfl⟩
  · exact .inr ⟨mode, hswitch, rfl, rfl⟩

theorem run_assign (name : String) (e : Expr) (place : Nat) :
    ((assign name e place).attempt limit).run m =
      match (valueOf limit e).run m with
      | (.ok v, between) =>
        match stored between name v with
        | .ok after => (.ok v, after)
        | .error f => (.error f, between)
      | (.error f, between) => (.error f, between) := by
  rw [attempt, Computation.run_bind]
  obtain ⟨outcome, between⟩ := (valueOf limit e).run m
  cases outcome with
  | error f => rfl
  | ok v =>
      show (liftM (stored between name v) >>= fun m => set m >>= fun _ => pure v :
        Action Value).run between = match stored between name v with
        | .ok after => (.ok v, after)
        | .error f => (.error f, between)
      rw [Computation.run_bind, Computation.run_lift]
      cases stored between name v with
      | ok after => rfl
      | error f => rfl

theorem run_convert (e : Expr) (unit : String) (place : Nat) :
    ((convert e unit place).attempt limit).run m =
      match (valueOf limit e).run m with
      | (.ok v, between) => (v.convert between.units unit, between)
      | (.error f, between) => (.error f, between) := by
  rw [attempt, Computation.run_bind]
  obtain ⟨outcome, between⟩ := (valueOf limit e).run m
  cases outcome with
  | error f => rfl
  | ok v => rfl

/-- **A statement that fails has changed the angle mode at most.** Variables are written last, by
a step that cannot fail any more. -/
theorem attempt_failed {s : Statement} {f : Failure}
    (h : (s.attempt limit).run m = (.error f, after)) :
    ∃ mode, after = { m with angleMode := mode } := by
  cases s with
  | expression e =>
      obtain ⟨mode, -, rfl⟩ := run_valueOf.mp h
      exact ⟨mode, rfl⟩
  | assign name e place =>
      rw [run_assign] at h
      split at h
      · next v between hv =>
        obtain ⟨mode, -, rfl⟩ := run_valueOf.mp hv
        split at h
        · cases h
        · -- the value has been refused as a variable, so none has been written
          cases h
          exact ⟨mode, rfl⟩
      · next f between hf =>
        obtain ⟨mode, -, rfl⟩ := run_valueOf.mp hf
        cases h
        exact ⟨mode, rfl⟩
  | convert e unit place =>
      rw [run_convert] at h
      split at h
      · next v between hv =>
        obtain ⟨mode, -, rfl⟩ := run_valueOf.mp hv
        exact ⟨mode, (Prod.mk.inj h).2.symm⟩
      · next f between hf =>
        obtain ⟨mode, -, rfl⟩ := run_valueOf.mp hf
        cases h
        exact ⟨mode, rfl⟩

theorem attempt_failsWith (limit : Nat) (hu : m.units.Scaled) (s : Statement) :
    FailsWith (Error.IsOfEvaluation limit s.height) ((s.attempt limit).run m).1 := by
  have hvalue (e : Expr) : FailsWith (Error.IsOfEvaluation limit e.height)
      ((valueOf limit e).run m).1 := by
    rw [← Nat.zero_add e.height]
    exact e.eval_failsWith hu 0 m.angleMode
  cases s with
  | expression e => exact hvalue e
  | assign name e place =>
      refine Computation.bind_failsWith (hvalue e) fun v between => ?_
      refine Computation.bind_failsWith (.ok between) fun current _ => ?_
      refine Computation.bind_failsWith (stored_failsWith current name v).of_values fun next _ => ?_
      exact .ok v
  | convert e unit place =>
      rw [run_convert]
      split
      · next v between hv =>
        obtain ⟨mode, -, rfl⟩ := run_valueOf.mp hv
        exact (v.convert_failsWith hu unit).of_values
      · next f between hf =>
        have hfails := hvalue e
        rw [hf] at hfails
        exact hfails

/-- What a statement with a value did to the memory. -/
theorem attempt_ok {s : Statement} {v : Value}
    (h : (s.attempt limit).run m = (.ok v, after)) :
    (∃ name e place x, s = .assign name e place ∧ v = .number x ∧
      after = if x.isFinite then { m with bindings := m.bindings.put name x } else m) ∨
    ((∀ name e place, s ≠ .assign name e place) ∧ v.IsAmount ∧ after = m) ∨
    ∃ e mode, s = .expression e ∧ e.IsSwitch mode ∧ v = .text (Builtin.confirmation mode) ∧
      after = { m with angleMode := mode } := by
  cases s with
  | expression e =>
      rcases valueOf_ok h with ⟨hv, rfl⟩ | ⟨mode, hswitch, rfl, rfl⟩
      · exact .inr (.inl ⟨by rintro _ _ _ ⟨⟩, hv, rfl⟩)
      · exact .inr (.inr ⟨e, mode, rfl, hswitch, rfl, rfl⟩)
  | assign name e place =>
      rw [run_assign] at h
      split at h
      · next w between hw =>
        split at h
        · next stored hstored =>
          cases h
          -- what is stored is a number, so working it out has switched nothing
          obtain ⟨x, rfl, rfl⟩ := stored_ok hstored
          obtain ⟨-, rfl⟩ | ⟨_, _, ⟨⟩, _⟩ := valueOf_ok hw
          exact .inl ⟨name, e, place, x, rfl, rfl, rfl⟩
        · cases h
      · cases h
  | convert e unit place =>
      rw [run_convert] at h
      split at h
      · next w between hw =>
        obtain ⟨hconvert, rfl⟩ := Prod.mk.inj h
        obtain ⟨hamount, x, rfl⟩ := Value.convert_ok hconvert
        obtain ⟨-, rfl⟩ | ⟨_, _, rfl, _⟩ := valueOf_ok hw
        · exact .inr (.inl ⟨by rintro _ _ _ ⟨⟩, trivial, rfl⟩)
        · exact hamount.elim
      · cases h

/-! ## After the mode has been put back -/

theorem run_perform (limit : Nat) (s : Statement) (m : Memory) :
    (s.perform limit).run m =
      match (s.attempt limit).run m with
      | (.error (.error e), after) =>
        (.error (.error e), { after with angleMode := m.angleMode })
      | done => done := rfl

theorem perform_ok {s : Statement} {v : Value} :
    (s.perform limit).run m = (.ok v, after) ↔ (s.attempt limit).run m = (.ok v, after) := by
  rw [run_perform]
  split
  · next heq =>
    rw [heq]
    constructor <;> rintro ⟨⟩
  · rfl

/-- A statement that stops does so for its values, or for an expression that is too high. -/
theorem perform_failsWith (limit : Nat) (hu : m.units.Scaled) (s : Statement) :
    FailsWith (Error.IsOfEvaluation limit s.height) ((s.perform limit).run m).1 := by
  have hattempt := attempt_failsWith limit hu s
  intro f h
  refine hattempt f ?_
  revert h
  rw [run_perform]
  split
  · next heq =>
    rintro ⟨⟩
    rw [heq]
  · exact id

theorem perform_placeless (limit : Nat) (hu : m.units.Scaled) (s : Statement) :
    Placeless ((s.perform limit).run m).1 :=
  (perform_failsWith limit hu s).imp fun _ he => he.place?_eq_none

theorem perform_faultless (limit : Nat) (hu : m.units.Scaled) (s : Statement) :
    Faultless ((s.perform limit).run m).1 :=
  (perform_failsWith limit hu s).faultless

theorem perform_error {s : Statement} {e : Error}
    (h : (s.perform limit).run m = (.error (.error e), after)) : after = m := by
  rw [run_perform] at h
  revert h
  split
  · next heq =>
    rintro ⟨⟩
    obtain ⟨mode, rfl⟩ := attempt_failed heq
    -- only the mode can differ, and it has been put back
    rfl
  · next hne =>
    intro h
    exact absurd h (hne e after)

/-- **What carrying out a statement does to a memory.** -/
theorem perform_effect (m : Memory) (limit : Nat) (s : Statement) (hunits : m.units.Scaled) :
    match (s.perform limit).run m with
    | (.error (.error _), after) => after = m
    | (.error (.fault _), _) => False
    | (.ok (.number x), after) =>
        (after.angleMode = m.angleMode ∧ after.lastResult = m.lastResult ∧
          after.units = m.units ∧ after.homeMode = m.homeMode) ∧
        match s with
        | .assign name _ _ =>
            if x.isFinite then m.bindings.Binds name x after.bindings
            else after.bindings = m.bindings
        | _ => after.bindings = m.bindings
    | (.ok (.quantity _), after) => after = m
    | (.ok (.text t), after) =>
        ∃ name mode place, (name, mode) ∈ modeSwitches ∧
          s = .expression (.call name [] place) ∧ t = Builtin.confirmation mode ∧
          after = { m with angleMode := mode } := by
  split
  · next heq => exact perform_error heq
  · next f _ heq =>
    refine perform_faultless limit hunits s f ?_
    rw [heq]
  · next x after heq =>
    rcases attempt_ok (perform_ok.mp heq) with
      ⟨name, e, place, y, rfl, hy, rfl⟩ | ⟨hs, -, rfl⟩ | ⟨_, _, _, _, hx, _⟩
    · cases hy
      -- an infinite number is answered, but not kept
      split
      · exact ⟨⟨rfl, rfl, rfl, rfl⟩, m.bindings.binds_put name x⟩
      · exact ⟨⟨rfl, rfl, rfl, rfl⟩, rfl⟩
    · refine ⟨⟨rfl, rfl, rfl, rfl⟩, ?_⟩
      split
      · exact absurd rfl (hs _ _ _)
      · rfl
    · cases hx
  · next q after heq =>
    rcases attempt_ok (perform_ok.mp heq) with
      ⟨_, _, _, _, _, hq, _⟩ | ⟨-, -, rfl⟩ | ⟨_, _, _, _, hq, _⟩
    · cases hq
    · rfl
    · cases hq
  · next t after heq =>
    rcases attempt_ok (perform_ok.mp heq) with
      ⟨_, _, _, _, _, ht, _⟩ | ⟨-, ht, -⟩ | ⟨e, mode, rfl, ⟨name, place, rfl, hname⟩, ht, rfl⟩
    · cases ht
    · exact ht.elim
    · cases ht
      exact ⟨name, mode, place, Builtin.mem_modeSwitches hname, rfl, rfl, rfl⟩

/-- A switch that is added to a number: the mode is radians when the sum is refused, and degrees
again afterwards. An assignment to a name that has a number: the name keeps its place before the
other one, and nothing but its number is changed. -/
theorem perform_effect_of_refused_switch :
    (Memory.fresh .degrees).units.Scaled ∧
      (((expression (.binary .add (.call "rad" [] 0) (.number 1 6) 5)).attempt 9).run
        (Memory.fresh .degrees)).2.angleMode = .radians ∧
      (((expression (.binary .add (.call "rad" [] 0) (.number 1 6) 5)).perform 9).run
        (Memory.fresh .degrees)).2 = Memory.fresh .degrees ∧
      ∃ after,
        ((assign "x" (.number 7 4) 0).perform 9).run
            { Memory.fresh .radians with bindings := ⟨[("x", 2), ("y", 5)]⟩, lastResult := 3 } =
          (.ok (.number 7), after) ∧
        Ledger.Binds ⟨[("x", 2), ("y", 5)]⟩ "x" 7 after.bindings ∧
        after.angleMode = .radians ∧ after.lastResult = 3 := by
  have hscaled := UnitTable.standard_scaled
  have hrefused := perform_effect (.fresh .degrees) 9
    (expression (.binary .add (.call "rad" [] 0) (.number 1 6) 5)) hscaled
  let kept : Memory :=
    { Memory.fresh .radians with bindings := ⟨[("x", 2), ("y", 5)]⟩, lastResult := 3 }
  let after : Memory := { kept with bindings := ⟨[("x", 7), ("y", 5)]⟩ }
  have hrun : ((assign "x" (.number 7 4) 0).perform 9).run kept = (.ok (.number 7), after) := rfl
  have hassigned := perform_effect kept 9 (assign "x" (.number 7 4) 0) hscaled
  rw [hrun] at hassigned
  obtain ⟨⟨hmode, hlast, -, -⟩, hbinds⟩ := hassigned
  exact ⟨hscaled, rfl, hrefused, after, hrun, hbinds, hmode, hlast⟩

end Statement

end Reckoner
