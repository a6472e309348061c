import Reckoner.Eval.Operation

/-!
# Reckoner.Proofs.Eval.Run -- taking computations apart

A computation that answers has answered in each of its parts. The lemmas turn the run of a
composed computation into the runs of its parts, for plain results, for single operations and for
computations of many operations, so that nothing else has to look inside these.
-/

namespace Reckoner

open Number (AngleMode)

variable {α β : Type}

theorem bind_eq_ok {x : Except Failure α} {g : α → Except Failure β} {b : β} :
    (x >>= g) = .ok b ↔ ∃ a, x = .ok a ∧ g a = .ok b := by
  cases x with
  | ok a =>
      constructor
      · intro h
        exact ⟨a, rfl, h⟩
      · rintro ⟨_, ⟨⟩, h⟩
        exact h
  | error e =>
      constructor
      · intro h
        cases h
      · rintro ⟨_, ⟨⟩, _⟩

theorem bind_eq_error {x : Except Failure α} {g : α → Except Failure β} {f : Failure}
    (h : (x >>= g) = .error f) : x = .error f ∨ ∃ a, x = .ok a ∧ g a = .error f := by
  cases x with
  | ok a => exact .inr ⟨a, rfl, h⟩
  | error e =>
      cases h
      exact .inl rfl

theorem map_eq_ok {x : Except Failure α} {g : α → β} {b : β} :
    x.map g = .ok b ↔ ∃ a, x = .ok a ∧ g a = b := by
  cases x with
  | ok a => simp [Except.map]
  | error e => simp [Except.map]

/-! ## Single operations -/

namespace Operation

variable {mode after : AngleMode}

theorem run_bind_ok {x : Operation α} {g : α → Operation β} {b : β} :
    (x >>= g).run mode = .ok (b, after) ↔
      ∃ a between, x.run mode = .ok (a, between) ∧ (g a).run between = .ok (b, after) := by
  rw [StateT.run_bind, bind_eq_ok]
  exact Prod.exists

theorem run_lift_ok {x : Except Failure α} {a : α} :
    (liftM x : Operation α).run mode = .ok (a, after) ↔ x = .ok a ∧ after = mode := by
  cases x with
  | ok b =>
      constructor
      · rintro ⟨⟩
        exact ⟨rfl, rfl⟩
      · rintro ⟨⟨⟩, rfl⟩
        rfl
  | error e =>
      constructor
      · rintro ⟨⟩
      · rintro ⟨⟨⟩, _⟩

theorem run_pure_ok {a b : α} :
    (pure a : Operation α).run mode = .ok (b, after) ↔ b = a ∧ after = mode := by
  constructor
  · rintro ⟨⟩
    exact ⟨rfl, rfl⟩
  · rintro ⟨rfl, rfl⟩
    rfl

theorem run_get_ok {current : AngleMode} :
    (get : Operation AngleMode).run mode = .ok (current, after) ↔
      current = mode ∧ after = mode := by
  constructor
  · rintro ⟨⟩
    exact ⟨rfl, rfl⟩
  · rintro ⟨rfl, rfl⟩
    rfl

end Operation

/-! ## Computations of many operations -/

namespace Computation

variable {σ : Type} {s after : σ}

/-- The run of one computation followed by another. The second starts in the state that the first
leaves, and a failure of the first is the failure of both. -/
theorem run_bind (x : Computation σ α) (g : α → Computation σ β) (s : σ) :
    (x >>= g).run s =
      match x.run s with
      | (.ok a, between) => (g a).run between
      | (.error f, between) => (.error f, between) := by
  -- a failure keeps the state: the layer of failures lies above the layer of states
  rw [ExceptT.run_bind]
  refine (StateT.run_bind x.run _ s).trans ?_
  show bind (m := Id) (x.run s) _ = _
  obtain ⟨outcome, between⟩ := x.run s
  cases outcome with
  | ok a => rfl
  | error f => rfl

theorem run_bind_ok {x : Computation σ α} {g : α → Computation σ β} {b : β} :
    (x >>= g).run s = (.ok b, after) ↔
      ∃ a between, x.run s = (.ok a, between) ∧ (g a).run between = (.ok b, after) := by
  rw [run_bind]
  obtain ⟨outcome, between⟩ := x.run s
  cases outcome with
  | ok a =>
      constructor
      · intro h
        exact ⟨a, between, rfl, h⟩
      · rintro ⟨_, _, ⟨⟩, h⟩
        exact h
  | error f =>
      constructor
      · rintro ⟨⟩
      · rintro ⟨_, _, ⟨⟩, _⟩

theorem run_lift (x : Except Failure α) (s : σ) :
    (liftM x : Computation σ α).run s = (x, s) := rfl

theorem run_lift_ok {x : Except Failure α} {a : α} :
    (liftM x : Computation σ α).run s = (.ok a, after) ↔ x = .ok a ∧ after = s := by
  rw [run_lift, Prod.mk.injEq]
  exact and_congr_right fun _ => eq_comm

theorem run_pure_ok {a b : α} :
    (pure a : Computation σ α).run s = (.ok b, after) ↔ b = a ∧ after = s := by
  constructor
  · rintro ⟨⟩
    exact ⟨rfl, rfl⟩
  · rintro ⟨rfl, rfl⟩
    rfl

end Computation

namespace Evaluation

variable {mode after : AngleMode}

theorem run_operation (x : Operation α) (mode : AngleMode) :
    (liftM x : Evaluation α).run mode =
      match x.run mode with
      | .ok (a, after) => (.ok a, after)
      | .error f => (.error f, mode) := rfl

theorem run_operation_ok {x : Operation α} {a : α} :
    (liftM x : Evaluation α).run mode = (.ok a, after) ↔ x.run mode = .ok (a, after) := by
  rw [run_operation]
  cases h : x.run mode with
  | ok r =>
      obtain ⟨b, between⟩ := r
      constructor
      · rintro ⟨⟩
        rfl
      · rintro ⟨⟩
        rfl
  | error f =>
      constructor
      · rintro ⟨⟩
      · rintro ⟨⟩

end Evaluation

end Reckoner
