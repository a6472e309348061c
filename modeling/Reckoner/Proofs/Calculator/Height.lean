import Reckoner.Calculator.Basic
import Reckoner.Proofs.Eval.Effect

/-!
# Reckoner.Proofs.Calculator.Height -- the limit of an evaluation is the height of a tree

The reader of a line counts how often it has been entered, so a row of sums or of percent signs can
grow a tree that is higher than the greatest depth. The evaluation counts edges of the tree itself,
and comes to every node before it can answer (`Expr.height_of_eval`). So it answers only what is no
higher than its limit, and says that something is too deep only if it is higher.
-/

namespace Reckoner

open Number (AngleMode)

namespace Expr

variable {m : Memory} {limit depth : Nat} {mode after : AngleMode}

/-- A node that answers is not too deep. -/
theorem node_ok {α : Type} {x : Evaluation α} {a : α}
    (h : (if limit < depth then liftM (fail (.tooDeep limit) : Except Failure α) else x :
      Evaluation α).run mode = (.ok a, after)) :
    depth ≤ limit ∧ x.run mode = (.ok a, after) := by
  by_cases hdepth : limit < depth
  · rw [if_pos hdepth] at h
    exact absurd (Prod.mk.inj h).1 nofun
  · rw [if_neg hdepth] at h
    exact ⟨Nat.le_of_not_lt hdepth, h⟩

mutual

/-- **An evaluation that answers has been to the deepest leaf.** By induction on the expression: no
part of a node is left out. -/
theorem height_of_eval : ∀ (e : Expr) {depth : Nat} {mode after : AngleMode} {v : Value},
    (e.eval m limit depth).run mode = (.ok v, after) → depth + e.height ≤ limit
  | .number x place, depth, mode, after, v => by
      intro h
      rw [eval] at h
      exact (node_ok h).1
  | .name n place, depth, mode, after, v => by
      intro h
      rw [eval] at h
      exact (node_ok h).1
  | .quantity amount unit place, depth, mode, after, v => by
      intro h
      rw [eval] at h
      obtain ⟨a, between, hamount, -⟩ := Computation.run_bind_ok.mp (node_ok h).2
      have hheight := height_of_eval amount hamount
      rw [height]
      omega
  | .call function args place, depth, mode, after, v => by
      intro h
      rw [eval] at h
      obtain ⟨hdepth, h⟩ := node_ok h
      split at h
      · obtain ⟨vs, between, hargs, -⟩ := Computation.run_bind_ok.mp h
        exact height_of_evalAll args hdepth hargs
      · exact absurd (Prod.mk.inj h).1 nofun
  | .binary op left right place, depth, mode, after, v => by
      intro h
      rw [eval] at h
      obtain ⟨a, between, hleft, h⟩ := Computation.run_bind_ok.mp (node_ok h).2
      obtain ⟨b, between', hright, -⟩ := Computation.run_bind_ok.mp h
      have hheight := height_of_eval left hleft
      have hheight' := height_of_eval right hright
      rw [height]
      omega
  | .unary op operand place, depth, mode, after, v => by
      intro h
      rw [eval] at h
      obtain ⟨a, between, hoperand, -⟩ := Computation.run_bind_ok.mp (node_ok h).2
      have hheight := height_of_eval operand hoperand
      rw [height]
      omega

/-- The expressions are those below a node that is not too deep itself. -/
theorem height_of_evalAll : ∀ (es : List Expr) {depth : Nat} {mode after : AngleMode}
    {vs : List Value}, depth ≤ limit → (evalAll m limit (depth + 1) es).run mode = (.ok vs, after) →
    depth + heightAbove es ≤ limit
  | [], depth, mode, after, vs => by
      intro hdepth _
      exact hdepth
  | e :: es, depth, mode, after, vs => by
      intro hdepth h
      rw [evalAll] at h
      obtain ⟨v, between, hfirst, h⟩ := Computation.run_bind_ok.mp h
      obtain ⟨ws, between', hrest, -⟩ := Computation.run_bind_ok.mp h
      have hheight := height_of_eval e hfirst
      have hheight' := height_of_evalAll es hdepth hrest
      rw [heightAbove]
      omega

end

end Expr

namespace Statement

variable {m after : Memory} {limit : Nat} {s : Statement} {v : Value}

theorem height_of_valueOf {e : Expr} (h : (valueOf limit e).run m = (.ok v, after)) :
    e.height ≤ limit := by
  obtain ⟨mode, heval, -⟩ := run_valueOf.mp h
  have hheight := e.height_of_eval heval
  rwa [Nat.zero_add] at hheight

/-- A statement with a value is no higher than the limit. -/
theorem height_of_perform (h : (s.perform limit).run m = (.ok v, after)) : s.height ≤ limit := by
  rw [perform_ok] at h
  cases s with
  | expression e => exact height_of_valueOf h
  | assign name e place =>
      obtain ⟨w, between, hvalue, -⟩ := Computation.run_bind_ok.mp h
      exact height_of_valueOf hvalue
  | convert e unit place =>
      obtain ⟨w, between, hvalue, -⟩ := Computation.run_bind_ok.mp h
      exact height_of_valueOf hvalue

/-- A statement is refused for its depth only if it is higher than the limit. -/
theorem height_of_tooComplex {e : Error} (hunits : m.units.Scaled)
    (h : (s.perform limit).run m = (.error (.error e), after)) (hkind : e.kind = .tooComplex) :
    limit < s.height := by
  have hfails := perform_failsWith limit hunits s
  rw [h] at hfails
  rcases hfails.error with hvalues | ⟨-, hlt⟩
  · exact absurd hkind hvalues.kind_ne
  · exact hlt

/-- A statement that is higher than the limit is refused and leaves no trace. -/
theorem perform_of_height (hunits : m.units.Scaled) (hheight : limit < s.height) :
    ∃ e, (s.perform limit).run m = (.error (.error e), m) := by
  have hfaultless := perform_faultless limit hunits s
  rcases hrun : (s.perform limit).run m with ⟨(e | f) | v, after⟩
  · exact ⟨e, by rw [perform_error hrun]⟩
  · rw [hrun] at hfaultless
    exact absurd rfl (hfaultless f)
  · have hle := height_of_perform hrun
    omega

end Statement

namespace Calculator

variable {c after : Calculator} {typed : String} {r : Reply}

/-- What a calculator answers without an error is no higher than its greatest depth. -/
theorem height_of_evaluate (h : c.evaluate typed = .ok (r, after)) (herror : r.isError = false) :
    ∃ s, c.statement typed = .ok s ∧ s.height ≤ c.config.maxDepth := by
  unfold evaluate at h
  split at h
  · next s hs =>
    refine ⟨s, hs, ?_⟩
    unfold carryOut at h
    split at h
    · next hrun => exact Statement.height_of_perform hrun
    · cases h
      exact absurd herror Bool.noConfusion
    · cases h
  · cases h
    exact absurd herror Bool.noConfusion
  · cases h

/-- **The limit of an evaluation is the height of a tree.** A statement is refused for its depth
only if it is higher than the limit; if it is, it is refused, for this or for something that is met
before, and the memory stays as it was. So a calculator answers no line without an error whose
statement is higher than its greatest depth. -/
theorem evaluate_height (c : Calculator) (typed : String) (m : Memory) (limit : Nat)
    (s : Statement) (hunits : m.units.Scaled) :
    (∀ e after, (s.perform limit).run m = (.error (.error e), after) → e.kind = .tooComplex →
      limit < s.height) ∧
    (limit < s.height → ∃ e, (s.perform limit).run m = (.error (.error e), m)) ∧
    ∀ r after, c.evaluate typed = .ok (r, after) → r.isError = false →
      ∃ read, c.statement typed = .ok read ∧ read.height ≤ c.config.maxDepth := by
  refine ⟨?_, Statement.perform_of_height hunits, ?_⟩
  · intro e after hrun hkind
    exact Statement.height_of_tooComplex hunits hrun hkind
  · intro r after hevaluate herror
    exact height_of_evaluate hevaluate herror

/-- Three percent signs behind a number, which the reader takes without going deeper: the tree has
the height three, is refused for two and answered for three. -/
theorem evaluate_height_of_percents :
    let c := new { maxDepth := 3 }
    let s := Statement.expression
      (.unary .percent (.unary .percent (.unary .percent (.number 1 0) 1) 2) 3)
    c.memory.units.Scaled ∧
      (s.perform 2).run c.memory = (.error (.error (.tooDeep 2)), c.memory) ∧ 2 < s.height ∧
      ∃ r after, c.evaluate "1%%%" = .ok (r, after) ∧ r.isError = false ∧
        ∃ read, c.statement "1%%%" = .ok read ∧ read.height ≤ 3 := by
  intro c s
  have hunits : c.memory.units.Scaled := UnitTable.standard_scaled
  have hrun : (s.perform 2).run c.memory = (.error (.error (.tooDeep 2)), c.memory) := rfl
  obtain ⟨hrefused, -, hanswered⟩ := evaluate_height c "1%%%" c.memory 2 s hunits
  have hkind : (c.evaluate "1%%%").toOption.map (·.1.isError) = some false := by decide +kernel
  revert hkind hanswered
  rcases c.evaluate "1%%%" with f | ⟨r, after⟩
  · intro _ hkind
    exact absurd hkind nofun
  · intro hanswered hkind
    have herror : r.isError = false := Option.some.inj hkind
    exact ⟨hunits, hrun, hrefused _ _ hrun rfl, r, after, rfl, herror,
      hanswered r after rfl herror⟩

end Calculator

end Reckoner
