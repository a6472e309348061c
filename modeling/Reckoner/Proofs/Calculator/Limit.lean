import Reckoner.Calculator.Basic
import Reckoner.Proofs.Eval.Effect
import Reckoner.Proofs.Expr.Limit

/-!
# Reckoner.Proofs.Calculator.Limit -- the greatest depth never changes an answer

An evaluation counts the nodes above the one it is at, and asks for its limit at every node. Up to
a node that is too deep it does what it does under a higher limit, the switches of the angle mode
included; there it stops, and the statement has the mode put back.

The greatest depth of a calculator is asked for by the reader of a line and by the evaluation of
what was read, each with a count of its own. Either may refuse a line for being too deep, and then
nothing is remembered of it; if neither does, the reply and what is remembered after it are the
same for every greater depth.
-/

namespace Reckoner

open Number (AngleMode)

/-! ## Evaluation -/

namespace Computation

/-- A computation under a lower limit: it stops because the limit has been exceeded, in whatever
state, or it runs as under a higher limit. -/
def IsCut {σ α : Type} (limit : Nat) (low high : Computation σ α) : Prop :=
  ∀ s, (low.run s).1 = .error (.error (.tooDeep limit)) ∨ low.run s = high.run s

namespace IsCut

variable {σ α β : Type} {limit : Nat}

theorem same {x : Computation σ α} : IsCut limit x x := fun _ => .inr rfl

theorem bind {low high : Computation σ α} {g h : α → Computation σ β} (hx : IsCut limit low high)
    (hg : ∀ a, IsCut limit (g a) (h a)) : IsCut limit (low >>= g) (high >>= h) := by
  intro s
  rw [run_bind, run_bind]
  rcases hx s with hcut | heq
  · left
    revert hcut
    obtain ⟨outcome, between⟩ := low.run s
    rintro rfl
    rfl
  · rw [heq]
    obtain ⟨outcome, between⟩ := high.run s
    cases outcome with
    | ok a => exact hg a between
    | error f => exact .inr rfl

theorem bind_same {low high : Computation σ α} (hx : IsCut limit low high)
    (g : α → Computation σ β) : IsCut limit (low >>= g) (high >>= g) :=
  hx.bind fun _ => .same

/-- A node that is not too deep under the lower limit is not so under the higher one. -/
theorem node {low high : Computation σ α} {limit' depth : Nat} (hle : limit ≤ limit')
    (h : IsCut limit low high) :
    IsCut limit
      (if limit < depth then liftM (fail (.tooDeep limit) : Except Failure α) else low)
      (if limit' < depth then liftM (fail (.tooDeep limit') : Except Failure α) else high) := by
  by_cases hdepth : limit < depth
  · rw [if_pos hdepth]
    exact fun _ => .inl rfl
  · rw [if_neg hdepth, if_neg (Nat.not_lt.mpr (Nat.le_trans (Nat.not_lt.mp hdepth) hle))]
    exact h

end IsCut

end Computation

namespace Expr

open Reckoner.Computation (IsCut)

variable {m : Memory} {limit limit' : Nat}

mutual

/-- **An evaluation under a lower limit is cut off by it, or does the same.** By induction on the
expression: what a node does with the values of its parts does not depend on the limit. -/
theorem eval_cut (hle : limit ≤ limit') : ∀ (e : Expr) (depth : Nat),
    IsCut limit (e.eval m limit depth) (e.eval m limit' depth)
  | .number x place, depth => by
      rw [eval, eval]
      exact .node hle .same
  | .name n place, depth => by
      rw [eval, eval]
      exact .node hle .same
  | .quantity amount unit place, depth => by
      rw [eval, eval]
      exact .node hle ((eval_cut hle amount (depth + 1)).bind_same _)
  | .call function args place, depth => by
      rw [eval, eval]
      refine .node hle ?_
      split
      · exact (evalAll_cut hle args (depth + 1)).bind_same _
      · exact .same
  | .binary op left right place, depth => by
      rw [eval, eval]
      exact .node hle ((eval_cut hle left (depth + 1)).bind fun a =>
        (eval_cut hle right (depth + 1)).bind_same _)
  | .unary op operand place, depth => by
      rw [eval, eval]
      exact .node hle ((eval_cut hle operand (depth + 1)).bind_same _)

theorem evalAll_cut (hle : limit ≤ limit') : ∀ (es : List Expr) (depth : Nat),
    IsCut limit (evalAll m limit depth es) (evalAll m limit' depth es)
  | [], depth => by
      rw [evalAll, evalAll]
      exact .same
  | e :: es, depth => by
      rw [evalAll, evalAll]
      exact (eval_cut hle e depth).bind fun v => (evalAll_cut hle es depth).bind_same _

end

end Expr

namespace Statement

open Reckoner.Computation (IsCut)

variable {limit limit' : Nat}

theorem valueOf_cut (hle : limit ≤ limit') (e : Expr) :
    IsCut limit (valueOf limit e) (valueOf limit' e) := by
  intro m
  have hrun (n : Nat) : (valueOf n e).run m = (((e.eval m n 0).run m.angleMode).1,
      { m with angleMode := ((e.eval m n 0).run m.angleMode).2 }) := rfl
  rw [hrun, hrun]
  rcases e.eval_cut hle 0 m.angleMode with hcut | heq
  · exact .inl hcut
  · rw [heq]
    exact .inr rfl

theorem attempt_cut (hle : limit ≤ limit') (s : Statement) :
    IsCut limit (s.attempt limit) (s.attempt limit') := by
  cases s with
  | expression e => exact valueOf_cut hle e
  | assign name e place => exact (valueOf_cut hle e).bind_same _
  | convert e unit place => exact (valueOf_cut hle e).bind_same _

/-- A statement under a lower limit is refused for being too deep and leaves the memory as it was,
or it does what it does under a higher limit. -/
theorem perform_cut (hle : limit ≤ limit') (s : Statement) (m : Memory) :
    (s.perform limit).run m = (.error (.error (.tooDeep limit)), m) ∨
      (s.perform limit).run m = (s.perform limit').run m := by
  rcases attempt_cut hle s m with hcut | heq
  · left
    obtain ⟨after, hrun⟩ : ∃ after,
        (s.attempt limit).run m = (.error (.error (.tooDeep limit)), after) :=
      ⟨_, Prod.ext hcut rfl⟩
    have hperform : (s.perform limit).run m =
        (.error (.error (.tooDeep limit)), { after with angleMode := m.angleMode }) := by
      rw [run_perform, hrun]
    rw [hperform, perform_error hperform]
  · right
    rw [run_perform, run_perform, heq]

end Statement

/-! ## Calculators -/

namespace Calculator

/-- The calculator with another greatest depth of expressions. -/
def withDepth (c : Calculator) (depth : Nat) (h : 1 ≤ depth) : Calculator :=
  { c with config := { c.config with maxDepth := depth, maxDepth_pos := h } }

/-- A reply and what is remembered after it, of a reply and the calculator after it. -/
def remembered (outcome : Reply × Calculator) : Reply × Memory := (outcome.1, outcome.2.memory)

/-- What a statement comes to depends on the greatest depth through its run alone. -/
theorem carryOut_withDepth (c : Calculator) {depth : Nat} (h : 1 ≤ depth) (s : Statement) :
    ((c.withDepth depth h).carryOut s).map remembered =
      match (s.perform depth).run c.memory with
      | (.ok v, m) => .ok (c.replyTo s v, m.remembering v)
      | (.error (.error e), m) => .ok (.ofError e, m)
      | (.error (.fault f), _) => .error f := by
  have hdepth : (c.withDepth depth h).config.maxDepth = depth := rfl
  have hmemory : (c.withDepth depth h).memory = c.memory := rfl
  rw [carryOut, hdepth, hmemory]
  obtain ⟨outcome, m⟩ := (s.perform depth).run c.memory
  rcases outcome with (e | f) | v
  · rfl
  · rfl
  · rfl

variable {limit limit' : Nat}

/-- A statement is refused by the lower limit without a trace, or carried out alike. -/
theorem carryOut_cut (c : Calculator) (hpos : 1 ≤ limit) (hle : limit ≤ limit') (s : Statement) :
    (c.withDepth limit hpos).carryOut s =
        .ok (.ofError (.tooDeep limit), c.withDepth limit hpos) ∨
      ((c.withDepth limit hpos).carryOut s).map remembered =
        ((c.withDepth limit' (Nat.le_trans hpos hle)).carryOut s).map remembered := by
  rcases s.perform_cut hle c.memory with hcut | heq
  · have hdepth : (c.withDepth limit hpos).config.maxDepth = limit := rfl
    have hmemory : (c.withDepth limit hpos).memory = c.memory := rfl
    left
    rw [carryOut, hdepth, hmemory, hcut]
    rfl
  · right
    rw [carryOut_withDepth, carryOut_withDepth, heq]

/-- **The greatest depth only cuts off.** A line that is not refused for being too deep, which
leaves everything as it was, has the reply and the memory after it that it has for every greater
depth. In the same way tokens are refused for being too deep, or read into the same statement or
refused for the same reason at the same place. -/
theorem evaluate_withDepth (c : Calculator) (typed : String) (units : List String)
    (ts : List Token) (hpos : 1 ≤ limit) (hle : limit ≤ limit') :
    ((∃ r, (c.withDepth limit hpos).evaluate typed = .ok (r, c.withDepth limit hpos) ∧
        r.kind = .tooComplex) ∨
      ((c.withDepth limit hpos).evaluate typed).map remembered =
        ((c.withDepth limit' (Nat.le_trans hpos hle)).evaluate typed).map remembered) ∧
    (Statement.ofTokens units limit ts = .error (.error (.tooDeep limit)) ∨
      Statement.ofTokens units limit ts = Statement.ofTokens units limit' ts) := by
  refine ⟨?_, Statement.ofTokens_cut hle units ts⟩
  have hstatement {depth : Nat} (h : 1 ≤ depth) :
      (c.withDepth depth h).statement typed =
        Statement.ofTyped c.memory.units.names depth typed := rfl
  rcases Statement.ofTyped_cut hle c.memory.units.names typed with hcut | heq
  · left
    refine ⟨.ofError (.tooDeep limit), ?_, rfl⟩
    rw [evaluate, hstatement, hcut]
  · rw [evaluate, evaluate, hstatement, hstatement, heq]
    cases Statement.ofTyped c.memory.units.names limit' typed with
    | ok s =>
        rcases c.carryOut_cut hpos hle s with hcut | hsame
        · exact .inl ⟨_, hcut, rfl⟩
        · exact .inr hsame
    | error f =>
        right
        cases f with
        | error e => rfl
        | fault f => rfl

/-- A switch of the angle mode, and behind it a number too deep for two: nothing is switched. For
three the sum is refused instead. A name in brackets is read alike for two and for three. -/
theorem evaluate_withDepth_of_switch :
    let two := (new {}).withDepth 2 (by decide)
    let three := (new {}).withDepth 3 (by decide)
    let ts : List Token := [⟨.openBracket, "(", 0⟩, ⟨.identifier, "x", 1⟩, ⟨.closeBracket, ")", 2⟩,
      ⟨.finish, "", 3⟩]
    (1 ≤ 2 ∧ 2 ≤ 3) ∧
      (∃ r, two.evaluate "rad()+1%%%" = .ok (r, two) ∧ r.kind = .tooComplex) ∧
      (three.evaluate "rad()+1%%%").toOption.map (·.1.kind) = some .invalidOperand ∧
      Statement.ofTokens [] 2 ts = .ok (.expression (.name "x" 1)) ∧
      Statement.ofTokens [] 3 ts = .ok (.expression (.name "x" 1)) := by
  intro two three ts
  have hthree : (three.evaluate "rad()+1%%%").toOption.map (·.1.kind) = some .invalidOperand := by
    decide +kernel
  have hread : Statement.ofTokens [] 2 ts = .ok (.expression (.name "x" 1)) := by rfl
  obtain ⟨hline, htokens⟩ := evaluate_withDepth (new {}) "rad()+1%%%" [] ts
    (show 1 ≤ 2 by decide) (show 2 ≤ 3 by decide)
  refine ⟨by decide, ?_, hthree, hread, ?_⟩
  · refine hline.resolve_right fun hsame => ?_
    have hkinds := congrArg (fun outcome => outcome.toOption.map (·.1.kind)) hsame
    revert hkinds
    decide +kernel
  · rcases htokens with hcut | hsame
    · rw [hread] at hcut
      cases hcut
    · rw [← hsame, hread]

end Calculator

end Reckoner
