import Reckoner.Calculator.Basic
import Reckoner.Proofs.Calculator.History
import Reckoner.Proofs.Expr.Single
import Reckoner.Proofs.Expr.Unplaced

/-!
# Reckoner.Proofs.Calculator.Line -- replies to lines

A calculator answers a line as it answers the trimmed line and is the same afterwards. Only the
place in the reply is another, since it counts from the first character that was typed.

A line that is an expression with a finite number is answered with that number, which becomes the
result before. The shortest such lines are a word that stands for a number, a numeral, and a
numeral behind a minus.
-/

namespace Reckoner

open Text (trimString)

/-! ## Values -/

namespace Expr

variable {m : Memory} {limit : Nat}

mutual

/-- The value of an expression does not depend on where it was typed. -/
theorem eval_unplaced : ∀ (e : Expr) (depth : Nat),
    e.unplaced.eval m limit depth = e.eval m limit depth
  | .number x place, depth => by rw [unplaced, eval, eval]
  | .name n place, depth => by rw [unplaced, eval, eval]
  | .quantity amount unit place, depth => by
      rw [unplaced, eval, eval, eval_unplaced amount (depth + 1)]
  | .call function args place, depth => by
      rw [unplaced, eval, eval, evalAll_unplaced args (depth + 1)]
  | .binary op left right place, depth => by
      rw [unplaced, eval, eval, eval_unplaced left (depth + 1), eval_unplaced right (depth + 1)]
  | .unary op operand place, depth => by
      rw [unplaced, eval, eval, eval_unplaced operand (depth + 1)]

theorem evalAll_unplaced : ∀ (es : List Expr) (depth : Nat),
    evalAll m limit depth (unplacedAll es) = evalAll m limit depth es
  | [], depth => by rw [unplacedAll]
  | e :: es, depth => by
      rw [unplacedAll, evalAll, evalAll, eval_unplaced e depth, evalAll_unplaced es depth]

end

end Expr

/-- What a statement does does not depend on where it was typed. -/
theorem Statement.perform_unplaced (limit : Nat) (s : Statement) :
    s.unplaced.perform limit = s.perform limit := by
  have hvalue (e : Expr) : valueOf limit e.unplaced = valueOf limit e := by
    funext m
    rw [valueOf, valueOf, e.eval_unplaced 0]
  have hattempt : s.unplaced.attempt limit = s.attempt limit := by
    cases s with
    | expression e => exact hvalue e
    | assign name e place => rw [unplaced, attempt, attempt, hvalue]
    | convert e unit place => rw [unplaced, attempt, attempt, hvalue]
  funext m
  rw [perform, perform, hattempt]

/-! ## Replies -/

/-- A reply without its place. -/
def Reply.unplaced (r : Reply) : Reply := { r with place := none }

namespace Calculator

variable {c : Calculator} {typed : String}

theorem carryOut_unplaced (c : Calculator) (s : Statement) :
    c.carryOut s.unplaced = c.carryOut s := by
  have hreply (v : Value) : c.replyTo s.unplaced v = c.replyTo s v := by cases s <;> rfl
  simp only [carryOut, Statement.perform_unplaced, hreply]

/-- The outcome of a line without the place in the reply. -/
def evaluateUnplaced (c : Calculator) (typed : String) : Except Fault (Reply × Calculator) :=
  (c.evaluate typed).map fun (r, after) => (r.unplaced, after)

/-- The reply to a line follows from its statement without the places. -/
theorem evaluateUnplaced_eq (c : Calculator) (typed : String) :
    c.evaluateUnplaced typed =
      match withoutPlaces Statement.unplaced (c.statement typed) with
      | .ok s => (c.carryOut s).map fun (r, after) => (r.unplaced, after)
      | .error (.error e) => .ok ((Reply.ofError e).unplaced, c)
      | .error (.fault f) => .error f := by
  rw [evaluateUnplaced, evaluate]
  cases c.statement typed with
  | ok s => simp only [withoutPlaces, carryOut_unplaced]
  | error f =>
      cases f with
      | fault f => rfl
      | error e => cases e <;> rfl

/-- **A line is answered as the trimmed line**, the place in the reply apart, whatever the
calculator. -/
theorem evaluateUnplaced_trimString (c : Calculator) (typed : String) :
    c.evaluateUnplaced (trimString typed) = c.evaluateUnplaced typed := by
  rw [evaluateUnplaced_eq, evaluateUnplaced_eq, statement, statement,
    Statement.ofTyped_trimString]

theorem evaluate_trimString {r : Reply} {after : Calculator}
    (h : c.evaluate typed = .ok (r, after)) :
    ∃ r', c.evaluate (trimString typed) = .ok (r', after) ∧ r'.unplaced = r.unplaced := by
  have hsame := c.evaluateUnplaced_trimString typed
  rw [evaluateUnplaced, evaluateUnplaced, h] at hsame
  cases htrimmed : c.evaluate (trimString typed) with
  | error f =>
      rw [htrimmed] at hsame
      cases hsame
  | ok outcome =>
      obtain ⟨r', after'⟩ := outcome
      rw [htrimmed] at hsame
      obtain ⟨hreply, rfl⟩ := Prod.mk.inj (Except.ok.inj hsame)
      exact ⟨r', rfl, hreply⟩

/-! ## One word or one number -/

variable {e : Expr} {x : Float}

/-- A line is answered with the number of its expression, wherever in the line that stands. -/
theorem evaluate_of_number (hread : c.statement typed = .ok (.expression e))
    (heval : (e.unplaced.eval c.memory c.config.maxDepth 0).run c.memory.angleMode =
      (.ok (.number x), c.memory.angleMode))
    (hx : x.isFinite = true) :
    c.evaluate typed = .ok (⟨shownNumber c.config.precision x, false, .number, none⟩,
      { c with memory := { c.memory with lastResult := x } }) := by
  have hvalue : (Statement.valueOf c.config.maxDepth e).run c.memory =
      (.ok (.number x), c.memory) := by
    rw [Expr.eval_unplaced] at heval
    exact Statement.run_valueOf.mpr ⟨_, heval, rfl⟩
  have hperform : ((Statement.expression e).perform c.config.maxDepth).run c.memory =
      (.ok (.number x), c.memory) := Statement.perform_ok.mpr hvalue
  have hreply : c.replyTo (.expression e) (.number x) =
      ⟨shownNumber c.config.precision x, false, .number, none⟩ :=
    Reply.ofAmount_finite hx .number _
  rw [evaluate, hread]
  show c.carryOut (.expression e) = _
  simp only [carryOut, hperform, hreply, Memory.remembering, if_pos hx]

/-- A word alone is answered with the number that it stands for. -/
theorem evaluate_word (hunits : c.memory.units = .standard) (w : Word)
    (hw : c.memory.number? w.text = some x) (hx : x.isFinite = true) :
    c.evaluate w.text = .ok (⟨shownNumber c.config.precision x, false, .number, none⟩,
      { c with memory := { c.memory with lastResult := x } }) := by
  obtain ⟨e, hread, he⟩ := Statement.ofTyped_word w c.config.maxDepth_pos
  rw [← hunits] at hread
  refine evaluate_of_number hread ?_ hx
  rw [he, Expr.eval, if_neg (Nat.not_lt_zero _)]
  simp only [hw]
  rfl

/-- A numeral alone is answered with its number. -/
theorem evaluate_numeral (hunits : c.memory.units = .standard) (n : Numeral)
    (hn : n.value.isFinite = true) :
    c.evaluate n.text = .ok (⟨shownNumber c.config.precision n.value, false, .number, none⟩,
      { c with memory := { c.memory with lastResult := n.value } }) := by
  obtain ⟨e, hread, he⟩ := Statement.ofTyped_numeral n c.config.maxDepth_pos
  rw [← hunits] at hread
  refine evaluate_of_number hread ?_ hn
  rw [he, Expr.eval, if_neg (Nat.not_lt_zero _)]
  rfl

/-- A numeral behind a minus is answered with the negative of its number. The number is one node
deeper than the minus. -/
theorem evaluate_minus (hunits : c.memory.units = .standard) (hdepth : 2 ≤ c.config.maxDepth)
    (n : Numeral) (hn : (-n.value).isFinite = true) :
    c.evaluate ("-" ++ n.text) =
      .ok (⟨shownNumber c.config.precision (-n.value), false, .number, none⟩,
        { c with memory := { c.memory with lastResult := -n.value } }) := by
  obtain ⟨e, hread, he⟩ := Statement.ofTyped_minus n hdepth
  rw [← hunits] at hread
  refine evaluate_of_number hread ?_ hn
  rw [he, Expr.eval, if_neg (Nat.not_lt_zero _), Computation.run_bind, Expr.eval,
    if_neg (show ¬ c.config.maxDepth < 1 by omega)]
  rfl

end Calculator

end Reckoner
