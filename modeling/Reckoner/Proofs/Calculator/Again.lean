import Reckoner.Proofs.Calculator.Invariant
import Reckoner.Proofs.Eval.Mention
import Reckoner.Proofs.Expr.Names

/-!
# Reckoner.Proofs.Calculator.Again -- a line that is typed again

What a line changes (one variable, the result before, the angle mode) a line can read only by
naming it. A line that does not ask for the result before, and is no assignment to a name that it
uses, gives the same reply when it is typed again, and then changes nothing any more.
-/

namespace Reckoner

open Number (AngleMode)

namespace Memory

variable {names : List String} {name : String} {m : Memory}

/-- A variable that is written changes no other name. -/
theorem agreeOn_put (hname : name ∉ names) (x : Float) :
    m.AgreeOn names { m with bindings := m.bindings.put name x } := by
  refine ⟨rfl, fun other hother => ?_⟩
  have hne : name ≠ other := fun heq => hname (heq ▸ hother)
  simp only [number?, Ledger.find?_put, if_neg hne]

/-- The result before has one name only. -/
theorem agreeOn_remembering (hprev : previousResult ∉ names) (v : Value) :
    m.AgreeOn names (m.remembering v) := by
  cases v with
  | number x =>
      rw [remembering]
      split
      · refine ⟨rfl, fun other hother => ?_⟩
        have hne : other ≠ previousResult := fun heq => hprev (heq ▸ hother)
        simp only [number?, if_neg hne]
      · exact ⟨rfl, fun _ _ => rfl⟩
  | quantity q => exact ⟨rfl, fun _ _ => rfl⟩
  | text t => exact ⟨rfl, fun _ _ => rfl⟩

theorem AgreeOn.trans {m₁ m₂ m₃ : Memory} (h : m₁.AgreeOn names m₂) (h' : m₂.AgreeOn names m₃) :
    m₁.AgreeOn names m₃ :=
  ⟨h.units.trans h'.units, fun name hname => (h.number? name hname).trans (h'.number? name hname)⟩

theorem angleMode_remembering (m : Memory) (v : Value) :
    (m.remembering v).angleMode = m.angleMode := by
  unfold remembering
  split
  · split <;> rfl
  · rfl

/-- A result is remembered once. -/
theorem remembering_remembering (m : Memory) (v : Value) :
    (m.remembering v).remembering v = m.remembering v := by
  cases v with
  | number x =>
      cases hx : x.isFinite <;> simp [remembering, hx]
  | quantity q => rfl
  | text t => rfl

end Memory

/-! ## Statements -/

namespace Statement

variable {limit : Nat} {m n after : Memory} {v : Value}

/-- An amount is worked out again in any memory that agrees on the names in the expression. -/
theorem valueOf_again {e : Expr} (h : (valueOf limit e).run m = (.ok v, m))
    (hagree : m.AgreeOn e.names n) (hmode : n.angleMode = m.angleMode) :
    (valueOf limit e).run n = (.ok v, n) := by
  obtain ⟨mode, heval, hm⟩ := run_valueOf.mp h
  have hsame : mode = m.angleMode := congrArg Memory.angleMode hm.symm
  refine run_valueOf.mpr ⟨n.angleMode, ?_, rfl⟩
  rw [← e.eval_congr 0 hagree, hmode, heval, hsame]

/-- A switch of the angle mode does not read the memory. -/
theorem valueOf_switch {e : Expr} {mode : AngleMode} (h : e.IsSwitch mode) (limit : Nat)
    (m : Memory) : (valueOf limit e).run m =
      (.ok (.text (Builtin.confirmation mode)), { m with angleMode := mode }) := by
  obtain ⟨name, place, rfl, hname⟩ := h
  refine run_valueOf.mpr ⟨mode, ?_, rfl⟩
  rw [Expr.eval, if_neg (Nat.not_lt_zero limit)]
  simp only [hname, Expr.evalAll]
  rfl

/-- A number that has been stored is stored again in the memory that remembers it. -/
theorem stored_again {name : String} {x : Float}
    (h : stored m name (.number x) = .ok after) :
    stored (after.remembering (.number x)) name (.number x) =
      .ok (after.remembering (.number x)) := by
  have hfree : m.isReserved name = false := by
    unfold stored at h
    split at h
    · cases h
    · next hfree => exact Bool.eq_false_iff.mpr hfree
  obtain ⟨y, ⟨⟩, rfl⟩ := stored_ok h
  -- whether a name is free is a matter of the units, which are the same
  have hsame (bindings : Ledger Float) (last : Float) :
      ({ m with bindings := bindings, lastResult := last } : Memory).isReserved name = false :=
    hfree
  cases hx : x.isFinite with
  | true =>
      simp only [Memory.remembering, hx, if_pos]
      rw [stored, hsame]
      simp only [hx, Bool.false_eq_true, if_false, if_true, Ledger.put_put]
  | false =>
      simp only [Memory.remembering, hx, Bool.false_eq_true, if_false]
      rw [stored, hfree]
      simp only [hx, Bool.false_eq_true, if_false]

theorem agreeOn_stored {name : String} {names : List String} (hname : name ∉ names)
    (h : stored m name v = .ok after) : m.AgreeOn names after ∧ after.angleMode = m.angleMode := by
  obtain ⟨x, -, rfl⟩ := stored_ok h
  split
  · exact ⟨Memory.agreeOn_put hname x, rfl⟩
  · exact ⟨⟨rfl, fun _ _ => rfl⟩, rfl⟩

/-- **A statement is carried out again as before**, in the memory that it leaves, and leaves that as
it is: what has been written since, it does not read. -/
theorem perform_again {s : Statement} (h : (s.perform limit).run m = (.ok v, after))
    (hprev : previousResult ∉ s.names)
    (htarget : ∀ name e place, s = .assign name e place → name ∉ e.names) :
    (s.perform limit).run (after.remembering v) = (.ok v, after.remembering v) := by
  rw [perform_ok] at h ⊢
  -- what is not an assignment writes nothing but its result
  have hvalue {e : Expr} (hnames : previousResult ∉ e.names)
      (hv : (valueOf limit e).run m = (.ok v, m)) :
      (valueOf limit e).run (m.remembering v) = (.ok v, m.remembering v) :=
    valueOf_again hv (Memory.agreeOn_remembering hnames v) (m.angleMode_remembering v)
  cases s with
  | expression e =>
      rcases valueOf_ok h with ⟨-, rfl⟩ | ⟨mode, hswitch, rfl, rfl⟩
      · exact hvalue hprev h
      · exact valueOf_switch hswitch limit _
  | assign name e place =>
      rw [run_assign] at h
      split at h
      · next w between hw =>
        split at h
        · next kept hstored =>
          cases h
          obtain ⟨x, rfl, -⟩ := stored_ok hstored
          obtain ⟨-, rfl⟩ | ⟨_, _, ⟨⟩, _⟩ := valueOf_ok hw
          -- the name that has been written is none of those in the expression
          obtain ⟨hagree, hmode⟩ := agreeOn_stored (htarget name e place rfl) hstored
          have hagain := valueOf_again hw
            (hagree.trans (Memory.agreeOn_remembering hprev (.number x)))
            ((after.angleMode_remembering (.number x)).trans hmode)
          rw [run_assign, hagain]
          simp only [stored_again hstored]
        · cases h
      · cases h
  | convert e unit place =>
      have hrun := h
      rw [run_convert] at hrun
      split at hrun
      · next w between hw =>
        obtain ⟨hconvert, rfl⟩ := Prod.mk.inj hrun
        obtain ⟨hamount, x, rfl⟩ := Value.convert_ok hconvert
        -- a quantity is not remembered
        obtain ⟨-, rfl⟩ | ⟨_, _, rfl, _⟩ := valueOf_ok hw
        · exact h
        · exact hamount.elim
      · cases hrun

end Statement

/-! ## Lines -/

namespace Calculator

variable {c after : Calculator} {typed : String} {r : Reply}

/-- A line changes neither the set-up nor the units. -/
theorem LineEffect.keeps (h : LineEffect c typed r after) :
    after.config = c.config ∧ after.memory.units = c.memory.units := by
  cases h <;> exact ⟨rfl, rfl⟩

/-- A line that is typed again gives the same reply and changes nothing any more, if its statement
does not read what it has written. -/
theorem evaluate_again (h : c.evaluate typed = .ok (r, after))
    (hprev : ∀ s, c.statement typed = .ok s → previousResult ∉ s.names)
    (htarget : ∀ name e place, c.statement typed = .ok (.assign name e place) → name ∉ e.names) :
    after.evaluate typed = .ok (r, after) := by
  obtain ⟨hconfig, hunits⟩ := (evaluate_effect h).keeps
  have hstatement : after.statement typed = c.statement typed := by
    rw [statement, statement, hconfig, hunits]
  cases hs : c.statement typed with
  | error f =>
      -- a line that cannot be read leaves the calculator as it was
      have hafter : after = c := by
        rw [evaluate, hs] at h
        cases f with
        | error e => exact (Prod.mk.inj (Except.ok.inj h)).2.symm
        | fault f => cases h
      rw [hafter]
      rw [hafter] at h
      exact h
  | ok s =>
      have hcarry : c.carryOut s = .ok (r, after) := by
        rw [evaluate, hs] at h
        exact h
      rw [evaluate, hstatement, hs]
      show after.carryOut s = .ok (r, after)
      rw [carryOut] at hcarry ⊢
      split at hcarry
      · next v m hrun =>
        cases hcarry
        have hagain := Statement.perform_again hrun (hprev s hs)
          fun name e place heq => htarget name e place (heq ▸ hs)
        simp only [hagain, Memory.remembering_remembering]
        rfl
      · next e m hrun =>
        cases hcarry
        obtain rfl := Statement.perform_error hrun
        simp only [hrun]
      · cases hcarry

/-- The names in the statement of a line are among its tokens. -/
theorem names_of_statement {s : Statement} (hs : c.statement typed = .ok s) :
    ∃ ts, Token.ofTyped c.memory.units.names typed = .ok ts ∧ Token.Hold ts s.names := by
  obtain ⟨ts, hts, hread⟩ := bind_eq_ok.mp hs
  rw [Statement.orError_eq_ok] at hts
  obtain ⟨-, hsource⟩ := Token.ofTyped_ok hts
  exact ⟨ts, hts, Statement.hold_of_ofTokens (Token.ended_of_ofSource hsource) hread⟩

/-- **What is typed again is answered again, and changes nothing any more.** In every calculator of
a session a line whose tokens do not name the result before, and that is no assignment to a name
used in the expression, gives one reply both times and leaves one calculator both times. -/
theorem run_evaluate_again (config : Config) (steps : List Step) :
    ∃ log c, (new config).run steps = .ok (log, c) ∧ ∀ typed,
      (∀ ts, Token.ofTyped c.memory.units.names typed = .ok ts →
        ∀ t ∈ ts, t.kind = .identifier → t.lexeme ≠ previousResult) →
      (∀ name e place, c.statement typed = .ok (.assign name e place) → name ∉ e.names) →
      ∃ r after, c.evaluate typed = .ok (r, after) ∧ after.evaluate typed = .ok (r, after) := by
  obtain ⟨log, c, hrun, -, hkept⟩ := run_wellKept_of (wellKept_new config) steps
  refine ⟨log, c, hrun, fun typed htokens htarget => ?_⟩
  obtain ⟨r, after, hr⟩ := c.evaluate_total hkept.scaled typed
  refine ⟨r, after, hr, evaluate_again hr (fun s hs hprev => ?_) htarget⟩
  obtain ⟨ts, hts, hhold⟩ := names_of_statement hs
  obtain ⟨t, ht, hkind, hlexeme⟩ := hhold _ hprev
  exact htokens ts hts t ht hkind hlexeme

/-- An assignment that is typed twice is answered twice, and remembered once. -/
theorem run_evaluate_again_of_assignment :
    ∃ log c, (new {}).run [] = .ok (log, c) ∧
      (∀ ts, Token.ofTyped c.memory.units.names "x = 3 + pi" = .ok ts →
        ∀ t ∈ ts, t.kind = .identifier → t.lexeme ≠ previousResult) ∧
      (∀ name e place, c.statement "x = 3 + pi" = .ok (.assign name e place) →
        name ∉ e.names) ∧
      ∃ r after, c.evaluate "x = 3 + pi" = .ok (r, after) ∧
        after.evaluate "x = 3 + pi" = .ok (r, after) := by
  obtain ⟨log, c, hrun, hagain⟩ := run_evaluate_again {} []
  obtain ⟨rfl, rfl⟩ := Prod.mk.inj (Except.ok.inj hrun)
  have hlexemes : (Token.ofTyped (new {}).memory.units.names "x = 3 + pi").toOption.map
      (·.map (·.lexeme)) = some ["x", "=", "3", "+", "pi", ""] := by decide +kernel
  have hnames : ((new {}).statement "x = 3 + pi").toOption.map Statement.names = some ["pi"] := by
    decide +kernel
  have htarget : (new {}).target? "x = 3 + pi" = some "x" := by decide +kernel
  have htokens : ∀ ts, Token.ofTyped (new {}).memory.units.names "x = 3 + pi" = .ok ts →
      ∀ t ∈ ts, t.kind = .identifier → t.lexeme ≠ previousResult := by
    intro ts hts t ht _ hprev
    rw [hts] at hlexemes
    have hmem : previousResult ∈ ts.map (·.lexeme) := hprev ▸ List.mem_map_of_mem ht
    have hlexemes : ts.map (·.lexeme) = ["x", "=", "3", "+", "pi", ""] :=
      Option.some.inj hlexemes
    rw [hlexemes] at hmem
    revert hmem
    decide
  have hfree : ∀ name e place, (new {}).statement "x = 3 + pi" = .ok (.assign name e place) →
      name ∉ e.names := by
    intro name e place hs
    rw [target?, hs] at htarget
    rw [hs] at hnames
    obtain rfl := Option.some.inj htarget
    have hnames : e.names = ["pi"] := Option.some.inj hnames
    rw [hnames]
    decide
  exact ⟨[], new {}, hrun, htokens, hfree, hagain _ htokens hfree⟩

end Calculator

end Reckoner
