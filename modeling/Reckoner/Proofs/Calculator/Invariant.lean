import Reckoner.Proofs.Calculator.History
import Reckoner.Proofs.Token.Split

/-!
# Reckoner.Proofs.Calculator.Invariant -- what a calculator remembers is well kept

Two guards keep what is infinite or not a number out of the memory, one for variables and one for
the result before, and a third keeps names with a fixed meaning. That a name is a row of letters
is not guarded at all: it follows from how lines are respelled and split. What every line keeps,
every session keeps.

So whatever is typed, a reply comes. Each stage on the way keeps its promise to the next: a scan
calls nothing a number that is none and puts an end mark behind the tokens, a reader never looks
behind an end mark, and evaluation meets no unit of scale zero. What the floating-point library
traps on is settled where it is called, and no division has a divisor of zero.
-/

namespace Reckoner

open Number (AngleMode)

namespace Ledger

variable {α : Type} {l : Ledger α} {name : String} {a : α}

/-- What holds of all entries holds after one more has been written of which it holds. -/
theorem forall_put {p : String × α → Prop} (ha : p (name, a)) (h : ∀ entry ∈ l.entries, p entry) :
    ∀ entry ∈ (l.put name a).entries, p entry := by
  have hput (entries : List (String × α)) (h : ∀ entry ∈ entries, p entry) :
      ∀ entry ∈ putIn name a entries, p entry := by
    induction entries with
    | nil => exact List.forall_mem_singleton.mpr ha
    | cons first entries ih =>
        rw [List.forall_mem_cons] at h
        rw [putIn]
        split
        · exact List.forall_mem_cons.mpr ⟨ha, h.2⟩
        · exact List.forall_mem_cons.mpr ⟨h.1, ih h.2⟩
  exact hput l.entries h

/-- Writing gives no name a second entry. -/
theorem nodup_put (h : l.names.Nodup) : (l.put name a).names.Nodup := by
  rw [names_put]
  split
  · exact h
  · next hnew =>
    rw [List.nodup_append]
    refine ⟨h, List.nodup_cons.mpr ⟨List.not_mem_nil, List.nodup_nil⟩, ?_⟩
    rintro other hother _ hname rfl
    exact hnew (List.mem_singleton.mp hname ▸ hother)

end Ledger

/-! ## Names that are assigned to -/

namespace Statement

variable {units : List String} {limit : Nat} {name : String} {e : Expr} {place : Nat}

/-- What has no equals sign behind its first name is read into something else. -/
theorem conversion_ne_assign (value : Expr) (ts : List Token) :
    conversion value ts ≠ .ok (.assign name e place) := by
  intro h
  unfold conversion at h
  split at h
  · cases h
  split at h
  · split at h
    · cases h
    split at h
    · obtain ⟨_, -, h⟩ := bind_eq_ok.mp h
      cases h
    · cases h
  · obtain ⟨_, -, h⟩ := bind_eq_ok.mp h
    cases h

/-- The target of an assignment is one of the tokens that it is read from. -/
theorem target_of_ofTokens {ts : List Token}
    (h : ofTokens units limit ts = .ok (.assign name e place)) :
    ∃ t ∈ ts, t.kind = .identifier ∧ t.lexeme = name := by
  obtain ⟨_, -, hread⟩ := bind_eq_ok.mp h
  split at hread
  · next target sign rest hassign =>
    obtain ⟨rfl, hkind, -⟩ := assignment?_eq_some hassign
    obtain ⟨⟨value, rest'⟩, -, hend⟩ := bind_eq_ok.mp hread
    obtain ⟨_, -, heq⟩ := bind_eq_ok.mp hend
    cases heq
    exact ⟨target, List.mem_cons_self, hkind, rfl⟩
  · obtain ⟨⟨value, rest⟩, -, hconversion⟩ := bind_eq_ok.mp hread
    exact absurd hconversion (conversion_ne_assign value rest)

/-- The target of a typed assignment is a word in lower case, or the name of a unit. -/
theorem target_of_ofTyped {typed : String}
    (h : ofTyped units limit typed = .ok (.assign name e place)) :
    name.toList ≠ [] ∧
      ((∀ c ∈ name.toList, Product.isWordLetter c) ∨ name ∈ units) := by
  obtain ⟨ts, htokens, h⟩ := bind_eq_ok.mp h
  obtain ⟨t, ht, hkind, rfl⟩ := target_of_ofTokens h
  exact Token.lexeme_of_identifier (orError_eq_ok.mp htokens) ht hkind

/-- A name that has been assigned to has no fixed meaning. -/
theorem isReserved_of_attempt {m after : Memory} {v : Value}
    (h : ((assign name e place).attempt limit).run m = (.ok v, after)) :
    m.isReserved name = false := by
  rw [run_assign] at h
  split at h
  · next w between hw =>
    obtain ⟨mode, -, rfl⟩ := run_valueOf.mp hw
    split at h
    · next hstored =>
      unfold stored at hstored
      split at hstored
      · cases hstored
      · next hfree => exact Bool.eq_false_iff.mpr hfree
    · cases h
  · cases h

end Statement

/-! ## Memories -/

namespace Memory

/-- A memory as calculators keep it: the units are the standard ones, all numbers in it are finite,
and the variables have different names, rows of lower-case letters without a fixed meaning. -/
structure WellKept (m : Memory) : Prop where
  units : m.units = .standard
  lastResult : m.lastResult.isFinite = true
  finite : ∀ entry ∈ m.bindings.entries, entry.2.isFinite = true
  lower : ∀ entry ∈ m.bindings.entries,
    entry.1.toList ≠ [] ∧ ∀ c ∈ entry.1.toList, Product.isWordLetter c = true
  free : ∀ entry ∈ m.bindings.entries, m.isReserved entry.1 = false
  nodup : m.bindings.names.Nodup

theorem wellKept_fresh (mode : AngleMode) : (fresh mode).WellKept where
  units := rfl
  lastResult := by
    show (0 : Float).isFinite = true
    decide +kernel
  finite := List.forall_mem_nil _
  lower := List.forall_mem_nil _
  free := List.forall_mem_nil _
  nodup := List.nodup_nil

namespace WellKept

variable {m : Memory} (h : m.WellKept)

include h

theorem scaled : m.units.Scaled := h.units ▸ UnitTable.standard_scaled

theorem switched (mode : AngleMode) : ({ m with angleMode := mode } : Memory).WellKept :=
  ⟨h.units, h.lastResult, h.finite, h.lower, h.free, h.nodup⟩

theorem answered {x : Float} (hx : x.isFinite = true) :
    ({ m with lastResult := x } : Memory).WellKept :=
  ⟨h.units, hx, h.finite, h.lower, h.free, h.nodup⟩

theorem assigned {name : String} {x : Float} (hx : x.isFinite = true)
    (hname : name.toList ≠ [] ∧ ∀ c ∈ name.toList, Product.isWordLetter c = true)
    (hfree : m.isReserved name = false) :
    ({ m with bindings := m.bindings.put name x } : Memory).WellKept where
  units := h.units
  lastResult := h.lastResult
  finite := Ledger.forall_put hx h.finite
  lower := Ledger.forall_put hname h.lower
  free := Ledger.forall_put hfree h.free
  nodup := Ledger.nodup_put h.nodup

/-- A number that is not finite is not remembered, and nothing else is looked at. -/
theorem remembering (v : Value) : (m.remembering v).WellKept := by
  cases v with
  | number x =>
      rw [Memory.remembering]
      split
      · next hx => exact h.answered hx
      · exact h
  | quantity q => exact h
  | text t => exact h

/-- A statement that was typed keeps the memory well. -/
theorem perform {limit : Nat} {typed : String} {s : Statement} {v : Value} {after : Memory}
    (hread : Statement.ofTyped m.units.names limit typed = .ok s)
    (hrun : (s.perform limit).run m = (.ok v, after)) : after.WellKept := by
  have hattempt := Statement.perform_ok.mp hrun
  rcases Statement.attempt_ok hattempt with
    ⟨name, e, place, x, rfl, rfl, rfl⟩ | ⟨-, -, rfl⟩ | ⟨e, mode, rfl, -, rfl, rfl⟩
  · have hfree := Statement.isReserved_of_attempt hattempt
    obtain ⟨hne, hletters⟩ := Statement.target_of_ofTyped hread
    -- a compound is the name of a unit, and those are taken
    have hlower : ∀ c ∈ name.toList, Product.isWordLetter c = true := by
      refine hletters.resolve_right fun hunit => ?_
      have hhas : m.units.has name = true := List.contains_iff_mem.mpr hunit
      simp [Memory.isReserved, hhas] at hfree
    split
    · next hx => exact h.assigned hx ⟨hne, hlower⟩ hfree
    · exact h
  · exact h
  · exact h.switched mode

end WellKept

end Memory

/-! ## Sessions -/

namespace Calculator

variable {c after : Calculator}

theorem evaluate_wellKept (h : c.memory.WellKept) {typed : String} {r : Reply}
    (hr : c.evaluate typed = .ok (r, after)) : after.memory.WellKept := by
  unfold evaluate at hr
  split at hr
  · next s hread =>
    unfold carryOut at hr
    split at hr
    · next v m hrun =>
      cases hr
      exact (h.perform hread hrun).remembering v
    · next e m hrun =>
      cases hr
      obtain rfl := Statement.perform_error hrun
      exact h
    · cases hr
  · cases hr
    exact h
  · cases hr

theorem wellKept_new (config : Config) : (new config).memory.WellKept :=
  Memory.wellKept_fresh config.angleMode

/-- Every step is answered, and the memory stays well kept. -/
theorem take_wellKept (h : c.memory.WellKept) (step : Step) :
    ∃ answer after, c.take step = .ok (answer, after) ∧ after.memory.WellKept := by
  have hreset : c.reset.memory.WellKept := Memory.wellKept_fresh _
  cases step with
  | evaluate typed =>
      obtain ⟨r, after, hr⟩ := c.evaluate_total h.scaled typed
      refine ⟨.reply r, after, ?_, evaluate_wellKept h hr⟩
      rw [take, hr]
      rfl
  | command line =>
      obtain ⟨answer, htake⟩ := c.take_command line
      refine ⟨answer, _, htake, ?_⟩
      cases Command.ofLine line with
      | reset => exact hreset
      | setMode mode => exact h.switched mode
      | _ => exact h
  | reset => exact ⟨.nothing, c.reset, rfl, hreset⟩
  | setMode mode => exact ⟨.nothing, c.setMode mode, rfl, h.switched mode⟩

/-- So is every session from a memory that is well kept. -/
theorem run_wellKept_of (h : c.memory.WellKept) (steps : List Step) :
    ∃ log after, c.run steps = .ok (log, after) ∧
      (∀ entry ∈ log, entry.before.memory.WellKept) ∧ after.memory.WellKept := by
  induction steps generalizing c with
  | nil => exact ⟨[], c, rfl, List.forall_mem_nil _, h⟩
  | cons step steps ih =>
      obtain ⟨answer, next, htake, hnext⟩ := take_wellKept h step
      obtain ⟨log, after, hrun, hlog, hafter⟩ := ih hnext
      refine ⟨⟨c, step, answer⟩ :: log, after, ?_, ?_, hafter⟩
      · rw [run, htake]
        simp only [bind, Except.bind, hrun]
        rfl
      · exact List.forall_mem_cons.mpr ⟨h, hlog⟩

/-- **Every calculator of a session is well kept**: however it is set up and whatever is done to
it, the session is answered to its end, and in front of each step and behind the last the numbers
in the memory are finite, and its variables have different names that are words in lower case
without a fixed meaning. -/
theorem run_wellKept (config : Config) (steps : List Step) :
    ∃ log c, (new config).run steps = .ok (log, c) ∧
      (∀ entry ∈ log, entry.before.memory.WellKept) ∧ c.memory.WellKept :=
  run_wellKept_of (wellKept_new config) steps

end Calculator

/-! ## Answers -/

namespace Statement

variable {units : List String} {limit : Nat}

/-- **A reader never looks behind an end mark**, whatever the tokens in front of it are: its only
fault is one of them that is called a number and is none. -/
theorem fault_of_ofTokens {front : List Token} {stop : Token} (hstop : stop.kind = .finish)
    {f : Fault} (h : ofTokens units limit (front ++ [stop]) = .error (.fault f)) :
    ∃ t ∈ front, t.kind = .number ∧ Number.numeral? t.lexeme = none ∧
      f = .notANumeral t.lexeme := by
  have hreadable : Token.Readable (fun _ => True)
      (fun lexeme => ∃ t ∈ front, t.kind = .number ∧ Number.numeral? t.lexeme = none ∧
        lexeme = t.lexeme) (front ++ [stop]) := by
    refine ⟨⟨stop, by simp, hstop⟩, fun t ht hnumber hnone => ?_, fun _ _ => trivial⟩
    rcases List.mem_append.mp ht with ht | ht
    · exact ⟨t, ht, hnumber, hnone, rfl⟩
    · rw [List.mem_singleton.mp ht, hstop] at hnumber
      cases hnumber
  cases ofTokens_error hreadable h with
  | notANumeral hlexeme =>
      obtain ⟨t, ht, hnumber, hnone, rfl⟩ := hlexeme
      exact ⟨t, ht, hnumber, hnone, rfl⟩

end Statement

namespace Calculator

/-- **A calculator always answers.** However it is set up and whatever has been done to it, every
line gets a reply, and the stages meet no fault:
the numbers among the tokens of any source are numerals, and an end mark is behind them;
the reader of any tokens with an end mark behind them faults only for a number that is no numeral;
a statement is carried out without a fault, and a conversion fails only for its units;
a function fails only for its arguments, and a quotient only for zero by zero. -/
theorem run_answers (config : Config) (steps : List Step) :
    ∃ log c, (new config).run steps = .ok (log, c) ∧
      (∀ typed, ∃ r after, c.evaluate typed = .ok (r, after)) ∧
      (∀ units source ts, Token.ofSource units source = .ok ts →
        Token.Ended ts ∧ ∀ t ∈ ts, t.kind = .number →
          ∃ x, Number.numeral? t.lexeme = some x) ∧
      (∀ units limit front stop f, stop.kind = .finish →
        Statement.ofTokens units limit (front ++ [stop]) = .error (.fault f) →
          ∃ t ∈ front, t.kind = .number ∧ Number.numeral? t.lexeme = none ∧
            f = .notANumeral t.lexeme) ∧
      (∀ limit s, Faultless ((Statement.perform limit s).run c.memory).1) ∧
      (∀ x source target,
        FailsWith Error.IsOfUnits (c.memory.units.convert x source target)) ∧
      (∀ f args mode, FailsWith Error.IsOfArguments ((Builtin.apply f args).run mode)) ∧
      ∀ x y, FailsWith (· = .zeroByZero) (Value.quotient x y) := by
  obtain ⟨log, c, hrun, -, hkept⟩ := run_wellKept_of (wellKept_new config) steps
  refine ⟨log, c, hrun, c.evaluate_total hkept.scaled, ?_, ?_, ?_, ?_, ?_, ?_⟩
  · intro units source ts hts
    exact ⟨Token.ended_of_ofSource hts, fun t => Token.numeral_of_ofSource hts⟩
  · intro units limit front stop f hstop hf
    exact Statement.fault_of_ofTokens hstop hf
  · exact fun limit s => Statement.perform_faultless limit hkept.scaled s
  · exact UnitTable.convert_failsWith hkept.scaled
  · exact Builtin.apply_failsWith
  · exact Value.quotient_failsWith

/-- A point alone is no numeral. No scan makes a number of it, and a reader that is given one all
the same has nothing else to report. -/
theorem run_answers_of_point :
    ∃ log c, (new {}).run [] = .ok (log, c) ∧
      (∃ ts, Token.ofSource [] ⟨['1', '.', '5'], [0, 1, 2], "1.5"⟩ = .ok ts ∧ Token.Ended ts) ∧
      (⟨.finish, "", 4⟩ : Token).kind = .finish ∧
      ∃ f, Statement.ofTokens [] 9 ([⟨.number, ".", 3⟩] ++ [⟨.finish, "", 4⟩]) =
        .error (.fault f) ∧ f = .notANumeral "." := by
  obtain ⟨log, c, hrun, -, hsource, htokens, -⟩ := run_answers {} []
  have hts : Token.ofSource [] ⟨['1', '.', '5'], [0, 1, 2], "1.5"⟩ =
      .ok [⟨.number, "1.5", 0⟩, ⟨.finish, "", 3⟩] := by rfl
  have hf : Statement.ofTokens [] 9 ([⟨.number, ".", 3⟩] ++ [⟨.finish, "", 4⟩]) =
      .error (.fault (.notANumeral ".")) := by rfl
  obtain ⟨t, ht, -, -, heq⟩ := htokens [] 9 [⟨.number, ".", 3⟩] ⟨.finish, "", 4⟩ _ rfl hf
  rw [List.mem_singleton.mp ht] at heq
  exact ⟨log, c, hrun, ⟨_, hts, (hsource _ _ _ hts).1⟩, rfl, _, hf, heq⟩

end Calculator

end Reckoner
