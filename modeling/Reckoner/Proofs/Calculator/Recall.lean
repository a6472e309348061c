import Reckoner.Proofs.Calculator.Again
import Reckoner.Proofs.Calculator.Line

/-!
# Reckoner.Proofs.Calculator.Recall -- variables keep what was assigned to them

A variable has the number of its latest assignment until it is assigned to again or the memory is
cleared. To recall it by its name alone, the name has to come through respelling and scanning as
it is, and to mean nothing else when it is looked up: both hold of every name that was assigned
to, but for the six words that stand for something else wherever they are typed alone.
-/

namespace Reckoner

/-- Letters in lower case are a word, unless they are shorthand. -/
theorem Word.exists_text {name : String} (hne : name.toList ≠ [])
    (hlower : ∀ c ∈ name.toList, Product.isWordLetter c = true) (hfree : name ∉ shorthandWords) :
    ∃ w : Word, w.text = name := by
  have htext : String.ofList name.toList = name := String.ofList_toList
  exact ⟨⟨name.toList, hne, hlower, htext.symm ▸ hfree⟩, htext⟩

/-! ## Steps that touch a variable -/

namespace Entry

/-- An entry of a line that was answered as an assignment to a name. -/
def AssignsTo (name : String) (entry : Entry) : Prop :=
  ∃ typed r, entry.step = .evaluate typed ∧ entry.answer = .reply r ∧ r.kind = .assignment ∧
    entry.before.target? typed = some name

/-- An entry of a step that cleared the memory, by a call or by a command. -/
def Clears (entry : Entry) : Prop :=
  entry.step = .reset ∨ ∃ line, entry.step = .command line ∧ Command.ofLine line = .reset

end Entry

namespace Calculator

variable {c after : Calculator} {typed name : String} {r : Reply}

theorem take_evaluate {answer : Answer} (h : c.take (.evaluate typed) = .ok (answer, after)) :
    ∃ r, answer = .reply r ∧ c.evaluate typed = .ok (r, after) := by
  rw [take] at h
  cases hr : c.evaluate typed with
  | ok outcome =>
      rw [hr] at h
      obtain ⟨rfl, rfl⟩ := Prod.mk.inj (Except.ok.inj h)
      exact ⟨outcome.1, rfl, rfl⟩
  | error f =>
      rw [hr] at h
      cases h

/-- What a step does to a calculator: a line does what its reply tells, and anything else clears the
memory, switches the angle mode, or leaves the calculator as it was. -/
inductive StepEffect (c : Calculator) : Step → Answer → Calculator → Prop
  | line {typed : String} {r : Reply} {after : Calculator} (h : LineEffect c typed r after) :
    StepEffect c (.evaluate typed) (.reply r) after
  | cleared {step : Step} {answer : Answer} (h : Entry.Clears ⟨c, step, answer⟩) :
    StepEffect c step answer c.reset
  | switched (mode : Number.AngleMode) {step : Step} {answer : Answer} :
    StepEffect c step answer (c.setMode mode)
  | kept {step : Step} {answer : Answer} : StepEffect c step answer c

variable {step : Step} {answer : Answer}

theorem take_effect (h : c.take step = .ok (answer, after)) : StepEffect c step answer after := by
  cases step with
  | evaluate typed =>
      obtain ⟨r, rfl, hr⟩ := take_evaluate h
      exact .line (evaluate_effect hr)
  | command line =>
      obtain ⟨answer', htake⟩ := c.take_command line
      rw [htake] at h
      obtain ⟨rfl, rfl⟩ := Prod.mk.inj (Except.ok.inj h)
      cases hline : Command.ofLine line with
      | reset => exact .cleared (.inr ⟨line, rfl, hline⟩)
      | setMode mode => exact .switched mode
      | _ => exact .kept
  | reset =>
      obtain ⟨rfl, rfl⟩ := Prod.mk.inj (Except.ok.inj h)
      exact .cleared (.inl rfl)
  | setMode mode =>
      obtain ⟨rfl, rfl⟩ := Prod.mk.inj (Except.ok.inj h)
      exact .switched mode

/-- A step changes a variable only by an assignment to it or by clearing the memory. -/
theorem take_find? (h : c.take step = .ok (answer, after))
    (hassigns : ¬ Entry.AssignsTo name ⟨c, step, answer⟩)
    (hclears : ¬ Entry.Clears ⟨c, step, answer⟩) :
    after.memory.bindings.find? name = c.memory.bindings.find? name := by
  cases take_effect h with
  | line hline =>
      cases hline with
      | assigned other x text hother hvalue =>
          have hne : ¬ other = name := by
            intro heq
            exact hassigns ⟨_, _, rfl, rfl, rfl, heq ▸ hother⟩
          simp only [Ledger.find?_put, if_neg hne]
      | refused e => rfl
      | passing r hkind => rfl
      | answered x text hvalue => rfl
      | switched mode => rfl
  | cleared hcleared => exact absurd hcleared hclears
  | switched mode => rfl
  | kept => rfl

theorem take_config (h : c.take step = .ok (answer, after)) : after.config = c.config := by
  cases take_effect h with
  | line hline => exact hline.keeps.1
  | cleared hcleared => rfl
  | switched mode => rfl
  | kept => rfl

/-! ## Sessions from a step on -/

/-- A session of a step and others is the step's entry in front of the log of the others. -/
theorem run_cons {steps : List Step} {log : List Entry}
    (h : c.run (step :: steps) = .ok (log, after)) :
    ∃ answer next rest, log = ⟨c, step, answer⟩ :: rest ∧ c.take step = .ok (answer, next) ∧
      next.run steps = .ok (rest, after) := by
  rw [run] at h
  cases htake : c.take step with
  | error f =>
      rw [htake] at h
      cases h
  | ok result =>
      obtain ⟨answer, next⟩ := result
      cases hrun : next.run steps with
      | error f =>
          simp only [htake, bind, Except.bind, hrun] at h
          cases h
      | ok result =>
          obtain ⟨rest, last⟩ := result
          simp only [htake, bind, Except.bind, hrun] at h
          cases h
          exact ⟨answer, next, rest, rfl, rfl, hrun⟩

/-- From any of its entries on, a session is the step of that entry and then a session of the steps
behind it. -/
theorem run_from {front behind : List Entry} {entry : Entry} {steps : List Step}
    (h : c.run steps = .ok (front ++ entry :: behind, after)) :
    ∃ next rest, entry.before.take entry.step = .ok (entry.answer, next) ∧
      next.run rest = .ok (behind, after) := by
  induction steps generalizing c front with
  | nil => simp [run] at h
  | cons step steps ih =>
      obtain ⟨answer, next, rest, hlog, htake, hrun⟩ := run_cons h
      cases front with
      | nil =>
          obtain ⟨rfl, rfl⟩ := List.cons.inj hlog
          exact ⟨next, steps, htake, hrun⟩
      | cons first front =>
          obtain ⟨-, rfl⟩ := List.cons.inj hlog
          exact ih hrun

/-- What was assigned to a variable stays, as long as nothing is assigned to it and the memory is
not cleared. -/
theorem run_find? {log : List Entry} {steps : List Step} (h : c.run steps = .ok (log, after))
    (hlog : ∀ entry ∈ log, ¬ entry.AssignsTo name ∧ ¬ entry.Clears) :
    after.config = c.config ∧
      after.memory.bindings.find? name = c.memory.bindings.find? name := by
  induction steps generalizing c log with
  | nil =>
      obtain ⟨-, rfl⟩ := Prod.mk.inj (Except.ok.inj h)
      exact ⟨rfl, rfl⟩
  | cons step steps ih =>
      obtain ⟨answer, next, rest, rfl, htake, hrun⟩ := run_cons h
      obtain ⟨⟨hassigns, hclears⟩, hrest⟩ := List.forall_mem_cons.mp hlog
      obtain ⟨hconfig, hfind⟩ := ih hrun hrest
      exact ⟨hconfig.trans (take_config htake),
        hfind.trans (take_find? htake hassigns hclears)⟩

/-! ## Recalling a variable -/

/-- An assignment with a value is answered with that. -/
theorem reply_of_target {v : Value} (h : c.evaluate typed = .ok (r, after))
    (htarget : c.target? typed = some name) (hvalue : c.value? typed = some v) :
    r = .ofAssigned c.config.precision name v := by
  unfold target? at htarget
  split at htarget
  · next target e place hread =>
    obtain rfl := Option.some.inj htarget
    rw [evaluate, hread] at h
    simp only [value?, hread] at hvalue
    simp only [carryOut] at h
    split at h
    · next w m hrun =>
      simp only [hrun] at hvalue
      obtain rfl := Option.some.inj hvalue
      cases h
      rfl
    · next hrun =>
      simp only [hrun] at hvalue
      cases hvalue
    · cases h
  · cases htarget

/-- The reply to an assignment gives the name and the number that was stored under it. -/
theorem evaluate_assigned (h : c.evaluate typed = .ok (r, after)) (hkind : r.kind = .assignment)
    (htarget : c.target? typed = some name) :
    ∃ x, c.value? typed = some (.number x) ∧
      r.text = name ++ " = " ++ shownNumber c.config.precision x ∧
      after.config = c.config ∧ after.memory.bindings.find? name = some x := by
  cases evaluate_effect h with
  | assigned other x text hother hvalue =>
      obtain rfl := Option.some.inj (htarget.symm.trans hother)
      have hreply : (⟨text, false, .assignment, none⟩ : Reply) = .ofAmount x .assignment
          (name ++ " = " ++ shownNumber c.config.precision x) := reply_of_target h htarget hvalue
      have hx : x.isFinite = true := by
        refine Bool.of_not_eq_false fun hx => ?_
        have hother := Reply.ofAmount_not_finite hx .assignment
          (name ++ " = " ++ shownNumber c.config.precision x)
        rw [← hreply] at hother
        rcases hother with hother | hother <;> cases hother
      rw [Reply.ofAmount_finite hx] at hreply
      refine ⟨x, hvalue, congrArg Reply.text hreply, rfl, ?_⟩
      simp only [Ledger.find?_put, if_pos]
  | refused e =>
      have herror := Reply.isError_kind e
      rw [show e.kind = .assignment from hkind] at herror
      cases herror
  | passing r hpassing =>
      rcases hpassing with hpassing | hpassing | hpassing <;> simp [hpassing] at hkind
  | answered x text hvalue => cases hkind
  | switched mode => cases hkind

end Calculator

namespace Memory.WellKept

variable {m : Memory} {name : String} {x : Float}

/-- A variable of a well-kept memory is what its name stands for: no constant has the name. -/
theorem number?_of_find? (h : m.WellKept) (hfind : m.bindings.find? name = some x) :
    m.number? name = some x := by
  have hfree : m.isReserved name = false := h.free _ (Ledger.mem_of_findIn hfind)
  have hconstant : Number.constant? name = none := by
    cases hname : Number.constant? name with
    | none => rfl
    | some y => simp [isReserved, hname] at hfree
  rw [number?, hconstant]
  simp only [hfind]

end Memory.WellKept

namespace Calculator

/-- **A variable is recalled by its name.** In every session, once a line has been answered as an
assignment to a name, and as long as no later line is and the memory is not cleared, the name typed
alone is answered with what the assignment said behind its equals sign, whatever else has been done
in between; and the result before is the number that was assigned. The six words that are shorthand
stand for something else. -/
theorem run_recall (config : Config) (steps : List Step) :
    ∃ log c, (new config).run steps = .ok (log, c) ∧
      ∀ front before typed r middle name,
        log = front ++ ⟨before, .evaluate typed, .reply r⟩ :: middle →
        r.kind = .assignment → before.target? typed = some name →
        (∀ entry ∈ middle, ¬ entry.AssignsTo name ∧ ¬ entry.Clears) →
        name ∉ shorthandWords →
        ∃ x text, before.value? typed = some (.number x) ∧ r.text = name ++ " = " ++ text ∧
          c.memory.bindings.find? name = some x ∧
          c.evaluate name = .ok (⟨text, false, .number, none⟩,
            { c with memory := { c.memory with lastResult := x } }) := by
  obtain ⟨log, c, hrun, -, hkept⟩ := run_wellKept_of (wellKept_new config) steps
  refine ⟨log, c, hrun, ?_⟩
  rintro front before typed r middle name rfl hkind htarget hmiddle hfree
  obtain ⟨next, rest, htake, hrest⟩ := run_from hrun
  obtain ⟨_, ⟨⟩, hr⟩ := take_evaluate htake
  obtain ⟨x, hvalue, htext, hnext, hbound⟩ := evaluate_assigned hr hkind htarget
  obtain ⟨hconfig, hfind⟩ := run_find? hrest hmiddle
  have hfound : c.memory.bindings.find? name = some x := hfind.trans hbound
  have hentry := Ledger.mem_of_findIn hfound
  obtain ⟨hne, hlower⟩ := hkept.lower _ hentry
  obtain ⟨w, rfl⟩ := Word.exists_text hne hlower hfree
  have hnumber : c.memory.number? w.text = some x := hkept.number?_of_find? hfound
  have hfinite : x.isFinite = true := hkept.finite (w.text, x) hentry
  have hprecision : before.config.precision = c.config.precision := by rw [hconfig, hnext]
  rw [hprecision] at htext
  exact ⟨x, _, hvalue, htext, hfound, evaluate_word hkept.units w hnumber hfinite⟩

/-- A variable is recalled in another angle mode. -/
theorem run_recall_of_switch :
    ∃ log c, (new {}).run [.evaluate "x = 7", .setMode .radians] = .ok (log, c) ∧
      ∃ before r middle, log = [] ++ ⟨before, .evaluate "x = 7", .reply r⟩ :: middle ∧
        r.kind = .assignment ∧ before.target? "x = 7" = some "x" ∧
        (∀ entry ∈ middle, ¬ entry.AssignsTo "x" ∧ ¬ entry.Clears) ∧
        "x" ∉ shorthandWords ∧
        ∃ x text, before.value? "x = 7" = some (.number x) ∧ r.text = "x" ++ " = " ++ text ∧
          c.memory.bindings.find? "x" = some x ∧
          c.evaluate "x" = .ok (⟨text, false, .number, none⟩,
            { c with memory := { c.memory with lastResult := x } }) := by
  obtain ⟨log, c, hrun, hrecall⟩ := run_recall {} [.evaluate "x = 7", .setMode .radians]
  obtain ⟨_, next, rest, rfl, htake, hrest⟩ := run_cons hrun
  obtain ⟨r, rfl, hr⟩ := take_evaluate htake
  obtain ⟨_, _, _, rfl, hmode, hend⟩ := run_cons hrest
  obtain ⟨rfl, -⟩ := Prod.mk.inj (Except.ok.inj hmode)
  obtain ⟨rfl, -⟩ := Prod.mk.inj (Except.ok.inj hend)
  have hkind : r.kind = .assignment := by
    have hkinds : ((new {}).evaluate "x = 7").toOption.map (·.1.kind) = some .assignment := by
      decide +kernel
    rw [hr] at hkinds
    exact Option.some.inj hkinds
  have htarget : (new {}).target? "x = 7" = some "x" := by decide +kernel
  have hmiddle : ∀ entry ∈ [(⟨next, .setMode .radians, .nothing⟩ : Entry)],
      ¬ entry.AssignsTo "x" ∧ ¬ entry.Clears := by
    intro entry hentry
    obtain rfl := List.mem_singleton.mp hentry
    refine ⟨?_, ?_⟩
    · rintro ⟨_, _, ⟨⟩, -⟩
    · rintro (⟨⟨⟩⟩ | ⟨_, ⟨⟩, -⟩)
  have hfree : "x" ∉ shorthandWords := by decide
  exact ⟨_, c, hrun, new {}, r, _, rfl, hkind, htarget, hmiddle, hfree,
    hrecall [] (new {}) "x = 7" r _ "x" rfl hkind htarget hmiddle hfree⟩

end Calculator

end Reckoner
