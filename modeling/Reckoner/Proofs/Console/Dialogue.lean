import Reckoner.CommandLine.Run
import Reckoner.Proofs.Calculator.Invariant
import Reckoner.Proofs.Calculator.Line

/-!
# Reckoner.Proofs.Console.Dialogue -- batches and dialogues agree

A batch trims its lines and a dialogue does not, which makes no difference to the replies. As long
as no line is in error and none is a command, both say the same and leave the same calculator. A
batch ends at its first error, and what comes behind it is not read.
-/

namespace Reckoner

open Text (trimString)

/-- Whether a line is a command in a dialogue. -/
def Command.IsLine (line : String) : Prop := (trimString line).toList.head? = some ':'

namespace Calculator

/-- Lines that a calculator answers without an error, what is printed for each of them, and the
calculator behind them. An empty line is not answered. -/
inductive Hears : Calculator → List String → List String → Calculator → Prop where
  | nil (c : Calculator) : Hears c [] [] c
  | empty {c after : Calculator} {line : String} {lines printed : List String} :
      trimString line = "" → Hears c lines printed after →
        Hears c (line :: lines) ("" :: printed) after
  | reply {c next after : Calculator} {line : String} {lines printed : List String} {r : Reply} :
      trimString line ≠ "" → c.evaluate line = .ok (r, next) → r.isError = false →
        Hears next lines printed after →
        Hears c (line :: lines) ((r.text ++ "\n") :: printed) after

/-- Lines the first error of which is the reply `r` to `line`, behind the lines `front`. -/
structure Stops (c : Calculator) (front : List String) (line : String) (printed : List String)
    (r : Reply) (after : Calculator) : Prop where
  hears : ∃ between, Hears c front printed between ∧
    between.evaluate (trimString line) = .ok (r, after)
  nonempty : trimString line ≠ ""
  isError : r.isError = true

variable {c next after : Calculator} {lines printed : List String} {line : String} {r : Reply}

theorem render_of_isError_eq_false (typed : String) (h : r.isError = false) :
    r.render typed = r.text := by
  rw [Reply.render, h]
  rfl

/-- A reply that is no error is printed alike for a line and the trimmed line. -/
theorem render_trimString (h : c.evaluate line = .ok (r, after)) (hr : r.isError = false) :
    ∃ r', c.evaluate (trimString line) = .ok (r', after) ∧ r'.isError = false ∧
      r'.render (trimString line) = r.text := by
  obtain ⟨r', htrimmed, hsame⟩ := evaluate_trimString h
  have herror : r'.unplaced.isError = r.unplaced.isError := congrArg Reply.isError hsame
  have htext : r'.unplaced.text = r.unplaced.text := congrArg Reply.text hsame
  have hr' : r'.isError = false := herror.trans hr
  exact ⟨r', htrimmed, hr', (render_of_isError_eq_false _ hr').trans htext⟩

/-! ## Batches -/

theorem batch_empty (h : trimString line = "") : c.batch (line :: lines) = c.batch lines := by
  rw [batch, h]
  rfl

theorem batch_reply (hline : trimString line ≠ "")
    (h : c.evaluate (trimString line) = .ok (r, next)) (hr : r.isError = false) :
    c.batch (line :: lines) = (next.batch lines).map fun (more, finished, last) =>
      (r.render (trimString line) ++ "\n" ++ more, finished, last) := by
  rw [batch, if_neg (String.isEmpty_iff.not.mpr hline), h]
  simp only [bind, Except.bind, hr, Bool.false_eq_true, if_false]
  cases next.batch lines <;> rfl

/-- A batch ends at an error, whatever comes behind it. -/
theorem batch_error (hline : trimString line ≠ "")
    (h : c.evaluate (trimString line) = .ok (r, after)) (hr : r.isError = true) :
    c.batch (line :: lines) = .ok (r.render (trimString line) ++ "\n", false, after) := by
  rw [batch, if_neg (String.isEmpty_iff.not.mpr hline), h]
  simp only [bind, Except.bind, hr, if_true]
  rfl

/-- A batch prints the replies and goes on behind them. -/
theorem Hears.batch_append (h : Hears c lines printed after) (more : List String) :
    c.batch (lines ++ more) = (after.batch more).map fun (text, finished, last) =>
      (String.join printed ++ text, finished, last) := by
  induction h with
  | nil c =>
      rw [List.nil_append, String.join_nil]
      cases c.batch more <;> simp [Except.map]
  | empty hline _ ih =>
      rw [List.cons_append, batch_empty hline, ih]
      simp only [String.join_cons, String.empty_append]
  | @reply c next after line lines printed r hline hr herror _ ih =>
      obtain ⟨r', htrimmed, herror', hrender⟩ := render_trimString hr herror
      rw [List.cons_append, batch_reply hline htrimmed herror', ih, hrender]
      cases after.batch more with
      | error f => rfl
      | ok outcome => simp only [Except.map, String.join_cons, String.append_assoc]

theorem Hears.batch (h : Hears c lines printed after) :
    c.batch lines = .ok (String.join printed, true, after) := by
  have hall := h.batch_append []
  rw [List.append_nil, Calculator.batch] at hall
  rw [hall]
  simp only [Except.map, String.append_empty]

/-- **A batch prints what is heard up to its first error**, and that. -/
theorem Stops.batch {front : List String} (h : Stops c front line printed r after)
    (back : List String) :
    c.batch (front ++ line :: back) =
      .ok (String.join printed ++ (r.render (trimString line) ++ "\n"), false, after) := by
  obtain ⟨⟨between, hfront, hr⟩, hline, herror⟩ := h
  rw [hfront.batch_append, batch_error hline hr herror]
  rfl

theorem Stops.empty {front : List String} {bad : String} (hline : trimString line = "")
    (h : Stops c front bad printed r after) :
    Stops c (line :: front) bad ("" :: printed) r after := by
  obtain ⟨⟨between, hfront, hr⟩, hbad, herror⟩ := h
  exact ⟨⟨between, .empty hline hfront, hr⟩, hbad, herror⟩

theorem Stops.reply {front : List String} {bad : String} {r' : Reply}
    (hline : trimString line ≠ "") (hr : c.evaluate line = .ok (r', next))
    (herror : r'.isError = false) (h : Stops next front bad printed r after) :
    Stops c (line :: front) bad ((r'.text ++ "\n") :: printed) r after := by
  obtain ⟨⟨between, hfront, hbetween⟩, hbad, hlast⟩ := h
  exact ⟨⟨between, .reply hline hr herror hfront, hbetween⟩, hbad, hlast⟩

/-- **Lines are heard, or one of them is the first in error.** -/
theorem hears_or_stops (h : c.memory.WellKept) (lines : List String) :
    (∃ printed after, Hears c lines printed after) ∨
      ∃ front line back printed r after, lines = front ++ line :: back ∧
        Stops c front line printed r after := by
  -- each line is heard by the calculator that the lines before it leave
  induction lines generalizing c with
  | nil => exact .inl ⟨[], c, .nil c⟩
  | cons line lines ih =>
      by_cases hline : trimString line = ""
      · rcases ih h with ⟨printed, after, hall⟩ |
          ⟨front, bad, back, printed, r, after, rfl, hstop⟩
        · exact .inl ⟨_, after, .empty hline hall⟩
        · exact .inr ⟨line :: front, bad, back, _, r, after, rfl, hstop.empty hline⟩
      · obtain ⟨r, next, hr⟩ := c.evaluate_total h.scaled line
        cases herror : r.isError with
        | false =>
            rcases ih (evaluate_wellKept h hr) with ⟨printed, after, hall⟩ |
              ⟨front, bad, back, printed, r', after, rfl, hstop⟩
            · exact .inl ⟨_, after, .reply hline hr herror hall⟩
            · exact .inr ⟨line :: front, bad, back, _, r', after, rfl,
                hstop.reply hline hr herror⟩
        | true =>
            obtain ⟨r', htrimmed, hsame⟩ := evaluate_trimString hr
            have herror' : r'.unplaced.isError = r.unplaced.isError :=
              congrArg Reply.isError hsame
            exact .inr ⟨[], line, lines, [], r', next, rfl, ⟨c, .nil c, htrimmed⟩, hline,
              herror'.trans herror⟩

/-! ## Dialogues -/

theorem dialogue_empty (h : trimString line = "") :
    c.dialogue (line :: lines) = (c.dialogue lines).map fun (more, last) =>
      (prompt ++ more, last) := by
  have hturn : c.turn line = .ok .silent := by
    rw [turn, h]
    rfl
  rw [dialogue, hturn]
  simp only [bind, Except.bind]
  cases c.dialogue lines <;> rfl

theorem dialogue_reply (hline : trimString line ≠ "") (hcommand : ¬ Command.IsLine line)
    (h : c.evaluate line = .ok (r, next)) :
    c.dialogue (line :: lines) = (next.dialogue lines).map fun (more, last) =>
      (prompt ++ r.render line ++ "\n" ++ more, last) := by
  have hhead : (trimString line).toList.head? ≠ some ':' := hcommand
  have hturn : c.turn line = .ok (.said (r.render line) next) := by
    rw [turn, if_neg (String.isEmpty_iff.not.mpr hline), if_neg hhead, h]
    rfl
  rw [dialogue, hturn]
  simp only [bind, Except.bind]
  cases next.dialogue lines <;> rfl

/-- **A dialogue prints the same replies as a batch**, each behind a prompt. -/
theorem Hears.dialogue (h : Hears c lines printed after)
    (hcommand : ∀ line ∈ lines, ¬ Command.IsLine line) :
    c.dialogue lines =
      .ok (String.join (printed.map (prompt ++ ·)) ++ prompt ++ "\n", after) := by
  induction h with
  | nil c => rfl
  | empty hline _ ih =>
      rw [List.forall_mem_cons] at hcommand
      rw [dialogue_empty hline, ih hcommand.2]
      simp only [Except.map, List.map_cons, String.join_cons, String.append_empty,
        String.append_assoc]
  | reply hline hr herror _ ih =>
      rw [List.forall_mem_cons] at hcommand
      rw [dialogue_reply hline hcommand.1 hr, ih hcommand.2,
        render_of_isError_eq_false _ herror]
      simp only [Except.map, List.map_cons, String.join_cons, String.append_assoc]

end Calculator

namespace CommandLine

open Calculator (Hears Stops prompt)

variable {config : Config} {lines : List String}

theorem converse_batch {printed : String} {finished : Bool} {after : Calculator}
    (h : (Calculator.new config).batch lines = .ok (printed, finished, after)) :
    converse config false lines = .ok ⟨if finished then 0 else 1, printed, "", false⟩ := by
  rw [converse, h]
  rfl

theorem converse_dialogue {printed : String} {after : Calculator}
    (h : (Calculator.new config).dialogue lines = .ok (printed, after)) :
    converse config true lines = .ok ⟨0, printed, "", false⟩ := by
  rw [converse, h]
  rfl

/-- **A batch and a dialogue agree.** In any state a calculator gives a line the reply to the
trimmed line, its place apart, and is the same afterwards. So a batch of lines without a command
and without an error prints the replies that a dialogue prints behind its prompts, from one set-up
both leave the same calculator, and both runs are a success. Any other batch prints what is heard
up to the first error, and that, and fails; lines behind it have no effect. -/
theorem converse_agrees (config : Config) (steps : List Step) :
    (∃ log c, (Calculator.new config).run steps = .ok (log, c) ∧
      ∀ typed, ∃ r r' after, c.evaluate typed = .ok (r, after) ∧
        c.evaluate (trimString typed) = .ok (r', after) ∧
        r'.text = r.text ∧ r'.isError = r.isError ∧ r'.kind = r.kind) ∧
      (∀ (c : Calculator) (typed : String),
        c.evaluateUnplaced (trimString typed) = c.evaluateUnplaced typed) ∧
      (∀ lines printed after, Hears (.new config) lines printed after →
        (∀ line ∈ lines, ¬ Command.IsLine line) →
        let replies := String.join printed
        let prompted := String.join (printed.map (prompt ++ ·)) ++ prompt ++ "\n"
        (Calculator.new config).batch lines = .ok (replies, true, after) ∧
          converse config false lines = .ok ⟨0, replies, "", false⟩ ∧
          (Calculator.new config).dialogue lines = .ok (prompted, after) ∧
          converse config true lines = .ok ⟨0, prompted, "", false⟩) ∧
      ∀ lines,
        (∃ printed after, Hears (.new config) lines printed after ∧
          converse config false lines = .ok ⟨0, String.join printed, "", false⟩) ∨
        ∃ front line back printed r after, lines = front ++ line :: back ∧
          Stops (.new config) front line printed r after ∧
          let replies := String.join printed ++ (r.render (trimString line) ++ "\n")
          ∀ back', (Calculator.new config).batch (front ++ line :: back') =
              .ok (replies, false, after) ∧
            converse config false (front ++ line :: back') = .ok ⟨1, replies, "", false⟩ := by
  refine ⟨?_, Calculator.evaluateUnplaced_trimString, ?_, ?_⟩
  · obtain ⟨log, c, hrun, -, hkept⟩ :=
      Calculator.run_wellKept_of (Calculator.wellKept_new config) steps
    refine ⟨log, c, hrun, fun typed => ?_⟩
    obtain ⟨r, after, hr⟩ := c.evaluate_total hkept.scaled typed
    obtain ⟨r', hr', hsame⟩ := Calculator.evaluate_trimString hr
    obtain ⟨htext, herror, hkind, -⟩ := Reply.mk.inj hsame
    exact ⟨r, r', after, hr, hr', htext, herror, hkind⟩
  · intro lines printed after h hcommand
    exact ⟨h.batch, converse_batch h.batch, h.dialogue hcommand,
      converse_dialogue (h.dialogue hcommand)⟩
  · intro lines
    rcases Calculator.hears_or_stops (Calculator.wellKept_new config) lines with
      ⟨printed, after, h⟩ | ⟨front, line, back, printed, r, after, rfl, h⟩
    · exact .inl ⟨printed, after, h, converse_batch h.batch⟩
    · exact .inr ⟨front, line, back, printed, r, after, rfl, h, fun back' =>
        ⟨h.batch back', converse_batch (h.batch back')⟩⟩

/-- A switch of the angle mode with white space around it, and an empty line. -/
theorem converse_agrees_of_switch :
    ∃ next, Hears (.new {}) ["  rad() ", " "] ["Radians mode\n", ""] next ∧
      (∀ line ∈ ["  rad() ", " "], ¬ Command.IsLine line) ∧
      converse {} false ["  rad() ", " "] = .ok ⟨0, "Radians mode\n", "", false⟩ ∧
      converse {} true ["  rad() ", " "] =
        .ok ⟨0, "> Radians mode\n> > \n", "", false⟩ := by
  obtain ⟨r, next, hr⟩ := (Calculator.new {}).evaluate_total UnitTable.standard_scaled "  rad() "
  have hreply : ((Calculator.new {}).evaluate "  rad() ").toOption.map
      (fun outcome => (outcome.1.text, outcome.1.isError)) = some ("Radians mode", false) := by
    decide +kernel
  rw [hr] at hreply
  obtain ⟨htext, herror⟩ := Prod.mk.inj (Option.some.inj hreply)
  have hears : Hears (.new {}) ["  rad() ", " "] ["Radians mode\n", ""] next := by
    have hblank : trimString " " = "" := by decide +kernel
    have hears := Hears.reply (by decide +kernel) hr herror (.empty hblank (.nil next))
    rw [htext] at hears
    exact hears
  have hcommand : ∀ line ∈ ["  rad() ", " "], ¬ Command.IsLine line := by
    have hplain : ∀ line ∈ ["  rad() ", " "], (trimString line).toList.head? ≠ some ':' := by
      decide +kernel
    exact hplain
  obtain ⟨-, hbatch, -, hdialogue⟩ :=
    (converse_agrees {} []).2.2.1 _ _ _ hears hcommand
  exact ⟨next, hears, hcommand, hbatch, hdialogue⟩

end CommandLine

end Reckoner
