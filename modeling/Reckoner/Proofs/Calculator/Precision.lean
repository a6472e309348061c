import Reckoner.Calculator.Session
import Reckoner.Proofs.Calculator.Recall

/-!
# Reckoner.Proofs.Calculator.Precision -- the precision is for showing only

Two calculators that differ in their precision remember the same, whatever is done to both of them,
and answer alike: the digits in a reply or in a list of the variables are all that the precision
decides. It is read when a text is made, and no text goes back into the memory.
-/

namespace Reckoner

/-! ## Answers that differ in their digits -/

/-- Two replies that may differ in the digits of a finite number only. -/
structure Reply.Alike (r s : Reply) : Prop where
  isError : r.isError = s.isError
  kind : r.kind = s.kind
  place : r.place = s.place
  text : r.isError = true ∨ r.kind ∈ [.text, .infinity, .notANumber] → r.text = s.text

namespace Reply.Alike

theorem refl (r : Reply) : r.Alike r := ⟨rfl, rfl, rfl, fun _ => rfl⟩

/-- A finite number of a line may be shown with other digits. -/
theorem ofAmount {kind : Kind} (hkind : kind ∉ [.text, .infinity, .notANumber]) (x : Float)
    (shown shown' : String) : (Reply.ofAmount x kind shown).Alike (.ofAmount x kind shown') := by
  unfold Reply.ofAmount
  split
  · exact .refl _
  split
  · exact .refl _
  · refine ⟨rfl, rfl, rfl, ?_⟩
    rintro (h | h)
    · cases h
    · exact absurd h hkind

theorem ofValue (p p' : Nat) (v : Value) : (Reply.ofValue p v).Alike (.ofValue p' v) := by
  cases v with
  | number x => exact ofAmount (by decide) x _ _
  | quantity q => exact ofAmount (by decide) q.amount _ _
  | text t => exact .refl _

theorem ofAssigned (p p' : Nat) (name : String) (v : Value) :
    (Reply.ofAssigned p name v).Alike (.ofAssigned p' name v) := by
  cases v with
  | number x => exact ofAmount (by decide) x _ _
  | quantity q => exact ofValue p p' (.quantity q)
  | text t => exact ofValue p p' (.text t)

end Reply.Alike

/-- The answers of two calculators to a deed: replies may differ in their digits, and so may the
texts of a list of the variables; anything else is the same. -/
inductive Answer.Alike (deed : Deed) : Answer → Answer → Prop
  | same (answer : Answer) : Alike deed answer answer
  | reply {r s : Reply} (h : r.Alike s) : Alike deed (.reply r) (.reply s)
  | listed {line text text' : String} (hdeed : deed = .step (.command line))
    (hline : Command.ofLine line = .listVariables) : Alike deed (.told text) (.told text')

/-- Two records of one deed with like answers and the same memory behind it. -/
structure Deed.Record.Alike (a b : Deed.Record) : Prop where
  deed : a.deed = b.deed
  answer : a.answer.Alike a.deed b.answer
  memory : a.memory = b.memory

/-- A deed that gives no unit the scale zero. -/
def Deed.Scaled : Deed → Prop
  | .setUnit _ m => (m.scale == 0) = false
  | _ => True

namespace Calculator

/-- Two calculators that remember the same and have the same greatest depth. -/
structure Peers (c d : Calculator) : Prop where
  memory : c.memory = d.memory
  maxDepth : c.config.maxDepth = d.config.maxDepth

namespace Peers

variable {c d after : Calculator}

/-- Peers stay peers when their memories are changed in the same way. -/
theorem change (h : c.Peers d) (f : Memory → Memory) :
    Peers { c with memory := f c.memory } { d with memory := f d.memory } :=
  ⟨congrArg f h.memory, h.maxDepth⟩

theorem replyTo (c d : Calculator) (s : Statement) (v : Value) :
    (c.replyTo s v).Alike (d.replyTo s v) := by
  cases s with
  | expression e => exact .ofValue _ _ v
  | assign name e place => exact .ofAssigned _ _ name v
  | convert e unit place => exact .ofValue _ _ v

/-- Peers answer a line alike: the line means the same to both, and comes to the same value. -/
theorem evaluate (h : c.Peers d) {typed : String} {r : Reply}
    (hr : c.evaluate typed = .ok (r, after)) :
    ∃ s after', d.evaluate typed = .ok (s, after') ∧ r.Alike s ∧ after.Peers after' := by
  have hstatement : d.statement typed = c.statement typed := by
    rw [statement, statement, h.memory, h.maxDepth]
  unfold Calculator.evaluate at hr ⊢
  rw [hstatement]
  split at hr
  · next s hs =>
    simp only [carryOut, ← h.memory, ← h.maxDepth] at hr ⊢
    split at hr
    · next v m hrun =>
      cases hr
      exact ⟨_, _, rfl, replyTo c d s v, h.change fun _ => m.remembering v⟩
    · next e m hrun =>
      cases hr
      exact ⟨_, _, rfl, .refl _, h.change fun _ => m⟩
    · cases hr
  · cases hr
    exact ⟨_, _, rfl, .refl _, h⟩
  · cases hr

/-- Peers are told the same by every command but the one that lists the variables. -/
theorem command (h : c.Peers d) (line : String) :
    ∃ a b c' d', c.take (.command line) = .ok (a, c') ∧ d.take (.command line) = .ok (b, d') ∧
      a.Alike (.step (.command line)) b ∧ c'.Peers d' := by
  simp only [take, obey]
  cases hline : Command.ofLine line with
  | quit => exact ⟨_, _, _, _, rfl, rfl, .same _, h⟩
  | reset => exact ⟨_, _, _, _, rfl, rfl, .same _, h.change Memory.cleared⟩
  | listVariables => exact ⟨_, _, _, _, rfl, rfl, .listed rfl hline, h⟩
  | listUnits =>
      refine ⟨_, _, _, _, rfl, rfl, ?_, h⟩
      rw [h.memory]
      exact .same _
  | setMode mode => exact ⟨_, _, _, _, rfl, rfl, .same _, h.change ({ · with angleMode := mode })⟩
  | unknown => exact ⟨_, _, _, _, rfl, rfl, .same _, h⟩

/-- **Every deed is answered alike by peers**, and they stay peers. -/
theorem act (h : c.Peers d) (hscaled : c.memory.units.Scaled) (deed : Deed) :
    ∃ a b c' d', c.act deed = .ok (a, c') ∧ d.act deed = .ok (b, d') ∧
      a.Alike deed b ∧ c'.Peers d' := by
  cases deed with
  | step s =>
      cases s with
      | evaluate typed =>
          obtain ⟨r, after, hr⟩ := c.evaluate_total hscaled typed
          obtain ⟨s, after', hs, halike, hpeers⟩ := h.evaluate hr
          refine ⟨.reply r, .reply s, after, after', ?_, ?_, .reply halike, hpeers⟩
          · rw [Calculator.act, take, hr]
            rfl
          · rw [Calculator.act, take, hs]
            rfl
      | command line => exact h.command line
      | reset => exact ⟨_, _, _, _, rfl, rfl, .same _, h.change Memory.cleared⟩
      | setMode mode =>
          exact ⟨_, _, _, _, rfl, rfl, .same _, h.change ({ · with angleMode := mode })⟩
  | setUnit name m =>
      exact ⟨_, _, _, _, rfl, rfl, .same _,
        h.change fun memory => { memory with units := memory.units.put name m }⟩
  | removeUnit name =>
      exact ⟨_, _, _, _, rfl, rfl, .same _,
        h.change fun memory => { memory with units := memory.units.remove name }⟩

end Peers

/-- A deed that gives no unit the scale zero leaves no unit with it. -/
theorem act_scaled {c after : Calculator} {deed : Deed} {answer : Answer}
    (hscaled : c.memory.units.Scaled) (hdeed : deed.Scaled)
    (h : c.act deed = .ok (answer, after)) : after.memory.units.Scaled := by
  cases deed with
  | step s =>
      cases take_effect h with
      | line hline =>
          rw [hline.keeps.2]
          exact hscaled
      | cleared hcleared => exact UnitTable.standard_scaled
      | switched mode => exact hscaled
      | kept => exact hscaled
  | setUnit name m =>
      cases h
      exact Ledger.forall_put (l := c.memory.units) hdeed hscaled
  | removeUnit name =>
      cases h
      intro entry hentry
      exact hscaled entry (List.mem_of_mem_filter hentry)

/-- Whatever is done to both of two peers, their chronicles are alike, record by record. -/
theorem Peers.chronicle {c d : Calculator} (h : c.Peers d) (hscaled : c.memory.units.Scaled)
    {deeds : List Deed} (hdeeds : ∀ deed ∈ deeds, deed.Scaled) :
    ∃ as bs, c.chronicle deeds = .ok as ∧ d.chronicle deeds = .ok bs ∧
      as.map (·.deed) = deeds ∧ List.Forall₂ Deed.Record.Alike as bs := by
  induction deeds generalizing c d with
  | nil => exact ⟨[], [], rfl, rfl, rfl, .nil⟩
  | cons deed deeds ih =>
      obtain ⟨hdeed, hrest⟩ := List.forall_mem_cons.mp hdeeds
      obtain ⟨a, b, c', d', hc, hd, halike, hpeers⟩ := h.act hscaled deed
      obtain ⟨as, bs, has, hbs, rfl, hall⟩ := ih hpeers (act_scaled hscaled hdeed hc) hrest
      refine ⟨⟨deed, a, c'.memory⟩ :: as, ⟨deed, b, d'.memory⟩ :: bs, ?_, ?_, rfl, ?_⟩
      · rw [Calculator.chronicle, hc]
        simp only [bind, Except.bind, has]
        rfl
      · rw [Calculator.chronicle, hd]
        simp only [bind, Except.bind, hbs]
        rfl
      · exact .cons ⟨rfl, halike, hpeers.memory⟩ hall

/-- **The precision is for showing only.** Of two new calculators that are set up alike but for the
precision, and to which the same is done (lines, commands, resets, switches of the angle mode, and
edits of the table of units that give no unit the scale zero), both answer to the end; behind every
deed they remember the same, and their answers are alike: the replies to a line are both errors or
both none, of one kind and with one place, and they have one text if they are errors, confirmations,
infinite or no numbers. -/
theorem chronicle_alike (config config' : Config) (hdepth : config.maxDepth = config'.maxDepth)
    (hmode : config.angleMode = config'.angleMode) (deeds : List Deed)
    (hdeeds : ∀ deed ∈ deeds, deed.Scaled) :
    ∃ as bs, (new config).chronicle deeds = .ok as ∧ (new config').chronicle deeds = .ok bs ∧
      as.map (·.deed) = deeds ∧ List.Forall₂ Deed.Record.Alike as bs := by
  have hpeers : (new config).Peers (new config') := ⟨congrArg Memory.fresh hmode, hdepth⟩
  exact hpeers.chronicle UnitTable.standard_scaled hdeeds

/-- A third with three digits and with twelve, a unit in between. -/
theorem chronicle_alike_of_third :
    let config : Config := { precision := 3 }
    let config' : Config := {}
    let deeds : List Deed := [.step (.evaluate "x = 1/3"), .setUnit "yd" ⟨.length, 0.9144⟩,
      .step (.command ":vars")]
    config.maxDepth = config'.maxDepth ∧ config.angleMode = config'.angleMode ∧
      (∀ deed ∈ deeds, deed.Scaled) ∧
      ∃ as bs, (new config).chronicle deeds = .ok as ∧ (new config').chronicle deeds = .ok bs ∧
        as.map (·.deed) = deeds ∧ List.Forall₂ Deed.Record.Alike as bs := by
  intro config config' deeds
  have hscaled : ∀ deed ∈ deeds, deed.Scaled := by
    have hyard : ((0.9144 : Float) == 0) = false := by decide
    simpa [deeds, Deed.Scaled] using hyard
  exact ⟨rfl, rfl, hscaled, chronicle_alike config config' rfl rfl deeds hscaled⟩

end Calculator

end Reckoner
