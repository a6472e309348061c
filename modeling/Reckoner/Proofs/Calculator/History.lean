import Mathlib.Data.List.Basic
import Reckoner.Calculator.Session
import Reckoner.Proofs.Eval.Effect
import Reckoner.Proofs.Expr.Place

/-!
# Reckoner.Proofs.Calculator.History -- what a calculator remembers is its history

Of a session only some steps count: assignments, numbers, switches of the angle mode, and the
clearing of the memory. What a calculator remembers is a function of these (`Remembers`), whatever
was refused, shown as a quantity or found infinite in between; and a session without such steps
runs like the session with them.
-/

namespace Reckoner

open Number (AngleMode)

/-! ## What counts of a step -/

/-- What a step does that a calculator remembers. -/
inductive Event where
  | assigned (name : String) (x : Float)
  | answered (x : Float)
  | switched (mode : AngleMode)
  | cleared
deriving DecidableEq

namespace Entry

/-- What counts of a reply: the name and number of an assignment, the number of another line, and
the mode that a text confirms. -/
def eventOfReply (before : Calculator) (typed : String) (r : Reply) : Option Event :=
  match r.kind with
  | .assignment =>
    match before.target? typed, before.value? typed with
    | some name, some (.number x) => some (.assigned name x)
    | _, _ => none
  | .number =>
    match before.value? typed with
    | some (.number x) => some (.answered x)
    | _ => none
  | .text =>
    ([.degrees, .radians].find? fun mode => Builtin.confirmation mode = r.text).map .switched
  | _ => none

/-- What counts of a command. -/
def eventOfCommand : Command → Option Event
  | .reset => some .cleared
  | .setMode mode => some (.switched mode)
  | _ => none

/-- What counts of an entry of the log. -/
def event? (entry : Entry) : Option Event :=
  match entry.step with
  | .evaluate typed =>
    match entry.answer with
    | .reply r => eventOfReply entry.before typed r
    | _ => none
  | .command line => eventOfCommand (Command.ofLine line)
  | .reset => some .cleared
  | .setMode mode => some (.switched mode)

theorem event?_reply (before : Calculator) (typed : String) (r : Reply) :
    event? ⟨before, .evaluate typed, .reply r⟩ = eventOfReply before typed r := rfl

theorem event?_command (before : Calculator) (line : String) (answer : Answer) :
    event? ⟨before, .command line, answer⟩ = eventOfCommand (Command.ofLine line) := rfl

/-- Only an assignment, a number and a text count. -/
theorem eventOfReply_eq_none (before : Calculator) (typed : String) {r : Reply}
    (hassignment : r.kind ≠ .assignment) (hnumber : r.kind ≠ .number) (htext : r.kind ≠ .text) :
    eventOfReply before typed r = none := by
  unfold eventOfReply
  split
  · contradiction
  · contradiction
  · contradiction
  · rfl

/-- Whether an entry is a line that gave an error, a quantity, or what is not finite. -/
def isPassing (entry : Entry) : Bool :=
  match entry.answer with
  | .reply r => r.isError || [.quantity, .infinity, .notANumber].contains r.kind
  | _ => false

end Entry

/-! ## What a history leaves -/

namespace History

/-- The name and number of an assignment. -/
def assigned? : Event → Option (String × Float)
  | .assigned name x => some (name, x)
  | _ => none

/-- The number that a step gave. -/
def number? : Event → Option Float
  | .assigned _ x => some x
  | .answered x => some x
  | _ => none

/-- The mode that a step switched to. -/
def mode? : Event → Option AngleMode
  | .switched mode => some mode
  | _ => none

/-- Whether an event is the clearing of the memory. -/
def isCleared : Event → Bool
  | .cleared => true
  | _ => false

/-- The events since the memory was last cleared. -/
def current (events : List Event) : List Event :=
  (events.reverse.takeWhile (!isCleared ·)).reverse

/-- The names that were assigned to, in the order of their first assignment, each with the number
of its latest. -/
def bindings (events : List Event) : List (String × Float) :=
  let assignments := events.filterMap assigned?
  (assignments.map (·.1)).eraseDups.filterMap fun name =>
    (assignments.reverse.lookup name).map (name, ·)

/-- The latest number. -/
def lastNumber? (events : List Event) : Option Float := (events.filterMap number?).getLast?

/-- The latest mode. -/
def lastMode? (events : List Event) : Option AngleMode := (events.filterMap mode?).getLast?

/-! ## One event further -/

theorem current_cleared (events : List Event) : current (events ++ [.cleared]) = [] := by
  simp [current, isCleared]

theorem current_concat (events : List Event) {event : Event} (h : isCleared event = false) :
    current (events ++ [event]) = current events ++ [event] := by
  simp [current, h]

theorem eraseDups_concat (names : List String) (name : String) :
    (names ++ [name]).eraseDups =
      if name ∈ names then names.eraseDups else names.eraseDups ++ [name] := by
  rw [List.eraseDups_append, List.cons_removeAll]
  by_cases h : name ∈ names
  · simp [h]
  · simp [h, List.eraseDups_cons]

theorem nodup_eraseDups (names : List String) : names.eraseDups.Nodup := by
  -- what is left of the names without the first is shorter, but no part of the list
  match names with
  | [] => exact List.nodup_nil
  | name :: names =>
    have hshorter : (names.filter fun other => !other == name).length < names.length + 1 :=
      Nat.lt_succ_of_le (List.length_filter_le _ _)
    rw [List.eraseDups_cons, List.nodup_cons]
    exact ⟨by simp, nodup_eraseDups _⟩
termination_by names.length

/-- Where each name has a number, giving a number to a name writes it into the list of both. -/
theorem filterMap_put (name : String) (x : Float) {names : List String}
    {number : String → Option Float} (hnodup : names.Nodup)
    (hsome : ∀ n ∈ names, (number n).isSome) :
    (if name ∈ names then names else names ++ [name]).filterMap (fun n =>
        ((if n = name then some x else number n).map (n, ·))) =
      Ledger.putIn name x (names.filterMap fun n => (number n).map (n, ·)) := by
  induction names with
  | nil => simp [Ledger.putIn]
  | cons first names ih =>
      rw [List.nodup_cons] at hnodup
      rw [List.forall_mem_cons] at hsome
      obtain ⟨y, hy⟩ := Option.isSome_iff_exists.mp hsome.1
      by_cases hfirst : first = name
      · -- the number is written here, and no name behind is the same
        subst hfirst
        have hrest : ∀ n ∈ names, (if n = first then some x else number n).map (n, ·) =
            (number n).map (n, ·) := by
          intro n hn
          have hne : n ≠ first := by
            rintro rfl
            exact hnodup.1 hn
          rw [if_neg hne]
        simp [hy, Ledger.putIn, List.filterMap_congr hrest]
      · -- this name keeps its number, and the number is written behind it
        have hname : ¬ name = first := fun h => hfirst h.symm
        have hlater := ih hnodup.2 hsome.2
        by_cases hmem : name ∈ names
        · simp [hmem, hfirst, hy, Ledger.putIn] at hlater ⊢
          exact hlater
        · simp [hmem, hname, hfirst, hy, Ledger.putIn] at hlater ⊢
          exact hlater

theorem nodup_bindings (events : List Event) : ((bindings events).map (·.1)).Nodup := by
  have hsublist (names : List String) (number : String → Option Float) :
      ((names.filterMap fun n => (number n).map (n, ·)).map (·.1)).Sublist names := by
    induction names with
    | nil => exact .slnil
    | cons n names ih =>
        rw [List.filterMap_cons]
        cases number n with
        | none => exact ih.cons n
        | some x => exact ih.cons_cons n
  exact (hsublist _ _).nodup (nodup_eraseDups _)

/-- An assignment writes its number under its name. -/
theorem bindings_assigned (events : List Event) (name : String) (x : Float) :
    bindings (events ++ [.assigned name x]) = Ledger.putIn name x (bindings events) := by
  have hsome : ∀ n ∈ ((events.filterMap assigned?).map (·.1)).eraseDups,
      ((events.filterMap assigned?).reverse.lookup n).isSome := by
    intro n hn
    rw [List.lookup_isSome_iff]
    obtain ⟨entry, hentry, rfl⟩ := List.mem_map.mp (List.mem_eraseDups.mp hn)
    exact ⟨entry, List.mem_reverse.mpr hentry, by simp⟩
  -- so the lemma applies to the names before, looked up in the assignments before
  have hput := filterMap_put name x (nodup_eraseDups _) hsome
  refine Eq.trans ?_ hput
  have hassignments : (events ++ [Event.assigned name x]).filterMap assigned? =
      events.filterMap assigned? ++ [(name, x)] := by
    rw [List.filterMap_append]
    rfl
  have hlookup (n : String) : ((name, x) :: (events.filterMap assigned?).reverse).lookup n =
      if n = name then some x else (events.filterMap assigned?).reverse.lookup n := by
    rw [List.lookup_cons]
    by_cases h : n = name
    · simp [h]
    · rw [beq_eq_false_iff_ne.mpr h, if_neg h]
  rw [bindings, hassignments]
  simp only [List.map_append, List.map_cons, List.map_nil, eraseDups_concat, List.mem_eraseDups,
    List.reverse_concat, hlookup]

theorem bindings_concat (events : List Event) {event : Event} (h : assigned? event = none) :
    bindings (events ++ [event]) = bindings events := by
  simp [bindings, h]

theorem lastNumber?_concat (events : List Event) (event : Event) :
    lastNumber? (events ++ [event]) = (number? event).or (lastNumber? events) := by
  rw [lastNumber?, List.filterMap_append]
  cases hnumber : number? event <;> simp [lastNumber?, hnumber]

theorem lastMode?_concat (events : List Event) (event : Event) :
    lastMode? (events ++ [event]) = (mode? event).or (lastMode? events) := by
  rw [lastMode?, List.filterMap_append]
  cases hmode : mode? event <;> simp [lastMode?, hmode]

end History

/-! ## What a line does -/

/-- A number is finite if it is a number and not infinite. -/
theorem isFinite_eq (x : Float) : x.isFinite = (!x.isNaN && !x.isInf) := by
  unfold Float.isFinite Float.isNaN Float.isInf Float.Model.isFinite Float.Model.isNaN
    Float.Model.isInf
  cases x.toModel.unpack <;> rfl

namespace Reply

theorem ofAmount_finite {x : Float} (h : x.isFinite = true) (kind : Kind) (shown : String) :
    ofAmount x kind shown = ⟨shown, false, kind, none⟩ := by
  rw [isFinite_eq, Bool.and_eq_true, Bool.not_eq_true', Bool.not_eq_true'] at h
  rw [ofAmount, h.1, h.2, if_neg Bool.false_ne_true, if_neg Bool.false_ne_true]

theorem ofAmount_not_finite {x : Float} (h : x.isFinite = false) (kind : Kind) (shown : String) :
    (ofAmount x kind shown).kind = .infinity ∨ (ofAmount x kind shown).kind = .notANumber := by
  rw [isFinite_eq, Bool.and_eq_false_iff, Bool.not_eq_false', Bool.not_eq_false'] at h
  unfold ofAmount
  split
  · exact .inr rfl
  · next hnan =>
    rw [if_pos (h.resolve_left hnan)]
    exact .inl rfl

/-- The kind of an error is one of those for errors. -/
theorem isError_kind (e : Error) : e.kind.isError = true := by
  cases e with
  | misplaced why place => cases why <;> rfl
  | _ => rfl

end Reply

namespace Calculator

variable {c after : Calculator} {typed : String}

/-- What a line of input does to a calculator, by its reply: an error, a quantity and what is not
finite leave no trace. -/
inductive LineEffect (c : Calculator) (typed : String) : Reply → Calculator → Prop
  | refused (e : Error) : LineEffect c typed (.ofError e) c
  | passing (r : Reply) (hkind : r.kind = .quantity ∨ r.kind = .infinity ∨ r.kind = .notANumber) :
    LineEffect c typed r c
  | assigned (name : String) (x : Float) (text : String) (hname : c.target? typed = some name)
    (hvalue : c.value? typed = some (.number x)) :
    LineEffect c typed ⟨text, false, .assignment, none⟩ { c with
      memory := { c.memory with bindings := c.memory.bindings.put name x, lastResult := x } }
  | answered (x : Float) (text : String) (hvalue : c.value? typed = some (.number x)) :
    LineEffect c typed ⟨text, false, .number, none⟩
      { c with memory := { c.memory with lastResult := x } }
  | switched (mode : AngleMode) :
    LineEffect c typed ⟨Builtin.confirmation mode, false, .text, none⟩
      { c with memory := { c.memory with angleMode := mode } }

theorem value?_of_run {s : Statement} {v : Value} {m : Memory} (hs : c.statement typed = .ok s)
    (h : (s.perform c.config.maxDepth).run c.memory = (.ok v, m)) : c.value? typed = some v := by
  unfold value?
  rw [hs]
  simp only [h]

/-- A number that is not finite is shown and forgotten. -/
theorem LineEffect.of_not_finite {x : Float} {kind : Kind} {shown : String}
    (h : x.isFinite = false) : LineEffect c typed (.ofAmount x kind shown) c :=
  .passing _ (.inr (Reply.ofAmount_not_finite h kind shown))

/-- A statement that answers has the effect that its reply tells. -/
theorem lineEffect_of_ok {s : Statement} {v : Value} {m : Memory}
    (hs : c.statement typed = .ok s)
    (h : (s.perform c.config.maxDepth).run c.memory = (.ok v, m)) :
    LineEffect c typed (c.replyTo s v) { c with memory := m.remembering v } := by
  have hvalue := value?_of_run hs h
  rcases Statement.attempt_ok (Statement.perform_ok.mp h) with
    ⟨name, e, place, x, rfl, rfl, rfl⟩ | ⟨hassign, hamount, rfl⟩ |
      ⟨e, mode, rfl, -, rfl, rfl⟩
  · have htarget : c.target? typed = some name := by
      unfold target?
      rw [hs]
    have hreply : c.replyTo (.assign name e place) (.number x) =
        .ofAmount x .assignment (name ++ " = " ++ (Value.number x).shown c.config.precision) := rfl
    rw [hreply]
    -- finite numbers are kept as variable and as result, others as neither
    cases hx : x.isFinite with
    | true =>
        rw [Reply.ofAmount_finite hx, if_pos rfl, Memory.remembering, if_pos hx]
        exact .assigned name x _ htarget hvalue
    | false =>
        rw [if_neg Bool.false_ne_true, Memory.remembering, hx, if_neg Bool.false_ne_true]
        exact .of_not_finite hx
  · have hreply : c.replyTo s v = .ofValue c.config.precision v := by
      unfold replyTo
      split
      · exact absurd rfl (hassign _ _ _)
      · rfl
    rw [hreply]
    cases v with
    | number x =>
        show LineEffect c typed (.ofAmount x .number _) _
        cases hx : x.isFinite with
        | true =>
            rw [Reply.ofAmount_finite hx, Memory.remembering, if_pos hx]
            exact .answered x _ hvalue
        | false =>
            rw [Memory.remembering, hx, if_neg Bool.false_ne_true]
            exact .of_not_finite hx
    | quantity q =>
        show LineEffect c typed (.ofAmount q.amount .quantity _) c
        cases hx : q.amount.isFinite with
        | true =>
            rw [Reply.ofAmount_finite hx]
            exact .passing _ (.inl rfl)
        | false => exact .of_not_finite hx
    | text t => exact hamount.elim
  · exact .switched mode

/-- **What a line of input does is told by its reply.** -/
theorem evaluate_effect {r : Reply} (h : c.evaluate typed = .ok (r, after)) :
    LineEffect c typed r after := by
  unfold evaluate at h
  split at h
  · next s hs =>
    unfold carryOut at h
    split at h
    · next v m hrun =>
      cases h
      exact lineEffect_of_ok hs hrun
    · next e m hrun =>
      cases h
      -- whatever was switched on the way has been put back
      obtain rfl := Statement.perform_error hrun
      exact .refused e
    · cases h
  · next e _ =>
    cases h
    exact .refused e
  · cases h

/-! ## A line always gets a reply -/

theorem evaluate_total (c : Calculator) (hunits : c.memory.units.Scaled) (typed : String) :
    ∃ r after, c.evaluate typed = .ok (r, after) := by
  have hstatement : Faultless (c.statement typed) :=
    (Statement.ofTyped_failsWith typed).faultless
  unfold evaluate
  split
  · next s hs =>
    have hperform := Statement.perform_faultless c.config.maxDepth hunits s
    unfold carryOut
    split
    · exact ⟨_, _, rfl⟩
    · exact ⟨_, _, rfl⟩
    · next f m hrun =>
      rw [hrun] at hperform
      exact absurd rfl (hperform f)
  · exact ⟨_, _, rfl⟩
  · next f hf => exact absurd hf (hstatement f)

/-! ## What a session leaves -/

/-- What a calculator remembers is what its history leaves: the events since the memory was last
cleared, on a calculator that was set up as `start`. -/
structure Remembers (start : Config) (events : List Event) (c : Calculator) : Prop where
  config : c.config = start
  home : c.memory.homeMode = start.angleMode
  bindings : c.memory.bindings.entries = History.bindings events
  lastResult : c.memory.lastResult = (History.lastNumber? events).getD 0
  angleMode : c.memory.angleMode = (History.lastMode? events).getD start.angleMode
  units : c.memory.units = .standard

theorem remembers_new (start : Config) : Remembers start [] (new start) :=
  ⟨rfl, rfl, rfl, rfl, rfl, rfl⟩

namespace Remembers

variable {start : Config} {events : List Event}

theorem scaled (h : Remembers start events c) : c.memory.units.Scaled :=
  h.units ▸ UnitTable.standard_scaled

theorem cleared (h : Remembers start events c) : Remembers start [] c.reset where
  config := h.config
  home := h.home
  bindings := rfl
  lastResult := rfl
  angleMode := h.home
  units := rfl

theorem switched (h : Remembers start events c) (mode : AngleMode) :
    Remembers start (events ++ [.switched mode]) (c.setMode mode) where
  config := h.config
  home := h.home
  bindings := by
    rw [History.bindings_concat events rfl]
    exact h.bindings
  lastResult := by
    rw [History.lastNumber?_concat]
    exact h.lastResult
  angleMode := by
    rw [History.lastMode?_concat]
    rfl
  units := h.units

theorem answered (h : Remembers start events c) (x : Float) :
    Remembers start (events ++ [.answered x])
      { c with memory := { c.memory with lastResult := x } } where
  config := h.config
  home := h.home
  bindings := by
    rw [History.bindings_concat events rfl]
    exact h.bindings
  lastResult := by
    rw [History.lastNumber?_concat]
    rfl
  angleMode := by
    rw [History.lastMode?_concat]
    exact h.angleMode
  units := h.units

theorem assigned (h : Remembers start events c) (name : String) (x : Float) :
    Remembers start (events ++ [.assigned name x]) { c with
      memory := { c.memory with bindings := c.memory.bindings.put name x, lastResult := x } } where
  config := h.config
  home := h.home
  bindings := by
    rw [History.bindings_assigned, ← h.bindings]
    rfl
  lastResult := by
    rw [History.lastNumber?_concat]
    rfl
  angleMode := by
    rw [History.lastMode?_concat]
    exact h.angleMode
  units := h.units

end Remembers

/-- The events since the memory was last cleared, after an entry of the log. -/
theorem remembers_line {start : Config} {events : List Event} {r : Reply}
    (h : Remembers start (History.current events) c) (heffect : LineEffect c typed r after) :
    Remembers start
      (History.current (events ++ (Entry.eventOfReply c typed r).toList)) after := by
  cases heffect with
  | refused e =>
      have hkind : (Reply.ofError e).kind.isError = true := Reply.isError_kind e
      have hnone : Entry.eventOfReply c typed (.ofError e) = none := by
        apply Entry.eventOfReply_eq_none <;> intro heq <;> rw [heq] at hkind <;> cases hkind
      rw [hnone, Option.toList_none, List.append_nil]
      exact h
  | passing r hkind =>
      have hnone : Entry.eventOfReply c typed r = none := by
        rcases hkind with hkind | hkind | hkind <;>
          apply Entry.eventOfReply_eq_none <;> rw [hkind] <;> decide
      rw [hnone, Option.toList_none, List.append_nil]
      exact h
  | assigned name x text hname hvalue =>
      have hevent : Entry.eventOfReply c typed ⟨text, false, .assignment, none⟩ =
          some (.assigned name x) := by
        simp only [Entry.eventOfReply, hname, hvalue]
      rw [hevent, Option.toList_some, History.current_concat events rfl]
      exact h.assigned name x
  | answered x text hvalue =>
      have hevent : Entry.eventOfReply c typed ⟨text, false, .number, none⟩ =
          some (.answered x) := by
        simp only [Entry.eventOfReply, hvalue]
      rw [hevent, Option.toList_some, History.current_concat events rfl]
      exact h.answered x
  | switched mode =>
      -- the two confirmations differ, so the text tells the mode
      have hevent : Entry.eventOfReply c typed ⟨Builtin.confirmation mode, false, .text, none⟩ =
          some (.switched mode) := by
        cases mode <;> rfl
      rw [hevent, Option.toList_some, History.current_concat events rfl]
      exact h.switched mode

/-- Two commands change a calculator. -/
theorem take_command (c : Calculator) (line : String) :
    ∃ answer, c.take (.command line) = .ok (answer,
      match Command.ofLine line with
      | .reset => c.reset
      | .setMode mode => c.setMode mode
      | _ => c) := by
  rw [take, obey]
  cases Command.ofLine line <;> exact ⟨_, rfl⟩

/-- A step is answered, and what is remembered after it has the event of its entry behind the
events before. -/
theorem take_remembers {start : Config} {events : List Event}
    (h : Remembers start (History.current events) c) (step : Step) :
    ∃ answer after, c.take step = .ok (answer, after) ∧
      Remembers start
        (History.current (events ++ (Entry.event? ⟨c, step, answer⟩).toList)) after := by
  have hcleared : Remembers start (History.current (events ++ [.cleared])) c.reset := by
    rw [History.current_cleared]
    exact h.cleared
  have hswitched (mode : AngleMode) :
      Remembers start (History.current (events ++ [.switched mode])) (c.setMode mode) := by
    rw [History.current_concat events rfl]
    exact h.switched mode
  have hsilent : Remembers start (History.current (events ++ [])) c := by
    rw [List.append_nil]
    exact h
  cases step with
  | evaluate typed =>
      obtain ⟨r, after, hr⟩ := c.evaluate_total h.scaled typed
      refine ⟨.reply r, after, ?_, ?_⟩
      · rw [take, hr]
        rfl
      · rw [Entry.event?_reply]
        exact remembers_line h (evaluate_effect hr)
  | command line =>
      obtain ⟨answer, htake⟩ := c.take_command line
      refine ⟨answer, _, htake, ?_⟩
      rw [Entry.event?_command]
      cases Command.ofLine line with
      | quit => exact hsilent
      | reset => exact hcleared
      | listVariables => exact hsilent
      | listUnits => exact hsilent
      | setMode mode => exact hswitched mode
      | unknown => exact hsilent
  | reset => exact ⟨.nothing, c.reset, rfl, hcleared⟩
  | setMode mode => exact ⟨.nothing, c.setMode mode, rfl, hswitched mode⟩

/-- A session is answered to its end, and what is remembered is what its log leaves. -/
theorem run_remembers {start : Config} {events : List Event}
    (h : Remembers start (History.current events) c) (steps : List Step) :
    ∃ log after, c.run steps = .ok (log, after) ∧ log.map (·.step) = steps ∧
      Remembers start (History.current (events ++ log.filterMap Entry.event?)) after := by
  -- the events before a step stay in front of those of the steps behind it
  induction steps generalizing c events with
  | nil =>
      refine ⟨[], c, rfl, rfl, ?_⟩
      rw [List.filterMap_nil, List.append_nil]
      exact h
  | cons step steps ih =>
      obtain ⟨answer, next, htake, hnext⟩ := take_remembers h step
      obtain ⟨log, after, hrun, hsteps, hafter⟩ := ih hnext
      refine ⟨⟨c, step, answer⟩ :: log, after, ?_, ?_, ?_⟩
      · rw [run, htake]
        simp only [bind, Except.bind, hrun]
        rfl
      · rw [List.map_cons, hsteps]
      · rw [List.append_assoc] at hafter
        rw [List.filterMap_cons]
        cases hevent : Entry.event? ⟨c, step, answer⟩ with
        | none => simpa [hevent] using hafter
        | some event => simpa [hevent] using hafter

/-! ## Steps that can be left out -/

/-- A line whose reply passes leaves the calculator as it was. -/
theorem take_passing {step : Step} {answer : Answer} (h : c.take step = .ok (answer, after))
    (hpassing : Entry.isPassing ⟨c, step, answer⟩ = true) : after = c := by
  cases step with
  | evaluate typed =>
      obtain ⟨⟨r, next⟩, hr, heq⟩ : ∃ result, c.evaluate typed = .ok result ∧
          (Answer.reply result.1, result.2) = (answer, after) := by
        rw [take] at h
        cases hresult : c.evaluate typed with
        | ok result =>
            rw [hresult] at h
            exact ⟨result, rfl, Except.ok.inj h⟩
        | error f =>
            rw [hresult] at h
            cases h
      cases heq
      cases evaluate_effect hr with
      | refused e => rfl
      | passing r hkind => rfl
      | assigned name x text hname hvalue => cases hpassing
      | answered x text hvalue => cases hpassing
      | switched mode => cases hpassing
  | command line =>
      rw [take] at h
      split at h
      · cases h
        cases hpassing
      · cases h
        rfl
  | reset =>
      cases h
      cases hpassing
  | setMode mode =>
      cases h
      cases hpassing

/-- A session without the lines whose replies pass has the same other entries in its log, and ends
at the same calculator. -/
theorem run_without_passing {steps : List Step} {log : List Entry}
    (h : c.run steps = .ok (log, after)) :
    c.run ((log.filter (!·.isPassing)).map (·.step)) =
      .ok (log.filter (!·.isPassing), after) := by
  induction steps generalizing c log with
  | nil =>
      cases h
      rfl
  | cons step steps ih =>
      rw [run] at h
      cases htake : c.take step with
      | error f =>
          rw [htake] at h
          cases h
      | ok result =>
          obtain ⟨answer, next⟩ := result
          cases hrun : next.run steps with
          | error f =>
              simp only [htake, bind, Except.bind, hrun] at h
              cases h
          | ok result =>
              obtain ⟨rest, last⟩ := result
              simp only [htake, bind, Except.bind, hrun] at h
              cases h
              cases hpassing : Entry.isPassing ⟨c, step, answer⟩ with
              | true =>
                  -- the steps behind start from the same calculator without it
                  rw [List.filter_cons_of_neg (by simp [hpassing]), ← take_passing htake hpassing]
                  exact ih hrun
              | false =>
                  rw [List.filter_cons_of_pos (by simp [hpassing]), List.map_cons, run, htake]
                  simp only [bind, Except.bind, ih hrun]
                  rfl

/-! ## Whole sessions -/

/-- **A calculator remembers what its session says.** A session from the start is answered to its
end. Since the memory was last cleared, the variables are the names that were assigned to, in the
order of their first assignment, each once and with the number of its latest; the result before is
the latest number; the angle mode is the latest that was switched to. Without the lines that gave
an error, a quantity, or what is not finite, the session is answered in the same way and leaves the
same calculator. -/
theorem run_history (config : Config) (steps : List Step) :
    ∃ log c, (new config).run steps = .ok (log, c) ∧ log.map (·.step) = steps ∧
      Remembers config (History.current (log.filterMap Entry.event?)) c ∧
      c.memory.bindings.names.Nodup ∧
      (new config).run ((log.filter (!·.isPassing)).map (·.step)) =
        .ok (log.filter (!·.isPassing), c) := by
  have hnew : Remembers config (History.current []) (new config) := remembers_new config
  obtain ⟨log, c, hrun, hsteps, hremembers⟩ := run_remembers hnew steps
  rw [List.nil_append] at hremembers
  refine ⟨log, c, hrun, hsteps, hremembers, ?_, run_without_passing hrun⟩
  rw [Ledger.names, hremembers.bindings]
  exact History.nodup_bindings _

/-- Three assignments, an error and a switch: the error leaves no event, and the name that was
assigned to twice stands first with its second number. -/
theorem run_history_of_error :
    ∃ log c, (new {}).run [.evaluate "x = 2", .evaluate "y = 7", .evaluate "x +",
        .evaluate "rad()", .evaluate "x = 5"] = .ok (log, c) ∧
      log.filterMap Entry.event? =
        [.assigned "x" 2, .assigned "y" 7, .switched .radians, .assigned "x" 5] ∧
      c.memory.bindings.entries = [("x", 5), ("y", 7)] ∧ c.memory.lastResult = 5 ∧
      c.memory.angleMode = .radians := by
  obtain ⟨log, c, hrun, -, hremembers, -⟩ := run_history {} [.evaluate "x = 2", .evaluate "y = 7",
    .evaluate "x +", .evaluate "rad()", .evaluate "x = 5"]
  have hevents : ((new {}).run [.evaluate "x = 2", .evaluate "y = 7", .evaluate "x +",
      .evaluate "rad()", .evaluate "x = 5"]).toOption.map (·.1.filterMap Entry.event?) =
      some [.assigned "x" 2, .assigned "y" 7, .switched .radians, .assigned "x" 5] := by
    decide +kernel
  rw [hrun] at hevents
  have hevents : log.filterMap Entry.event? =
      [.assigned "x" 2, .assigned "y" 7, .switched .radians, .assigned "x" 5] :=
    Option.some.inj hevents
  rw [hevents] at hremembers
  exact ⟨log, c, hrun, hevents, hremembers.bindings, hremembers.lastResult, hremembers.angleMode⟩

end Calculator

end Reckoner
