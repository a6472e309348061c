import Reckoner.Proofs.Calculator.History
import Reckoner.Proofs.Text.Line

/-!
# Reckoner.Proofs.Calculator.Place -- where replies point to

A reply has a place exactly if it is the report of a reader. The place lies in the line that was
typed, or at its end, so that the caret under the printed line stands under a character that was
typed or just behind the last.
-/

namespace Reckoner

namespace Reply

/-- The kinds of the errors of reading, which are reported at a place. -/
def placedKinds : List Kind :=
  [.unexpectedCharacter, .unmatchedBracket, .danglingOperator, .doubledOperator, .unexpectedToken]

/-- A reply that is an error if its kind is one, and has a place in the line, where the printed
reply points to, if its kind is one for errors of reading. -/
structure PointsInto (typed : String) (r : Reply) : Prop where
  isError : r.isError = r.kind.isError
  placed : r.place.isSome ↔ r.kind ∈ placedKinds
  within : ∀ place, r.place = some place → ∃ p : Nat, place = p ∧ p ≤ typed.toList.length ∧
    (r.kind = .unexpectedCharacter → p < typed.toList.length)
  rendered : ∀ p : Nat, r.place = some (p : Int) → ∃ lines,
    r.render typed = "Syntax error: " ++ r.text ++ "\n" ++ lines ∧
      Text.PointsTo typed.toList p lines

variable {typed : String}

/-- A reply that is no error points nowhere. -/
theorem pointsInto_of_result {r : Reply} (hplace : r.place = none) (herror : r.isError = false)
    (hkind : r.kind.isError = false) : r.PointsInto typed where
  isError := herror.trans hkind.symm
  placed := by
    have hkinds : ∀ kind ∈ placedKinds, kind.isError = true := by decide
    rw [hplace]
    refine ⟨fun h => absurd h (by decide), fun h => ?_⟩
    rw [hkinds r.kind h] at hkind
    cases hkind
  within := by
    rw [hplace]
    rintro _ ⟨⟩
  rendered := by
    rw [hplace]
    rintro _ ⟨⟩

theorem ofAmount_pointsInto (x : Float) {kind : Kind} (hkind : kind.isError = false)
    (shown : String) : (ofAmount x kind shown).PointsInto typed := by
  unfold ofAmount
  split
  · exact pointsInto_of_result rfl rfl rfl
  split
  · exact pointsInto_of_result rfl rfl rfl
  · exact pointsInto_of_result rfl rfl hkind

theorem ofValue_pointsInto (precision : Nat) (v : Value) :
    (ofValue precision v).PointsInto typed := by
  cases v with
  | number x => exact ofAmount_pointsInto x rfl _
  | quantity q => exact ofAmount_pointsInto q.amount rfl _
  | text t => exact pointsInto_of_result rfl rfl rfl

theorem ofAssigned_pointsInto (precision : Nat) (name : String) (v : Value) :
    (ofAssigned precision name v).PointsInto typed := by
  cases v with
  | number x => exact ofAmount_pointsInto x rfl _
  | quantity q => exact ofValue_pointsInto precision (.quantity q)
  | text t => exact ofValue_pointsInto precision (.text t)

theorem ofError_place (e : Error) : (ofError e).place = e.place?.map Int.ofNat := by
  rw [ofError]
  cases e.place? <;> rfl

/-- An error has a place if and only if its kind is one for errors of reading. -/
theorem place?_isSome (e : Error) : e.place?.isSome ↔ e.kind ∈ placedKinds := by
  cases e with
  | misplaced why place =>
      have hkind : why.kind ∈ placedKinds := by
        cases why <;> simp [Misplacement.kind, placedKinds]
      exact iff_of_true rfl hkind
  | _ => simp [Error.place?, Error.kind, placedKinds]

theorem render_ofError {e : Error} {place : Nat} (h : e.place? = some place) :
    (ofError e).render typed =
      "Syntax error: " ++ (ofError e).text ++ "\n" ++ Text.snippet typed place := by
  have hplace : (ofError e).place = some (place : Int) := by
    rw [ofError_place, h]
    rfl
  have hsyntax : isSyntaxKind (ofError e).kind = true := by
    have hkinds : ∀ kind ∈ placedKinds, isSyntaxKind kind = true := by decide
    exact hkinds _ ((place?_isSome e).mp (by rw [h]; rfl))
  have herror : (ofError e).isError = true := rfl
  rw [render, hplace, herror, hsyntax]
  rfl

/-- An error whose place, if it has one, lies in the line. -/
theorem ofError_pointsInto {e : Error} (hplace : ∀ place ∈ e.place?,
    place ≤ typed.toList.length ∧ (e.kind = .unexpectedCharacter → place < typed.toList.length)) :
    (ofError e).PointsInto typed where
  isError := (isError_kind e).symm
  placed := by
    rw [ofError_place, Option.isSome_map]
    exact place?_isSome e
  within := by
    intro place h
    rw [ofError_place] at h
    obtain ⟨p, hp, rfl⟩ := Option.map_eq_some_iff.mp h
    exact ⟨p, rfl, hplace p hp⟩
  rendered := by
    intro p h
    rw [ofError_place] at h
    obtain ⟨p', hp, heq⟩ := Option.map_eq_some_iff.mp h
    obtain rfl : p' = p := Int.ofNat.inj heq
    exact ⟨_, render_ofError hp, Text.snippet_pointsTo typed (hplace p' hp).1⟩

/-- What is reported by those who read a line points into it. -/
theorem ofLine_pointsInto {e : Error} (h : e.OfLine typed.toList.length) :
    (ofError e).PointsInto typed := by
  refine ofError_pointsInto fun place hplace => ?_
  cases h with
  | nothingEntered => cases hplace
  | unexpectedCharacter c h =>
      cases hplace
      exact ⟨Nat.le_of_lt h, fun _ => h⟩
  | misplaced why h =>
      cases hplace
      refine ⟨h, fun hkind => ?_⟩
      cases why <;> cases hkind
  | tooDeep limit => cases hplace

end Reply

namespace Calculator

theorem replyTo_pointsInto (c : Calculator) (s : Statement) (v : Value) (typed : String) :
    (c.replyTo s v).PointsInto typed := by
  cases s with
  | assign name e place => exact Reply.ofAssigned_pointsInto _ name v
  | expression e => exact Reply.ofValue_pointsInto _ v
  | convert e unit place => exact Reply.ofValue_pointsInto _ v

theorem evaluate_pointsInto {c after : Calculator} (hunits : c.memory.units.Scaled)
    {typed : String} {r : Reply} (h : c.evaluate typed = .ok (r, after)) :
    r.PointsInto typed := by
  unfold evaluate at h
  split at h
  · next s hs =>
    unfold carryOut at h
    split at h
    · cases h
      exact c.replyTo_pointsInto s _ typed
    · next e m hrun =>
      cases h
      -- an error about values has no place
      have hplaceless := Statement.perform_placeless c.config.maxDepth hunits s
      rw [hrun] at hplaceless
      refine Reply.ofError_pointsInto fun place hplace => ?_
      rw [hplaceless.error] at hplace
      cases hplace
    · cases h
  · next e he =>
    cases h
    have hread : FailsWith (·.OfLine typed.toList.length) (c.statement typed) :=
      Statement.ofTyped_failsWith typed
    rw [he] at hread
    exact Reply.ofLine_pointsInto hread.error
  · cases h

/-- **Every report with a place points into the typed line.** A line always gets a reply, which is
an error exactly if its kind is one, and has a place exactly if it is the report of a reader. That
place lies in the line or at its end, and that of a character in the line; and where it is printed
the caret stands under what was typed there. Every other snippet has its caret under its place,
too. -/
theorem evaluate_place (c : Calculator) (typed : String) (hunits : c.memory.units.Scaled) :
    (∃ r after, c.evaluate typed = .ok (r, after) ∧ r.PointsInto typed) ∧
      ∀ (line : String) (place : Nat), place ≤ line.toList.length →
        Text.PointsTo line.toList place (Text.snippet line place) := by
  obtain ⟨r, after, hr⟩ := c.evaluate_total hunits typed
  exact ⟨⟨r, after, hr, evaluate_pointsInto hunits hr⟩, fun line place => Text.snippet_pointsTo line⟩

/-- The dollar sign in the middle of a sum is reported where it stands, and printed with a caret
under it. -/
theorem evaluate_place_of_dollar :
    (new {}).memory.units.Scaled ∧ ∃ r after,
      (new {}).evaluate "1 + 2 + 3 + $4 + 5 + 6 + 7" = .ok (r, after) ∧
        r.kind = .unexpectedCharacter ∧ r.place = some 12 ∧ ∃ lines,
          r.render "1 + 2 + 3 + $4 + 5 + 6 + 7" = "Syntax error: " ++ r.text ++ "\n" ++ lines ∧
            Text.PointsTo "1 + 2 + 3 + $4 + 5 + 6 + 7".toList 12 lines := by
  have hscaled : (new {}).memory.units.Scaled := UnitTable.standard_scaled
  obtain ⟨⟨r, after, hr, hpoints⟩, -⟩ :=
    evaluate_place (new {}) "1 + 2 + 3 + $4 + 5 + 6 + 7" hscaled
  have hreply : ((new {}).evaluate "1 + 2 + 3 + $4 + 5 + 6 + 7").toOption.map
      (fun outcome => (outcome.1.kind, outcome.1.place)) =
        some (.unexpectedCharacter, some 12) := by decide +kernel
  rw [hr] at hreply
  obtain ⟨hkind, hplace⟩ := Prod.mk.inj (Option.some.inj hreply)
  exact ⟨hscaled, r, after, hr, hkind, hplace, hpoints.rendered 12 hplace⟩

end Calculator

end Reckoner
