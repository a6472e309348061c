import Reckoner.Proofs.Expr.Grammar
import Reckoner.Proofs.Source.Legible

/-!
# Reckoner.Proofs.Expr.Single -- lines of one word or one number

The shortest lines: a word alone is read as a name, a numeral alone as a number, and a numeral
behind a minus as the negative of a number. They need no more depth than they have operands in one
another, which is less than what is asked for longer lines.
-/

namespace Reckoner

open Token (Legible chars sign unplaced_eq_iff)

/-! ## Tokens of one operand -/

namespace ExprReader

variable {units : List String} {limit depth level : Nat} {before : Option Token} {t stop : Token}
  {e : Expr}

theorem stops_finish (hstop : stop.kind = .finish) : stop.Stops units level :=
  Token.Follows.stops ⟨by simp [hstop], by simp [hstop]⟩ (by simp [hstop])

/-- A primary with the end mark behind it is an expression of any level. -/
theorem expression_of_primary (ht : t.OpensPrimary) (hstop : stop.kind = .finish)
    (hprimary : primary (expression units limit depth) units t [stop] = .ok (e, [stop])) :
    expression units limit (depth + 1) level before [t, stop] = .ok (e, [stop]) := by
  have hstops : stop.Stops units level := stops_finish hstop
  have hpercents : withPercents e ([] ++ [stop]) = (e, [stop]) :=
    withPercents_append (by simp) hstops.notPercent
  rw [List.nil_append] at hpercents
  rw [expression_of_operand (operand_primary before ht hprimary), hpercents]
  exact operations_stop hstops

theorem expression_number {x : Float} (ht : t.kind = .number)
    (hx : Number.numeral? t.lexeme = some x) (hstop : stop.kind = .finish) :
    expression units limit (depth + 1) level before [t, stop] =
      .ok (.number x t.place, [stop]) := by
  refine expression_of_primary (.inl ht) hstop ?_
  have hstops : stop.Stops units level := stops_finish hstop
  have hunit : withUnit units t.place (.number x t.place) ((none : Option Token).toList ++ [stop]) =
      (.number x t.place, [stop]) :=
    withUnit_append (by rintro _ ⟨⟩) hstops.toFollows
  rw [Option.toList_none, List.nil_append] at hunit
  rw [primary, ht]
  simp only [hx, hunit]
  rfl

theorem expression_name (ht : t.kind = .identifier) (hstop : stop.kind = .finish) :
    expression units limit (depth + 1) level before [t, stop] =
      .ok (.name t.lexeme t.place, [stop]) := by
  refine expression_of_primary (.inr (.inl ht)) hstop ?_
  have hstops : stop.Stops units level := stops_finish hstop
  -- the end mark starts no argument, so the name of a function is a name here
  have hargument : ¬ Derivation.StartsArgument stop := by
    simp [Derivation.StartsArgument, hstop, Token.isSign_eq_false]
  rw [primary, ht]
  exact named_name ht (fun h => hargument h.2) hstops.toFollows

theorem expression_minus {s : Token} (hs : s.isSign "-") (hstop : stop.kind = .finish)
    (hinner : expression units limit depth signLevel (some s) [t, stop] = .ok (e, [stop])) :
    expression units limit (depth + 1) level before [s, t, stop] =
      .ok (.unary .neg e s.place, [stop]) := by
  have hstops : stop.Stops units level := stops_finish hstop
  have hsign : signOf? before s = some .neg := by rw [signOf?, if_pos hs]
  rw [expression_of_operand (operand_sign (Token.kind_of_isSign hs) hsign hinner)]
  exact operations_stop hstops

end ExprReader

namespace Statement

variable {limit : Nat} {ts : List Token}

/-- Tokens without brackets and equals signs are a statement if they are read up to the end
mark. -/
theorem ofTokens_of_expression {units : List String} {stop : Token} {e : Expr}
    (hstop : stop.kind = .finish)
    (hplain : ∀ t ∈ ts, t.kind ≠ .openBracket ∧ t.kind ≠ .closeBracket ∧ t.kind ≠ .equal)
    (hread : ExprReader.expression units limit limit sumLevel none (ts ++ [stop]) =
      .ok (e, [stop])) :
    ofTokens units limit (ts ++ [stop]) = .ok (.expression e) := by
  have hcheck : Brackets.check (ts ++ [stop]) = .ok () :=
    check_of_matched (.of_forall fun t ht => ⟨(hplain t ht).1, (hplain t ht).2.1⟩) (by simp [hstop])
  have hassign : assignment? (ts ++ [stop]) = none := by
    refine assignment?_eq_none fun t ht => ?_
    rcases List.mem_append.mp ht with ht | ht
    · exact (hplain t ht).2.2
    · rw [List.mem_singleton.mp ht, hstop]
      decide
  rw [ofTokens_eq_conversion hcheck hassign hread, conversion, if_neg (by simp [hstop]), atEnd,
    hstop]
  rfl

/-! ## Typed lines -/

/-- Legible tokens without brackets and equals signs are typed for an expression, if they are read
as it wherever they stand. -/
theorem ofTyped_of_legible {x : Expr} (h : Legible ts) (hne : chars ts ≠ [])
    (hplain : ∀ t ∈ ts, t.kind ≠ .openBracket ∧ t.kind ≠ .closeBracket ∧ t.kind ≠ .equal)
    (hread : ∀ us stop, us.map Token.unplaced = ts → stop.kind = .finish →
      ∃ e, ExprReader.expression UnitTable.standard.names limit limit sumLevel none (us ++ [stop]) =
        .ok (e, [stop]) ∧ e.unplaced = x) :
    ∃ e, ofTyped UnitTable.standard.names limit (String.ofList (chars ts)) =
      .ok (.expression e) ∧ e.unplaced = x := by
  obtain ⟨us, stop, htokens, hmap⟩ := Token.ofTyped_of_legible h hne
  obtain ⟨e, he, hx⟩ := hread us ⟨.finish, "", stop⟩ hmap rfl
  have hkinds : ∀ t ∈ us, t.kind ≠ .openBracket ∧ t.kind ≠ .closeBracket ∧ t.kind ≠ .equal := by
    intro t ht
    exact hplain t.unplaced (hmap ▸ List.mem_map_of_mem ht)
  refine ⟨e, ?_, hx⟩
  rw [ofTyped, htokens]
  exact ofTokens_of_expression rfl hkinds he

/-- **A word alone is a name**, also if it names a function or a unit. -/
theorem ofTyped_word (w : Word) (hlimit : 1 ≤ limit) :
    ∃ e, ofTyped UnitTable.standard.names limit w.text = .ok (.expression e) ∧
      e.unplaced = .name w.text 0 := by
  have hlegible : Legible [⟨.identifier, w.text, 0⟩] := .word w (by simp) .nil
  have hchars : chars [⟨.identifier, w.text, 0⟩] = w.text.toList := by simp
  have hne : chars [⟨.identifier, w.text, 0⟩] ≠ [] := by
    obtain ⟨c, cs, hcons, -⟩ := w.text_eq_cons
    simp [hcons]
  obtain ⟨depth, rfl⟩ := Nat.exists_eq_add_of_le' hlimit
  rw [← String.ofList_toList (s := w.text), ← hchars]
  refine ofTyped_of_legible hlegible hne (by simp) fun us stop hus hstop => ?_
  obtain ⟨t, rfl, ht⟩ := List.map_eq_singleton_iff.mp hus
  obtain ⟨hkind, hlexeme⟩ := unplaced_eq_iff.mp ht
  refine ⟨.name t.lexeme t.place, ExprReader.expression_name hkind hstop, ?_⟩
  rw [Expr.unplaced, hlexeme, hchars, String.ofList_toList]

/-- **A numeral alone is a number.** -/
theorem ofTyped_numeral (n : Numeral) (hlimit : 1 ≤ limit) :
    ∃ e, ofTyped UnitTable.standard.names limit n.text = .ok (.expression e) ∧
      e.unplaced = .number n.value 0 := by
  have hlegible : Legible [⟨.number, n.text, 0⟩] := .number n (by simp) .nil
  have hchars : chars [⟨.number, n.text, 0⟩] = n.text.toList := by simp
  have hne : chars [⟨.number, n.text, 0⟩] ≠ [] := by
    obtain ⟨c, cs, hcons, -⟩ := n.text_eq_cons
    simp [hcons]
  obtain ⟨depth, rfl⟩ := Nat.exists_eq_add_of_le' hlimit
  rw [← String.ofList_toList (s := n.text), ← hchars]
  refine ofTyped_of_legible hlegible hne (by simp) fun us stop hus hstop => ?_
  obtain ⟨t, rfl, ht⟩ := List.map_eq_singleton_iff.mp hus
  obtain ⟨hkind, hlexeme⟩ := unplaced_eq_iff.mp ht
  exact ⟨.number n.value t.place,
    ExprReader.expression_number hkind (hlexeme ▸ n.numeral?_text) hstop, rfl⟩

/-- **A numeral behind a minus is the negative of a number.** -/
theorem ofTyped_minus (n : Numeral) (hlimit : 2 ≤ limit) :
    ∃ e, ofTyped UnitTable.standard.names limit ("-" ++ n.text) = .ok (.expression e) ∧
      e.unplaced = .unary .neg (.number n.value 0) 0 := by
  have hlegible : Legible [sign "-", ⟨.number, n.text, 0⟩] :=
    (Legible.number n (by simp) .nil).free (by decide)
  have hchars : chars [sign "-", ⟨.number, n.text, 0⟩] = ("-" ++ n.text).toList := by simp [sign]
  obtain ⟨depth, rfl⟩ := Nat.exists_eq_add_of_le' hlimit
  rw [← String.ofList_toList (s := "-" ++ n.text), ← hchars]
  refine ofTyped_of_legible hlegible (by simp [sign]) (by simp [sign]) fun us stop hus hstop => ?_
  obtain ⟨s, behind, rfl, hs, hbehind⟩ := List.map_eq_cons_iff.mp hus
  obtain ⟨t, rfl, ht⟩ := List.map_eq_singleton_iff.mp hbehind
  obtain ⟨hkind, hlexeme⟩ := unplaced_eq_iff.mp ht
  have hminus : s.isSign "-" := Token.isSign_iff.mpr (unplaced_eq_iff.mp hs)
  have hnumber : ExprReader.expression UnitTable.standard.names (depth + 2) (depth + 1) signLevel
      (some s) [t, stop] = .ok (.number n.value t.place, [stop]) :=
    ExprReader.expression_number hkind (hlexeme ▸ n.numeral?_text) hstop
  exact ⟨.unary .neg (.number n.value t.place) s.place,
    ExprReader.expression_minus hminus hstop hnumber, rfl⟩

end Statement

end Reckoner
