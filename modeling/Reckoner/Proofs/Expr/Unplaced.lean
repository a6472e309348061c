import Reckoner.Expr.OfTokens
import Reckoner.Expr.Written
import Reckoner.Proofs.Source.Trim
import Reckoner.Proofs.Token.Legible

/-!
# Reckoner.Proofs.Expr.Unplaced -- readers are blind to places

The place of a token goes into trees and errors and decides nothing. So what is read from tokens
without their places is what is read from the tokens, without its places; and two lines that are
respelled alike are read alike, wherever their characters were typed.
-/

namespace Reckoner

theorem Token.kind_unplaced (t : Token) : t.unplaced.kind = t.kind := rfl

open Token (unplaced)

/-- An error without its place. -/
def Error.unplaced : Error → Error
  | .unexpectedCharacter c _ => .unexpectedCharacter c 0
  | .misplaced why _ => .misplaced why 0
  | e => e

/-- A failure without its place. -/
def Failure.unplaced : Failure → Failure
  | .error e => .error e.unplaced
  | .fault f => .fault f

/-- An outcome without its places: `g` takes them from a result. -/
def withoutPlaces {α β : Type} (g : α → β) : Except Failure α → Except Failure β
  | .ok a => .ok (g a)
  | .error f => .error f.unplaced

/-- One computation after another, without their places. -/
theorem withoutPlaces_bind {α β γ δ : Type} {g : α → β} {g' : γ → δ} {x : Except Failure α}
    {y : Except Failure β} {k : α → Except Failure γ} {l : β → Except Failure δ}
    (hx : y = withoutPlaces g x) (hk : ∀ a, l (g a) = withoutPlaces g' (k a)) :
    y >>= l = withoutPlaces g' (x >>= k) := by
  cases x with
  | ok a =>
      rw [hx]
      exact hk a
  | error f =>
      rw [hx]
      rfl

theorem orError_map {α β : Type} (g : α → β) (x : Except Error α) :
    orError (x.map g) = orError x >>= fun a => .ok (g a) := by
  cases x <;> rfl

namespace ExprReader

/-- What is read, and the tokens behind it, without their places. -/
def unplacedRest (r : Expr × List Token) : Expr × List Token :=
  (r.1.unplaced, r.2.map unplaced)

/-- A reader that reads the same, places apart, when it is not told the places. -/
def IsBlind (inner : ExprReader) : Prop :=
  ∀ (level : Nat) (before : Option Token) (ts : List Token),
    inner level (before.map unplaced) (ts.map unplaced) =
      withoutPlaces unplacedRest (inner level before ts)

/-! ## Operands -/

theorem withUnit_unplaced (units : List String) (place : Nat) (amount : Expr) (ts : List Token) :
    withUnit units 0 amount.unplaced (ts.map unplaced) =
      unplacedRest (withUnit units place amount ts) := by
  cases ts with
  | nil => rfl
  | cons t ts =>
      show (if t.kind == .identifier && units.contains t.lexeme then _ else _) = _
      rw [withUnit]
      split
      · rw [unplacedRest, Expr.unplaced]
        rfl
      · rfl

theorem withPercents_unplaced (operand : Expr) (ts : List Token) :
    withPercents operand.unplaced (ts.map unplaced) =
      unplacedRest (withPercents operand ts) := by
  induction ts generalizing operand with
  | nil => rfl
  | cons t ts ih =>
      show (if t.isSign "%" then withPercents (.unary .percent operand.unplaced 0) _ else _) = _
      rw [withPercents]
      split
      · rw [← ih, Expr.unplaced]
      · rfl

section Readers

variable {inner : ExprReader} (h : IsBlind inner)

include h

theorem arguments_unplaced (room : Nat) (before : Token) (ts : List Token) :
    arguments inner room before.unplaced (ts.map unplaced) =
      withoutPlaces (fun r => (Expr.unplacedAll r.1, r.2.map unplaced))
        (arguments inner room before ts) := by
  induction room generalizing before ts with
  | zero => rfl
  | succ room ih =>
      rw [arguments, arguments]
      refine withoutPlaces_bind (h sumLevel (some before) ts) fun (arg, rest) => ?_
      cases rest with
      | nil => rfl
      | cons t rest =>
          -- the class of the token decides, and is the same without the place
          obtain ⟨kind, lexeme, place⟩ := t
          cases kind with
          | closeBracket => rfl
          | comma => exact withoutPlaces_bind (ih _ rest) fun (args, rest) => rfl
          | _ => rfl

theorem call_unplaced (function bracket : Token) (ts : List Token) :
    call inner function.unplaced bracket.unplaced (ts.map unplaced) =
      withoutPlaces unplacedRest (call inner function bracket ts) := by
  cases ts with
  | nil => rfl
  | cons t ts =>
      rw [List.map_cons, call, call]
      show (if t.kind == .closeBracket then _ else _) = _
      split
      · rfl
      · rw [← List.map_cons, List.length_map]
        exact withoutPlaces_bind (arguments_unplaced h _ bracket (t :: ts)) fun (args, rest) => rfl

theorem named_unplaced (name : Token) (ts : List Token) :
    named inner name.unplaced (ts.map unplaced) =
      withoutPlaces unplacedRest (named inner name ts) := by
  cases ts with
  | nil => rfl
  | cons t ts =>
      rw [List.map_cons, named, named]
      show (if t.kind == .openBracket then _ else
        if Builtin.isName name.lexeme && startsArgument t then _ else _) = _
      split
      · exact call_unplaced h name t ts
      split
      · exact withoutPlaces_bind (h signLevel (some name) (t :: ts)) fun (arg, rest) => rfl
      · rfl

theorem primary_unplaced (units : List String) (first : Token) (ts : List Token) :
    primary inner units first.unplaced (ts.map unplaced) =
      withoutPlaces unplacedRest (primary inner units first ts) := by
  have hnamed := named_unplaced h first ts
  obtain ⟨kind, lexeme, place⟩ := first
  cases kind with
  | number =>
      simp only [primary, Token.unplaced]
      cases Number.numeral? lexeme with
      | none => rfl
      | some x => exact congrArg Except.ok (withUnit_unplaced units place (.number x place) ts)
  | openBracket =>
      refine withoutPlaces_bind (h sumLevel (some _) ts) fun (e, rest) => ?_
      cases rest with
      | nil => rfl
      | cons t rest =>
          show (if t.kind == .closeBracket then _ else _) = withoutPlaces _
            (if t.kind == .closeBracket then _ else _)
          split
          · exact congrArg Except.ok (withUnit_unplaced units place e rest)
          · rfl
  | identifier => exact hnamed
  | _ => rfl

omit h in
theorem missing_unplaced {α β : Type} (g : α → β) (before : Option Token) (t : Token) :
    missing (before.map unplaced) t.unplaced = withoutPlaces g (missing before t) := by
  cases before with
  | none => rfl
  | some b =>
      show (if b.isOperator then _ else
        if b.kind == .openBracket && t.kind == .closeBracket then _ else _) = _
      rw [missing]
      split
      · rfl
      split
      · rfl
      · rfl

omit h in
theorem strayOperator_unplaced {α β : Type} (g : α → β) (before : Option Token) (t : Token) :
    strayOperator (before.map unplaced) t.unplaced = withoutPlaces g (strayOperator before t) := by
  cases before with
  | none => rfl
  | some b =>
      show (if b.isOperator then _ else _) = _
      rw [strayOperator]
      split
      · rfl
      · rfl

omit h in
theorem signOf?_unplaced (before : Option Token) (t : Token) :
    signOf? (before.map unplaced) t.unplaced = signOf? before t := by
  cases before <;> rfl

theorem operand_unplaced (units : List String) (before : Option Token) (ts : List Token) :
    operand inner units (before.map unplaced) (ts.map unplaced) =
      withoutPlaces unplacedRest (operand inner units before ts) := by
  cases ts with
  | nil => rfl
  | cons t ts =>
      have hmissing := missing_unplaced unplacedRest before t
      have hstray := strayOperator_unplaced unplacedRest before t
      have hsign := signOf?_unplaced before t
      have hprimary : (primary inner units t.unplaced (ts.map unplaced) >>= fun r =>
          pure (withPercents r.1 r.2)) = withoutPlaces unplacedRest
          (primary inner units t ts >>= fun r => pure (withPercents r.1 r.2)) :=
        withoutPlaces_bind (primary_unplaced h units t ts) fun r =>
          congrArg Except.ok (withPercents_unplaced r.1 r.2)
      rw [List.map_cons, operand, operand]
      obtain ⟨kind, lexeme, place⟩ := t
      cases kind with
      | finish => exact hmissing
      | closeBracket => exact hmissing
      | comma => exact hmissing
      | operator =>
          simp only [Token.kind_unplaced, hsign]
          split
          · exact withoutPlaces_bind (h signLevel (some _) ts) fun (e, rest) => rfl
          · exact hstray
      | _ => exact hprimary

/-! ## Operations -/

omit h in
theorem apply_unplaced (op : BinaryOp) (left right : Expr) (place : Nat) :
    op.apply left.unplaced right.unplaced 0 = (op.apply left right place).unplaced := by
  cases op with
  | add => cases right with
    | unary sign share place => cases sign <;> rfl
    | _ => rfl
  | sub => cases right with
    | unary sign share place => cases sign <;> rfl
    | _ => rfl
  | _ => rfl

theorem operations_unplaced (level room : Nat) (left : Expr) (ts : List Token) :
    operations inner level room left.unplaced (ts.map unplaced) =
      withoutPlaces unplacedRest (operations inner level room left ts) := by
  induction room generalizing left ts with
  | zero => rfl
  | succ room ih =>
      cases ts with
      | nil => rfl
      | cons t ts =>
          have hop : BinaryOp.ofToken? t.unplaced = BinaryOp.ofToken? t := rfl
          rw [List.map_cons, operations, operations, hop]
          split
          · next op hop =>
            split
            · rfl
            · refine withoutPlaces_bind (h op.rightLevel (some t) ts) fun (right, rest) => ?_
              rw [← ih, ← apply_unplaced]
              rfl
          · rfl

omit h in
/-- **A reader is blind to places**, whatever the depth. -/
theorem expression_unplaced (units : List String) (limit depth : Nat) :
    IsBlind (expression units limit depth) := by
  induction depth with
  | zero => exact fun level before ts => rfl
  | succ depth ih =>
      intro level before ts
      rw [expression, expression]
      refine withoutPlaces_bind (operand_unplaced ih units before ts) fun (left, rest) => ?_
      show operations _ level (rest.map unplaced).length left.unplaced (rest.map unplaced) = _
      rw [List.length_map]
      exact operations_unplaced ih level rest.length left rest

end Readers

end ExprReader

/-! ## Statements -/

/-- A statement with all of it at one place. -/
def Statement.unplaced : Statement → Statement
  | .expression e => .expression e.unplaced
  | .assign name e _ => .assign name e.unplaced 0
  | .convert e unit _ => .convert e.unplaced unit 0

namespace Brackets

theorem checkFrom_unplaced (opened last : Nat) (ts : List Token) :
    orError (checkFrom opened 0 (ts.map unplaced)) =
      withoutPlaces id (orError (checkFrom opened last ts)) := by
  induction ts generalizing opened last with
  | nil => cases opened <;> rfl
  | cons t ts ih =>
      obtain ⟨kind, lexeme, place⟩ := t
      cases kind with
      | closeBracket =>
          cases opened with
          | zero => rfl
          | succ others => exact ih others place
      | _ => cases opened <;> exact ih _ place

end Brackets

namespace Statement

theorem atEnd_unplaced (ts : List Token) :
    atEnd (ts.map Token.unplaced) = withoutPlaces id (atEnd ts) := by
  cases ts with
  | nil => rfl
  | cons t ts =>
      obtain ⟨kind, lexeme, place⟩ := t
      cases kind <;> rfl

theorem conversion_unplaced (value : Expr) (ts : List Token) :
    conversion value.unplaced (ts.map Token.unplaced) =
      withoutPlaces unplaced (conversion value ts) := by
  cases ts with
  | nil => rfl
  | cons keyword ts =>
      show (if keyword.kind == .identifier && conversionKeywords.contains keyword.lexeme then _
        else _) = withoutPlaces _
        (if keyword.kind == .identifier && conversionKeywords.contains keyword.lexeme then _ else _)
      split
      · cases ts with
        | nil => rfl
        | cons unit rest =>
            show (if unit.kind == .identifier then _ else _) = withoutPlaces _
              (if unit.kind == .identifier then _ else _)
            split
            · exact withoutPlaces_bind (atEnd_unplaced rest) fun _ => rfl
            · rfl
      · exact withoutPlaces_bind (atEnd_unplaced (keyword :: ts)) fun _ => rfl

theorem assignment?_unplaced (ts : List Token) :
    assignment? (ts.map Token.unplaced) = (assignment? ts).map fun (target, sign, rest) =>
      (target.unplaced, sign.unplaced, rest.map Token.unplaced) := by
  cases ts with
  | nil => rfl
  | cons target ts =>
      cases ts with
      | nil => rfl
      | cons sign rest =>
          show (if target.kind == .identifier && sign.kind == .equal then _ else _) = _
          rw [assignment?]
          split
          · rfl
          · rfl

/-- **Tokens are read into the same statement wherever they were typed.** -/
theorem ofTokens_unplaced (units : List String) (limit : Nat) (ts : List Token) :
    ofTokens units limit (ts.map Token.unplaced) =
      withoutPlaces unplaced (ofTokens units limit ts) := by
  have hread := ExprReader.expression_unplaced units limit limit
  refine withoutPlaces_bind (Brackets.checkFrom_unplaced 0 0 ts) fun _ => ?_
  rw [assignment?_unplaced]
  cases assignment? ts with
  | some r =>
      obtain ⟨target, sign, rest⟩ := r
      refine withoutPlaces_bind (hread sumLevel (some sign) rest) fun (value, rest) => ?_
      exact withoutPlaces_bind (atEnd_unplaced rest) fun _ => rfl
  | none =>
      exact withoutPlaces_bind (hread sumLevel none ts) fun (value, rest) =>
        conversion_unplaced value rest

end Statement

/-! ## Lines -/

namespace Token

/-- A scan takes the places from the characters and nothing else. -/
theorem scanFrom_unplaced (units : List String) (skip : Nat) (cs : List Char) (os : List Nat) :
    orError (scanFrom units skip cs (os.map fun _ => 0)) =
      withoutPlaces (List.map unplaced) (orError (scanFrom units skip cs os)) := by
  induction cs generalizing skip os with
  | nil => cases skip <;> rfl
  | cons c cs ih =>
      cases os with
      | nil => cases skip <;> rfl
      | cons o os =>
          cases skip with
          | succ skip => exact ih skip os
          | zero =>
              rw [List.map_cons, scanFrom, scanFrom]
              split
              · exact ih 0 os
              · split
                · next kind lexeme _ =>
                  rw [orError_map, orError_map]
                  exact withoutPlaces_bind (ih (lexeme.length - 1) os) fun ts => rfl
                · rfl

/-- The tokens of two sources with one text are the same, places apart. -/
theorem ofSource_unplaced (units : List String) {marks marks' : List Mark}
    (h : marks.map (·.char) = marks'.map (·.char)) (typed typed' : String) :
    withoutPlaces (List.map unplaced) (orError (ofSource units (.ofMarks marks typed))) =
      withoutPlaces (List.map unplaced) (orError (ofSource units (.ofMarks marks' typed'))) := by
  have hscan (marks : List Mark) (typed : String) :
      withoutPlaces (List.map unplaced) (orError (ofSource units (.ofMarks marks typed))) =
        orError (scanFrom units 0 (marks.map (·.char)) ((marks.map (·.char)).map fun _ => 0)) >>=
          fun ts => .ok (ts ++ [⟨.finish, "", 0⟩]) := by
    have hzero : (marks.map (·.char)).map (fun _ => 0) =
        (marks.map (·.origin)).map fun _ => 0 := by
      rw [List.map_map, List.map_map]
      rfl
    rw [ofSource, Source.marks_ofMarks, orError_map, hzero]
    refine (withoutPlaces_bind (scanFrom_unplaced units 0 _ _) fun ts => ?_).symm
    rw [withoutPlaces, List.map_append]
    rfl
  rw [hscan, hscan, h]

/-- **The tokens of a line are those of the trimmed line**, places apart. -/
theorem ofTyped_trimString (units : List String) (typed : String) :
    withoutPlaces (List.map unplaced) (orError (ofTyped units (Text.trimString typed))) =
      withoutPlaces (List.map unplaced) (orError (ofTyped units typed)) := by
  have hchars := Source.map_char_spelledOut_trimString units typed
  rw [ofTyped, ofTyped, Source.ofTyped, Source.ofTyped]
  cases hmarks : Source.spelledOut units typed with
  | nil =>
      rw [hmarks] at hchars
      rw [List.map_eq_nil_iff.mp hchars]
  | cons m ms =>
      rw [hmarks] at hchars
      cases hmarks' : Source.spelledOut units (Text.trimString typed) with
      | nil =>
          rw [hmarks'] at hchars
          cases hchars
      | cons m' ms' =>
          rw [hmarks'] at hchars
          exact ofSource_unplaced units hchars _ _

end Token

/-- **A line is read as the trimmed line**, places apart. -/
theorem Statement.ofTyped_trimString (units : List String) (limit : Nat) (typed : String) :
    withoutPlaces unplaced (ofTyped units limit (Text.trimString typed)) =
      withoutPlaces unplaced (ofTyped units limit typed) := by
  have hread (typed : String) : withoutPlaces unplaced (ofTyped units limit typed) =
      withoutPlaces (List.map Token.unplaced) (orError (Token.ofTyped units typed)) >>=
        ofTokens units limit :=
    (withoutPlaces_bind rfl (ofTokens_unplaced units limit)).symm
  rw [hread, hread, Token.ofTyped_trimString]

end Reckoner
