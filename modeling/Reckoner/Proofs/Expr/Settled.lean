import Reckoner.Proofs.Expr.Part

/-!
# Reckoner.Proofs.Expr.Settled -- where the reader of expressions stops

The reader of expressions is settled on all lists of tokens with an end mark. A reader of one depth
is put together from parts that read with the reader below, so the induction is on the number of
tokens, of which the reader below has fewer in front of it.

What closes the parts is a closing bracket where one is open, and else nothing; where an operand
has to start, a number is put.
-/

namespace Reckoner.ExprReader

variable {units : List String} {used level n : Nat} {before : Option Token} {t : Token}
  {ts rest : List Token} {inner : ExprReader} {room : Nat} {e left : Expr}

/-! ## Units and percent signs -/

theorem withUnit_delimiter (units : List String) (place : Nat) (amount : Expr)
    (ht : t.IsDelimiter) : withUnit units place amount (t :: rest) = (amount, t :: rest) := by
  rcases ht with ht | ht | ht <;> simp [withUnit, ht]

theorem withPercents_delimiter (e : Expr) (ht : t.IsDelimiter) :
    withPercents e (t :: rest) = (e, t :: rest) := by
  simp [withPercents, (ht.stops [] 0).notPercent]

theorem withUnit_settled (units : List String) (place : Nat) (amount : Expr)
    (hend : Token.HasEnd ts) :
    Settled units used (fun _ _ ts => .ok (withUnit units place amount ts)) before ts := by
  cases ts with
  | nil => exact absurd rfl hend.ne_nil
  | cons t ts =>
      by_cases hunit : t.kind = .identifier ∧ t.lexeme ∈ units
      · refine Settled.cons (.done (.quantity amount t.lexeme place) (hend.tail ?_))
          fun inner room ts => ?_
        · simp [hunit.1]
        · simp [withUnit, hunit]
      · refine .over amount hend ?_
        rintro u (rfl | hu) inner room rest -
        · simp [withUnit, hunit]
        · exact congrArg Except.ok (withUnit_delimiter units place amount hu)

theorem withPercents_settled (e : Expr) (hend : Token.HasEnd ts) :
    Settled units used (fun _ _ ts => .ok (withPercents e ts)) before ts := by
  induction ts generalizing e used before with
  | nil => exact absurd rfl hend.ne_nil
  | cons t ts ih =>
      cases hsign : t.isSign "%" with
      | true =>
          have htail := hend.tail (by simp [Token.kind_of_isSign hsign])
          refine Settled.cons (ih (.unary .percent e t.place) htail) fun inner room ts => ?_
          rw [withPercents, if_pos hsign]
      | false =>
          refine .over e hend ?_
          rintro u (rfl | hu) inner room rest -
          · simp [withPercents, hsign]
          · exact congrArg Except.ok (withPercents_delimiter e hu)

theorem withPercents_closes (e : Expr) :
    Closes units used (fun _ _ ts => .ok (withPercents e ts)) :=
  ⟨[], e, by simp, fun _ ht _ _ _ _ => congrArg Except.ok (withPercents_delimiter e ht)⟩

/-! ## Where no operand starts -/

theorem missing_eq (before : Option Token) (t : Token) :
    ∃ f, Blames before t f ∧ ∀ α : Type, (missing before t : Except Failure α) = .error f := by
  unfold missing
  split
  · next b =>
    split
    · next hb => exact ⟨_, .last rfl hb, fun _ => rfl⟩
    split
    · exact ⟨_, .here .emptyBrackets (.inl rfl), fun _ => rfl⟩
    · exact ⟨_, .here .missingOperand (.inl rfl), fun _ => rfl⟩
  · exact ⟨_, .here .missingOperand (.inl rfl), fun _ => rfl⟩

theorem strayOperator_eq (before : Option Token) (t : Token) :
    ∃ f, Blames before t f ∧
      ∀ α : Type, (strayOperator before t : Except Failure α) = .error f := by
  unfold strayOperator
  split
  · next b =>
    split
    · exact ⟨_, .here (.doubledOperator (b.lexeme ++ t.lexeme)) (.inr rfl), fun _ => rfl⟩
    · exact ⟨_, .here (.strayOperator t.lexeme) (.inl rfl), fun _ => rfl⟩
  · exact ⟨_, .here (.strayOperator t.lexeme) (.inl rfl), fun _ => rfl⟩

/-! ## What lies inside -/

/-- What the reader of expressions does at one depth. -/
def step (units : List String) (level : Nat) (before : Option Token) : Part Expr :=
  Part.andThen (fun inner _ ts => operand inner units before ts)
    fun left inner _ ts => operations inner level ts.length left ts

/-- Whether the reader is settled on all lists of at most `n` tokens that have an end mark. -/
def IsSettled (units : List String) (n : Nat) : Prop :=
  ∀ (level : Nat) (before : Option Token) (ts : List Token), Token.HasEnd ts → ts.length ≤ n →
    Settled units 0 (step units level before) before ts

/-- The part that reads an expression with the reader for what lies inside. -/
def inside (level : Nat) (before : Option Token) : Part Expr :=
  fun inner _ ts => inner level before ts

/-- The reader for what lies inside has depth enough to be one of the next depth. -/
theorem inside_eq_step (hample : Ample units (used + 1) inner room (t :: ts)) :
    ∃ inner', Ample units 0 inner' room (t :: ts) ∧
      inside level before inner room (t :: ts) = step units level before inner' room (t :: ts) := by
  obtain ⟨⟨limit, depth, rfl, hdepth⟩, hroom⟩ := hample
  have hlength : (t :: ts).length = ts.length + 1 := rfl
  obtain ⟨depth, rfl⟩ : ∃ d, depth = d + 1 := ⟨depth - 1, by omega⟩
  exact ⟨expression units limit depth, ⟨⟨limit, depth, rfl, by omega⟩, hroom⟩, rfl⟩

theorem inside_settled (hinner : IsSettled units n) (level : Nat) (before : Option Token)
    (hend : Token.HasEnd ts) (hlength : ts.length ≤ n) :
    Settled units (used + 1) (inside level before) before ts := by
  refine Settled.behind [] (hinner level before ts hend hlength) fun inner room ts hne hample => ?_
  cases ts with
  | nil => exact absurd rfl hne
  | cons t ts =>
      obtain ⟨inner', hample', heq⟩ := inside_eq_step hample
      exact ⟨inner', room, hample', heq⟩

theorem inside_needs (units : List String) (used level : Nat) (before : Option Token) :
    Needs units (used + 1) (inside level before) := by
  let stop : Token := ⟨.finish, "", 0⟩
  obtain ⟨f, -, hmissing⟩ := missing_eq before stop
  refine ⟨stop, f, .inr (.inr rfl), fun inner room rest hample => ?_⟩
  obtain ⟨inner', -, heq⟩ := inside_eq_step hample
  rw [List.nil_append, heq, step, Part.andThen, operand]
  simp only [stop, hmissing]
  rfl

/-! ## Calls -/

/-- A closing bracket. -/
def closingBracket : Token := ⟨.closeBracket, ")", 0⟩

theorem isDelimiter_closingBracket : ∀ t ∈ [closingBracket].head?, t.IsDelimiter := by
  rintro _ ⟨⟩
  exact .inl rfl

/-- What stands behind an argument of a call. -/
def behindArgument (arg : Expr) : Part (List Expr) := fun inner room ts =>
  match ts with
  | [] => ranOut
  | t :: rest =>
    match t.kind with
    | .closeBracket => .ok ([arg], rest)
    | .comma => arguments inner (room - 1) t rest >>= fun p => .ok (arg :: p.1, p.2)
    | _ => stray t

theorem behindArgument_closes (arg : Expr) : Closes units used (behindArgument arg) :=
  ⟨[closingBracket], [arg], isDelimiter_closingBracket, fun _ _ _ _ _ _ => rfl⟩

theorem arguments_eq {opening : Token} (hample : Ample units used inner room (t :: ts)) :
    arguments inner room opening (t :: ts) =
      (inside sumLevel (some opening)).andThen behindArgument inner room (t :: ts) := by
  obtain ⟨room, rfl⟩ := hample.pos
  rfl

theorem arguments_settled (hinner : IsSettled units n) (opening : Token)
    (hend : Token.HasEnd ts) (hlength : ts.length ≤ n) :
    Settled units (used + 1) (fun inner room ts => arguments inner room opening ts) (some opening)
      ts := by
  -- behind a comma there are fewer tokens
  induction hm : ts.length using Nat.strongRecOn generalizing ts opening used with
  | _ m ih =>
  subst hm
  refine Settled.congr (Settled.andThen (inside_settled hinner sumLevel _ hend hlength)
    (fun arg t rest hrest hle => ?_) behindArgument_closes) fun inner room t ts => arguments_eq
  rw [List.length_cons] at hle
  cases ht : t.kind with
  | closeBracket =>
      refine Settled.cons (.done [arg] (hrest.tail (by simp [ht]))) fun inner room ts => ?_
      simp only [behindArgument, ht]
  | comma =>
      have htail := hrest.tail (by simp [ht])
      refine Settled.cons (Settled.andThen (ih rest.length (by omega) t htail (by omega) rfl)
        (fun args t rest hrest _ => .done (arg :: args) hrest) fun args => .done (arg :: args))
        fun inner room ts => ?_
      simp only [behindArgument, ht]
      rfl
  | _ =>
      refine .halted (.here (.stray t.lexeme) (.inl rfl)) (fun inner room rest => ?_)
        (behindArgument_closes arg).extends
      simp only [behindArgument, ht]
      rfl

theorem arguments_needs (units : List String) (used : Nat) (opening : Token) :
    Needs units (used + 1) (fun inner room ts => arguments inner room opening ts) := by
  obtain ⟨stop, f, hstop, hfails⟩ :=
    (inside_needs units used sumLevel (some opening)).andThen behindArgument
  exact ⟨stop, f, hstop, fun inner room rest hample =>
    (arguments_eq hample).trans (hfails inner room rest hample)⟩

theorem call_extends (function opening : Token) :
    Extends units used (fun inner _ ts => call inner function opening ts) [] :=
  ⟨[closingBracket], .call function.lexeme [] function.place, fun _ _ _ _ _ _ => rfl⟩

theorem call_settled (hinner : IsSettled units n) (function opening : Token)
    (hend : Token.HasEnd ts) (hlength : ts.length ≤ n) :
    Settled units (used + 1) (fun inner _ ts => call inner function opening ts) (some opening)
      ts := by
  cases ts with
  | nil => exact absurd rfl hend.ne_nil
  | cons t ts =>
  by_cases ht : t.kind = .closeBracket
  · refine Settled.cons (.done (.call function.lexeme [] function.place)
      (hend.tail (by simp [ht]))) fun inner room ts => ?_
    rw [call, if_pos (by simp [ht])]
    rfl
  · refine Settled.of_head (Settled.andThen (arguments_settled hinner opening hend hlength).loop
        (fun args t rest hrest _ => .done (Expr.call function.lexeme args function.place) hrest)
        fun args => .done _) (fun inner room ts => ?_)
      ((arguments_needs units used opening).loop.andThen _) (call_extends function opening)
    rw [call, if_neg (by simpa using ht)]
    rfl

/-! ## Names -/

/-- Whether a name is that of a function, and the token behind it starts its argument. -/
def appliesTo (name t : Token) : Bool := Builtin.isName name.lexeme && startsArgument t

theorem named_reads {name : Token} (ht : t.kind ≠ .openBracket)
    (happlies : appliesTo name t = false) :
    Reads units used (fun inner _ ts => named inner name ts) [] (.name name.lexeme name.place)
      t := by
  intro inner room rest _
  rw [appliesTo] at happlies
  show named inner name (t :: rest) = _
  rw [named, if_neg (by simpa using ht), if_neg (by simp [happlies])]
  rfl

theorem named_reads_delimiter (name : Token) (ht : t.IsDelimiter) :
    Reads units used (fun inner _ ts => named inner name ts) [] (.name name.lexeme name.place)
      t := by
  refine named_reads ?_ ?_ <;>
    rcases ht with ht | ht | ht <;> simp [ht, appliesTo, startsArgument, Token.isSign_eq_false]

theorem named_closes (name : Token) :
    Closes units used (fun inner _ ts => named inner name ts) :=
  ⟨[], _, by simp, fun _ => named_reads_delimiter name⟩

theorem named_settled (hinner : IsSettled units n) (name : Token)
    (hend : Token.HasEnd ts) (hlength : ts.length ≤ n) :
    Settled units (used + 1) (fun inner _ ts => named inner name ts) (some name) ts := by
  cases ts with
  | nil => exact absurd rfl hend.ne_nil
  | cons t ts =>
  by_cases ht : t.kind = .openBracket
  · rw [List.length_cons] at hlength
    refine Settled.cons (call_settled hinner name t (hend.tail (by simp [ht])) (by omega))
      fun inner room ts => ?_
    rw [named, if_pos (by simp [ht])]
  cases happlies : appliesTo name t with
  | true =>
      refine Settled.of_head (Settled.andThen (inside_settled hinner signLevel _ hend hlength)
          (fun arg t rest hrest _ => .done (Expr.call name.lexeme [arg] name.place) hrest)
          fun arg => .done _) (fun inner room ts => ?_)
        ((inside_needs units used signLevel (some name)).andThen _) (named_closes name).extends
      rw [named, if_neg (by simpa using ht), ← appliesTo, if_pos happlies]
      rfl
  | false =>
      refine .over (.name name.lexeme name.place) hend ?_
      rintro u (rfl | hu)
      · exact named_reads ht happlies
      · exact named_reads_delimiter name hu

/-! ## Operands -/

/-- What stands behind an expression in brackets. -/
def behindBracketed (units : List String) (opening : Token) (e : Expr) : Part Expr :=
  fun _ _ ts =>
    match ts with
    | [] => ranOut
    | t :: rest =>
      if t.kind == .closeBracket then .ok (withUnit units opening.place e rest) else stray t

theorem behindBracketed_closes (opening : Token) (e : Expr) :
    Closes units used (behindBracketed units opening e) :=
  ⟨[closingBracket], e, isDelimiter_closingBracket, fun _ ht _ _ _ _ =>
    congrArg Except.ok (withUnit_delimiter units opening.place e ht)⟩

theorem behindBracketed_settled (opening : Token) (e : Expr) (hend : Token.HasEnd ts) :
    Settled units used (behindBracketed units opening e) before ts := by
  cases ts with
  | nil => exact absurd rfl hend.ne_nil
  | cons t ts =>
  by_cases ht : t.kind = .closeBracket
  · refine Settled.cons (withUnit_settled units opening.place e (hend.tail (by simp [ht])))
      fun inner room ts => ?_
    simp only [behindBracketed, ht]
    rfl
  · refine .halted (.here (.stray t.lexeme) (.inl rfl)) (fun inner room rest => ?_)
      (behindBracketed_closes opening e).extends
    simp only [behindBracketed]
    rw [if_neg (by simpa using ht)]
    rfl

/-- A number is an operand. -/
theorem operand_extends (before : Option Token) :
    Extends units used (fun inner _ ts => operand inner units before ts) [] := by
  obtain ⟨x, hx⟩ : ∃ x, Number.numeral? "0" = some x := ⟨_, rfl⟩
  refine ⟨[⟨.number, "0", 0⟩], .number x 0, fun t ht inner room rest _ => ?_⟩
  simp [operand, primary, hx, withUnit_delimiter _ _ _ ht, withPercents_delimiter _ ht]
  rfl

/-- Percent signs behind a part that reads an operand. -/
theorem Settled.percents {F : Part Expr} (h : Settled units used F before ts) :
    Settled units used (F.andThen fun e _ _ ts => .ok (withPercents e ts)) before ts :=
  h.andThen (fun e _ _ hrest _ => withPercents_settled e hrest) withPercents_closes

theorem operand_settled (hinner : IsSettled units n) (hend : Token.HasEnd ts)
    (hlength : ts.length ≤ n + 1) :
    Settled units used (fun inner _ ts => operand inner units before ts) before ts := by
  cases ts with
  | nil => exact absurd rfl hend.ne_nil
  | cons t ts =>
  replace hlength : ts.length ≤ n := Nat.le_of_succ_le_succ hlength
  have hmissing (h : ∀ inner ts, operand inner units before (t :: ts) = missing before t) :
      Settled units used (fun inner _ ts => operand inner units before ts) before (t :: ts) := by
    obtain ⟨f, hblames, hf⟩ := missing_eq before t
    exact .halted hblames (fun inner _ rest => (h inner rest).trans (hf _)) (operand_extends before)
  cases ht : t.kind with
  | finish => exact hmissing fun inner ts => by rw [operand, ht]
  | closeBracket => exact hmissing fun inner ts => by rw [operand, ht]
  | comma => exact hmissing fun inner ts => by rw [operand, ht]
  | equal =>
      refine .halted (.here (.stray t.lexeme) (.inl rfl)) (fun inner room rest => ?_)
        (operand_extends before)
      rw [operand, ht]
      simp only [primary, ht]
      rfl
  | operator =>
      cases hsign : signOf? before t with
      | some sign =>
          have htail := hend.tail (by simp [ht])
          refine Settled.cons (Settled.andThen (inside_settled hinner signLevel _ htail hlength)
            (fun e _ _ hrest _ => .done (Expr.unary sign e t.place) hrest) fun e => .done _)
            fun inner room ts => ?_
          rw [operand, ht]
          simp only [hsign]
          rfl
      | none =>
          obtain ⟨f, hblames, hf⟩ := strayOperator_eq before t
          refine .halted hblames (fun inner room rest => ?_) (operand_extends before)
          rw [operand, ht]
          simp only [hsign]
          exact hf _
  | number =>
      cases hx : Number.numeral? t.lexeme with
      | none =>
          refine .faults (by simp) (.notANumeral t.lexeme) fun inner room _ => ?_
          rw [operand, ht]
          simp only [primary, ht, hx]
          rfl
      | some x =>
          refine Settled.cons (withUnit_settled units t.place (.number x t.place)
            (hend.tail (by simp [ht]))).percents fun inner room ts => ?_
          rw [operand, ht]
          simp only [primary, ht, hx]
          rfl
  | openBracket =>
      have htail := hend.tail (by simp [ht])
      refine Settled.cons (Settled.andThen (inside_settled hinner sumLevel _ htail hlength)
        (fun e _ _ hrest _ => behindBracketed_settled t e hrest)
        (behindBracketed_closes t)).percents fun inner room ts => ?_
      rw [operand, ht]
      simp only [primary, ht]
      rfl
  | identifier =>
      refine Settled.cons (named_settled hinner t (hend.tail (by simp [ht])) hlength).percents
        fun inner room ts => ?_
      rw [operand, ht]
      simp only [primary, ht]
      rfl

/-! ## Operations -/

/-- The reader of a level leaves an operation that is too loose to the reader outside. -/
theorem operations_reads (left : Expr)
    (hloose : ∀ op, BinaryOp.ofToken? t = some op → op.level < level) :
    Reads units used (fun inner room ts => operations inner level room left ts) [] left t := by
  intro inner room rest hample
  obtain ⟨room, rfl⟩ := hample.pos
  show operations inner level (room + 1) left (t :: rest) = _
  rw [operations]
  split
  · next op hop =>
    rw [if_pos (hloose op hop)]
    rfl
  · rfl

theorem operations_reads_delimiter (left : Expr) (ht : t.IsDelimiter) :
    Reads units used (fun inner room ts => operations inner level room left ts) [] left t :=
  operations_reads left (ht.stops units level).looser

theorem operations_closes (left : Expr) :
    Closes units used (fun inner room ts => operations inner level room left ts) :=
  ⟨[], left, by simp, fun _ => operations_reads_delimiter left⟩

theorem operations_settled (hinner : IsSettled units n) (left : Expr)
    (hend : Token.HasEnd ts) (hlength : ts.length ≤ n + 1) :
    Settled units used (fun inner room ts => operations inner level room left ts) before ts := by
  -- behind the sign of an operation there are fewer tokens
  induction hm : ts.length using Nat.strongRecOn generalizing ts used before left with
  | _ m ih =>
  subst hm
  cases ts with
  | nil => exact absurd rfl hend.ne_nil
  | cons t ts =>
  by_cases hgoes : ∃ op, BinaryOp.ofToken? t = some op ∧ level ≤ op.level
  · obtain ⟨op, hop, hlevel⟩ := hgoes
    have htail := hend.tail (by simp [BinaryOp.kind_of_ofToken? hop])
    rw [List.length_cons] at hlength ih
    refine Settled.cons (Settled.andThen (inside_settled hinner op.rightLevel _ htail (by omega))
      (fun right u rest hrest hle => ih (u :: rest).length (by omega)
        (op.apply left right t.place) hrest (by omega) rfl) fun right => operations_closes _)
      fun inner room ts => ?_
    rw [operations, hop]
    simp only
    rw [if_neg (Nat.not_lt.mpr hlevel)]
    rfl
  · have hloose : ∀ op, BinaryOp.ofToken? t = some op → op.level < level :=
      fun op hop => Nat.lt_of_not_le fun hle => hgoes ⟨op, hop, hle⟩
    refine .over left hend ?_
    rintro u (rfl | hu)
    · exact operations_reads left hloose
    · exact operations_reads_delimiter left hu

/-! ## Expressions -/

/-- **The reader of expressions is settled.** -/
theorem step_settled (units : List String) (n : Nat) : IsSettled units n := by
  induction n with
  | zero =>
      intro level before ts hend hlength
      exact absurd (List.eq_nil_of_length_eq_zero (Nat.le_zero.mp hlength)) hend.ne_nil
  | succ n ih =>
      intro level before ts hend hlength
      refine Settled.andThen (operand_settled ih hend hlength)
        (fun left t rest hrest hle => ?_) fun left => ?_
      · exact (operations_settled ih left hrest (by omega)).loop
      · exact (operations_closes left).loop

end Reckoner.ExprReader
