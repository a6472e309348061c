import Reckoner.Proofs.Expr.Complete
import Reckoner.Proofs.Expr.Sound
import Reckoner.Proofs.Expr.Unique

/-!
# Reckoner.Proofs.Expr.Grammar -- the reader of statements and the grammar

The reader accepts what the grammar derives, nothing else, and gives the tree of the derivation.
There is one derivation at most, so the grammar says what a list of tokens means.
-/

namespace Reckoner

variable {units : List String} {limit : Nat} {ts : List Token}

/-- Nothing stands behind an end mark. -/
theorem Token.Ended.nil_of_append {front rest : List Token} {stop : Token}
    (h : Token.Ended (front ++ stop :: rest)) (hstop : stop.kind = .finish) : rest = [] := by
  obtain ⟨front', stop', heq, -, hfront⟩ := h
  cases rest with
  | nil => rfl
  | cons t rest =>
      have hmem : stop ∈ front' := by
        have hdrop := congrArg List.dropLast heq
        rw [List.dropLast_concat] at hdrop
        rw [← hdrop, List.dropLast_append_of_ne_nil (by simp)]
        simp
      exact absurd hstop (hfront stop hmem)

namespace Statement

/-! ## What is read is derived -/

theorem atEnd_ok (h : atEnd ts = .ok ()) :
    ∃ stop rest, ts = stop :: rest ∧ stop.kind = .finish := by
  unfold atEnd at h
  split at h
  · cases h
  · next t rest =>
    split at h
    · next hkind => exact ⟨t, rest, rfl, hkind⟩
    · cases h
    · cases h

/-- What a conversion or the end is read from. -/
theorem conversion_ok {value : Expr} {s : Statement} (h : conversion value ts = .ok s) :
    (∃ stop rest, ts = stop :: rest ∧ stop.kind = .finish ∧ s = .expression value) ∨
      ∃ keyword unit stop rest, ts = keyword :: unit :: stop :: rest ∧
        Derivation.IsKeyword keyword ∧ unit.kind = .identifier ∧ stop.kind = .finish ∧
        s = .convert value unit.lexeme keyword.place := by
  unfold conversion at h
  split at h
  · cases h
  next keyword ts =>
  split at h
  · next hkeyword =>
    rw [Bool.and_eq_true, beq_iff_eq, List.contains_iff_mem] at hkeyword
    split at h
    · cases h
    next unit rest =>
    split at h
    · next hunit =>
      obtain ⟨⟨⟩, hend, hresult⟩ := bind_eq_ok.mp h
      cases hresult
      obtain ⟨stop, rest', rfl, hstop⟩ := atEnd_ok hend
      exact .inr ⟨keyword, unit, stop, rest', rfl, hkeyword, by simpa using hunit, hstop, rfl⟩
    · cases h
  · obtain ⟨⟨⟩, hend, hresult⟩ := bind_eq_ok.mp h
    cases hresult
    obtain ⟨stop, rest', heq, hstop⟩ := atEnd_ok hend
    exact .inl ⟨stop, rest', heq, hstop, rfl⟩

/-- What the reader reads at the outermost level is a sum. -/
theorem expression_sum {before : Option Token} {e : Expr} {next : Token} {rest : List Token}
    (h : ExprReader.expression units limit limit sumLevel before ts = .ok (e, next :: rest)) :
    ∃ d : Derivation .sum, ts = d.tokens ++ next :: rest ∧ d.tree = e ∧ d.Fits units next := by
  obtain ⟨consumed, hts, hreading, -⟩ := ExprReader.expression_sound limit sumLevel before ts e
    next rest (fun h => absurd h (by decide)) h
  obtain ⟨d, rfl, htree, hfits⟩ := hreading.sum (by decide)
  exact ⟨d, hts, htree, hfits⟩

theorem derives_of_ofTokens {s : Statement} (hended : Token.Ended ts)
    (h : ofTokens units limit ts = .ok s) :
    ∃ d : Sentence, d.Derives units ts ∧ d.statement = s := by
  obtain ⟨⟨⟩, -, hread⟩ := bind_eq_ok.mp h
  split at hread
  · next target sign rest hassign =>
    obtain ⟨rfl, htarget, hsign⟩ := assignment?_eq_some hassign
    obtain ⟨⟨value, rest'⟩, hvalue, hbehind⟩ := bind_eq_ok.mp hread
    obtain ⟨⟨⟩, hend, hresult⟩ := bind_eq_ok.mp hbehind
    cases hresult
    obtain ⟨stop, tail, rfl, hstop⟩ := atEnd_ok hend
    obtain ⟨d, rfl, rfl, hfits⟩ := expression_sum hvalue
    -- the end mark that the reader has met is the last token of the list
    have hended' : Token.Ended ((target :: sign :: d.tokens) ++ stop :: tail) := hended
    obtain rfl := hended'.nil_of_append hstop
    exact ⟨.assign target sign d stop, ⟨⟨htarget, hsign, hstop, hfits⟩, rfl⟩, rfl⟩
  · obtain ⟨⟨value, rest'⟩, hvalue, hbehind⟩ := bind_eq_ok.mp hread
    rcases conversion_ok hbehind with ⟨stop, tail, rfl, hstop, rfl⟩ |
      ⟨keyword, unit, stop, tail, rfl, hkeyword, hunit, hstop, rfl⟩
    · obtain ⟨d, rfl, rfl, hfits⟩ := expression_sum hvalue
      obtain rfl := hended.nil_of_append hstop
      exact ⟨.expression d stop, ⟨⟨hstop, hfits⟩, rfl⟩, rfl⟩
    · obtain ⟨d, rfl, rfl, hfits⟩ := expression_sum hvalue
      have hended' : Token.Ended ((d.tokens ++ [keyword, unit]) ++ stop :: tail) := by
        rw [List.append_assoc]
        exact hended
      obtain rfl := hended'.nil_of_append hstop
      exact ⟨.convert d keyword unit stop, ⟨⟨hkeyword, hunit, hstop, hfits⟩, rfl⟩, rfl⟩

/-! ## What is derived is read -/

/-- A reader of any level stops at a word that asks for a conversion. -/
theorem stops_keyword (hkeywords : ∀ k ∈ conversionKeywords, k ∉ units) {keyword : Token}
    {level : Nat} (h : Derivation.IsKeyword keyword) : keyword.Stops units level :=
  Token.Follows.stops ⟨by simp [h.1], fun _ => hkeywords _ h.2⟩ (by simp [h.1])

theorem assignment?_eq_none (h : ∀ t ∈ ts, t.kind ≠ .equal) : assignment? ts = none := by
  unfold assignment?
  split
  · next target sign rest =>
    have hsign : sign.kind ≠ .equal := h sign (by simp)
    rw [if_neg (by simp [hsign])]
  · rfl

theorem check_of_matched {front : List Token} (h : Brackets.Matched front)
    (hback : ∀ t ∈ ts, t.kind ≠ .openBracket ∧ t.kind ≠ .closeBracket) :
    Brackets.check (front ++ ts) = .ok () := by
  obtain ⟨last, hlast⟩ := (h.append (.of_forall hback)) 0 0 []
  rw [List.append_nil] at hlast
  rw [Brackets.check, hlast]
  rfl

/-- The reader reads a sum as a whole at the outermost level. -/
theorem expression_of_sum (d : Derivation .sum) (before : Option Token) {next : Token}
    {rest : List Token} (hfits : d.Fits units next) (hnext : next.Stops units sumLevel)
    (hbefore : before.any Token.isOperator = false)
    (hlimit : (d.tokens ++ next :: rest).length ≤ limit) :
    ExprReader.expression units limit limit sumLevel before (d.tokens ++ next :: rest) =
      .ok (d.tree, next :: rest) :=
  ExprReader.Continues.whole (ExprReader.isRead d) (Nat.le_refl _) (fun _ => hbefore) hfits
    (hnext.mono (by decide)) hnext hlimit

theorem ofTokens_eq_conversion {value : Expr} {rest : List Token}
    (hcheck : Brackets.check ts = .ok ()) (hassign : assignment? ts = none)
    (hread : ExprReader.expression units limit limit sumLevel none ts = .ok (value, rest)) :
    ofTokens units limit ts = conversion value rest := by
  rw [ofTokens, hcheck, hassign]
  simp only [hread]
  rfl

theorem ofTokens_eq_assign {target sign stop : Token} {value : Expr} {rest tail : List Token}
    (hcheck : Brackets.check ts = .ok ()) (hassign : assignment? ts = some (target, sign, rest))
    (hread : ExprReader.expression units limit limit sumLevel (some sign) rest =
      .ok (value, stop :: tail)) (hstop : stop.kind = .finish) :
    ofTokens units limit ts = .ok (.assign target.lexeme value target.place) := by
  rw [ofTokens, hcheck, hassign]
  simp only [hread]
  show (atEnd (stop :: tail) >>= fun _ => pure _) = _
  rw [atEnd, hstop]
  rfl

theorem ofTokens_of_derives (hkeywords : ∀ k ∈ conversionKeywords, k ∉ units)
    (hlimit : ts.length ≤ limit) {d : Sentence} (h : d.Derives units ts) :
    ofTokens units limit ts = .ok d.statement := by
  obtain ⟨hd, rfl⟩ := h
  cases d with
  | expression e stop =>
      obtain ⟨hstop, hfits⟩ := hd
      have hcheck : Brackets.check (e.tokens ++ [stop]) = .ok () :=
        check_of_matched hfits.matched (by simp [hstop])
      have hassign : assignment? (e.tokens ++ [stop]) = none :=
        assignment?_eq_none (List.forall_mem_append.mpr
          ⟨fun t ht => (hfits.inside t ht).1, by simp [hstop]⟩)
      have hread := expression_of_sum e none hfits (.of_delimiter (.inr (.inr hstop))) rfl hlimit
      rw [Sentence.tokens, ofTokens_eq_conversion hcheck hassign hread, conversion,
        if_neg (by simp [hstop]), atEnd, hstop]
      rfl
  | assign target sign value stop =>
      obtain ⟨htarget, hsign, hstop, hfits⟩ := hd
      have hcheck : Brackets.check (target :: sign :: value.tokens ++ [stop]) = .ok () :=
        check_of_matched (.cons (by simp [htarget]) (by simp [htarget])
          (.cons (by simp [hsign]) (by simp [hsign]) hfits.matched)) (by simp [hstop])
      have hassign : assignment? (target :: sign :: value.tokens ++ [stop]) =
          some (target, sign, value.tokens ++ [stop]) := by
        simp [assignment?, htarget, hsign]
      have hlength : (value.tokens ++ [stop]).length ≤ limit := by
        rw [Sentence.tokens, List.cons_append, List.cons_append, List.length_cons,
          List.length_cons] at hlimit
        omega
      have hread := expression_of_sum value (some sign) hfits (.of_delimiter (.inr (.inr hstop)))
        (by simp [Token.isOperator, hsign]) hlength
      exact ofTokens_eq_assign hcheck hassign hread hstop
  | convert value keyword unit stop =>
      obtain ⟨hkeyword, hunit, hstop, hfits⟩ := hd
      have hcheck : Brackets.check (value.tokens ++ [keyword, unit, stop]) = .ok () :=
        check_of_matched hfits.matched (by simp [hkeyword.1, hunit, hstop])
      have hassign : assignment? (value.tokens ++ [keyword, unit, stop]) = none :=
        assignment?_eq_none (List.forall_mem_append.mpr
          ⟨fun t ht => (hfits.inside t ht).1, by simp [hkeyword.1, hunit, hstop]⟩)
      have hread := expression_of_sum value none hfits
        (stops_keyword hkeywords hkeyword) rfl hlimit
      rw [Sentence.tokens, ofTokens_eq_conversion hcheck hassign hread, conversion,
        if_pos (by simp [hkeyword.1, hkeyword.2])]
      simp only [hunit, atEnd, hstop]
      rfl

end Statement

/-! ## Derivations of statements are unique -/

namespace Sentence

/-- No equals sign stands in a statement that is no assignment. -/
theorem Fits.isAssign_of_mem {d : Sentence} (h : d.Fits units) {t : Token} (ht : t ∈ d.tokens)
    (hkind : t.kind = .equal) : d.IsAssign := by
  cases d with
  | assign target sign value stop => exact ⟨target, sign, value, stop, rfl⟩
  | expression e stop =>
      obtain ⟨hstop, hfits⟩ := h
      rcases List.mem_append.mp ht with ht | ht
      · exact absurd hkind (hfits.inside t ht).1
      · simp_all
  | convert value keyword unit stop =>
      obtain ⟨hkeyword, hunit, hstop, hfits⟩ := h
      have hkeywordKind := hkeyword.1
      rcases List.mem_append.mp ht with ht | ht
      · exact absurd hkind (hfits.inside t ht).1
      · simp only [List.mem_cons, List.not_mem_nil, or_false] at ht
        rcases ht with rfl | rfl | rfl <;> simp_all

/-- A derivation is that of an assignment just where the tokens start like one. -/
theorem Derives.isAssign_iff {d : Sentence} (h : d.Derives units ts) :
    d.IsAssign ↔ StartsAssign ts := by
  obtain ⟨hd, rfl⟩ := h
  constructor
  · rintro ⟨target, sign, value, stop, rfl⟩
    exact ⟨target, sign, value.tokens ++ [stop], rfl, hd.1, hd.2.1⟩
  · rintro ⟨target, sign, rest, hts, -, hsign⟩
    exact hd.isAssign_of_mem (by rw [hts]; simp) hsign

theorem Derives.unique (hkeywords : ∀ k ∈ conversionKeywords, k ∉ units) {d d' : Sentence}
    (h : d.Derives units ts) (h' : d'.Derives units ts) : d = d' := by
  have hassign : d.IsAssign ↔ d'.IsAssign := h.isAssign_iff.trans h'.isAssign_iff.symm
  obtain ⟨hd, rfl⟩ := h
  obtain ⟨hd', heq⟩ := h'
  cases d with
  | assign target sign value stop =>
      obtain ⟨target', sign', value', stop', rfl⟩ := hassign.mp ⟨_, _, _, _, rfl⟩
      obtain ⟨-, -, hstop, hfits⟩ := hd
      obtain ⟨-, -, hstop', hfits'⟩ := hd'
      obtain ⟨rfl, hbehind⟩ := List.cons.inj heq
      obtain ⟨rfl, hvalue⟩ := List.cons.inj hbehind
      obtain rfl := (Derivation.unique value').sum_eq hfits' hfits
        (.of_delimiter (.inr (.inr hstop'))) (.of_delimiter (.inr (.inr hstop))) hvalue
      obtain ⟨rfl, -⟩ := List.cons.inj (List.append_cancel_left hvalue)
      rfl
  | expression e stop =>
      obtain ⟨hstop, hfits⟩ := hd
      have hends : stop.Stops units sumLevel := .of_delimiter (.inr (.inr hstop))
      cases d' with
      | assign target' sign' value' stop' =>
          obtain ⟨_, _, _, _, habsurd⟩ := hassign.mpr ⟨_, _, _, _, rfl⟩
          cases habsurd
      | expression e' stop' =>
          obtain ⟨hstop', hfits'⟩ := hd'
          obtain rfl := (Derivation.unique e').sum_eq hfits' hfits
            (.of_delimiter (.inr (.inr hstop'))) hends heq
          obtain ⟨rfl, -⟩ := List.cons.inj (List.append_cancel_left heq)
          rfl
      | convert value' keyword' unit' stop' =>
          obtain ⟨hkeyword', -, -, hfits'⟩ := hd'
          obtain rfl := (Derivation.unique value').sum_eq hfits' hfits
            (Statement.stops_keyword hkeywords hkeyword') hends heq
          obtain ⟨rfl, -⟩ := List.cons.inj (List.append_cancel_left heq)
          exact absurd (hstop.symm.trans hkeyword'.1) (by decide)
  | convert value keyword unit stop =>
      obtain ⟨hkeyword, -, -, hfits⟩ := hd
      have hends : keyword.Stops units sumLevel := Statement.stops_keyword hkeywords hkeyword
      cases d' with
      | assign target' sign' value' stop' =>
          obtain ⟨_, _, _, _, habsurd⟩ := hassign.mpr ⟨_, _, _, _, rfl⟩
          cases habsurd
      | expression e' stop' =>
          obtain ⟨hstop', hfits'⟩ := hd'
          obtain rfl := (Derivation.unique e').sum_eq hfits' hfits
            (.of_delimiter (.inr (.inr hstop'))) hends heq
          obtain ⟨rfl, -⟩ := List.cons.inj (List.append_cancel_left heq)
          exact absurd (hstop'.symm.trans hkeyword.1) (by decide)
      | convert value' keyword' unit' stop' =>
          obtain ⟨hkeyword', -, -, hfits'⟩ := hd'
          obtain rfl := (Derivation.unique value').sum_eq hfits' hfits
            (Statement.stops_keyword hkeywords hkeyword') hends heq
          obtain ⟨rfl, hbehind⟩ := List.cons.inj (List.append_cancel_left heq)
          cases hbehind
          rfl

end Sentence

/-! ## The reader and the grammar -/

/-- **The reader accepts its grammar and gives its trees.** A list of tokens that ends with its
only end mark is read, if expressions may lie in one another as deep as there are tokens, just
where the grammar derives it. There is one derivation at most, it is that of an assignment just
where the list starts like one, and the statement that is read is that of the derivation. -/
theorem Statement.ofTokens_iff_derives (units : List String) (limit : Nat) (ts : List Token)
    (hkeywords : ∀ k ∈ conversionKeywords, k ∉ units) (hended : Token.Ended ts)
    (hlimit : ts.length ≤ limit) :
    ((∃ s, ofTokens units limit ts = .ok s) ↔ ∃ d : Sentence, d.Derives units ts) ∧
      (∀ d d' : Sentence, d.Derives units ts → d'.Derives units ts → d = d') ∧
      ∀ d : Sentence, d.Derives units ts →
        (d.IsAssign ↔ Sentence.StartsAssign ts) ∧ ofTokens units limit ts = .ok d.statement := by
  refine ⟨⟨?_, ?_⟩, ?_, ?_⟩
  · rintro ⟨s, hs⟩
    obtain ⟨d, hd, -⟩ := derives_of_ofTokens hended hs
    exact ⟨d, hd⟩
  · rintro ⟨d, hd⟩
    exact ⟨d.statement, ofTokens_of_derives hkeywords hlimit hd⟩
  · intro d d' hd hd'
    exact hd.unique hkeywords hd'
  · intro d hd
    exact ⟨hd.isAssign_iff, ofTokens_of_derives hkeywords hlimit hd⟩

/-- Half of it added to two meters, under a name: the percentage behind the sign of the sum is one
of what stands in front. -/
theorem Statement.ofTokens_of_share :
    ofTokens ["m"] 8 [⟨.identifier, "x", 0⟩, ⟨.equal, "=", 2⟩, ⟨.number, "2", 4⟩,
      ⟨.identifier, "m", 6⟩, ⟨.operator, "+", 8⟩, ⟨.number, "50", 10⟩, ⟨.operator, "%", 12⟩,
      ⟨.finish, "", 13⟩] =
    .ok (.assign "x" (.binary .percentAdd (.quantity (.number 2 4) "m" 4) (.number 50 10) 8) 0) := by
  let lead (p : Derivation .primary) (signs : List Token) {lead : Bool} :
      Derivation (.product lead) := .factor (.unsigned (.unraised (.percents p signs)))
  let d : Sentence := .assign ⟨.identifier, "x", 0⟩ ⟨.equal, "=", 2⟩
    (.adding (.single (lead (.number ⟨.number, "2", 4⟩ 2 (some ⟨.identifier, "m", 6⟩)) []))
      ⟨.operator, "+", 8⟩
      (lead (.number ⟨.number, "50", 10⟩ 50 none) [⟨.operator, "%", 12⟩]))
    ⟨.finish, "", 13⟩
  have hunit : Derivation.UnitFits ["m"] (some ⟨.identifier, "m", 6⟩) := by
    rintro _ ⟨⟩
    decide
  have hd : d.Derives ["m"] d.tokens := by
    refine ⟨⟨rfl, rfl, rfl, .inl rfl, ⟨by simp, rfl, by decide, hunit⟩,
      ⟨by decide, rfl, by decide, ?_⟩⟩, rfl⟩
    rintro _ ⟨⟩
  have hended : Token.Ended d.tokens :=
    ⟨d.tokens.dropLast, ⟨.finish, "", 13⟩, rfl, rfl, by decide⟩
  exact ((ofTokens_iff_derives ["m"] 8 d.tokens (by decide) hended (by decide)).2.2 d hd).2

end Reckoner
