import Reckoner.Proofs.Expr.Brackets
import Reckoner.Proofs.Expr.Limit
import Reckoner.Proofs.Expr.Settled
import Reckoner.Proofs.Expr.Single
import Reckoner.Proofs.Expr.Steady

/-!
# Reckoner.Proofs.Expr.Diagnosis -- where errors of arrangement point

Tokens that do not go together are reported at the first one that no statement goes on with. An
operator in front of it that lacks an operand is reported in its place. Brackets are another
matter: they are checked before anything else is read, and reported wherever they do not match.

The reader of statements reads an expression, in front of which there may be a name and an equals
sign (`Lead`), and then a conversion or the end. Where the reader of expressions stops is known
(`ExprReader.step_settled`), and what stands behind an expression is looked at here (`Halts`).
-/

namespace Reckoner.Statement

open ExprReader (Blames Extends Fails Reads inside inside_settled inside_needs step_settled)

variable {units : List String} {limit : Nat} {ts us front pre c m more rest : List Token}
  {before : Option Token} {t next : Token} {e : Expr} {s : Statement} {f : Failure}
  {behind : Expr → List Token → Except Failure Statement}

/-! ## Lists that can be continued -/

/-- Whether some list that starts with `front` is read, for any depth that is enough. -/
def Continuable (units : List String) (front : List Token) : Prop :=
  ∃ rest, Token.Ended (front ++ rest) ∧ ∀ limit, (front ++ rest).length ≤ limit →
    ∃ s, ofTokens units limit (front ++ rest) = .ok s

/-- Whether no list that starts with `front` is read, for whatever depth. -/
def Blocked (units : List String) (front : List Token) : Prop :=
  ∀ rest limit s, ofTokens units limit (front ++ rest) ≠ .ok s

/-- A list that is not read with depth enough is not read with less. -/
theorem Blocked.of_error
    (h : ∀ rest limit, (front ++ rest).length ≤ limit →
      ∃ f, ofTokens units limit (front ++ rest) = .error f) :
    Blocked units front := by
  intro rest limit s hok
  obtain ⟨f, hf⟩ := h rest (max limit (front ++ rest).length) (Nat.le_max_right ..)
  rcases ofTokens_cut (Nat.le_max_left limit (front ++ rest).length) units (front ++ rest) with
    hcut | hcut
  · cases hok.symm.trans hcut
  · cases (hok.symm.trans hcut).trans hf

/-! ## What stands behind an expression -/

/-- An end mark. -/
def endMark : Token := ⟨.finish, "", 0⟩

/-- Reading what stands behind an expression stops at the token `t` behind `front`, whatever
follows. With some names instead it would have come to the end. -/
structure Halts (behind : List Token → Except Failure Statement) (front : List Token) (t : Token)
    (f : Failure) : Prop where
  blames : Blames none t f
  fails : ∀ rest, behind (front ++ t :: rest) = .error f
  finishes : ∃ more s, (∀ u ∈ front ++ more, u.kind = .identifier) ∧ (front = [] → more = []) ∧
    behind (front ++ more ++ [endMark]) = .ok s

/-- A token is the end of a statement, or nothing helps behind it. -/
theorem atEnd_cases (t : Token) :
    (∀ ts, atEnd (t :: ts) = .ok ()) ∨
      ∃ f, Blames none t f ∧ ∀ ts, atEnd (t :: ts) = .error f := by
  cases ht : t.kind with
  | finish =>
      refine .inl fun ts => ?_
      rw [atEnd, ht]
      rfl
  | equal =>
      refine .inr ⟨_, .here .manyTargets (.inl rfl), fun ts => ?_⟩
      rw [atEnd, ht]
      rfl
  | _ =>
      refine .inr ⟨_, .here (.stray t.lexeme) (.inl rfl), fun ts => ?_⟩
      simp only [atEnd, ht]
      rfl

theorem atEnd_halts (hend : Token.HasEnd ts) (s : Statement) :
    (∃ s', (atEnd ts >>= fun _ => .ok s) = .ok s') ∨ ∃ t rest f, ts = t :: rest ∧
      Halts (fun ts => atEnd ts >>= fun _ => .ok s) [] t f := by
  cases ts with
  | nil => exact absurd rfl hend.ne_nil
  | cons t ts =>
      rcases atEnd_cases t with h | ⟨f, hblames, hfails⟩
      · exact .inl ⟨s, by rw [h]; rfl⟩
      · refine .inr ⟨t, ts, f, rfl, hblames, fun rest => ?_, [], s, by simp, fun _ => rfl, rfl⟩
        show (atEnd (t :: rest) >>= fun _ => _) = _
        rw [hfails]
        rfl

section Conversion

variable {keyword unit : Token}

theorem conversion_plain (ht : ¬ Derivation.IsKeyword t) (e : Expr) (ts : List Token) :
    conversion e (t :: ts) = atEnd (t :: ts) >>= fun _ => .ok (.expression e) := by
  have hplain : ¬ (t.kind == .identifier && conversionKeywords.contains t.lexeme) = true := by
    rwa [Bool.and_eq_true, beq_iff_eq, List.contains_iff_mem]
  rw [conversion.eq_def]
  simp only
  rw [if_neg hplain]
  rfl

theorem conversion_unit (hkeyword : Derivation.IsKeyword keyword) (hunit : unit.kind = .identifier)
    (e : Expr) (ts : List Token) :
    conversion e (keyword :: unit :: ts) =
      atEnd ts >>= fun _ => .ok (.convert e unit.lexeme keyword.place) := by
  simp only [conversion, hkeyword.1, hunit, List.contains_iff_mem.mpr hkeyword.2]
  rfl

theorem conversion_missing (hkeyword : Derivation.IsKeyword keyword)
    (hunit : unit.kind ≠ .identifier) (e : Expr) (ts : List Token) :
    conversion e (keyword :: unit :: ts) =
      ExprReader.misplaced (.missingUnit keyword.lexeme) unit := by
  simp [conversion, hkeyword.1, hkeyword.2, hunit]

theorem conversion_halts (hend : Token.HasEnd ts) (e : Expr) :
    (∃ s, conversion e ts = .ok s) ∨ ∃ front t rest f, ts = front ++ t :: rest ∧
      Halts (conversion e) front t f := by
  cases ts with
  | nil => exact absurd rfl hend.ne_nil
  | cons keyword ts =>
  by_cases hkeyword : Derivation.IsKeyword keyword
  · have htail := hend.tail (by simp [hkeyword.1])
    cases ts with
    | nil => exact absurd rfl htail.ne_nil
    | cons unit ts =>
    by_cases hunit : unit.kind = .identifier
    · rcases atEnd_halts (htail.tail (by simp [hunit]))
        (.convert e unit.lexeme keyword.place) with ⟨s, hs⟩ | ⟨t, rest, f, rfl, h⟩
      · exact .inl ⟨s, by rw [conversion_unit hkeyword hunit, hs]⟩
      · refine .inr ⟨[keyword, unit], t, rest, f, rfl, h.blames, fun rest => ?_, [],
          .convert e unit.lexeme keyword.place, by simp [hkeyword.1, hunit], by simp, ?_⟩
        · exact (conversion_unit hkeyword hunit e _).trans (h.fails rest)
        · exact (conversion_unit hkeyword hunit e _).trans rfl
    · -- any name would do as the unit
      let name : Token := ⟨.identifier, "", 0⟩
      have hname : name.kind = .identifier := rfl
      refine .inr ⟨[keyword], unit, ts, _, rfl, .here (.missingUnit keyword.lexeme) (.inl rfl),
        fun rest => conversion_missing hkeyword hunit e rest, [name],
        .convert e "" keyword.place, by simp [hkeyword.1, hname], by simp, ?_⟩
      exact (conversion_unit hkeyword hname e _).trans rfl
  · rcases atEnd_halts hend (.expression e) with ⟨s, hs⟩ | ⟨t, rest, f, hts, h⟩
    · exact .inl ⟨s, by rw [conversion_plain hkeyword, hs]⟩
    · cases hts
      refine .inr ⟨[], keyword, ts, f, rfl, h.blames, fun rest => ?_, [], .expression e, by simp,
        fun _ => rfl, rfl⟩
      exact (conversion_plain hkeyword e rest).trans (h.fails rest)

end Conversion

/-! ## What stands in front of it -/

/-- How a statement starts: what stands in front of its expression, the token that the reader of
expressions looks back at, and what is read behind. -/
inductive Lead : (pre : List Token) → (before : Option Token) →
    (behind : Expr → List Token → Except Failure Statement) → Prop
  | plain : Lead [] none conversion
  | assigning {target sign : Token} (htarget : target.kind = .identifier)
    (hsign : sign.kind = .equal) :
    Lead [target, sign] (some sign)
      fun e ts => atEnd ts >>= fun _ => .ok (.assign target.lexeme e target.place)

/-- Whether tokens do not start like an assignment, unless what is in front of them does. -/
def Lead.Fits (pre us : List Token) : Prop := pre = [] → assignment? us = none

theorem exists_lead (ts : List Token) :
    ∃ pre before behind us, Lead pre before behind ∧ Lead.Fits pre us ∧ ts = pre ++ us := by
  cases hassign : assignment? ts with
  | none => exact ⟨[], none, conversion, ts, .plain, fun _ => hassign, rfl⟩
  | some parts =>
      obtain ⟨target, sign, rest⟩ := parts
      obtain ⟨rfl, htarget, hsign⟩ := assignment?_eq_some hassign
      exact ⟨_, _, _, rest, .assigning htarget hsign, by rintro ⟨⟩, rfl⟩

/-- Whether tokens start like an assignment is known from the first two. -/
theorem Lead.Fits.of_append (h : Lead.Fits pre (front ++ t :: us))
    (ht : pre = [] → front = [] → t.kind ≠ .identifier) (rest : List Token) :
    Lead.Fits pre (front ++ t :: rest) := by
  intro hpre
  have hnone := h hpre
  cases front with
  | nil =>
      cases rest with
      | nil => rfl
      | cons u rest => simp [assignment?, ht hpre rfl]
  | cons a front =>
      cases front with
      | nil => simpa [assignment?] using hnone
      | cons b front => simpa [assignment?] using hnone

namespace Lead

theorem before_eq (h : Lead pre before behind) : before = pre.getLast? := by
  cases h <;> rfl

theorem kinds (h : Lead pre before behind) :
    ∀ t ∈ pre, t.kind = .identifier ∨ t.kind = .equal := by
  cases h with
  | plain => simp
  | assigning htarget hsign => simp [htarget, hsign]

theorem hasEnd (h : Lead pre before behind) (hend : Token.HasEnd (pre ++ us)) :
    Token.HasEnd us := by
  obtain ⟨u, hu, hfinish⟩ := hend
  rcases List.mem_append.mp hu with hu | hu
  · rcases h.kinds u hu with hkind | hkind <;> simp [hkind] at hfinish
  · exact ⟨u, hu, hfinish⟩

theorem ofTokens_eq (h : Lead pre before behind) (hfits : Fits pre us) :
    ofTokens units limit (pre ++ us) = orError (Brackets.check (pre ++ us)) >>= fun _ =>
      ExprReader.expression units limit limit sumLevel before us >>= fun p => behind p.1 p.2 := by
  cases h with
  | plain => rw [List.nil_append, ofTokens, hfits rfl]
  | @assigning target sign htarget hsign =>
      have hassign : assignment? ([target, sign] ++ us) = some (target, sign, us) := by
        simp [assignment?, htarget, hsign]
      rw [ofTokens, hassign]
      rfl

theorem ends (h : Lead pre before behind) (e : Expr) : ∃ s, behind e [endMark] = .ok s := by
  cases h <;> exact ⟨_, rfl⟩

theorem halts (h : Lead pre before behind) (hend : Token.HasEnd ts) (e : Expr) :
    (∃ s, behind e ts = .ok s) ∨ ∃ front t rest f, ts = front ++ t :: rest ∧
      Halts (behind e) front t f := by
  cases h with
  | plain => exact conversion_halts hend e
  | assigning htarget hsign =>
      rcases atEnd_halts hend _ with hs | ⟨t, rest, f, hts, h⟩
      · exact .inl hs
      · exact .inr ⟨[], t, rest, f, hts, h⟩

end Lead

/-! ## Statements that are read, and tokens that are no start of one -/

/-- What a part reads at the outermost depth. -/
theorem expression_of_reads (h : Reads units 1 (inside sumLevel before) c e t) (rest : List Token)
    (hlimit : (c ++ t :: rest).length ≤ limit) :
    ExprReader.expression units limit limit sumLevel before (c ++ t :: rest) =
      .ok (e, t :: rest) :=
  h _ _ rest ⟨⟨limit, limit, rfl, by omega⟩, Nat.le_refl _⟩

theorem expression_of_fails (h : Fails units 1 (inside sumLevel before) c t f) (rest : List Token)
    (hlimit : (c ++ t :: rest).length ≤ limit) :
    ExprReader.expression units limit limit sumLevel before (c ++ t :: rest) = .error f :=
  h _ _ rest ⟨⟨limit, limit, rfl, by omega⟩, Nat.le_refl _⟩

theorem inside_of_reads (h : Reads units 1 (inside sumLevel before) c e t) :
    Brackets.Matched c ∧ ∀ u ∈ c, u.kind ≠ .equal ∧ u.kind ≠ .finish := by
  obtain ⟨d, hd, -, hfits⟩ := expression_sum (expression_of_reads h [] (Nat.le_refl _))
  rw [List.append_cancel_right hd]
  exact ⟨hfits.matched, hfits.inside⟩

/-- An expression and some names behind it are a statement if what reads behind the expression
comes to the end. -/
theorem Lead.continuable (h : Lead pre before behind)
    (hread : Reads units 1 (inside sumLevel before) c e (m.headD endMark))
    (hm : ∀ u ∈ m, u.kind = .identifier) (hbehind : behind e (m ++ [endMark]) = .ok s)
    (hfront : front ++ more = pre ++ (c ++ m)) : Continuable units front := by
  obtain ⟨hmatched, hinside⟩ := inside_of_reads hread
  have htail : ∀ u ∈ m ++ [endMark], u.kind = .identifier ∨ u.kind = .finish :=
    List.forall_mem_append.mpr ⟨fun u hu => .inl (hm u hu), by simp [endMark]⟩
  have heq : front ++ (more ++ [endMark]) = pre ++ (c ++ (m ++ [endMark])) := by
    rw [← List.append_assoc, hfront, List.append_assoc, List.append_assoc]
  refine ⟨more ++ [endMark], ⟨pre ++ (c ++ m), endMark, ?_, rfl, ?_⟩, fun limit hlimit => ⟨s, ?_⟩⟩
  · rw [heq, List.append_assoc, List.append_assoc]
  · refine List.forall_mem_append.mpr ⟨fun u hu => ?_, List.forall_mem_append.mpr
      ⟨fun u hu => (hinside u hu).2, fun u hu => by simp [hm u hu]⟩⟩
    rcases h.kinds u hu with hu | hu <;> simp [hu]
  rw [heq] at hlimit ⊢
  have hcheck : Brackets.check (pre ++ (c ++ (m ++ [endMark]))) = .ok () := by
    have hpre : Brackets.Matched pre := .of_forall fun u hu => by
      rcases h.kinds u hu with hu | hu <;> simp [hu]
    rw [← List.append_assoc]
    refine check_of_matched (hpre.append hmatched) fun u hu => ?_
    rcases htail u hu with hu | hu <;> simp [hu]
  have hfits : Lead.Fits pre (c ++ (m ++ [endMark])) := by
    refine fun _ => assignment?_eq_none (List.forall_mem_append.mpr
      ⟨fun u hu => (hinside u hu).1, fun u hu => ?_⟩)
    rcases htail u hu with hu | hu <;> simp [hu]
  obtain ⟨tail, hhead⟩ := Derivation.headD_append m endMark []
  rw [List.length_append] at hlimit
  rw [h.ofTokens_eq hfits, hcheck]
  rw [hhead] at hlimit hbehind ⊢
  simp only [expression_of_reads hread tail (Nat.le_of_add_left_le hlimit)]
  exact hbehind

theorem Lead.blocked (h : Lead pre before behind) (hfits : ∀ rest, Lead.Fits pre (c ++ t :: rest))
    (hfails : ∀ rest limit, (c ++ t :: rest).length ≤ limit → ∃ f,
      (ExprReader.expression units limit limit sumLevel before (c ++ t :: rest) >>=
        fun p => behind p.1 p.2) = .error f) :
    Blocked units (pre ++ c ++ [t]) := by
  refine .of_error fun rest limit hlimit => ?_
  have heq : pre ++ c ++ [t] ++ rest = pre ++ (c ++ t :: rest) := by simp
  rw [heq] at hlimit ⊢
  rw [List.length_append] at hlimit
  obtain ⟨f, hf⟩ := hfails rest limit (Nat.le_of_add_left_le hlimit)
  rw [h.ofTokens_eq (hfits rest), hf]
  cases Brackets.check (pre ++ (c ++ t :: rest)) with
  | ok => exact ⟨f, rfl⟩
  | error e => exact ⟨_, rfl⟩

/-! ## Where the reader of statements stops -/

/-- Reading stops at the token `t` behind `front`: some statement starts with `front` and none with
`t` behind it, and the failure points there. -/
structure StopsAt (units : List String) (front : List Token) (t : Token) (f : Failure) : Prop where
  blames : Blames front.getLast? t f
  continuable : Continuable units front
  blocked : Blocked units (front ++ [t])

/-- A name is an expression. -/
theorem not_fails_identifier (ht : t.kind = .identifier) :
    ¬ Fails units 1 (inside sumLevel before) [] t f := by
  intro hfails
  have hread : ExprReader.expression units 2 2 sumLevel before [t, endMark] = _ :=
    ExprReader.expression_name ht rfl
  cases hread.symm.trans (expression_of_fails hfails [endMark] (Nat.le_refl 2))

/-- Where the reader of expressions stops, that of statements does. -/
theorem Lead.stopsAt_of_fails (h : Lead pre before behind)
    (hfits : Lead.Fits pre (front ++ t :: us)) (hblames : Blames (front.getLast?.or before) t f)
    (hfails : Fails units 1 (inside sumLevel before) front t f)
    (hextends : Extends units 1 (inside sumLevel before) front) :
    StopsAt units (pre ++ front) t f where
  blames := by
    rw [List.getLast?_append, ← h.before_eq]
    exact hblames
  continuable := by
    obtain ⟨more, e, hmore⟩ := hextends
    obtain ⟨s, hs⟩ := h.ends e
    have hread : Reads units 1 (inside sumLevel before) (front ++ more) e
        (([] : List Token).headD endMark) := hmore endMark (.inr (.inr rfl))
    have hfront : pre ++ front ++ more = pre ++ ((front ++ more) ++ []) := by simp
    exact h.continuable hread (List.forall_mem_nil _) hs hfront
  blocked := by
    refine h.blocked (hfits.of_append ?_) fun rest limit hlimit => ⟨f, ?_⟩
    · rintro - rfl ht
      exact not_fails_identifier ht hfails
    · rw [expression_of_fails hfails rest hlimit]
      rfl

/-- It also does where what reads behind the expression stops. -/
theorem Lead.stopsAt_of_halts (h : Lead pre before behind)
    (hfits : Lead.Fits pre (c ++ (front ++ t :: us)))
    (hread : ∀ u, u = next ∨ u.IsDelimiter → Reads units 1 (inside sumLevel before) c e u)
    (hnext : front.headD t = next) (hhalts : Halts (behind e) front t f) :
    StopsAt units (pre ++ (c ++ front)) t f where
  blames := hhalts.blames.mono fun _ hb => by cases hb
  continuable := by
    obtain ⟨more, s, hkinds, hmore, hs⟩ := hhalts.finishes
    have hhead : Reads units 1 (inside sumLevel before) c e ((front ++ more).headD endMark) := by
      refine hread _ ?_
      cases front with
      | nil =>
          rw [hmore rfl]
          exact .inr (.inr (.inr rfl))
      | cons u front => exact .inl hnext
    have hfront : pre ++ (c ++ front) ++ more = pre ++ (c ++ (front ++ more)) := by simp
    exact h.continuable hhead hkinds hs hfront
  blocked := by
    have hne : c ≠ [] := by
      rintro rfl
      exact (inside_needs units 0 sumLevel before).not_reads e fun u hu => hread u (.inr hu)
    rw [← List.append_assoc] at hfits ⊢
    rw [List.append_assoc pre c front]
    refine h.blocked (hfits.of_append ?_) fun rest limit hlimit => ⟨f, ?_⟩
    · rintro - hnil
      exact absurd (List.append_eq_nil_iff.mp hnil).1 hne
    · obtain ⟨tail, hhead⟩ := Derivation.headD_append front t rest
      rw [List.append_assoc, hhead] at hlimit ⊢
      rw [expression_of_reads (hread _ (.inl hnext)) tail hlimit]
      exact hhead ▸ hhalts.fails rest

/-- **The reader of statements fails where no statement goes on**, or at a number that is no
numeral. -/
theorem stopsAt_of_error (hend : Token.HasEnd ts) (hcheck : Brackets.check ts = .ok ())
    (hlimit : ts.length ≤ limit) (hf : ofTokens units limit ts = .error f) :
    (∃ fault, f = .fault fault) ∨ ∃ front t rest, ts = front ++ t :: rest ∧
      StopsAt units front t f := by
  obtain ⟨pre, before, behind, us, hlead, hfits, rfl⟩ := exists_lead ts
  rw [hlead.ofTokens_eq hfits, hcheck] at hf
  rw [List.length_append] at hlimit
  replace hf : (ExprReader.expression units limit limit sumLevel before us >>=
      fun p => behind p.1 p.2) = .error f := hf
  replace hlimit : us.length ≤ limit := Nat.le_of_add_left_le hlimit
  have hus := hlead.hasEnd hend
  have hsettled : ExprReader.Settled units 1 (inside sumLevel before) before us :=
    inside_settled (step_settled units us.length) sumLevel before hus (Nat.le_refl _)
  cases hsettled with
  | faults _ fault hfaults =>
      have hread : ExprReader.expression units limit limit sumLevel before us =
          .error (.fault fault) :=
        hfaults _ us.length ⟨⟨limit, limit, rfl, by omega⟩, Nat.le_refl _⟩
      rw [hread] at hf
      cases hf
      exact .inl ⟨fault, rfl⟩
  | @stuck front rest t f' hts hblames hfails hextends =>
      subst hts
      rw [expression_of_fails hfails rest hlimit] at hf
      cases hf
      exact .inr ⟨pre ++ front, t, rest, (List.append_assoc ..).symm,
        hlead.stopsAt_of_fails hfits hblames hfails hextends⟩
  | @reads c rest e next hts hend' hread =>
      subst hts
      rw [expression_of_reads (hread next (.inl rfl)) rest hlimit] at hf
      replace hf : behind e (next :: rest) = .error f := hf
      rcases hlead.halts hend' e with ⟨s, hs⟩ | ⟨front, t, rest', f', heq, hhalts⟩
      · cases hs.symm.trans hf
      · rw [heq] at hf hfits ⊢
        cases (hhalts.fails rest').symm.trans hf
        have hnext : front.headD t = next := by cases front <;> cases heq <;> rfl
        exact .inr ⟨pre ++ (c ++ front), t, rest', by simp,
          hlead.stopsAt_of_halts hfits hread hnext hhalts⟩

/-! ## Errors of arrangement -/

theorem hasEnd_of_ended (h : Token.Ended ts) : Token.HasEnd ts := by
  obtain ⟨front, stop, rfl, hstop, -⟩ := h
  exact ⟨stop, by simp, hstop⟩

/-- **An error of arrangement points at the first token that no statement goes on with.** If the
operator in front of that token lacks an operand, it points at the operator. -/
theorem ofTokens_points (units : List String) (limit : Nat) (ts : List Token) (f : Failure)
    (hended : Token.Ended ts)
    (hnumerals : ∀ t ∈ ts, t.kind = .number → ∃ x, Number.numeral? t.lexeme = some x)
    (hbalanced : Brackets.Balanced (Brackets.word ts)) (hlimit : ts.length ≤ limit)
    (hf : ofTokens units limit ts = .error f) :
    ∃ e j t, f = .error e ∧ ts[j]? = some t ∧ e.place? = some t.place ∧
      (((e.kind = .unexpectedToken ∨ e.kind = .doubledOperator) ∧
          Continuable units (ts.take j) ∧ Blocked units (ts.take (j + 1))) ∨
        (e.kind = .danglingOperator ∧ t.isOperator = true ∧
          Continuable units (ts.take (j + 1)) ∧ Blocked units (ts.take (j + 2)))) := by
  have hend := hasEnd_of_ended hended
  have hreadable : Token.Readable (fun _ => True) (fun _ => False) ts := by
    refine ⟨hend, fun t ht hkind hnone => ?_, fun _ _ => trivial⟩
    obtain ⟨x, hx⟩ := hnumerals t ht hkind
    cases hx.symm.trans hnone
  rcases stopsAt_of_error hend (Brackets.check_eq_ok.mpr hbalanced) hlimit hf with
    ⟨fault, rfl⟩ | ⟨front, t, rest, rfl, hstops⟩
  · obtain ⟨e, he, -⟩ := ofTokens_failsWith hreadable _ hf
    cases he
  cases hstops.blames with
  | here why hwhy =>
      refine ⟨.misplaced why t.place, front.length, t, rfl, by simp, rfl, .inl ⟨hwhy, ?_, ?_⟩⟩
      · rw [List.take_left]
        exact hstops.continuable
      · rw [List.take_length_add_append]
        exact hstops.blocked
  | @last b hlast hb =>
      obtain ⟨others, rfl⟩ := List.getLast?_eq_some_iff.mp hlast
      have hblocked := hstops.blocked
      rw [List.append_assoc] at hblocked ⊢
      refine ⟨.misplaced .danglingOperator b.place, others.length, b, rfl, by simp, rfl,
        .inr ⟨rfl, hb, ?_, ?_⟩⟩
      · rw [List.take_length_add_append]
        exact hstops.continuable
      · rw [List.take_length_add_append]
        exact hblocked

/-- A sum in brackets that lacks its right operand: the operator is reported, since the sum goes on
behind it, but not with the bracket. -/
theorem ofTokens_points_of_dangling :
    ofTokens [] 5 [⟨.openBracket, "(", 0⟩, ⟨.number, "5", 1⟩, ⟨.operator, "+", 3⟩,
        ⟨.closeBracket, ")", 4⟩, ⟨.finish, "", 5⟩] =
      .error (.error (.misplaced .danglingOperator 3)) ∧
    Continuable [] [⟨.openBracket, "(", 0⟩, ⟨.number, "5", 1⟩, ⟨.operator, "+", 3⟩] ∧
      Blocked [] [⟨.openBracket, "(", 0⟩, ⟨.number, "5", 1⟩, ⟨.operator, "+", 3⟩,
        ⟨.closeBracket, ")", 4⟩] := by
  let ts : List Token := [⟨.openBracket, "(", 0⟩, ⟨.number, "5", 1⟩, ⟨.operator, "+", 3⟩,
    ⟨.closeBracket, ")", 4⟩, ⟨.finish, "", 5⟩]
  have hnumerals : ∀ t ∈ ts, t.kind = .number → ∃ x, Number.numeral? t.lexeme = some x := by
    simp [ts]
    exact ⟨_, rfl⟩
  have hreport : ofTokens [] 5 ts = .error (.error (.misplaced .danglingOperator 3)) := rfl
  obtain ⟨e, j, t, he, ht, hplace, h⟩ := ofTokens_points [] 5 ts _
    ⟨ts.take 4, _, rfl, rfl, by decide⟩ hnumerals (.enclosed .nil) (by decide) hreport
  cases he
  have hj : j = 2 := by
    match j, ht with
    | 0, rfl => cases hplace
    | 1, rfl => cases hplace
    | 2, _ => rfl
    | 3, rfl => cases hplace
    | 4, rfl => cases hplace
  subst hj
  rcases h with ⟨hkind | hkind, -⟩ | ⟨-, -, hcontinuable, hblocked⟩
  · cases hkind
  · cases hkind
  · exact ⟨hreport, hcontinuable, hblocked⟩

/-! ## Brackets -/

theorem kind_of_blames {last : Option Token} {e : Error} (h : Blames last t (.error e)) :
    e.kind ≠ .unmatchedBracket := by
  cases h with
  | here why h =>
      show why.kind ≠ .unmatchedBracket
      rcases h with h | h <;> simp [h]
  | last => simp [Error.kind, Misplacement.kind]

/-- Nothing but the check of brackets reports a bracket. -/
theorem kind_of_balanced (hend : Token.HasEnd ts) (hcheck : Brackets.check ts = .ok ())
    {e : Error} (hf : ofTokens units limit ts = .error (.error e)) :
    e.kind ≠ .unmatchedBracket := by
  rcases ofTokens_cut (Nat.le_max_left limit ts.length) units ts with hcut | hcut
  · cases hf.symm.trans hcut
    nofun
  · rcases stopsAt_of_error hend hcheck (Nat.le_max_right limit ts.length)
      (hcut.symm.trans hf) with ⟨fault, hfault⟩ | ⟨front, t, rest, -, hstops⟩
    · cases hfault
    · exact kind_of_blames hstops.blames

theorem ofTokens_of_check {e : Error} (h : Brackets.check ts = .error e) :
    ofTokens units limit ts = .error (.error e) := by
  rw [ofTokens, h]
  rfl

/-- **Brackets are reported just where they are not balanced**, whatever else is wrong. The report
points at the first closing bracket in front of which as many brackets are opened as closed, or
else at the end. -/
theorem ofTokens_brackets (units : List String) (limit : Nat) (front : List Token) (stop : Token)
    (hstop : stop.kind = .finish) :
    ((∃ e, ofTokens units limit (front ++ [stop]) = .error (.error e) ∧
        e.kind = .unmatchedBracket) ↔
      ¬ Brackets.Balanced (Brackets.word (front ++ [stop]))) ∧
    (∀ j t, Brackets.Unopened (front ++ [stop]) j t →
      (∀ i < j, ∀ u, ¬ Brackets.Unopened (front ++ [stop]) i u) →
      ofTokens units limit (front ++ [stop]) =
        .error (.error (.misplaced .unopenedBracket t.place))) ∧
    (¬ Brackets.Balanced (Brackets.word (front ++ [stop])) →
      (∀ j t, ¬ Brackets.Unopened (front ++ [stop]) j t) →
      ofTokens units limit (front ++ [stop]) =
        .error (.error (.misplaced .unclosedBracket stop.place))) := by
  have hend : Token.HasEnd (front ++ [stop]) := ⟨stop, by simp, hstop⟩
  refine ⟨⟨?_, ?_⟩, ?_, ?_⟩
  · rintro ⟨e, he, hkind⟩ hbalanced
    exact kind_of_balanced hend (Brackets.check_eq_ok.mpr hbalanced) he hkind
  · intro hunbalanced
    cases hcheck : Brackets.check (front ++ [stop]) with
    | ok => exact absurd (Brackets.check_eq_ok.mp hcheck) hunbalanced
    | error e => exact ⟨e, ofTokens_of_check hcheck, Brackets.kind_of_check hcheck⟩
  · intro j t ht hfirst
    exact ofTokens_of_check (Brackets.checkFrom_of_unopened (Brackets.unopened_iff.mp ht)
      fun i hi u hu => hfirst i hi u (Brackets.unopened_iff.mpr hu))
  · intro hunbalanced hnone
    rcases Brackets.checkFrom_of_not_unopened 0
      fun j t h => hnone j t (Brackets.unopened_iff.mpr h) with hcheck | hcheck
    · exact absurd (Brackets.check_eq_ok.mp hcheck) hunbalanced
    · exact ofTokens_of_check hcheck

/-- Two brackets too many, a doubled operator and no depth at all: the first bracket is
reported. -/
theorem ofTokens_brackets_of_unopened :
    ofTokens [] 0 [⟨.number, "5", 0⟩, ⟨.closeBracket, ")", 1⟩, ⟨.operator, "*", 2⟩,
      ⟨.operator, "/", 3⟩, ⟨.closeBracket, ")", 4⟩, ⟨.finish, "", 5⟩] =
    .error (.error (.misplaced .unopenedBracket 1)) := by
  let front : List Token := [⟨.number, "5", 0⟩, ⟨.closeBracket, ")", 1⟩, ⟨.operator, "*", 2⟩,
    ⟨.operator, "/", 3⟩, ⟨.closeBracket, ")", 4⟩]
  refine (ofTokens_brackets [] 0 front ⟨.finish, "", 5⟩ rfl).2.1 1 ⟨.closeBracket, ")", 1⟩
    ⟨rfl, rfl, rfl⟩ ?_
  rintro i hi u ⟨hu, hkind, -⟩
  obtain rfl : i = 0 := by omega
  cases hu
  cases hkind

end Reckoner.Statement
