import Reckoner.Proofs.Expr.Complete

/-!
# Reckoner.Proofs.Expr.Part -- where a part of the reader stops

The reader of expressions is put together from parts, each of which reads some tokens and leaves
the rest to the next one. A part is *settled* on a list of tokens with an end mark if one of two
things becomes of it (`Settled`). It reads some tokens, and it would have read the same ones with
any delimiter behind them. Or it stops at a token, and this is the first one that nothing helps
behind: with it the part fails whatever follows, and without it there are tokens that go on.

That some tokens go on is shown by giving them, and what can be given depends on what a part is
followed by. So of a part that another one may be in front of it is asked that a delimiter closes
it (`Closes`). With that a row of settled parts is settled (`Settled.andThen`).

All of this is said of readers that have depth and room enough (`Ample`); a limit is another
matter.
-/

namespace Reckoner

/-! ## Tokens that end an expression -/

/-- A token that ends all expressions in front of it: a closing bracket, a comma or an end mark. -/
def Token.IsDelimiter (t : Token) : Prop :=
  t.kind = .closeBracket ∨ t.kind = .comma ∨ t.kind = .finish

/-- Whether an end mark is among tokens. -/
def Token.HasEnd (ts : List Token) : Prop := ∃ t ∈ ts, t.kind = .finish

namespace Token

variable {t : Token} {ts : List Token}

theorem IsDelimiter.stops (h : t.IsDelimiter) (units : List String) (level : Nat) :
    t.Stops units level :=
  .of_delimiter h

theorem HasEnd.ne_nil (h : HasEnd ts) : ts ≠ [] := by
  rintro rfl
  obtain ⟨t, ht, -⟩ := h
  cases ht

theorem HasEnd.tail (h : HasEnd (t :: ts)) (ht : t.kind ≠ .finish) : HasEnd ts := by
  obtain ⟨u, hu, hfinish⟩ := h
  rcases List.mem_cons.mp hu with rfl | hu
  · exact absurd hfinish ht
  · exact ⟨u, hu, hfinish⟩

end Token

namespace ExprReader

/-! ## Parts -/

/-- A part of the reader: what it does with a reader for what lies inside, and with some room for
its loops. -/
abbrev Part (α : Type) :=
  (inner : ExprReader) → (room : Nat) → List Token → Except Failure (α × List Token)

/-- A part, and behind it another one that depends on what the first has read. -/
def Part.andThen {α β : Type} (F : Part α) (K : α → Part β) : Part β :=
  fun inner room ts => F inner room ts >>= fun p => K p.1 inner room p.2

/-- Whether depth and room are enough for some tokens. At least `used` tokens have been read in
front of them at the depth at hand. -/
structure Ample (units : List String) (used : Nat) (inner : ExprReader) (room : Nat)
    (ts : List Token) : Prop where
  depth : ∃ limit depth, inner = expression units limit depth ∧ used + ts.length ≤ depth + 1
  room : ts.length ≤ room

section Parts

variable {α β : Type} {units : List String} {used room : Nat} {inner : ExprReader}
  {t next : Token} {ts front consumed more rest : List Token} {before : Option Token}
  {F G : Part α} {K : α → Part β} {a : α} {b : β} {f : Failure}

theorem Ample.drop (h : Ample units used inner room (front ++ ts)) :
    Ample units used inner room ts := by
  obtain ⟨⟨limit, depth, hinner, hdepth⟩, hroom⟩ := h
  rw [List.length_append] at hdepth hroom
  exact ⟨⟨limit, depth, hinner, by omega⟩, by omega⟩

theorem Ample.tail (h : Ample units used inner (room + 1) (t :: ts)) :
    Ample units (used + 1) inner room ts := by
  obtain ⟨⟨limit, depth, hinner, hdepth⟩, hroom⟩ := h
  rw [List.length_cons] at hdepth hroom
  exact ⟨⟨limit, depth, hinner, by omega⟩, by omega⟩

theorem Ample.pos (h : Ample units used inner room (t :: ts)) : ∃ others, room = others + 1 := by
  have hroom := h.room
  rw [List.length_cons] at hroom
  exact ⟨room - 1, by omega⟩

theorem Ample.whole (h : Ample units used inner room ts) : Ample units used inner ts.length ts :=
  ⟨h.depth, Nat.le_refl _⟩

theorem exists_ample (units : List String) (used : Nat) (ts : List Token) :
    ∃ inner room, Ample units used inner room ts :=
  ⟨expression units 0 (used + ts.length), ts.length, ⟨0, _, rfl, Nat.le_succ _⟩, Nat.le_refl _⟩

/-! ## What a part can do -/

/-- Whether a part reads all the tokens `ts` if `next` stands behind them. -/
def Reads (units : List String) (used : Nat) (F : Part α) (ts : List Token) (a : α)
    (next : Token) : Prop :=
  ∀ inner room rest, Ample units used inner room (ts ++ next :: rest) →
    F inner room (ts ++ next :: rest) = .ok (a, next :: rest)

/-- Whether a part fails at the token `t` behind `front`, whatever follows. -/
def Fails (units : List String) (used : Nat) (F : Part α) (front : List Token) (t : Token)
    (f : Failure) : Prop :=
  ∀ inner room rest, Ample units used inner room (front ++ t :: rest) →
    F inner room (front ++ t :: rest) = .error f

/-- Whether there are tokens that can be put behind `front` so that a part reads it all. -/
def Extends (units : List String) (used : Nat) (F : Part α) (front : List Token) : Prop :=
  ∃ more a, ∀ next, next.IsDelimiter → Reads units used F (front ++ more) a next

/-- Whether there are tokens for a part to read where the part before has come to a delimiter:
none, or some that start with one. -/
def Closes (units : List String) (used : Nat) (F : Part α) : Prop :=
  ∃ more a, (∀ t ∈ more.head?, t.IsDelimiter) ∧
    ∀ next, next.IsDelimiter → Reads units used F more a next

/-- Whether a part cannot do without tokens. -/
def Needs (units : List String) (used : Nat) (F : Part α) : Prop :=
  ∃ stop f, stop.IsDelimiter ∧ Fails units used F [] stop f

/-- What is reported at the token `t` that nothing helps behind: that token, or the operator in
front of it that has no operand. -/
inductive Blames (last : Option Token) (t : Token) : Failure → Prop
  | here (why : Misplacement) (h : why.kind = .unexpectedToken ∨ why.kind = .doubledOperator) :
    Blames last t (.error (.misplaced why t.place))
  | last {b : Token} (hlast : last = some b) (hb : b.isOperator = true) :
    Blames last t (.error (.misplaced .danglingOperator b.place))

/-- What becomes of a part on a list of tokens. Besides what has been said, it can meet a number
that is no numeral. -/
inductive Settled (units : List String) (used : Nat) (F : Part α) (before : Option Token)
    (ts : List Token) : Prop
  | reads (consumed : List Token) {rest : List Token} {a : α} {next : Token}
    (hts : ts = consumed ++ next :: rest) (hend : Token.HasEnd (next :: rest))
    (h : ∀ t, t = next ∨ t.IsDelimiter → Reads units used F consumed a t)
  | stuck (front : List Token) {rest : List Token} {t : Token} {f : Failure}
    (hts : ts = front ++ t :: rest) (hblames : Blames (front.getLast?.or before) t f)
    (hfails : Fails units used F front t f) (hextends : Extends units used F front)
  | faults (hne : ts ≠ []) (fault : Fault)
    (h : ∀ inner room, Ample units used inner room ts → F inner room ts = .error (.fault fault))

theorem Fails.not_reads (h : Fails units used F front t f) : ¬ Reads units used F front a t := by
  intro hread
  obtain ⟨inner, room, hample⟩ := exists_ample units used (front ++ [t])
  cases (h inner room [] hample).symm.trans (hread inner room [] hample)

theorem Needs.not_reads (h : Needs units used F) (a : α) :
    ¬ ∀ next, next.IsDelimiter → Reads units used F [] a next := by
  obtain ⟨stop, f, hstop, hfails⟩ := h
  exact fun hread => hfails.not_reads (hread stop hstop)

theorem Closes.extends (h : Closes units used F) : Extends units used F [] := by
  obtain ⟨more, a, -, hread⟩ := h
  exact ⟨more, a, hread⟩

theorem Blames.mono {last last' : Option Token} (h : Blames last t f)
    (hlast : ∀ b, last = some b → last' = some b) : Blames last' t f := by
  cases h with
  | here why h => exact .here why h
  | last h hb => exact .last (hlast _ h) hb

/-! ## Parts in a row -/

/-- Behind what the first of two parts reads the second one goes on. -/
theorem Reads.andThen_eq (h : Reads units used F consumed a (more.headD t))
    (hample : Ample units used inner room (consumed ++ (more ++ t :: rest))) :
    F.andThen K inner room (consumed ++ (more ++ t :: rest)) =
      K a inner room (more ++ t :: rest) := by
  obtain ⟨tail, hmore⟩ := Derivation.headD_append more t rest
  rw [hmore] at hample ⊢
  rw [Part.andThen, h inner room tail hample]
  rfl

theorem Reads.andThen (hF : Reads units used F consumed a (more.headD next))
    (hK : Reads units used (K a) more b next) :
    Reads units used (F.andThen K) (consumed ++ more) b next := by
  intro inner room rest hample
  rw [List.append_assoc] at hample ⊢
  rw [hF.andThen_eq hample]
  exact hK inner room rest hample.drop

theorem Reads.andThen_fails (hF : Reads units used F consumed a (more.headD t))
    (hK : Fails units used (K a) more t f) :
    Fails units used (F.andThen K) (consumed ++ more) t f := by
  intro inner room rest hample
  rw [List.append_assoc] at hample ⊢
  rw [hF.andThen_eq hample]
  exact hK inner room rest hample.drop

theorem Fails.andThen (h : Fails units used F front t f) (K : α → Part β) :
    Fails units used (F.andThen K) front t f := by
  intro inner room rest hample
  rw [Part.andThen, h inner room rest hample]
  rfl

theorem Needs.andThen (h : Needs units used F) (K : α → Part β) :
    Needs units used (F.andThen K) := by
  obtain ⟨stop, f, hstop, hfails⟩ := h
  exact ⟨stop, f, hstop, hfails.andThen K⟩

/-- What goes on for the first part goes on for both, with what closes the second. -/
theorem Extends.andThen (hF : Extends units used F front)
    (hK : ∀ a, Closes units used (K a)) : Extends units used (F.andThen K) front := by
  obtain ⟨more, a, hread⟩ := hF
  obtain ⟨closing, b, hdelimiter, hclose⟩ := hK a
  refine ⟨more ++ closing, b, fun next hnext => ?_⟩
  rw [← List.append_assoc]
  refine (hread _ ?_).andThen (hclose next hnext)
  cases closing with
  | nil => exact hnext
  | cons t closing => exact hdelimiter t rfl

/-- What goes on for the second part goes on for both, if the first is over. -/
theorem Reads.andThen_extends
    (hread : ∀ t, t = next ∨ t.IsDelimiter → Reads units used F consumed a t)
    (hnext : ∀ t ∈ more.head?, t = next) (hK : Extends units used (K a) more)
    (hclose : ∀ a, Closes units used (K a)) :
    Extends units used (F.andThen K) (consumed ++ more) := by
  cases more with
  | nil =>
      rw [List.append_nil]
      have hextends : Extends units used F consumed :=
        ⟨[], a, fun t ht => (List.append_nil consumed).symm ▸ hread t (.inr ht)⟩
      exact hextends.andThen hclose
  | cons u front =>
      obtain ⟨more, b, hmore⟩ := hK
      refine ⟨more, b, fun t ht => ?_⟩
      have hfirst : Reads units used F consumed a ((u :: front ++ more).headD t) :=
        hread u (.inl (hnext u rfl))
      rw [List.append_assoc]
      exact hfirst.andThen (hmore t ht)

/-- **A row of settled parts is settled.** -/
theorem Settled.andThen (hF : Settled units used F before ts)
    (hK : ∀ a next rest, Token.HasEnd (next :: rest) → (next :: rest).length ≤ ts.length →
      Settled units used (K a) none (next :: rest))
    (hclose : ∀ a, Closes units used (K a)) : Settled units used (F.andThen K) before ts := by
  cases hF with
  | faults hne fault h =>
      refine .faults hne fault fun inner room hample => ?_
      rw [Part.andThen, h inner room hample]
      rfl
  | stuck front hts hblames hfails hextends =>
      exact .stuck front hts hblames (hfails.andThen K) (hextends.andThen hclose)
  | @reads consumed rest a next hts hend hread =>
      subst hts
      cases hK a next rest hend (by simp) with
      | faults _ fault h =>
          refine .faults (by simp) fault fun inner room hample => ?_
          rw [Part.andThen, hread next (.inl rfl) inner room rest hample]
          exact h inner room hample.drop
      | @reads consumed' rest' b next' hts hend' hread' =>
          refine .reads (consumed ++ consumed') (by rw [hts, List.append_assoc]) hend' fun t ht =>
            (hread _ ?_).andThen (hread' t ht)
          -- the first part is followed by what it was followed by, or by a delimiter
          cases consumed' with
          | nil =>
              cases hts
              exact ht
          | cons u consumed' =>
              cases hts
              exact .inl rfl
      | @stuck front rest' t f hts hblames hfails hextends =>
          have hhead : front.headD t = next := by cases front <;> cases hts <;> rfl
          have hnext : ∀ u ∈ front.head?, u = next := by
            rintro u hu
            cases front <;> cases hu
            exact hhead
          refine .stuck (consumed ++ front) (by rw [hts, List.append_assoc]) (hblames.mono ?_)
            (Reads.andThen_fails (hread _ (.inl hhead)) hfails)
            (Reads.andThen_extends hread hnext hextends hclose)
          intro b hb
          rw [Option.or_none] at hb
          rw [List.getLast?_append, hb]
          rfl

/-! ## Parts at their first token -/

/-- A part that reads nothing in front of a token. -/
theorem Settled.over (a : α) (hend : Token.HasEnd (t :: ts))
    (h : ∀ u, u = t ∨ u.IsDelimiter → Reads units used F [] a u) :
    Settled units used F before (t :: ts) :=
  .reads [] rfl hend h

/-- A part that stops at its first token. -/
theorem Settled.halted (hblames : Blames before t f)
    (hfails : ∀ inner room rest, F inner room (t :: rest) = .error f)
    (hextends : Extends units used F []) : Settled units used F before (t :: ts) :=
  .stuck [] rfl hblames (fun inner room rest _ => hfails inner room rest) hextends

/-- A part that never reads anything. -/
theorem Settled.done (a : α) (hend : Token.HasEnd ts) :
    Settled units used (fun _ _ ts => .ok (a, ts)) before ts := by
  cases ts with
  | nil => exact absurd rfl hend.ne_nil
  | cons t ts => exact .over a hend fun _ _ _ _ _ _ => rfl

theorem Closes.done (a : α) : Closes units used (fun _ _ ts => .ok (a, ts)) :=
  ⟨[], a, by simp, fun _ _ _ _ _ _ => rfl⟩

/-! ## Parts that read the same -/

/-- A part that goes past some tokens and then does what another part does. -/
theorem Settled.behind {used' : Nat} (front : List Token)
    (hG : Settled units used' G (front.getLast?.or before) ts)
    (h : ∀ inner room ts, ts ≠ [] → Ample units used inner room (front ++ ts) →
      ∃ inner' room', Ample units used' inner' room' ts ∧
        F inner room (front ++ ts) = G inner' room' ts) :
    Settled units used F before (front ++ ts) := by
  have hreads {consumed : List Token} {a : α} {t : Token}
      (hread : Reads units used' G consumed a t) :
      Reads units used F (front ++ consumed) a t := by
    intro inner room rest hample
    rw [List.append_assoc] at hample ⊢
    obtain ⟨inner', room', hample', heq⟩ := h inner room _ (by simp) hample
    rw [heq]
    exact hread inner' room' rest hample'
  cases hG with
  | faults hne fault hfaults =>
      refine .faults (by simp [hne]) fault fun inner room hample => ?_
      obtain ⟨inner', room', hample', heq⟩ := h inner room ts hne hample
      rw [heq]
      exact hfaults inner' room' hample'
  | reads consumed hts hend hread =>
      exact .reads (front ++ consumed) (by rw [hts, List.append_assoc]) hend fun t ht =>
        hreads (hread t ht)
  | @stuck behind rest t f hts hblames hfails hextends =>
      have hfails' : Fails units used F (front ++ behind) t f := by
        intro inner room rest hample
        rw [List.append_assoc] at hample ⊢
        obtain ⟨inner', room', hample', heq⟩ := h inner room _ (by simp) hample
        rw [heq]
        exact hfails inner' room' rest hample'
      refine .stuck (front ++ behind) (by rw [hts, List.append_assoc]) ?_ hfails' ?_
      · rw [List.getLast?_append, Option.or_assoc]
        exact hblames
      · obtain ⟨more, a, hmore⟩ := hextends
        exact ⟨more, a, fun u hu => List.append_assoc .. ▸ hreads (hmore u hu)⟩

theorem Settled.congr (hG : Settled units used G before ts)
    (h : ∀ inner room t ts, Ample units used inner room (t :: ts) →
      F inner room (t :: ts) = G inner room (t :: ts)) :
    Settled units used F before ts := by
  refine Settled.behind [] hG fun inner room ts hne hample => ?_
  cases ts with
  | nil => exact absurd rfl hne
  | cons t ts => exact ⟨inner, room, hample, h inner room t ts hample⟩

theorem Settled.cons (hG : Settled units (used + 1) G (some t) ts)
    (h : ∀ inner room ts, F inner (room + 1) (t :: ts) = G inner room ts) :
    Settled units used F before (t :: ts) := by
  refine Settled.behind [t] hG fun inner room ts _ hample => ?_
  obtain ⟨others, rfl⟩ := hample.pos
  exact ⟨inner, others, hample.tail, h inner others ts⟩

/-- A loop with room for all tokens. -/
theorem Settled.loop (hG : Settled units used G before ts) :
    Settled units used (fun inner _ ts => G inner ts.length ts) before ts :=
  Settled.behind [] hG fun inner _ ts _ hample => ⟨inner, ts.length, hample.whole, rfl⟩

theorem Closes.loop (h : Closes units used G) :
    Closes units used (fun inner _ ts => G inner ts.length ts) := by
  obtain ⟨more, a, hhead, hread⟩ := h
  exact ⟨more, a, hhead, fun t ht inner _ rest hample => hread t ht inner _ rest hample.whole⟩

theorem Needs.loop (h : Needs units used G) :
    Needs units used (fun inner _ ts => G inner ts.length ts) := by
  obtain ⟨stop, f, hstop, hfails⟩ := h
  exact ⟨stop, f, hstop, fun inner _ rest hample => hfails inner _ rest hample.whole⟩

/-- A part that does what another one does, on tokens that start with `t`. -/
theorem Settled.of_head (hG : Settled units used G before (t :: ts))
    (h : ∀ inner room ts, F inner room (t :: ts) = G inner room (t :: ts))
    (hneeds : Needs units used G) (hextends : Extends units used F []) :
    Settled units used F before (t :: ts) := by
  have hreads {consumed : List Token} {a : α} {u : Token}
      (hread : Reads units used G (t :: consumed) a u) :
      Reads units used F (t :: consumed) a u :=
    fun inner room rest hample => (h inner room _).trans (hread inner room rest hample)
  cases hG with
  | faults hne fault hfaults =>
      exact .faults hne fault fun inner room hample =>
        (h inner room ts).trans (hfaults inner room hample)
  | @reads consumed rest a next hts hend hread =>
      cases consumed with
      | nil => exact absurd (fun stop hstop => hread stop (.inr hstop)) (hneeds.not_reads a)
      | cons u consumed =>
          cases hts
          exact .reads (t :: consumed) rfl hend fun v hv => hreads (hread v hv)
  | @stuck front rest u f hts hblames hfails hextends' =>
      cases front with
      | nil =>
          cases hts
          refine .stuck [] rfl hblames (fun inner room rest hample => ?_) hextends
          exact (h inner room rest).trans (hfails inner room rest hample)
      | cons v front =>
          cases hts
          refine .stuck (t :: front) rfl hblames (fun inner room rest hample => ?_) ?_
          · exact (h inner room _).trans (hfails inner room rest hample)
          · obtain ⟨more, a, hmore⟩ := hextends'
            exact ⟨more, a, fun w hw => hreads (hmore w hw)⟩

end Parts

end ExprReader

end Reckoner
