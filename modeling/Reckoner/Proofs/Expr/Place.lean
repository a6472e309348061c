import Reckoner.Proofs.Expr.Steady
import Reckoner.Proofs.Token.Split

/-!
# Reckoner.Proofs.Expr.Place -- what is reported of a line lies in it

The tokens of a typed line have places in it, or just behind its last character, where the end mark
stands at the latest; so what is reported of them does too. A character that starts no token is
itself one of the line.
-/

namespace Reckoner

/-- What can be reported of a line of some length by those who read it. -/
inductive Error.OfLine (length : Nat) : Error → Prop
  | nothingEntered : OfLine length .nothingEntered
  | unexpectedCharacter (c : Char) {place : Nat} (h : place < length) :
    OfLine length (.unexpectedCharacter c place)
  | misplaced (why : Misplacement) {place : Nat} (h : place ≤ length) :
    OfLine length (.misplaced why place)
  | tooDeep (limit : Nat) : OfLine length (.tooDeep limit)

theorem Error.OfReader.ofLine {length : Nat} {e : Error} (h : e.OfReader (· ≤ length)) :
    e.OfLine length := by
  cases h with
  | misplaced why hplace => exact .misplaced why hplace
  | tooDeep limit => exact .tooDeep limit

/-- A source stops just behind one of its characters. -/
theorem Source.stop_le {marks : List Mark} {length : Nat} (typed : String) (hne : marks ≠ [])
    (h : ∀ o ∈ marks.map (·.origin), o < length) : (ofMarks marks typed).stop ≤ length := by
  have hnil : marks.map (·.origin) ≠ [] := by simpa using hne
  have hlast : (ofMarks marks typed).offsets.getLast? =
      some ((marks.map (·.origin)).getLast hnil) := List.getLast?_eq_some_getLast hnil
  rw [stop, hlast]
  exact h _ (List.getLast_mem hnil)

namespace Token

/-- **What a scan calls a number is a numeral**, whatever source it is given. -/
theorem numeral_of_ofSource {units : List String} {source : Source} {ts : List Token}
    (h : ofSource units source = .ok ts) {t : Token} (ht : t ∈ ts) (hkind : t.kind = .number) :
    ∃ x, Number.numeral? t.lexeme = some x := by
  obtain ⟨front, hsplit, rfl⟩ := ofSource_ok.mp h
  rcases List.mem_append.mp ht with ht | ht
  · exact (hsplit.readable ht).2 hkind
  · rw [List.mem_singleton.mp ht] at hkind
    cases hkind

/-- The tokens of a source have an end mark behind them, and no other. -/
theorem ended_of_ofSource {units : List String} {source : Source} {ts : List Token}
    (h : ofSource units source = .ok ts) : Ended ts := by
  obtain ⟨front, hsplit, rfl⟩ := ofSource_ok.mp h
  exact ⟨front, _, rfl, rfl, fun t ht => (hsplit.readable ht).1⟩

variable {units : List String} {typed : String} {ts : List Token} {marks : List Mark}
  {length : Nat} (hmarks : ∀ o ∈ marks.map (·.origin), o < length)

include hmarks

/-- Tokens of a source can be read, and their places lie in it or just behind it. -/
theorem readable_of_ofSource (hne : marks ≠ [])
    (h : ofSource units (.ofMarks marks typed) = .ok ts) :
    Readable (· ≤ length) (fun _ => False) ts := by
  obtain ⟨front, hsplit, rfl⟩ := ofSource_ofMarks.mp h
  refine ⟨⟨_, List.mem_append_right front (List.mem_singleton_self _), rfl⟩, ?_, ?_⟩
  · intro t ht hnumber hnone
    obtain ⟨x, hx⟩ := numeral_of_ofSource h ht hnumber
    rw [hnone] at hx
    cases hx
  · intro t ht
    rcases List.mem_append.mp ht with ht | ht
    · exact Nat.le_of_lt (hmarks _ (hsplit.place_mem t ht))
    · rw [List.mem_singleton.mp ht]
      exact Source.stop_le typed hne hmarks

/-- A source that is not split into tokens has a character to report. -/
theorem ofSource_error {e : Error} (h : ofSource units (.ofMarks marks typed) = .error e) :
    e.OfLine length := by
  unfold ofSource at h
  simp only [Source.marks_ofMarks] at h
  cases hscan : scanFrom units 0 (marks.map (·.char)) (marks.map (·.origin)) with
  | ok front =>
      rw [hscan] at h
      cases h
  | error e' =>
      rw [hscan] at h
      cases h
      obtain ⟨c, o, rfl, ho⟩ := scanFrom_error hscan
      exact .unexpectedCharacter c (hmarks o ho)

omit hmarks

/-- A line that is not split into tokens is empty, or there is a character in it to report. -/
theorem ofTyped_error {e : Error} (h : ofTyped units typed = .error e) :
    e.OfLine typed.toList.length := by
  have hwithin := (Source.spelledOut_within units typed).origins
  rw [ofTyped, Source.ofTyped] at h
  cases hmarks : Source.spelledOut units typed with
  | nil =>
      rw [hmarks] at h
      cases h
      exact .nothingEntered
  | cons m ms =>
      rw [hmarks] at h hwithin
      exact ofSource_error hwithin h

end Token

namespace Statement

variable {units : List String} {limit : Nat}

/-- **A typed line is read without a fault**, and what is reported of it lies in the line. -/
theorem ofTyped_failsWith (typed : String) :
    FailsWith (·.OfLine typed.toList.length) (ofTyped units limit typed) := by
  have htokens : FailsWith (·.OfLine typed.toList.length) (orError (Token.ofTyped units typed)) :=
    orError_failsWith fun e he => Token.ofTyped_error he
  refine htokens.bind fun ts hts => ?_
  obtain ⟨hne, hsource⟩ := Token.ofTyped_ok (orError_eq_ok.mp hts)
  have hreadable := Token.readable_of_ofSource
    (Source.spelledOut_within units typed).origins hne hsource
  intro f hf
  obtain ⟨e, rfl, he⟩ := ofTokens_failsWith hreadable f hf
  exact ⟨e, rfl, he.ofLine⟩

end Statement

end Reckoner
