/-!
# Reckoner.Ledger -- named entries in the order of their first writing

A ledger keeps one entry for each name. Writing under a name that is there already replaces the
entry where it stands; a new name goes to the end. This order is the one in which entries are
listed.
-/

namespace Reckoner

/-- Entries under names, listed in the order in which the names first came. -/
structure Ledger (α : Type) where
  entries : List (String × α)

namespace Ledger

variable {α : Type}

/-- The ledger without entries. -/
def empty : Ledger α := ⟨[]⟩

/-- The first entry under a name. -/
def findIn (name : String) : List (String × α) → Option α
  | [] => none
  | entry :: rest => if entry.1 = name then some entry.2 else findIn name rest

/-- The entry under a name. -/
def find? (l : Ledger α) (name : String) : Option α := findIn name l.entries

/-- The names, in order. -/
def names (l : Ledger α) : List String := l.entries.map (·.1)

/-- Whether there is an entry under a name. -/
def has (l : Ledger α) (name : String) : Bool := l.names.contains name

/-- Replaces the entry under a name in its place, or adds one at the end. -/
def putIn (name : String) (a : α) : List (String × α) → List (String × α)
  | [] => [(name, a)]
  | entry :: rest => if entry.1 = name then (name, a) :: rest else entry :: putIn name a rest

/-- Writes an entry under a name. -/
def put (l : Ledger α) (name : String) (a : α) : Ledger α := ⟨putIn name a l.entries⟩

/-- Removes the entry under a name. -/
def remove (l : Ledger α) (name : String) : Ledger α := ⟨l.entries.filter (·.1 != name)⟩

/-- Writes entries one after the other. -/
def ofList (entries : List (String × α)) : Ledger α :=
  entries.foldl (fun l e => l.put e.1 e.2) empty

theorem findIn_putIn (name : String) (a : α) (entries : List (String × α)) (other : String) :
    findIn other (putIn name a entries) =
      if name = other then some a else findIn other entries := by
  induction entries with
  | nil => simp [putIn, findIn]
  | cons entry rest ih =>
    by_cases hn : entry.1 = name
    · subst hn
      by_cases ho : entry.1 = other <;> simp [putIn, findIn, ho]
    · by_cases ho : entry.1 = other
      · subst ho
        simp [putIn, findIn, hn, Ne.symm hn]
      · simp [putIn, findIn, hn, ho, ih]

/-- What is found under a name is an entry. -/
theorem mem_of_findIn {name : String} {entries : List (String × α)} {a : α}
    (h : findIn name entries = some a) : (name, a) ∈ entries := by
  induction entries with
  | nil => cases h
  | cons entry rest ih =>
    rw [findIn] at h
    split at h
    · next heq =>
      injection h with h
      subst heq h
      exact List.mem_cons_self
    · exact List.mem_cons_of_mem _ (ih h)

/-- What was written under a name is found there, and nothing else has changed. -/
theorem find?_put (l : Ledger α) (name : String) (a : α) (other : String) :
    (l.put name a).find? other = if name = other then some a else l.find? other :=
  findIn_putIn name a l.entries other

theorem names_putIn (name : String) (a : α) (entries : List (String × α)) :
    (putIn name a entries).map (·.1) =
      if name ∈ entries.map (·.1) then entries.map (·.1) else entries.map (·.1) ++ [name] := by
  induction entries with
  | nil => simp [putIn]
  | cons entry rest ih =>
    by_cases hn : entry.1 = name
    · subst hn; simp [putIn]
    · have hn' : ¬ name = entry.1 := fun h => hn h.symm
      by_cases h : name ∈ rest.map (·.1) <;> simp_all [putIn]

/-- A name keeps its place; a new one goes last. -/
theorem names_put (l : Ledger α) (name : String) (a : α) :
    (l.put name a).names = if name ∈ l.names then l.names else l.names ++ [name] :=
  names_putIn name a l.entries

theorem putIn_putIn (name : String) (a b : α) (entries : List (String × α)) :
    putIn name b (putIn name a entries) = putIn name b entries := by
  induction entries with
  | nil => simp [putIn]
  | cons entry rest ih => by_cases hn : entry.1 = name <;> simp [putIn, hn, ih]

/-- What is written over leaves no trace. -/
theorem put_put (l : Ledger α) (name : String) (a b : α) :
    (l.put name a).put name b = l.put name b := by
  rw [put, put, put, putIn_putIn]

end Ledger

end Reckoner
