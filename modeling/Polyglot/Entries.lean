/-!
Finite maps from names, kept as lists. An entry is put in by the order of the names, and replaces an
earlier one for the same name. The language gives the entries of a map no order; where all of them
are gone through, the order of the list stands for whichever order that is, and what depends on it,
such as the text of an error, is meant up to it.
-/
namespace Polyglot

abbrev Entries (α : Type) := List (String × α)

namespace Entries

variable {α : Type}

def get? (name : String) : Entries α → Option α
  | [] => none
  | (n, a) :: rest => if n = name then some a else get? name rest

def insert (name : String) (a : α) : Entries α → Entries α
  | [] => [(name, a)]
  | (n, b) :: rest =>
    if name = n then (name, a) :: rest
    else if name < n then (name, a) :: (n, b) :: rest
    else (n, b) :: insert name a rest

def ofList (es : List (String × α)) : Entries α :=
  es.foldl (fun acc e => acc.insert e.1 e.2) []

theorem get?_insert_self (name : String) (a : α) (es : Entries α) :
    (es.insert name a).get? name = some a := by
  induction es with
  | nil => simp [insert, get?]
  | cons e es ih =>
    obtain ⟨n, b⟩ := e
    unfold insert
    split
    · simp [get?]
    · split
      · simp [get?]
      · next h _ => simp [get?, Ne.symm h, ih]

theorem get?_insert_of_ne {name other : String} (h : other ≠ name) (a : α) (es : Entries α) :
    (es.insert name a).get? other = es.get? other := by
  induction es with
  | nil => simp [insert, get?, h.symm]
  | cons e es ih =>
    obtain ⟨n, b⟩ := e
    unfold insert
    split
    · next hn => simp [get?, ← hn, h.symm]
    · split
      · simp [get?, h.symm]
      · simp [get?, ih]

end Entries

end Polyglot
