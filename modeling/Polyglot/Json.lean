import Polyglot.Json.Word

/-!
JSON texts as values. What a number is and what a text without a string was is not kept, because
nothing here asks for it; the entries of an object keep their order and their repetitions.
-/
namespace Polyglot

inductive Json where
  | null
  | bool (b : Bool)
  | number
  | text (s : Option String)
  | array (items : List Json)
  | object (entries : List (Option String × Json))

namespace Json

abbrev Rest (ws : List Word) := { rest : List Word // rest.length < ws.length }

/-- The same rest, seen from a list of more words. -/
def Rest.of {ws more : List Word} (h : ws.length < more.length) (rest : Rest ws) : Rest more :=
  ⟨rest.1, Nat.lt_trans rest.2 h⟩

mutual

/-- The value at the start of a list of words. -/
def value? (ws : List Word) : Option (Json × Rest ws) :=
  match ws with
  | .null :: rest => some (null, ⟨rest, Nat.lt_succ_self _⟩)
  | .bool b :: rest => some (bool b, ⟨rest, Nat.lt_succ_self _⟩)
  | .number :: rest => some (number, ⟨rest, Nat.lt_succ_self _⟩)
  | .text s :: rest => some (text s, ⟨rest, Nat.lt_succ_self _⟩)
  | .openBracket :: .closeBracket :: rest =>
    some (array [], ⟨rest, Nat.lt_succ_of_lt (Nat.lt_succ_self _)⟩)
  | .openBracket :: rest => (items? rest).map fun r => (array r.1, r.2.of (Nat.lt_succ_self _))
  | .openBrace :: .closeBrace :: rest =>
    some (object [], ⟨rest, Nat.lt_succ_of_lt (Nat.lt_succ_self _)⟩)
  | .openBrace :: rest => (entries? rest).map fun r => (object r.1, r.2.of (Nat.lt_succ_self _))
  | _ => none
termination_by 2 * ws.length

/-- The items of an array up to its closing mark. -/
def items? (ws : List Word) : Option (List Json × Rest ws) :=
  match value? ws with
  | some (item, ⟨.comma :: rest, h⟩) =>
    (items? rest).map fun r => (item :: r.1, r.2.of (by simp only [List.length_cons] at h; omega))
  | some (item, ⟨.closeBracket :: rest, h⟩) =>
    some ([item], ⟨rest, by simp only [List.length_cons] at h; omega⟩)
  | _ => none
termination_by 2 * ws.length + 1
decreasing_by all_goals ((try simp only [List.length_cons] at h); omega)

/-- The entries of an object up to its closing mark. -/
def entries? (ws : List Word) : Option (List (Option String × Json) × Rest ws) :=
  match ws with
  | .text key :: .colon :: ws =>
    match value? ws with
    | some (item, ⟨.comma :: rest, h⟩) =>
      (entries? rest).map fun r =>
        ((key, item) :: r.1, r.2.of (by simp only [List.length_cons] at h ⊢; omega))
    | some (item, ⟨.closeBrace :: rest, h⟩) =>
      some ([(key, item)], ⟨rest, by simp only [List.length_cons] at h ⊢; omega⟩)
    | _ => none
  | _ => none
termination_by 2 * ws.length + 1
decreasing_by
  all_goals
    (try simp only [List.length_cons] at h)
    simp only [List.length_cons]
    omega

end

/-- The value of a whole text. -/
def ofText? (source : String) : Option Json := do
  let ws ← Word.words? source.toList
  let (value, rest) ← value? ws
  if rest.1.isEmpty then some value else none

end Json

end Polyglot
