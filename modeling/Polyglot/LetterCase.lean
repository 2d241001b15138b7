import Polyglot.CharClass.Cased
import Polyglot.LetterCase.Table

/-!
Upper and lower case of a text by the full mappings, which may lengthen it. Every character is
mapped on its own, except that a capital sigma at the end of a word has a lower case of its own.
-/
namespace Polyglot.LetterCase

def Run.has (r : Run) (n : Nat) : Bool :=
  r.first ≤ n && n ≤ r.last && (n - r.first) % r.step == 0

def Run.apply (r : Run) (n : Nat) : Nat := (n + r.offset).toNat

/-- The image of one character under a table of expansions and a table of runs. -/
def image (expansions : Expansions) (runs : List Run) (c : Char) : List Char :=
  match expansions.lookup c.toNat with
  | some ns => ns.map Char.ofNat
  | none =>
    match runs.find? (·.has c.toNat) with
    | some r => [Char.ofNat (r.apply c.toNat)]
    | none => [c]

def upperChar : Char → List Char := image upperExpansions upperRuns

def lowerChar : Char → List Char := image lowerExpansions lowerRuns

/-- Whether the first character that is not ignorable for case is cased. -/
def meetsCased (cs : List Char) : Bool :=
  match cs.dropWhile CharClass.caseIgnorable.has with
  | [] => false
  | c :: _ => CharClass.cased.has c

/-- The lower case of the characters after those in `before`, which come nearest first. -/
def lowerFrom (before : List Char) : List Char → List Char
  | [] => []
  | c :: rest =>
    let mapped :=
      if c = 'Σ' then
        if meetsCased before && !meetsCased rest then ['ς'] else ['σ']
      else lowerChar c
    mapped ++ lowerFrom (c :: before) rest

def upper (s : String) : String := String.ofList (s.toList.flatMap upperChar)

def lower (s : String) : String := String.ofList (lowerFrom [] s.toList)

end Polyglot.LetterCase
