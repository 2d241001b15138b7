import Polyglot.Entries
import Polyglot.Scalar

/-!
Values are what names are bound to and expressions evaluate to. Equality is structural; maps are
equal if their lists of entries are.
-/
namespace Polyglot

inductive Value where
  | scalar (a : Scalar)
  | list (items : List Value)
  | map (entries : List (String × Value))

namespace Value

@[match_pattern] abbrev text (s : String) : Value := scalar (.text s)

@[match_pattern] abbrev int (i : Integer) : Value := scalar (.int i)

@[match_pattern] abbrev bool (b : Bool) : Value := scalar (.bool b)

@[match_pattern] abbrev null : Value := scalar .null

mutual

def decEq : (a b : Value) → Decidable (a = b)
  | scalar a, scalar b => decidable_of_iff (a = b) (by simp)
  | scalar _, list _ => isFalse (by simp)
  | scalar _, map _ => isFalse (by simp)
  | list _, scalar _ => isFalse (by simp)
  | list as, list bs =>
    have := decEqItems as bs
    decidable_of_iff (as = bs) (by simp)
  | list _, map _ => isFalse (by simp)
  | map _, scalar _ => isFalse (by simp)
  | map _, list _ => isFalse (by simp)
  | map as, map bs =>
    have := decEqEntries as bs
    decidable_of_iff (as = bs) (by simp)

def decEqItems : (as bs : List Value) → Decidable (as = bs)
  | [], [] => isTrue rfl
  | [], _ :: _ => isFalse (by simp)
  | _ :: _, [] => isFalse (by simp)
  | a :: as, b :: bs =>
    have := decEq a b
    have := decEqItems as bs
    decidable_of_iff (a = b ∧ as = bs) (by simp)

def decEqEntries : (as bs : List (String × Value)) → Decidable (as = bs)
  | [], [] => isTrue rfl
  | [], _ :: _ => isFalse (by simp)
  | _ :: _, [] => isFalse (by simp)
  | (m, a) :: as, (n, b) :: bs =>
    have := decEq a b
    have := decEqEntries as bs
    decidable_of_iff (m = n ∧ a = b ∧ as = bs) (by simp [and_assoc])

end

instance : DecidableEq Value := decEq

/-- Lists and maps hold unless they are empty. -/
def holds : Value → Bool
  | scalar a => a.holds
  | list items => !items.isEmpty
  | map entries => !entries.isEmpty

/-- The printed form; lists and maps have none. -/
def printed? : Value → Option String
  | scalar a => some a.printed
  | list _ => none
  | map _ => none

mutual

/-- The form in which error messages show a value. The entries of a map are shown as they are
listed; the language leaves their order open. -/
def described : Value → String
  | scalar a => a.described
  | list items => "Array([" ++ ", ".intercalate (describedItems items) ++ "])"
  | map entries => "Map(\x7b" ++ ", ".intercalate (describedEntries entries) ++ "\x7d)"

def describedItems : List Value → List String
  | [] => []
  | a :: rest => described a :: describedItems rest

def describedEntries : List (String × Value) → List String
  | [] => []
  | (key, a) :: rest => (Diagnostic.text key ++ ": " ++ described a) :: describedEntries rest

end

end Value

end Polyglot
