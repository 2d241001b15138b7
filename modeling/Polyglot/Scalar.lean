import Polyglot.Diagnostic
import Polyglot.Integer
import Polyglot.Literal

/-!
Scalars are the values that have a printed form; as literals they are also expressions. A scalar
has three texts: the one it prints as, the literal that spells it, and the one that error messages
show.
-/
namespace Polyglot

inductive Scalar where
  | text (s : String)
  | int (i : Integer)
  | bool (b : Bool)
  | null
  deriving DecidableEq

namespace Scalar

def boolWord (b : Bool) : String := if b then "true" else "false"

/-- What a print puts into the output; null prints as nothing. -/
def printed : Scalar → String
  | text s => s
  | int i => i.text
  | bool b => boolWord b
  | null => ""

def spelled : Scalar → String
  | text s => Literal.spell s
  | int i => i.text
  | bool b => boolWord b
  | null => "null"

def described : Scalar → String
  | text s => "String(" ++ Diagnostic.text s ++ ")"
  | int i => "Int(" ++ i.text ++ ")"
  | bool b => "Bool(" ++ boolWord b ++ ")"
  | null => "Null"

/-- Only null, false, zero and the empty text do not hold. -/
def holds : Scalar → Bool
  | text s => !s.isEmpty
  | int i => i.value != 0
  | bool b => b
  | null => false

end Scalar

end Polyglot
