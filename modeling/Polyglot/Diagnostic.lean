import Polyglot.CharClass.Extending
import Polyglot.CharClass.Unprintable

/-!
Text as error messages quote it: the quote in use, the backslash and the common control characters
are escaped by a letter, and every character that cannot be shown, or that would combine with the
one before it, by its code point.
-/
namespace Polyglot.Diagnostic

def isShown (c : Char) : Bool :=
  !CharClass.extending.has c && !CharClass.unprintable.has c

def codePoint (c : Char) : List Char :=
  "\\u\x7b".toList ++ Nat.toDigits 16 c.toNat ++ ['\x7d']

def escape (quote c : Char) : List Char :=
  if c = '\x00' then ['\\', '0']
  else if c = '\t' then ['\\', 't']
  else if c = '\r' then ['\\', 'r']
  else if c = '\n' then ['\\', 'n']
  else if c = '\\' ∨ c = quote then ['\\', c]
  else if isShown c then [c]
  else codePoint c

/-- A text in double quotes. -/
def text (s : String) : String :=
  String.ofList ('"' :: s.toList.flatMap (escape '"') ++ ['"'])

/-- A character in single quotes. -/
def char (c : Char) : String :=
  String.ofList ('\'' :: escape '\'' c ++ ['\''])

end Polyglot.Diagnostic
