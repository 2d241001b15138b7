/-!
Blank space inside tags is the Unicode property White_Space. Text is handled as a list of
characters; dropping from both ends is stated for any class of characters, because messages are
trimmed by a smaller class than tags are.
-/
namespace Polyglot.Blank

/-- The characters with the property White_Space. -/
def isBlank (c : Char) : Bool :=
  let n := c.toNat
  (9 ≤ n && n ≤ 13) || n == 32 || n == 133 || n == 160 || n == 5760 ||
    (8192 ≤ n && n ≤ 8202) || n == 8232 || n == 8233 || n == 8239 || n == 8287 || n == 12288

/-- Drops the characters of a class from the end. -/
def dropTrailing (p : Char → Bool) (cs : List Char) : List Char :=
  (cs.reverse.dropWhile p).reverse

/-- Drops the characters of a class from both ends. -/
def trim (p : Char → Bool) (cs : List Char) : List Char :=
  dropTrailing p (cs.dropWhile p)

/-- The number of line feeds in a text, which is how many lines further on it ends. -/
def lineBreaks (cs : List Char) : Nat := cs.count '\n'

theorem lineBreaks_append (as bs : List Char) :
    lineBreaks (as ++ bs) = lineBreaks as + lineBreaks bs := by
  simp [lineBreaks]

end Polyglot.Blank
