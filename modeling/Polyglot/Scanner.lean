import Polyglot.Blank
import Polyglot.Error

/-!
The scanner cuts a template into tokens. Outside tags it looks for the next opening delimiter;
inside tags it skips blank space and counts open braces, so that two closing braces end a print
only when no map is open. A step that fails moves the scanner no further than to the character it
failed at, so it fails again in the same way.
-/
namespace Polyglot

inductive Mode where
  | text
  | tag (openBraces : Nat)
  deriving DecidableEq

/-- The mode after a lexeme. -/
def Mode.after : Mode → Lexeme → Mode
  | _, .blockStart => tag 0
  | _, .printStart => tag 0
  | _, .blockEnd => text
  | _, .printEnd => text
  | tag n, .symbol .openBrace => tag (n + 1)
  | tag n, .symbol .closeBrace => tag (n - 1)
  | m, _ => m

/-- The part of a template that is still to be read. With `trims`, the line break right after the
end of a block does not count as text. -/
structure Scanner where
  rest : List Char
  line : Nat
  mode : Mode
  trims : Bool

namespace Scanner

def isNameStart (c : Char) : Bool := c.isAlpha || c == '_'

def isNameChar (c : Char) : Bool := c.isAlphanum || c == '_'

def ofTemplate (source : String) (trims : Bool) : Scanner := ⟨source.toList, 1, .text, trims⟩

/-- A scanner for an expression that stands alone. -/
def ofExpression (source : String) : Scanner := ⟨source.toList, 1, .tag 0, false⟩

/-- Moves past the next `n` characters. -/
def advance (s : Scanner) (n : Nat) : Scanner :=
  { s with rest := s.rest.drop n, line := s.line + Blank.lineBreaks (s.rest.take n) }

def skipBlank (s : Scanner) : Scanner := s.advance (s.rest.takeWhile Blank.isBlank).length

/-- The text up to the next opening delimiter. -/
def plain : List Char → List Char
  | [] => []
  | '\x7b' :: '%' :: _ => []
  | '\x7b' :: '\x7b' :: _ => []
  | c :: rest => c :: plain rest

/-- The lexeme at the start of a text outside tags, with its length. -/
def textLexeme : List Char → Lexeme × Nat
  | '\x7b' :: '%' :: _ => (.blockStart, 2)
  | '\x7b' :: '\x7b' :: _ => (.printStart, 2)
  | cs => (.text (String.ofList (plain cs)), (plain cs).length)

/-- The literal, number or name that starts with the character `c`. -/
def wordLexeme (c : Char) (rest : List Char) : Except Fault (Lexeme × Nat) :=
  if c = '\'' ∨ c = '"' then
    match Literal.scan c rest with
    | some (value, n) => .ok (.str (String.ofList value), n + 1)
    | none => .error .unterminatedString
  else if c.isDigit then
    let digits := c :: rest.takeWhile Char.isDigit
    match Integer.ofInt? (Decimal.ofDigits digits) with
    | some i => .ok (.int i, digits.length)
    | none => .error (.numberTooLarge (String.ofList digits))
  else if isNameStart c then
    let letters := c :: rest.takeWhile isNameChar
    .ok (.name (String.ofList letters), letters.length)
  else .error (.strayCharacter c)

/-- The lexeme at the start of a text inside a tag with a number of open braces. -/
def tagLexeme (openBraces : Nat) (cs : List Char) : Except Fault (Option (Lexeme × Nat)) :=
  match cs, openBraces with
  | [], _ => .ok none
  | '%' :: '\x7d' :: _, _ => .ok (some (.blockEnd, 2))
  | '\x7d' :: '\x7d' :: _, 0 => .ok (some (.printEnd, 2))
  | c :: rest, _ =>
    match Symbol.leading? (c :: rest) with
    | some y => .ok (some (.symbol y, y.spelled.length))
    | none => (wordLexeme c rest).map some

/-- The length of the line break that a text starts with. -/
def breakLength : List Char → Nat
  | '\n' :: _ => 1
  | '\r' :: '\n' :: _ => 2
  | _ => 0

/-- Takes a lexeme of a given length, and the line break after it if that does not count. -/
def takeLexeme (s : Scanner) (x : Lexeme) (n : Nat) : Token × Scanner :=
  let dropped := if s.trims ∧ x = .blockEnd then breakLength (s.rest.drop n) else 0
  (⟨x, s.line⟩, { s.advance (n + dropped) with mode := s.mode.after x })

/-- The next token, or nothing at the end of the template. -/
def next (s : Scanner) : Except Error (Option Token) × Scanner :=
  match s.mode with
  | .text =>
    if s.rest.isEmpty then (.ok none, s)
    else
      let (x, n) := textLexeme s.rest
      let (token, t) := s.takeLexeme x n
      (.ok (some token), t)
  | .tag openBraces =>
    let s := s.skipBlank
    match tagLexeme openBraces s.rest with
    | .ok none => (.ok none, s)
    | .ok (some (x, n)) =>
      let (token, t) := s.takeLexeme x n
      (.ok (some token), t)
    | .error fault => (.error (.malformed fault s.line), s)

/-- Whether the tag whose opening delimiter stands before a text has a given name. -/
def opensTag (name cs : List Char) : Bool :=
  let inner := cs.dropWhile Blank.isBlank
  name.isPrefixOf inner && !((inner.drop name.length).head?.any isNameChar)

/-- The length of the text before the first tag of a given name. -/
def lengthBefore (name : List Char) : List Char → Option Nat
  | [] => none
  | '\x7b' :: '%' :: rest =>
    if opensTag name rest then some 0 else (lengthBefore name rest).map (· + 2)
  | _ :: rest => (lengthBefore name rest).map (· + 1)

/-- Takes the text before the first tag of a given name as it stands, and the opening delimiter of
that tag. Without such a tag the scanner stays where it is. -/
def rawUntil (s : Scanner) (name : String) : Option String × Scanner :=
  match lengthBefore name.toList s.rest with
  | some n =>
    (some (String.ofList (s.rest.take n)), { s.advance (n + 2) with mode := .tag 0 })
  | none => (none, s)

/-! A token is never empty, and nothing that was read comes back. -/

theorem length_advance (s : Scanner) (n : Nat) :
    (s.advance n).rest.length = s.rest.length - n := by
  simp [advance]

theorem length_skipBlank_le (s : Scanner) : s.skipBlank.rest.length ≤ s.rest.length := by
  simp [skipBlank, length_advance]

theorem textLexeme_pos {cs : List Char} (h : cs.isEmpty = false) : 0 < (textLexeme cs).2 := by
  unfold textLexeme
  split
  · simp
  · simp
  · next hblock hprint =>
    cases cs with
    | nil => simp at h
    | cons c rest =>
      unfold plain
      split <;> simp_all

theorem wordLexeme_pos {c : Char} {rest : List Char} {x : Lexeme} {n : Nat}
    (h : wordLexeme c rest = .ok (x, n)) : 0 < n := by
  unfold wordLexeme at h
  split at h
  · split at h
    · cases h; omega
    · cases h
  · split at h
    · dsimp only at h
      split at h
      · cases h; simp
      · cases h
    · split at h
      · cases h; simp
      · cases h

theorem tagLexeme_pos {b : Nat} {cs : List Char} {x : Lexeme} {n : Nat}
    (h : tagLexeme b cs = .ok (some (x, n))) : 0 < n ∧ cs ≠ [] := by
  unfold tagLexeme at h
  split at h
  · cases h
  · cases h; simp
  · cases h; simp
  · refine ⟨?_, by simp⟩
    split at h
    · next y _ => cases h; cases y <;> decide
    · generalize hw : wordLexeme _ _ = r at h
      cases r with
      | error fault => cases h
      | ok r => cases h; exact wordLexeme_pos hw

theorem length_takeLexeme_lt (s : Scanner) (x : Lexeme) {n : Nat} (hn : 0 < n)
    (hs : s.rest ≠ []) : (s.takeLexeme x n).2.rest.length < s.rest.length := by
  have := List.length_pos_iff.2 hs
  simp only [takeLexeme, length_advance]
  omega

theorem length_next_lt {s t : Scanner} {token : Token} (h : s.next = (.ok (some token), t)) :
    t.rest.length < s.rest.length := by
  unfold next at h
  split at h
  · split at h
    · cases h
    · next hs =>
      have hs : s.rest.isEmpty = false := by simpa using hs
      cases h
      exact length_takeLexeme_lt s _ (textLexeme_pos hs) (by simpa using hs)
  · next b _ =>
    dsimp only at h
    split at h
    · cases h
    · next x n hx =>
      cases h
      obtain ⟨hn, hs⟩ := tagLexeme_pos hx
      exact Nat.lt_of_lt_of_le (length_takeLexeme_lt _ x hn hs) (length_skipBlank_le s)
    · cases h

theorem length_next_le (s : Scanner) : s.next.2.rest.length ≤ s.rest.length := by
  cases h : s.next with
  | mk result t =>
    match result with
    | .ok (some token) => exact Nat.le_of_lt (length_next_lt h)
    | .ok none =>
      unfold next at h
      split at h
      · split at h
        · cases h; exact Nat.le_refl _
        · cases h
      · dsimp only at h
        split at h <;> cases h
        exact length_skipBlank_le s
    | .error e =>
      unfold next at h
      split at h
      · split at h <;> cases h
      · dsimp only at h
        split at h <;> cases h
        exact length_skipBlank_le s

theorem length_rawUntil_le (s : Scanner) (name : String) :
    (s.rawUntil name).2.rest.length ≤ s.rest.length := by
  unfold rawUntil
  split
  · simp [length_advance]
  · exact Nat.le_refl _

end Scanner

end Polyglot
