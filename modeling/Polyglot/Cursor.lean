import Polyglot.Scanner

/-!
A cursor stands between two tokens of a template. Tokens may be looked at before they are taken;
those wait in `ahead`. Reading from a cursor gives a result or an error and in both cases the
cursor to go on from, which never has more left to read. That bound is part of the type, so that a
reader that takes a token before it calls itself is seen to end.
-/
namespace Polyglot

/-- `line` is the line of the last token taken. -/
structure Cursor where
  ahead : List Token
  scanner : Scanner
  line : Nat

namespace Cursor

def ofTemplate (source : String) (trims : Bool) : Cursor := ⟨[], .ofTemplate source trims, 1⟩

def ofExpression (source : String) : Cursor := ⟨[], .ofExpression source, 1⟩

/-- A bound on the tokens that are left. -/
def size (s : Cursor) : Nat := s.ahead.length + s.scanner.rest.length

/-- The line of the next token if it is known, else of the last one taken. -/
def here (s : Cursor) : Nat :=
  match s.ahead with
  | token :: _ => token.line
  | [] => s.line

end Cursor

structure Reading (s : Cursor) (α : Type) where
  result : Except Error α
  rest : Cursor
  size_le : rest.size ≤ s.size

namespace Reading

variable {α β : Type}

def done (s : Cursor) (a : α) : Reading s α := ⟨.ok a, s, Nat.le_refl _⟩

def fail (s : Cursor) (e : Error) : Reading s α := ⟨.error e, s, Nat.le_refl _⟩

/-- Fails at a given line. -/
def refuse (s : Cursor) (fault : Fault) (line : Nat) : Reading s α := fail s (.malformed fault line)

/-- The same reading, seen from a cursor further back. -/
def after {s t : Cursor} (h : t.size ≤ s.size) (r : Reading t α) : Reading s α :=
  ⟨r.result, r.rest, Nat.le_trans r.size_le h⟩

/-- Goes on after a success, knowing what was read. -/
def bind {s : Cursor} (r : Reading s α) (next : (a : α) → r.result = .ok a → Reading r.rest β) :
    Reading s β :=
  match h : r.result with
  | .ok a => (next a h).after r.size_le
  | .error e => ⟨.error e, r.rest, r.size_le⟩

/-- Goes on after a success. -/
def andThen {s : Cursor} (r : Reading s α)
    (next : (a : α) → (t : Cursor) → t.size ≤ s.size → Reading t β) : Reading s β :=
  r.bind fun a _ => next a r.rest r.size_le

def map {s : Cursor} (f : α → β) (r : Reading s α) : Reading s β :=
  ⟨r.result.map f, r.rest, r.size_le⟩

theorem bind_of_ok {s : Cursor} {r : Reading s α} {a : α} (h : r.result = .ok a)
    (next : (a : α) → r.result = .ok a → Reading r.rest β) :
    r.bind next = (next a h).after r.size_le := by
  unfold bind
  split
  · next b hb => cases hb.symm.trans h; rfl
  · next e he => cases he.symm.trans h

theorem bind_of_error {s : Cursor} {r : Reading s α} {e : Error} (h : r.result = .error e)
    (next : (a : α) → r.result = .ok a → Reading r.rest β) :
    r.bind next = ⟨.error e, r.rest, r.size_le⟩ := by
  unfold bind
  split
  · next b hb => cases hb.symm.trans h
  · next d hd => cases hd.symm.trans h; rfl

theorem andThen_of_ok {s : Cursor} {r : Reading s α} {a : α} (h : r.result = .ok a)
    (next : (a : α) → (t : Cursor) → t.size ≤ s.size → Reading t β) :
    r.andThen next = (next a r.rest r.size_le).after r.size_le :=
  bind_of_ok h _

theorem andThen_of_error {s : Cursor} {r : Reading s α} {e : Error} (h : r.result = .error e)
    (next : (a : α) → (t : Cursor) → t.size ≤ s.size → Reading t β) :
    r.andThen next = ⟨.error e, r.rest, r.size_le⟩ :=
  bind_of_error h _

end Reading

namespace Cursor

variable {α β : Type}

/-- Looks at up to `n` more tokens. -/
def fetch : Nat → Cursor → Except Error Unit × Cursor
  | 0, s => (.ok (), s)
  | n + 1, s =>
    match s.scanner.next with
    | (.ok (some token), t) => fetch n { s with ahead := s.ahead ++ [token], scanner := t }
    | (.ok none, t) => (.ok (), { s with scanner := t })
    | (.error e, t) => (.error e, { s with scanner := t })

theorem size_fetch_le (n : Nat) (s : Cursor) : (fetch n s).2.size ≤ s.size := by
  induction n generalizing s with
  | zero => exact Nat.le_refl _
  | succ n ih =>
    have hle := Scanner.length_next_le s.scanner
    unfold fetch
    split
    · next hn =>
      have hlt := Scanner.length_next_lt hn
      refine Nat.le_trans (ih _) ?_
      simp only [size, List.length_append, List.length_cons, List.length_nil]
      omega
    · next hn => simp only [size, hn] at hle ⊢; omega
    · next hn => simp only [size, hn] at hle ⊢; omega

/-- The token `n` places ahead, or nothing if the template ends before it. -/
def peek (s : Cursor) (n : Nat) : Reading s (Option Token) :=
  let r := fetch (n + 1 - s.ahead.length) s
  ⟨r.1.map fun _ => r.2.ahead[n]?, r.2, size_fetch_le _ s⟩

/-- Moves past the next token. -/
def step (s : Cursor) : Except Error Token × Cursor :=
  match s.ahead with
  | token :: ahead => (.ok token, ⟨ahead, s.scanner, token.line⟩)
  | [] =>
    match s.scanner.next with
    | (.ok (some token), t) => (.ok token, ⟨[], t, token.line⟩)
    | (.ok none, t) => (.error (.malformed .endOfTemplate s.line), ⟨[], t, s.line⟩)
    | (.error e, t) => (.error e, ⟨[], t, s.line⟩)

theorem size_step_lt {s : Cursor} {token : Token} (h : s.step.1 = .ok token) :
    s.step.2.size < s.size := by
  unfold step at h ⊢
  split at h
  · next ha => simp [size, ha]
  · next ha =>
    split at h
    · next hn =>
      have := Scanner.length_next_lt hn
      simp only [size, ha]
      omega
    · cases h
    · cases h

theorem size_step_le (s : Cursor) : s.step.2.size ≤ s.size := by
  have hle := Scanner.length_next_le s.scanner
  unfold step
  split
  · next ha => simp [size, ha]
  · next ha => split <;> next hn => simp only [size, ha, hn] at hle ⊢; omega

/-- Takes the next token. -/
def next (s : Cursor) : Reading s Token := ⟨s.step.1, s.step.2, size_step_le s⟩

/-- Takes the next token and goes on with strictly less to read. -/
def take (s : Cursor) (k : (token : Token) → (t : Cursor) → t.size < s.size → Reading t β) :
    Reading s β :=
  s.next.bind fun token h => k token s.next.rest (size_step_lt h)

/-- Takes the next token if it is of a wanted kind, and goes on in one of two ways. -/
def choose (s : Cursor) (wanted : Lexeme → Option α)
    (yes : (a : α) → (t : Cursor) → t.size < s.size → Reading t β)
    (no : (t : Cursor) → t.size ≤ s.size → Reading t β) : Reading s β :=
  (s.peek 0).andThen fun token? t h =>
    match token?.bind fun token => wanted token.lexeme with
    | some a => t.take fun _ u hu => yes a u (Nat.lt_of_lt_of_le hu h)
    | none => no t h

/-- Whether the next token is a given lexeme; it is not taken. -/
def sees (s : Cursor) (x : Lexeme) : Reading s Bool :=
  (s.peek 0).map fun token? => token?.any (·.lexeme == x)

/-- Takes the next token, which must be a given lexeme. -/
def expect (s : Cursor) (x : Lexeme) : Reading s Token :=
  s.next.andThen fun token t _ =>
    if token.lexeme = x then .done t token
    else .refuse t (.expectedLexeme token.lexeme x) token.line

/-- Takes the next token, which must be a name, and goes on with strictly less to read. -/
def takeName (s : Cursor) (k : (n : String) → (t : Cursor) → t.size < s.size → Reading t β) :
    Reading s β :=
  s.take fun token t ht =>
    match token.lexeme with
    | .name n => k n t ht
    | x => .refuse t (.expectedName x) token.line

/-- Takes the next token, which must be a name. -/
def name (s : Cursor) : Reading s String := s.takeName fun n t _ => .done t n

/-- The name of the tag whose opening delimiter was taken last; the name is not taken. -/
def tagName (s : Cursor) : Reading s String :=
  (s.peek 0).andThen fun token? t _ =>
    match token? with
    | none => .refuse t .endOfTemplate t.line
    | some ⟨.name n, _⟩ => .done t n
    | some ⟨_, line⟩ => .refuse t .expectedTagName line

/-- Takes text up to the tag of a given name without looking for tokens in it. This has to happen
before any token of that text was looked at. -/
def raw (s : Cursor) (name : String) : Reading s String :=
  if s.ahead.isEmpty then
    let r := s.scanner.rawUntil name
    match r.1 with
    | some text => ⟨.ok text, ⟨s.ahead, r.2, r.2.line⟩, by
        simpa [size] using Scanner.length_rawUntil_le s.scanner name⟩
    | none => .refuse s (.endOfRawSection name) s.line
  else .refuse s .rawSectionTooLate s.here

end Cursor

end Polyglot
