/-!
The words of a JSON text: marks, texts, numbers and the three constants. Blank space between words
is dropped. A text is decoded unless it has half of a surrogate pair, in which case there is a text
but no string for it. Numbers are only checked for their form.
-/
namespace Polyglot.Json

inductive Word where
  | openBracket
  | closeBracket
  | openBrace
  | closeBrace
  | comma
  | colon
  | text (s : Option String)
  | number
  | bool (b : Bool)
  | null
  deriving DecidableEq

namespace Word

def hexDigit? (c : Char) : Option Nat :=
  if c.isDigit then some (c.toNat - '0'.toNat)
  else if 'a' ≤ c ∧ c ≤ 'f' then some (c.toNat - 'a'.toNat + 10)
  else if 'A' ≤ c ∧ c ≤ 'F' then some (c.toNat - 'A'.toNat + 10)
  else none

/-- The number that four hexadecimal digits spell. -/
def hex? (a b c d : Char) : Option Nat := do
  let a ← hexDigit? a
  let b ← hexDigit? b
  let c ← hexDigit? c
  let d ← hexDigit? d
  return ((a * 16 + b) * 16 + c) * 16 + d

/-- What a letter stands for after a backslash. -/
def escaped? : Char → Option Char
  | '"' => some '"'
  | '\\' => some '\\'
  | '/' => some '/'
  | 'b' => some '\x08'
  | 'f' => some '\x0c'
  | 'n' => some '\n'
  | 'r' => some '\r'
  | 't' => some '\t'
  | _ => none

/-- The code points and the text after the closing quote. Escaped halves of surrogate pairs count
as code points here. -/
def codePoints? : List Char → Option (List Nat × List Char)
  | [] => none
  | '"' :: rest => some ([], rest)
  | '\\' :: 'u' :: a :: b :: c :: d :: rest => do
    let n ← hex? a b c d
    let (ns, rest) ← codePoints? rest
    return (n :: ns, rest)
  | '\\' :: c :: rest => do
    let c ← escaped? c
    let (ns, rest) ← codePoints? rest
    return (c.toNat :: ns, rest)
  | c :: rest =>
    if c < ' ' then none
    else do
      let (ns, rest) ← codePoints? rest
      return (c.toNat :: ns, rest)

def isHigh (n : Nat) : Bool := 0xd800 ≤ n && n < 0xdc00

def isLow (n : Nat) : Bool := 0xdc00 ≤ n && n < 0xe000

/-- Joins the halves of surrogate pairs; half a pair on its own is no character. -/
def characters? : List Nat → Option (List Char)
  | [] => some []
  | n :: rest =>
    if isHigh n then
      match rest with
      | [] => none
      | m :: rest =>
        if isLow m then
          (characters? rest).map (Char.ofNat (0x10000 + (n - 0xd800) * 0x400 + (m - 0xdc00)) :: ·)
        else none
    else if isLow n then none
    else (characters? rest).map (Char.ofNat n :: ·)

/-- The text after at least one digit. -/
def digits? : List Char → Option (List Char)
  | [] => none
  | c :: rest => if c.isDigit then some (rest.dropWhile Char.isDigit) else none

/-- A leading zero stands alone. -/
def whole? : List Char → Option (List Char)
  | '0' :: rest => if rest.head?.any Char.isDigit then none else some rest
  | cs => digits? cs

def fraction? : List Char → Option (List Char)
  | '.' :: rest => digits? rest
  | cs => some cs

def exponent? : List Char → Option (List Char)
  | c :: rest =>
    if c = 'e' ∨ c = 'E' then
      match rest with
      | '+' :: rest => digits? rest
      | '-' :: rest => digits? rest
      | rest => digits? rest
    else some (c :: rest)
  | [] => some []

def unsigned : List Char → List Char
  | '-' :: rest => rest
  | cs => cs

/-- The text after a number. -/
def number? (cs : List Char) : Option (List Char) := do
  let cs ← whole? (unsigned cs)
  let cs ← fraction? cs
  exponent? cs

def isBlank (c : Char) : Bool := c == ' ' || c == '\t' || c == '\n' || c == '\r'

/-- The first word of a text and the text after it. -/
def first? : List Char → Option (Word × List Char)
  | 't' :: 'r' :: 'u' :: 'e' :: rest => some (bool true, rest)
  | 'f' :: 'a' :: 'l' :: 's' :: 'e' :: rest => some (bool false, rest)
  | 'n' :: 'u' :: 'l' :: 'l' :: rest => some (null, rest)
  | '"' :: rest => do
    let (ns, rest) ← codePoints? rest
    return (text ((characters? ns).map String.ofList), rest)
  | '[' :: rest => some (openBracket, rest)
  | ']' :: rest => some (closeBracket, rest)
  | '\x7b' :: rest => some (openBrace, rest)
  | '\x7d' :: rest => some (closeBrace, rest)
  | ',' :: rest => some (comma, rest)
  | ':' :: rest => some (colon, rest)
  | cs => (number? cs).map fun rest => (number, rest)

theorem length_codePoints?_le {cs rest : List Char} {ns : List Nat}
    (h : codePoints? cs = some (ns, rest)) : rest.length ≤ cs.length := by
  fun_induction codePoints? cs generalizing ns rest with
  | case1 => cases h
  | case2 => cases h; simp
  | case3 a b c d cs ih =>
    simp only [Option.bind_eq_bind, Option.bind_eq_some_iff, Prod.exists] at h
    obtain ⟨_, _, ms, r, hr, h⟩ := h
    have := ih hr
    cases h
    simp only [List.length_cons]
    omega
  | case4 c cs _ ih =>
    simp only [Option.bind_eq_bind, Option.bind_eq_some_iff, Prod.exists] at h
    obtain ⟨_, _, ms, r, hr, h⟩ := h
    have := ih hr
    cases h
    simp only [List.length_cons]
    omega
  | case5 => cases h
  | case6 c cs _ _ _ _ ih =>
    simp only [Option.bind_eq_bind, Option.bind_eq_some_iff, Prod.exists] at h
    obtain ⟨ms, r, hr, h⟩ := h
    have := ih hr
    cases h
    simp only [List.length_cons]
    omega

theorem length_digits?_lt {cs rest : List Char} (h : digits? cs = some rest) :
    rest.length < cs.length := by
  unfold digits? at h
  split at h
  · cases h
  · next c cs =>
    have := (List.dropWhile_suffix (l := cs) Char.isDigit).length_le
    split at h
    · cases h
      simp only [List.length_cons]
      omega
    · cases h

theorem length_number?_lt {cs rest : List Char} (h : number? cs = some rest) :
    rest.length < cs.length := by
  have hunsigned : ∀ cs, (unsigned cs).length ≤ cs.length := by
    intro cs
    unfold unsigned
    split <;> simp
  have hwhole : ∀ {cs rest}, whole? cs = some rest → rest.length < cs.length := by
    intro cs rest h
    unfold whole? at h
    split at h
    · split at h <;> cases h
      simp
    · exact length_digits?_lt h
  have hfraction : ∀ {cs rest}, fraction? cs = some rest → rest.length ≤ cs.length := by
    intro cs rest h
    unfold fraction? at h
    split at h
    · have := length_digits?_lt h
      simp only [List.length_cons]
      omega
    · cases h; exact Nat.le_refl _
  have hexponent : ∀ {cs rest}, exponent? cs = some rest → rest.length ≤ cs.length := by
    intro cs rest h
    unfold exponent? at h
    split at h
    · split at h
      · split at h <;> have := length_digits?_lt h <;> simp only [List.length_cons] <;> omega
      · cases h; exact Nat.le_refl _
    · cases h; exact Nat.le_refl _
  simp only [number?, Option.bind_eq_bind, Option.bind_eq_some_iff] at h
  obtain ⟨a, ha, b, hb, hc⟩ := h
  have := hunsigned cs
  have := hwhole ha
  have := hfraction hb
  have := hexponent hc
  omega

theorem length_first?_lt {cs rest : List Char} {w : Word} (h : first? cs = some (w, rest)) :
    rest.length < cs.length := by
  unfold first? at h
  split at h
  · cases h; simp only [List.length_cons]; omega
  · cases h; simp only [List.length_cons]; omega
  · cases h; simp only [List.length_cons]; omega
  · simp only [Option.bind_eq_bind, Option.bind_eq_some_iff, Prod.exists] at h
    obtain ⟨ns, r, hr, h⟩ := h
    have := length_codePoints?_le hr
    cases h
    simp only [List.length_cons]
    omega
  · cases h; exact Nat.lt_succ_self _
  · cases h; exact Nat.lt_succ_self _
  · cases h; exact Nat.lt_succ_self _
  · cases h; exact Nat.lt_succ_self _
  · cases h; exact Nat.lt_succ_self _
  · cases h; exact Nat.lt_succ_self _
  · obtain ⟨r, hr, h⟩ := Option.map_eq_some_iff.1 h
    cases h
    exact length_number?_lt hr

/-- The words of a text, if it has nothing else but blank space. -/
def words? (cs : List Char) : Option (List Word) :=
  match _h : cs.dropWhile isBlank with
  | [] => some []
  | c :: rest =>
    match _hw : first? (c :: rest) with
    | some (w, after) => (words? after).map (w :: ·)
    | none => none
termination_by cs.length
decreasing_by
  have := (List.dropWhile_suffix (l := cs) isBlank).length_le
  have := length_first?_lt _hw
  simp_all only
  omega

end Word

end Polyglot.Json
