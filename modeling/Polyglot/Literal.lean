/-!
String literals. A literal stands in single or double quotes, and a backslash takes the next
character out of its role: before n, r and t it stands for a line break or a tab, before any other
character for that character. Written literals use double quotes and escape only what has to be.
Main statement: reading what was written gives the text back, whatever follows it.
-/
namespace Polyglot.Literal

def escape : Char → List Char
  | '"' => ['\\', '"']
  | '\\' => ['\\', '\\']
  | '\n' => ['\\', 'n']
  | '\r' => ['\\', 'r']
  | '\t' => ['\\', 't']
  | c => [c]

def unescape : Char → Char
  | 'n' => '\n'
  | 'r' => '\r'
  | 't' => '\t'
  | c => c

/-- The characters between the quotes. -/
def body (cs : List Char) : List Char := cs.flatMap escape

def spell (s : String) : String := String.ofList ('"' :: body s.toList ++ ['"'])

/-- Reads the characters after an opening quote up to the closing one. The second component counts
the characters that were read, the closing quote among them. -/
def scan (quote : Char) : List Char → Option (List Char × Nat)
  | [] => none
  | ['\\'] => none
  | '\\' :: c :: rest => (scan quote rest).map fun r => (unescape c :: r.1, r.2 + 2)
  | c :: rest =>
    if c = quote then some ([], 1) else (scan quote rest).map fun r => (c :: r.1, r.2 + 1)

theorem scan_body (cs rest : List Char) :
    scan '"' (body cs ++ '"' :: rest) = some (cs, (body cs).length + 1) := by
  induction cs with
  | nil => simp [body, scan]
  | cons c cs ih =>
    rw [body, List.flatMap_cons, List.append_assoc, ← body]
    unfold escape
    split <;> simp_all +arith [scan, unescape]

theorem scan_le {quote : Char} {cs value : List Char} {n : Nat}
    (h : scan quote cs = some (value, n)) : 0 < n ∧ n ≤ cs.length := by
  fun_induction scan quote cs generalizing value n with
  | case1 => cases h
  | case2 => cases h
  | case3 c rest ih =>
    obtain ⟨⟨v, m⟩, hv, hn⟩ := Option.map_eq_some_iff.1 h
    have := ih hv
    cases hn
    simp only [List.length_cons]
    omega
  | case4 => cases h; simp
  | case5 c rest _ _ _ ih =>
    obtain ⟨⟨v, m⟩, hv, hn⟩ := Option.map_eq_some_iff.1 h
    have := ih hv
    cases hn
    simp only [List.length_cons]
    omega

end Polyglot.Literal
