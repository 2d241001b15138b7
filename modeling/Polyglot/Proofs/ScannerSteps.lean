import Polyglot.Scanner

/-!
One step of the scanner, by cases. Outside tags the next token is taken from the start of the text;
inside a tag it is a closing delimiter, a symbol or a word after the blank space. What is claimed of
every token is proved of these.
-/
namespace Polyglot.Scanner

variable {σ τ : Scanner} {token : Token} {x : Lexeme} {n : Nat}

theorem wordLexeme_cases {c : Char} {cs : List Char} (h : wordLexeme c cs = .ok (x, n)) :
    (∃ value k, Literal.scan c cs = some (value, k) ∧ (c = '\'' ∨ c = '"') ∧
      x = .str (String.ofList value) ∧ n = k + 1) ∨
    (∃ i, Integer.ofInt? (Decimal.ofDigits (c :: cs.takeWhile Char.isDigit)) = some i ∧
      c.isDigit = true ∧ x = .int i ∧ n = (cs.takeWhile Char.isDigit).length + 1) ∨
    isNameStart c = true ∧ x = .name (String.ofList (c :: cs.takeWhile isNameChar)) ∧
      n = (cs.takeWhile isNameChar).length + 1 := by
  unfold wordLexeme at h
  split at h
  · next hquote =>
    split at h
    · next value k hscan =>
      cases h
      exact .inl ⟨value, k, hscan, hquote, rfl, rfl⟩
    · cases h
  · split at h
    · next hdigit =>
      dsimp only at h
      split at h
      · next i hi =>
        cases h
        exact .inr (.inl ⟨i, hi, hdigit, rfl, rfl⟩)
      · cases h
    · split at h
      · next hstart =>
        cases h
        exact .inr (.inr ⟨hstart, rfl, rfl⟩)
      · cases h

theorem tagLexeme_cases {b : Nat} {cs : List Char} (h : tagLexeme b cs = .ok (some (x, n))) :
    (['%', '\x7d'] <+: cs ∧ x = .blockEnd ∧ n = 2) ∨
    (['\x7d', '\x7d'] <+: cs ∧ b = 0 ∧ x = .printEnd ∧ n = 2) ∨
    (∃ y, Symbol.leading? cs = some y ∧ x = .symbol y ∧ n = y.spelled.length) ∨
    ∃ c rest, cs = c :: rest ∧ Symbol.leading? cs = none ∧ wordLexeme c rest = .ok (x, n) := by
  unfold tagLexeme at h
  split at h
  · cases h
  · cases h
    exact .inl ⟨List.prefix_append _ _, rfl, rfl⟩
  · cases h
    exact .inr (.inl ⟨List.prefix_append _ _, rfl, rfl, rfl⟩)
  · next c rest _ _ =>
    split at h
    · next y hy =>
      cases h
      exact .inr (.inr (.inl ⟨y, hy, rfl, rfl⟩))
    · next hleading =>
      cases hword : wordLexeme c rest with
      | error fault => rw [hword] at h; cases h
      | ok w =>
        rw [hword] at h
        cases h
        exact .inr (.inr (.inr ⟨c, rest, rfl, hleading, hword⟩))

/-- The length of the line break that is dropped after a lexeme. -/
def dropped (σ : Scanner) (x : Lexeme) (n : Nat) : Nat :=
  if σ.trims ∧ x = .blockEnd then breakLength (σ.rest.drop n) else 0

theorem takeLexeme_eq (σ : Scanner) (x : Lexeme) (n : Nat) :
    σ.takeLexeme x n =
      (⟨x, σ.line⟩, { σ.advance (n + σ.dropped x n) with mode := σ.mode.after x }) := rfl

theorem dropped_of_ne {x : Lexeme} (h : x ≠ .blockEnd) (n : Nat) : σ.dropped x n = 0 :=
  if_neg fun hboth => h hboth.2

theorem next_of_text (hmode : σ.mode = .text) (hrest : σ.rest ≠ []) :
    σ.next = (.ok (some (σ.takeLexeme (textLexeme σ.rest).1 (textLexeme σ.rest).2).1),
      (σ.takeLexeme (textLexeme σ.rest).1 (textLexeme σ.rest).2).2) := by
  simp [next, hmode, hrest]

theorem next_of_tag {b : Nat} {x : Lexeme} {n : Nat} (hmode : σ.mode = .tag b)
    (h : tagLexeme b σ.skipBlank.rest = .ok (some (x, n))) :
    σ.next = (.ok (some (σ.skipBlank.takeLexeme x n).1), (σ.skipBlank.takeLexeme x n).2) := by
  simp [next, hmode, h]

/-- A token is taken from the start of the text, or after the blanks inside a tag. -/
theorem next_cases (h : σ.next = (.ok (some token), τ)) :
    (σ.mode = .text ∧ σ.rest ≠ [] ∧
      σ.takeLexeme (textLexeme σ.rest).1 (textLexeme σ.rest).2 = (token, τ)) ∨
    ∃ b x n, σ.mode = .tag b ∧ tagLexeme b σ.skipBlank.rest = .ok (some (x, n)) ∧
      σ.skipBlank.takeLexeme x n = (token, τ) := by
  cases hmode : σ.mode with
  | text =>
    have hrest : σ.rest ≠ [] := by
      intro hnil
      simp [next, hmode, hnil] at h
    rw [next_of_text hmode hrest] at h
    cases h
    exact .inl ⟨rfl, hrest, rfl⟩
  | tag b =>
    cases hlexeme : tagLexeme b σ.skipBlank.rest with
    | error fault => simp [next, hmode, hlexeme] at h
    | ok r =>
      cases r with
      | none => simp [next, hmode, hlexeme] at h
      | some r =>
        rw [next_of_tag hmode hlexeme] at h
        cases h
        exact .inr ⟨b, r.1, r.2, rfl, hlexeme, rfl⟩

end Polyglot.Scanner
