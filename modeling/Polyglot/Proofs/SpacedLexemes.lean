import Polyglot.Proofs.TokenSpelling

/-!
Lexemes with blanks between them. A row of names, literals and symbols that is written down with
blanks in between is cut into the same row again, in any order and with any number of braces open;
of the blanks only the line breaks are noticed, in the lines of the tokens.
-/
namespace Polyglot

namespace Lexeme

/-- Names that are identifiers, strings, numbers without a sign and symbols: what expressions are
made of. -/
def IsPlain : Lexeme → Prop
  | name n => Scanner.isIdentifier n = true
  | str _ => True
  | int i => 0 ≤ i.value
  | symbol _ => True
  | _ => False

/-- How a lexeme is written. -/
def spelled : Lexeme → List Char
  | text s => s.toList
  | blockStart => ['\x7b', '%']
  | blockEnd => ['%', '\x7d']
  | printStart => ['\x7b', '\x7b']
  | printEnd => ['\x7d', '\x7d']
  | name n => n.toList
  | str s => (Literal.spell s).toList
  | int i => i.text.toList
  | symbol y => y.spelled

/-- Lexemes as they are written, each with some text in front of it. -/
def spaced (xs : List (List Char × Lexeme)) : List Char := xs.flatMap fun p => p.1 ++ p.2.spelled

/-- Lexemes with the lines that they stand on if `before` is the text in front of all of them. -/
def placed (before : List Char) : List (List Char × Lexeme) → List Token
  | [] => []
  | (ws, x) :: rest =>
    ⟨x, 1 + (before ++ ws).count '\n'⟩ :: placed (before ++ (ws ++ x.spelled)) rest

theorem IsPlain.exists_after {x : Lexeme} (h : x.IsPlain) (b : Nat) :
    ∃ b', (Mode.tag b).after x = .tag b' := by
  cases x with
  | symbol y => cases y <;> exact ⟨_, rfl⟩
  | name n => exact ⟨b, rfl⟩
  | str s => exact ⟨b, rfl⟩
  | int i => exact ⟨b, rfl⟩
  | _ => exact h.elim

end Lexeme

namespace Scanner

open Lexeme

variable {x : Lexeme} {ws cs last : List Char} {b : Nat} {xs : List (List Char × Lexeme)}

/-- The text is at its end or goes on with a blank. -/
def StartsBlank (cs : List Char) : Prop := ∀ c ∈ cs.head?, Blank.isBlank c = true

theorem StartsBlank.endsWord (h : StartsBlank cs) : EndsWord cs := by
  intro c hc
  by_contra hname
  have hblank := not_isBlank_of_isNameChar (Bool.of_not_eq_false hname)
  rw [h c hc] at hblank
  cases hblank

theorem startsBlank_of_forall (h : ∀ c ∈ ws, Blank.isBlank c = true) : StartsBlank ws :=
  fun c hc => h c (List.mem_of_mem_head? hc)

/-- In front of a blank, a closing brace does not end a print. -/
theorem tagLexeme_spelled (hx : x.IsPlain) (hcs : StartsBlank cs) (b : Nat) :
    tagLexeme b (x.spelled ++ cs) = .ok (some (x, x.spelled.length)) := by
  cases x with
  | name n => exact tagLexeme_name hx b hcs.endsWord
  | str s => exact tagLexeme_str s b cs
  | int i => exact tagLexeme_int hx b hcs.endsWord
  | symbol y =>
    refine tagLexeme_symbol y fun _ _ c hc => ?_
    rintro rfl
    cases hcs _ hc
  | _ => exact hx.elim

/-- The step: blanks and one lexeme behind them. -/
theorem next_spelled (hx : x.IsPlain) (hws : ∀ c ∈ ws, Blank.isBlank c = true)
    (hcs : StartsBlank cs) (before : List Char) (trims : Bool) :
    ∃ b', (Scanner.mk (ws ++ (x.spelled ++ cs)) (lineAfter before) (.tag b) trims).next =
      (.ok (some ⟨x, lineAfter (before ++ ws)⟩),
        ⟨cs, lineAfter (before ++ (ws ++ x.spelled)), .tag b', trims⟩) := by
  obtain ⟨b', hb'⟩ := hx.exists_after b
  have hends : x ≠ .blockEnd := by
    rintro rfl
    exact hx
  refine ⟨b', ?_⟩
  rw [next_blank hws, ← lineAfter_append, next_lexeme (tagLexeme_spelled hx hcs b) hends, hb',
    ← lineAfter_append, List.append_assoc]

theorem tokens_of_blank (hlast : ∀ c ∈ last, Blank.isBlank c = true) (line : Nat)
    (trims : Bool) : (Scanner.mk last line (.tag b) trims).tokens = .ok [] := by
  have hnext := next_blank hlast [] line b trims
  rw [List.append_nil] at hnext
  exact tokens_of_end hnext

theorem startsBlank_spaced (hblank : ∀ p ∈ xs, ∀ c ∈ p.1, Blank.isBlank c = true)
    (hne : ∀ p ∈ xs, p.1 ≠ []) (hlast : ∀ c ∈ last, Blank.isBlank c = true) :
    StartsBlank (spaced xs ++ last) := by
  cases xs with
  | nil => exact startsBlank_of_forall hlast
  | cons p xs =>
    obtain ⟨ws, x⟩ := p
    obtain ⟨c, ws, rfl⟩ := List.exists_cons_of_ne_nil (hne _ List.mem_cons_self)
    rintro d ⟨⟩
    exact hblank _ List.mem_cons_self c List.mem_cons_self

/-- The run, from any place in a tag and with any number of braces open there. -/
theorem tokens_of_spaced (hplain : ∀ p ∈ xs, p.2.IsPlain)
    (hblank : ∀ p ∈ xs, ∀ c ∈ p.1, Blank.isBlank c = true) (hne : ∀ p ∈ xs.tail, p.1 ≠ [])
    (hlast : ∀ c ∈ last, Blank.isBlank c = true) (before : List Char) (trims : Bool) :
    (Scanner.mk (spaced xs ++ last) (lineAfter before) (.tag b) trims).tokens =
      .ok (placed before xs) := by
  induction xs generalizing before b with
  | nil => exact tokens_of_blank hlast _ trims
  | cons p xs ih =>
    obtain ⟨ws, x⟩ := p
    obtain ⟨hx, hplain⟩ := List.forall_mem_cons.1 hplain
    obtain ⟨hws, hblank⟩ := List.forall_mem_cons.1 hblank
    have hcs := startsBlank_spaced hblank hne hlast
    obtain ⟨b', hnext⟩ := next_spelled (b := b) hx hws hcs before trims
    have hlater := ih (b := b') hplain hblank (fun p hp => hne p (List.mem_of_mem_tail hp))
      (before ++ (ws ++ x.spelled))
    have htext : spaced ((ws, x) :: xs) ++ last = ws ++ (x.spelled ++ (spaced xs ++ last)) := by
      simp [spaced]
    rw [htext, tokens_of_token hnext, hlater]
    rfl

/-- Names, literals and symbols in any order, with blanks between them, are the tokens of an
expression on their own; blanks in front of them and behind them do not matter. -/
theorem tokens_spaced (hplain : ∀ p ∈ xs, p.2.IsPlain)
    (hblank : ∀ p ∈ xs, ∀ c ∈ p.1, Blank.isBlank c = true) (hne : ∀ p ∈ xs.tail, p.1 ≠ [])
    (hlast : ∀ c ∈ last, Blank.isBlank c = true) :
    (ofExpression (String.ofList (spaced xs ++ last))).tokens = .ok (placed [] xs) := by
  rw [ofExpression, String.toList_ofList]
  exact tokens_of_spaced hplain hblank hne hlast [] false

/-- Closing braces that were never opened, a string with delimiters and a line break in it, a word
that is an operator, and blanks of several kinds. -/
theorem tokens_spaced_unopened :
    let xs : List (List Char × Lexeme) := [([], .symbol .closeBrace), (['\n'], .symbol .closeBrace),
      ([' ', '\u2003'], .str "\x7d\x7d\"%\x7d\n"), (['\t'], .name "not"), (['\n', '\r'], .int 7)]
    (∀ p ∈ xs, p.2.IsPlain) ∧ (∀ p ∈ xs, ∀ c ∈ p.1, Blank.isBlank c = true) ∧
      (∀ p ∈ xs.tail, p.1 ≠ []) ∧ (∀ c ∈ ['\n', ' '], Blank.isBlank c = true) ∧
      (ofExpression "\x7d\n\x7d \u2003\"\x7d\x7d\\\"%\x7d\\n\"\tnot\n\r7\n ").tokens =
        .ok [⟨.symbol .closeBrace, 1⟩, ⟨.symbol .closeBrace, 2⟩, ⟨.str "\x7d\x7d\"%\x7d\n", 2⟩,
          ⟨.name "not", 2⟩, ⟨.int 7, 3⟩] := by
  intro xs
  have hplain : ∀ p ∈ xs, p.2.IsPlain := by
    simp only [xs, List.forall_mem_cons, IsPlain]
    exact ⟨trivial, trivial, trivial, by decide, by decide, List.forall_mem_nil _⟩
  have hall : xs.all (fun p => p.1.all Blank.isBlank) = true := by decide
  have hblank : ∀ p ∈ xs, ∀ c ∈ p.1, Blank.isBlank c = true :=
    fun p hp => List.all_eq_true.1 (List.all_eq_true.1 hall p hp)
  have hne : ∀ p ∈ xs.tail, p.1 ≠ [] := by decide
  have hlast : ∀ c ∈ ['\n', ' '], Blank.isBlank c = true := List.all_eq_true.1 (by decide)
  have htext : String.ofList (spaced xs ++ ['\n', ' ']) =
      "\x7d\n\x7d \u2003\"\x7d\x7d\\\"%\x7d\\n\"\tnot\n\r7\n " := by
    decide +kernel
  have htokens := tokens_spaced hplain hblank hne hlast
  rw [htext] at htokens
  exact ⟨hplain, hblank, hne, hlast, htokens⟩

end Scanner

end Polyglot
