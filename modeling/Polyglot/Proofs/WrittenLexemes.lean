import Polyglot.Proofs.CursorRules
import Polyglot.Proofs.ScannerSteps

/-!
Lexemes as they are written inside tags. A text spells some lexemes in front of another text if the
scanner finds them there, one after the other, and is then at that other text. Blank space in front
of a lexeme does not matter, and a word ends where no letter, digit or underscore follows.
-/
namespace Polyglot

def Symbol.isBrace : Symbol → Bool
  | openBrace => true
  | closeBrace => true
  | _ => false

namespace Scanner

/-- The next tokens are given lexemes, and after them the scanner is `t`. -/
def Supplies : Scanner → List Lexeme → Scanner → Prop
  | s, [], t => s = t
  | s, x :: xs, t => ∃ line u, s.next = (.ok (some ⟨x, line⟩), u) ∧ Supplies u xs t

theorem supplies_append {s t u : Scanner} {xs ys : List Lexeme} (h : s.Supplies xs t)
    (h' : t.Supplies ys u) : s.Supplies (xs ++ ys) u := by
  induction xs generalizing s with
  | nil =>
    cases h
    exact h'
  | cons x xs ih =>
    obtain ⟨line, v, hnext, hv⟩ := h
    exact ⟨line, v, hnext, ih hv⟩

/-- A cursor that has not looked ahead supplies what its scanner does. -/
theorem Supplies.cursor {s t : Scanner} {xs : List Lexeme} (h : s.Supplies xs t) (line : Nat) :
    ∃ line', (Cursor.mk [] s line).Supplies xs ⟨[], t, line'⟩ := by
  induction xs generalizing s line with
  | nil =>
    cases h
    exact ⟨line, rfl⟩
  | cons x xs ih =>
    obtain ⟨l, u, hnext, hu⟩ := h
    obtain ⟨line', hline'⟩ := ih hu l
    exact ⟨line', l, _, by simp [Cursor.step, hnext], hline'⟩

/-- The scanner passes over blank space, counting its line breaks. -/
theorem next_blank {ws : List Char} (hws : ∀ c ∈ ws, Blank.isBlank c = true) (cs : List Char)
    (line b : Nat) (trims : Bool) :
    (Scanner.mk (ws ++ cs) line (.tag b) trims).next =
      (Scanner.mk cs (line + Blank.lineBreaks ws) (.tag b) trims).next := by
  have hskip : (Scanner.mk (ws ++ cs) line (.tag b) trims).skipBlank =
      (Scanner.mk cs (line + Blank.lineBreaks ws) (.tag b) trims).skipBlank := by
    simp only [skipBlank, advance, List.takeWhile_append_of_pos hws, List.length_append,
      List.drop_append, List.take_append, Blank.lineBreaks_append, Nat.add_sub_cancel_left,
      List.drop_of_length_le (Nat.le_add_right _ _), List.take_of_length_le (Nat.le_add_right _ _),
      List.nil_append, Nat.add_assoc]
  simp only [next, hskip]

def isIdentifier (n : String) : Bool :=
  match n.toList with
  | [] => false
  | c :: cs => isNameStart c && cs.all isNameChar

theorem isIdentifier_letters {c : Char} (h : isNameStart c = true) (cs : List Char) :
    isIdentifier (String.ofList (c :: cs.takeWhile isNameChar)) = true := by
  have hletters : (cs.takeWhile isNameChar).all isNameChar = true := List.all_takeWhile
  simp only [isIdentifier, String.toList_ofList]
  rw [h, hletters]
  rfl

/-- No word goes on with the text. -/
def EndsWord (cs : List Char) : Prop := ∀ c ∈ cs.head?, isNameChar c = false

/-! Letters and digits are those of ASCII, each class a range of codes. -/

theorem isUpper_iff {c : Char} : c.isUpper = true ↔ 65 ≤ c.toNat ∧ c.toNat ≤ 90 :=
  decide_eq_true_iff

theorem isLower_iff {c : Char} : c.isLower = true ↔ 97 ≤ c.toNat ∧ c.toNat ≤ 122 :=
  Bool.and_eq_true_iff.trans (and_congr decide_eq_true_iff decide_eq_true_iff)

theorem isDigit_iff {c : Char} : c.isDigit = true ↔ 48 ≤ c.toNat ∧ c.toNat ≤ 57 :=
  Bool.and_eq_true_iff.trans (and_congr decide_eq_true_iff decide_eq_true_iff)

theorem isAlpha_iff {c : Char} :
    c.isAlpha = true ↔ (65 ≤ c.toNat ∧ c.toNat ≤ 90) ∨ (97 ≤ c.toNat ∧ c.toNat ≤ 122) :=
  Bool.or_eq_true_iff.trans (or_congr isUpper_iff isLower_iff)

theorem eq_underscore_iff {c : Char} : c = '_' ↔ c.toNat = 95 := by
  constructor
  · rintro rfl
    rfl
  · intro h
    exact Char.ext (UInt32.toNat_inj.1 h)

theorem isNameChar_iff {c : Char} :
    isNameChar c = true ↔ (48 ≤ c.toNat ∧ c.toNat ≤ 57) ∨ (65 ≤ c.toNat ∧ c.toNat ≤ 90) ∨
      c.toNat = 95 ∨ (97 ≤ c.toNat ∧ c.toNat ≤ 122) := by
  simp only [isNameChar, Char.isAlphanum, Bool.or_eq_true, beq_iff_eq, isAlpha_iff, isDigit_iff,
    eq_underscore_iff]
  omega

theorem isNameChar_of_isNameStart {c : Char} (h : isNameStart c = true) : isNameChar c = true := by
  simp only [isNameStart, isNameChar, Char.isAlphanum, Bool.or_eq_true] at h ⊢
  exact h.imp_left .inl

theorem not_mem_of_isIdentifier {n : String} (h : isIdentifier n = true) {c : Char}
    (hc : isNameChar c = false) : c ∉ n.toList := by
  intro hmem
  unfold isIdentifier at h
  split at h
  · cases h
  · next d ds hn =>
    rw [Bool.and_eq_true] at h
    have hchar : isNameChar c = true := by
      rw [hn] at hmem
      rcases List.mem_cons.1 hmem with rfl | hmem
      · exact isNameChar_of_isNameStart h.1
      · exact List.all_eq_true.1 h.2 c hmem
    exact absurd hchar (by simp [hc])

theorem isNameChar_of_isDigit {c : Char} (h : c.isDigit = true) : isNameChar c = true := by
  simp [isNameChar, Char.isAlphanum, h]

theorem not_isDigit_of_isNameStart {c : Char} (h : isNameStart c = true) : c.isDigit = false := by
  simp only [isNameStart, Bool.or_eq_true, beq_iff_eq, isAlpha_iff, eq_underscore_iff] at h
  rw [← Bool.not_eq_true, isDigit_iff]
  omega

theorem not_isBlank_of_isNameChar {c : Char} (h : isNameChar c = true) :
    Blank.isBlank c = false := by
  have hcode := isNameChar_iff.1 h
  simp only [Blank.isBlank, Bool.or_eq_false_iff, Bool.and_eq_false_iff, decide_eq_false_iff_not,
    beq_eq_false_iff_ne]
  omega

theorem leading?_of_isNameChar {c : Char} (h : isNameChar c = true) (cs : List Char) :
    Symbol.leading? (c :: cs) = none := by
  cases hy : Symbol.leading? (c :: cs) with
  | none => rfl
  | some y =>
    obtain ⟨rest, hrest⟩ := Symbol.eq_spelled_of_leading? hy
    cases y <;> cases hrest <;> exact absurd h (by decide)

/-- A word inside a tag, whatever braces are open. -/
theorem tagLexeme_of_isNameChar {c : Char} (h : isNameChar c = true) (b : Nat) (cs : List Char) :
    tagLexeme b (c :: cs) = (wordLexeme c cs).map some := by
  have hpercent : c ≠ '%' := by rintro rfl; exact absurd h (by decide)
  have hbrace : c ≠ '\x7d' := by rintro rfl; exact absurd h (by decide)
  simp [tagLexeme, hpercent, hbrace, leading?_of_isNameChar h]

theorem takeWhile_append_endsWord {p : Char → Bool} {w cs : List Char} (hw : w.all p = true)
    (hcs : ∀ c ∈ cs.head?, p c = false) : (w ++ cs).takeWhile p = w := by
  rw [List.takeWhile_append_of_pos (List.all_eq_true.1 hw)]
  cases cs with
  | nil => simp
  | cons c cs => simp [hcs c rfl]

theorem wordLexeme_name {n : String} {c : Char} {w cs : List Char} (hn : n.toList = c :: w)
    (h : isIdentifier n = true) (hcs : EndsWord cs) :
    wordLexeme c (w ++ cs) = .ok (.name n, n.toList.length) := by
  rw [isIdentifier, hn, Bool.and_eq_true] at h
  have hquote : ¬ (c = '\'' ∨ c = '"') := by
    rintro (rfl | rfl) <;> exact absurd h.1 (by decide)
  have hdigit := not_isDigit_of_isNameStart h.1
  have hword : (w ++ cs).takeWhile isNameChar = w := takeWhile_append_endsWord h.2 hcs
  have hname : String.ofList (c :: w) = n := by rw [← hn, String.ofList_toList]
  simp [wordLexeme, hquote, hdigit, h.1, hword, hname, hn]

theorem wordLexeme_int {n : Nat} {i : Integer} {c : Char} {w cs : List Char}
    (hn : Decimal.digits n = c :: w) (hi : Integer.ofInt? n = some i) (hcs : EndsWord cs) :
    wordLexeme c (w ++ cs) = .ok (.int i, (Decimal.digits n).length) := by
  have hall : ∀ d ∈ c :: w, d.isDigit = true := fun d hd =>
    Decimal.isDigit_of_mem_digits (hn ▸ hd)
  have hc : c.isDigit = true := hall c List.mem_cons_self
  have hquote : ¬ (c = '\'' ∨ c = '"') := by
    rintro (rfl | rfl) <;> exact absurd hc (by decide)
  have hend : ∀ d ∈ cs.head?, d.isDigit = false := by
    intro d hd
    cases hdigit : d.isDigit with
    | false => rfl
    | true => exact (isNameChar_of_isDigit hdigit).symm.trans (hcs d hd)
  have hword : (w ++ cs).takeWhile Char.isDigit = w :=
    takeWhile_append_endsWord (List.all_eq_true.2 fun d hd => hall d (.tail _ hd)) hend
  simp [wordLexeme, hquote, hc, hword, ← hn, Decimal.ofDigits_digits, hi]

theorem wordLexeme_str (s : String) (cs : List Char) :
    wordLexeme '"' (Literal.body s.toList ++ '"' :: cs) =
      .ok (.str s, (Literal.spell s).toList.length) := by
  simp [wordLexeme, Literal.scan_body, Literal.spell]

theorem tagLexeme_name {n : String} (h : isIdentifier n = true) (b : Nat) {cs : List Char}
    (hcs : EndsWord cs) :
    tagLexeme b (n.toList ++ cs) = .ok (some (.name n, n.toList.length)) := by
  cases hn : n.toList with
  | nil => simp [isIdentifier, hn] at h
  | cons c w =>
    have hc : isNameStart c = true := by
      rw [isIdentifier, hn, Bool.and_eq_true] at h
      exact h.1
    rw [List.cons_append, tagLexeme_of_isNameChar (isNameChar_of_isNameStart hc),
      wordLexeme_name hn h hcs, hn]
    rfl

theorem tagLexeme_int {i : Integer} (hi : 0 ≤ i.value) (b : Nat) {cs : List Char}
    (hcs : EndsWord cs) :
    tagLexeme b (i.text.toList ++ cs) = .ok (some (.int i, i.text.toList.length)) := by
  have htext : i.text.toList = Decimal.digits i.value.natAbs := by
    simp [Integer.text, Decimal.text, Decimal.natText, Int.not_lt.2 hi]
  have hvalue : Integer.ofInt? (i.value.natAbs : Nat) = some i :=
    Integer.ofInt?_eq_some_iff.2 (Int.natAbs_of_nonneg hi).symm
  rw [htext]
  cases hn : Decimal.digits i.value.natAbs with
  | nil => exact absurd hn (Decimal.digits_ne_nil _)
  | cons c w =>
    have hc : c.isDigit = true :=
      Decimal.isDigit_of_mem_digits (n := i.value.natAbs) (hn ▸ List.mem_cons_self)
    rw [List.cons_append, tagLexeme_of_isNameChar (isNameChar_of_isDigit hc),
      wordLexeme_int hn hvalue hcs, hn]
    rfl

theorem tagLexeme_str (s : String) (b : Nat) (cs : List Char) :
    tagLexeme b ((Literal.spell s).toList ++ cs) =
      .ok (some (.str s, (Literal.spell s).toList.length)) := by
  have htext : (Literal.spell s).toList ++ cs = '"' :: (Literal.body s.toList ++ '"' :: cs) := by
    simp [Literal.spell]
  rw [htext]
  change (wordLexeme '"' _).map some = _
  rw [wordLexeme_str]
  rfl

/-- Two closing braces together end a print if no brace is open. -/
theorem tagLexeme_symbol {b : Nat} {cs : List Char} (y : Symbol)
    (h : y = .closeBrace → b = 0 → ∀ c ∈ cs.head?, c ≠ '\x7d') :
    tagLexeme b (y.spelled ++ cs) = .ok (some (.symbol y, y.spelled.length)) := by
  cases y with
  | closeBrace =>
    cases b with
    | succ b => simp [Symbol.spelled, tagLexeme, Symbol.leading?]
    | zero =>
      cases cs with
      | nil => rfl
      | cons c cs =>
        have hc : c ≠ '\x7d' := h rfl rfl c rfl
        simp [Symbol.spelled, tagLexeme, Symbol.leading?, hc]
  | _ => rfl

/-- No lexeme starts with a blank. -/
theorem not_isBlank_of_tagLexeme {b : Nat} {cs : List Char} {r : Lexeme × Nat}
    (h : tagLexeme b cs = .ok (some r)) : cs.head?.all (!Blank.isBlank ·) = true := by
  obtain ⟨x, n⟩ := r
  rcases tagLexeme_cases h with ⟨⟨rest, rfl⟩, _⟩ | ⟨⟨rest, rfl⟩, _⟩ | ⟨y, hy, _⟩ |
    ⟨c, rest, rfl, _, hword⟩
  · rfl
  · rfl
  · obtain ⟨rest, rfl⟩ := Symbol.eq_spelled_of_leading? hy
    cases y <;> rfl
  · rcases wordLexeme_cases hword with ⟨_, _, _, rfl | rfl, _⟩ | ⟨_, _, hdigit, _⟩ | ⟨hstart, _⟩
    · rfl
    · rfl
    · simp [not_isBlank_of_isNameChar (isNameChar_of_isDigit hdigit)]
    · simp [not_isBlank_of_isNameChar (isNameChar_of_isNameStart hstart)]

/-- One lexeme that ends neither a tag nor the text. -/
theorem next_lexeme {b : Nat} {w cs : List Char} {x : Lexeme}
    (h : tagLexeme b (w ++ cs) = .ok (some (x, w.length))) (hx : x ≠ .blockEnd) (line : Nat)
    (trims : Bool) :
    (Scanner.mk (w ++ cs) line (.tag b) trims).next =
      (.ok (some ⟨x, line⟩),
        ⟨cs, line + Blank.lineBreaks w, (Mode.tag b).after x, trims⟩) := by
  have hskip := skipBlank_of_not_blank (s := ⟨w ++ cs, line, .tag b, trims⟩)
    (not_isBlank_of_tagLexeme h)
  simp only [next, hskip, h]
  simp [takeLexeme, advance, hx]

end Scanner

/-- Inside a tag with `b` open braces, a text in front of `cs` spells some lexemes and leaves `b'`
braces open. -/
def Spells (b : Nat) (w : List Char) (xs : List Lexeme) (b' : Nat) (cs : List Char) : Prop :=
  ∀ line trims, (Scanner.mk (w ++ cs) line (.tag b) trims).Supplies xs
    ⟨cs, line + Blank.lineBreaks w, .tag b', trims⟩

namespace Spells

theorem append {b b' b'' : Nat} {w w' cs : List Char} {xs ys : List Lexeme}
    (h : Spells b w xs b' (w' ++ cs)) (h' : Spells b' w' ys b'' cs) :
    Spells b (w ++ w') (xs ++ ys) b'' cs := by
  intro line trims
  rw [List.append_assoc, Blank.lineBreaks_append, ← Nat.add_assoc]
  exact Scanner.supplies_append (h line trims) (h' _ trims)

theorem cons {b b' b'' : Nat} {w w' cs : List Char} {x : Lexeme} {xs : List Lexeme}
    (h : Spells b w [x] b' (w' ++ cs)) (h' : Spells b' w' xs b'' cs) :
    Spells b (w ++ w') (x :: xs) b'' cs :=
  append h h'

theorem blank {b b' : Nat} {ws w cs : List Char} {x : Lexeme} {xs : List Lexeme}
    (hws : ∀ c ∈ ws, Blank.isBlank c = true) (h : Spells b w (x :: xs) b' cs) :
    Spells b (ws ++ w) (x :: xs) b' cs := by
  intro line trims
  obtain ⟨l, u, hnext, hu⟩ := h (line + Blank.lineBreaks ws) trims
  rw [List.append_assoc, Blank.lineBreaks_append, ← Nat.add_assoc]
  exact ⟨l, u, (Scanner.next_blank hws _ line b trims).trans hnext, hu⟩

theorem space {b b' : Nat} {w cs : List Char} {x : Lexeme} {xs : List Lexeme}
    (h : Spells b w (x :: xs) b' cs) : Spells b (' ' :: w) (x :: xs) b' cs :=
  blank (List.forall_mem_singleton.2 (by decide)) h

theorem lexeme {b b' : Nat} {w cs : List Char} {x : Lexeme}
    (h : Scanner.tagLexeme b (w ++ cs) = .ok (some (x, w.length))) (hx : x ≠ .blockEnd)
    (hb : (Mode.tag b).after x = .tag b') : Spells b w [x] b' cs := by
  intro line trims
  exact ⟨line, _, Scanner.next_lexeme h hx line trims, by rw [hb]; rfl⟩

theorem symbol {y : Symbol} (hy : y.isBrace = false) (b : Nat) (cs : List Char) :
    Spells b y.spelled [.symbol y] b cs := by
  refine lexeme (Scanner.tagLexeme_symbol y ?_) (by simp) ?_
  · rintro rfl
    cases hy
  · cases y <;> first | rfl | cases hy

theorem openBrace (b : Nat) (cs : List Char) :
    Spells b Symbol.openBrace.spelled [.symbol .openBrace] (b + 1) cs :=
  lexeme (Scanner.tagLexeme_symbol .openBrace nofun) (by simp) rfl

theorem closeBrace (b : Nat) (cs : List Char) :
    Spells (b + 1) Symbol.closeBrace.spelled [.symbol .closeBrace] b cs :=
  lexeme (Scanner.tagLexeme_symbol .closeBrace nofun) (by simp) rfl

theorem name {n : String} (h : Scanner.isIdentifier n = true) (b : Nat) {cs : List Char}
    (hcs : Scanner.EndsWord cs) : Spells b n.toList [.name n] b cs :=
  lexeme (Scanner.tagLexeme_name h b hcs) (by simp) rfl

theorem int {i : Integer} (hi : 0 ≤ i.value) (b : Nat) {cs : List Char}
    (hcs : Scanner.EndsWord cs) : Spells b i.text.toList [.int i] b cs :=
  lexeme (Scanner.tagLexeme_int hi b hcs) (by simp) rfl

theorem str (s : String) (b : Nat) (cs : List Char) :
    Spells b (Literal.spell s).toList [.str s] b cs :=
  lexeme (Scanner.tagLexeme_str s b cs) (by simp) rfl

end Spells

end Polyglot
