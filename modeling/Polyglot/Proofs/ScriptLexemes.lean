import Polyglot.Proofs.ExprTrees
import Polyglot.Proofs.LevelReading
import Polyglot.Proofs.WrittenLexemes

/-!
The lexemes of script forms. An expression is writable if its numbers are not negative and its
names, keys and functions are words that no constant or operator is spelled by. The script form of
a writable expression is written in its lexemes, whatever follows it that does not go on with a
word; in particular the braces of maps are closed one by one, also where two of them stand together.
-/
namespace Polyglot

def Scalar.lexeme : Scalar → Lexeme
  | text s => .str s
  | int i => .int i
  | bool b => .name (boolWord b)
  | null => .name "null"

namespace Expr

/-- Words that stand for something else where a name could stand. -/
def reserved : List String := ["true", "false", "null", "none", "not"]

/-- The names of variables and functions. -/
def isWord (n : String) : Bool := Scanner.isIdentifier n && !reserved.contains n

theorem isIdentifier_of_isWord {n : String} (h : isWord n = true) :
    Scanner.isIdentifier n = true :=
  (Bool.and_eq_true_iff.1 h).1

/-- What the script form asks of one expression, apart from those inside it. -/
def IsWritable (function : String → String) : Expr → Prop
  | literal (.int i) => 0 ≤ i.value
  | name n => isWord n = true
  | member _ key => Scanner.isIdentifier key = true
  | filter _ n _ => isWord (function n) = true
  | call n _ => isWord n = true
  | _ => True

/-- The calls in a lowered expression are named by the functions that are emitted. -/
theorem isWritable_lowered {function : String → String} {e : Expr}
    (h : e.Every (IsWritable function)) : (e.lowered function).Every (IsWritable function) := by
  induction e using induction with
  | literal a => exact h
  | name n => exact h
  | member e key ih => exact ⟨h.1, ih h.2⟩
  | index e i ihe ihi => exact ⟨trivial, ihe h.2.1, ihi h.2.2⟩
  | binary l op r ihl ihr => exact ⟨trivial, ihl h.2.1, ihr h.2.2⟩
  | unary op e ih => exact ⟨trivial, ih h.2⟩
  | filter e n args ihe ih =>
    refine ⟨h.1, ihe h.2.1, everyItem_lowered fun a ha => ?_⟩
    exact ih a ha (everyItem_iff.1 h.2.2 a ha)
  | checked e ih => exact ⟨(by decide : isWord "to_string" = true), ih h.2, trivial⟩
  | call n args ih =>
    exact ⟨h.1, everyItem_lowered fun a ha => ih a ha (everyItem_iff.1 h.2 a ha)⟩
  | list items ih =>
    exact ⟨trivial, everyItem_lowered fun a ha => ih a ha (everyItem_iff.1 h.2 a ha)⟩
  | map entries ih =>
    refine ⟨trivial, everyEntry_lowered fun x hx => ?_⟩
    have hx' := everyEntry_iff.1 h.2 x hx
    exact ⟨(ih x hx).1 hx'.1, (ih x hx).2 hx'.2⟩

def separated (xss : List (List Lexeme)) : List Lexeme := [Lexeme.symbol .comma].intercalate xss

mutual

/-- The lexemes of the script form. -/
def lexemes (function : String → String) : Expr → List Lexeme
  | literal a => [a.lexeme]
  | name n => [.name n]
  | member e key => lexemes function e ++ [.symbol .dot, .name key]
  | index e i =>
    lexemes function e ++ .symbol .openBracket :: lexemes function i ++ [.symbol .closeBracket]
  | binary l op r =>
    .symbol .openParen :: lexemes function l ++ op.lexeme :: lexemes function r ++
      [.symbol .closeParen]
  | unary op e => .symbol .openParen :: op.lexeme :: lexemes function e ++ [.symbol .closeParen]
  | filter e n args =>
    .name (function n) :: .symbol .openParen ::
      separated (lexemes function e :: itemLexemes function args) ++ [.symbol .closeParen]
  | checked e =>
    .name "to_string" :: .symbol .openParen :: lexemes function e ++ [.symbol .closeParen]
  | call n args =>
    .name n :: .symbol .openParen :: separated (itemLexemes function args) ++ [.symbol .closeParen]
  | list items =>
    .symbol .openBracket :: separated (itemLexemes function items) ++ [.symbol .closeBracket]
  | map entries =>
    .symbol .openBrace :: separated (entryLexemes function entries) ++ [.symbol .closeBrace]

def itemLexemes (function : String → String) : List Expr → List (List Lexeme)
  | [] => []
  | e :: rest => lexemes function e :: itemLexemes function rest

def entryLexemes (function : String → String) : List (Expr × Expr) → List (List Lexeme)
  | [] => []
  | (key, e) :: rest =>
    (lexemes function key ++ .symbol .colon :: lexemes function e) :: entryLexemes function rest

end

/-- The text spells the lexemes wherever it stands inside a tag, if no word goes on after it. -/
structure Written (w : List Char) (xs : List Lexeme) : Prop where
  ne_nil : xs ≠ []
  spells : ∀ b cs, Scanner.EndsWord cs → Spells b w xs b cs

/-- A text that no word in front of it goes on with. -/
def Separates (v : List Char) : Prop := ∀ cs, Scanner.EndsWord (v ++ cs)

theorem separates_symbol (y : Symbol) (v : List Char) : Separates (y.spelled ++ v) := by
  intro cs c hc
  cases y <;> cases hc <;> rfl

theorem separates_space (v : List Char) : Separates (' ' :: v) := by
  intro cs c hc
  cases hc
  rfl

namespace Written

variable {w v : List Char} {xs ys : List Lexeme}

theorem space (h : Written w xs) : Written (' ' :: w) xs := by
  refine ⟨h.ne_nil, fun b cs hcs => ?_⟩
  cases xs with
  | nil => exact absurd rfl h.ne_nil
  | cons x xs => exact Spells.space (h.spells b cs hcs)

theorem append (h : Written w xs) (h' : Written v ys) (hv : Separates v) :
    Written (w ++ v) (xs ++ ys) := by
  refine ⟨by simp [h.ne_nil], fun b cs hcs => ?_⟩
  exact Spells.append (h.spells b _ (hv cs)) (h'.spells b cs hcs)

/-- A symbol may be followed by anything. -/
theorem symbol_append {y : Symbol} (hy : y.isBrace = false)
    (h : Written w xs) : Written (y.spelled ++ w) (.symbol y :: xs) := by
  refine ⟨by simp, fun b cs hcs => ?_⟩
  exact Spells.append (Spells.symbol hy b _) (h.spells b cs hcs)

theorem symbol {y : Symbol} (hy : y.isBrace = false) :
    Written y.spelled [.symbol y] :=
  ⟨by simp, fun b cs _ => Spells.symbol hy b cs⟩

theorem name {n : String} (h : Scanner.isIdentifier n = true) : Written n.toList [.name n] :=
  ⟨by simp, fun b _ hcs => Spells.name h b hcs⟩

theorem binaryOp (op : BinaryOp) : Written op.symbol.toList [op.lexeme] := by
  cases op with
  | equal => exact symbol (y := .equal) rfl
  | notEqual => exact symbol (y := .notEqual) rfl
  | less => exact symbol (y := .less) rfl
  | greater => exact symbol (y := .greater) rfl
  | add => exact symbol (y := .plus) rfl
  | subtract => exact symbol (y := .minus) rfl
  | multiply => exact symbol (y := .star) rfl
  | concat => exact symbol (y := .tilde) rfl
  | and => exact name (by decide)
  | or => exact name (by decide)

theorem scalar {function : String → String} {a : Scalar} (h : IsWritable function (literal a)) :
    Written a.spelled.toList [a.lexeme] := by
  cases a with
  | text s => exact ⟨by simp [Scalar.lexeme], fun b cs _ => Spells.str s b cs⟩
  | int i => exact ⟨by simp [Scalar.lexeme], fun b _ hcs => Spells.int h b hcs⟩
  | bool b => cases b <;> exact name (by decide)
  | null => exact name (by decide)

/-- A text in parentheses or brackets. -/
theorem enclosed {y z : Symbol} (hy : y.isBrace = false)
    (hz : z.isBrace = false) (h : Written w xs) :
    Written (y.spelled ++ (w ++ z.spelled)) (.symbol y :: xs ++ [.symbol z]) := by
  rw [List.cons_append]
  have hz' : Separates z.spelled := z.spelled.append_nil ▸ separates_symbol z []
  exact symbol_append hy (h.append (symbol hz) hz')

/-- Texts with a comma and a space between them. -/
theorem separated {l : List (List Char × List Lexeme)} (hl : l ≠ [])
    (h : ∀ p ∈ l, Written p.1 p.2) :
    Written ([',', ' '].intercalate (l.map (·.1))) (Expr.separated (l.map (·.2))) := by
  induction l with
  | nil => exact absurd rfl hl
  | cons p l ih =>
    obtain ⟨hp, hrest⟩ := List.forall_mem_cons.1 h
    cases l with
    | nil => simpa [Expr.separated] using hp
    | cons q l =>
      have htail := symbol_append (y := .comma) rfl
        (ih (by simp) hrest).space
      have hall := hp.append htail (separates_symbol .comma _)
      simpa [Expr.separated, List.intercalate_cons_cons, Symbol.spelled] using hall

end Written

/-- How an entry of a map is spelled. -/
def entrySpelling (spell : Expr → List Lexeme) (x : Expr × Expr) : List Lexeme :=
  spell x.1 ++ .symbol .colon :: spell x.2

theorem itemLexemes_eq_map {function : String → String} (es : List Expr) :
    itemLexemes function es = es.map (lexemes function) := by
  induction es with
  | nil => rfl
  | cons e es ih => rw [itemLexemes, ih, List.map_cons]

theorem entryLexemes_eq_map {function : String → String} (es : List (Expr × Expr)) :
    entryLexemes function es =
      es.map (entrySpelling (lexemes function)) := by
  induction es with
  | nil => rfl
  | cons e es ih => rw [entryLexemes, ih, List.map_cons, entrySpelling]

section Lists

variable {text : Expr → String} {spell : Expr → List Lexeme}

/-- Expressions between commas in parentheses or brackets, of which there may be none. -/
theorem written_items {y z : Symbol} (hy : y.isBrace = false) (hz : z.isBrace = false)
    {es : List Expr} (h : ∀ e ∈ es, Written (text e).toList (spell e)) :
    Written (y.spelled ++ ((", ".intercalate (es.map text)).toList ++ z.spelled))
      (.symbol y :: separated (es.map spell) ++ [.symbol z]) := by
  rw [String.toList_intercalate, List.map_map]
  by_cases hes : es = []
  · subst hes
    exact Written.symbol_append hy (Written.symbol hz)
  · have hps := Written.separated (l := es.map fun e => ((text e).toList, spell e))
      (by simpa using hes) (by simpa using h)
    rw [List.map_map, List.map_map] at hps
    exact Written.enclosed hy hz hps

theorem written_entry {x : Expr × Expr} (hkey : Written (text x.1).toList (spell x.1))
    (he : Written (text x.2).toList (spell x.2)) :
    Written (text x.1 ++ ": " ++ text x.2).toList (entrySpelling spell x) := by
  have htail := Written.symbol_append (y := .colon) rfl he.space
  simpa [entrySpelling, Symbol.spelled] using hkey.append htail (separates_symbol .colon _)

theorem written_entries {es : List (Expr × Expr)}
    (h : ∀ x ∈ es, Written (text x.1).toList (spell x.1) ∧
      Written (text x.2).toList (spell x.2)) :
    Written (Symbol.openBrace.spelled ++
        ((", ".intercalate (es.map fun x => text x.1 ++ ": " ++ text x.2)).toList ++
          Symbol.closeBrace.spelled))
      (.symbol .openBrace :: separated (es.map (entrySpelling spell)) ++
        [.symbol .closeBrace]) := by
  rw [String.toList_intercalate, List.map_map]
  refine ⟨by simp, fun b cs hcs => ?_⟩
  have hclose : Spells (b + 1) Symbol.closeBrace.spelled [.symbol .closeBrace] b cs :=
    Spells.closeBrace b cs
  refine Spells.cons (Spells.openBrace b _) ?_
  by_cases hes : es = []
  · subst hes
    exact hclose
  · have hps := Written.separated
      (l := es.map fun x => ((text x.1 ++ ": " ++ text x.2).toList, entrySpelling spell x))
      (by simpa using hes) (by
        rintro _ hp
        obtain ⟨x, hx, rfl⟩ := List.mem_map.1 hp
        exact written_entry (h x hx).1 (h x hx).2)
    rw [List.map_map, List.map_map] at hps
    exact Spells.append (hps.spells (b + 1) _ (separates_symbol .closeBrace [] cs)) hclose

theorem written_call {n : String} {args : List Expr} (hn : Scanner.isIdentifier n = true)
    (h : ∀ a ∈ args, Written (text a).toList (spell a)) :
    Written (n ++ "(" ++ ", ".intercalate (args.map text) ++ ")").toList
      (.name n :: .symbol .openParen :: separated (args.map spell) ++ [.symbol .closeParen]) := by
  have hargs := written_items (y := .openParen) (z := .closeParen) rfl rfl h
  simpa [Symbol.spelled] using (Written.name hn).append hargs (separates_symbol .openParen _)

end Lists

/-- The script form of a writable expression is written in its lexemes. -/
theorem written_script {function : String → String} {e : Expr}
    (h : e.Every (IsWritable function)) :
    Written (script function e).toList (lexemes function e) := by
  induction e using induction with
  | literal a => exact Written.scalar h
  | name n => exact Written.name (isIdentifier_of_isWord h)
  | member e key ih =>
    have hkey := Written.symbol_append (y := .dot) rfl (Written.name h.1)
    simpa [script, lexemes, Symbol.spelled] using (ih h.2).append hkey (separates_symbol .dot _)
  | index e i ihe ihi =>
    have hi := Written.enclosed (y := .openBracket) (z := .closeBracket) rfl rfl (ihi h.2.2)
    simpa [script, lexemes, Symbol.spelled] using
      (ihe h.2.1).append hi (separates_symbol .openBracket _)
  | binary l op r ihl ihr =>
    have hr := (Written.binaryOp op).space.append (ihr h.2.2).space (separates_space _)
    have hl := (ihl h.2.1).append hr (separates_space _)
    simpa [script, lexemes, Symbol.spelled] using
      Written.enclosed (y := .openParen) (z := .closeParen) rfl rfl hl
  | unary op e ih =>
    cases op with
    | not =>
      have hop := (Written.name (n := "not") (by decide)).append (ih h.2).space (separates_space _)
      simpa [script, lexemes, Symbol.spelled, UnaryOp.lexeme] using
        Written.enclosed (y := .openParen) (z := .closeParen) rfl rfl hop
    | negate =>
      have hop := Written.symbol_append (y := .minus) rfl (ih h.2)
      simpa [script, lexemes, Symbol.spelled, UnaryOp.lexeme] using
        Written.enclosed (y := .openParen) (z := .closeParen) rfl rfl hop
  | filter e n args ihe ih =>
    have hargs : ∀ a ∈ e :: args, Written (script function a).toList (lexemes function a) := by
      refine List.forall_mem_cons.2 ⟨ihe h.2.1, fun a ha => ?_⟩
      exact ih a ha (everyItem_iff.1 h.2.2 a ha)
    simpa [script, lexemes, scripts, itemLexemes, scripts_eq_map, itemLexemes_eq_map] using
      written_call (isIdentifier_of_isWord h.1) hargs
  | checked e ih =>
    have hargs : ∀ a ∈ [e], Written (script function a).toList (lexemes function a) :=
      List.forall_mem_singleton.2 (ih h.2)
    simpa [script, lexemes, scripts, itemLexemes, separated] using
      written_call (n := "to_string") (by decide) hargs
  | call n args ih =>
    have hargs : ∀ a ∈ args, Written (script function a).toList (lexemes function a) :=
      fun a ha => ih a ha (everyItem_iff.1 h.2 a ha)
    simpa [script, lexemes, scripts_eq_map, itemLexemes_eq_map] using
      written_call (isIdentifier_of_isWord h.1) hargs
  | list items ih =>
    have hitems : ∀ a ∈ items, Written (script function a).toList (lexemes function a) :=
      fun a ha => ih a ha (everyItem_iff.1 h.2 a ha)
    simpa [script, lexemes, Symbol.spelled, scripts_eq_map, itemLexemes_eq_map] using
      written_items (y := .openBracket) (z := .closeBracket) rfl rfl hitems
  | map entries ih =>
    have hentries : ∀ x ∈ entries, Written (script function x.1).toList (lexemes function x.1) ∧
        Written (script function x.2).toList (lexemes function x.2) := by
      intro x hx
      obtain ⟨hkey, he⟩ := everyEntry_iff.1 h.2 x hx
      exact ⟨(ih x hx).1 hkey, (ih x hx).2 he⟩
    simpa [script, lexemes, Symbol.spelled, entryScripts_eq_map, entryLexemes_eq_map] using
      written_entries hentries

end Expr

end Polyglot
