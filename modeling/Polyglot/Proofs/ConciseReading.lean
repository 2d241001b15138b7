import Polyglot.Proofs.PlacedReading
import Polyglot.Template

/-!
Expressions without needless parentheses. An operand stands in parentheses only where it is looser
than its place asks for: the left operand of a binary operator has to be as tight as the operator
and the right one tighter, the operand of a sign as tight as the sign, and what a filter, a member
or an index applies to as tight as those. Main statement: reading such a text gives the expression
back, so the reader has this precedence and groups to the left.
-/
namespace Polyglot

/-- The sign of an operator in front of its operand. -/
def UnaryOp.symbol : UnaryOp → String
  | not => "not "
  | negate => "-"

namespace Expr

/-- How tight the outermost construct of an expression binds. -/
def tightness : Expr → Nat
  | binary _ op _ => op.level.tightness
  | unary op _ => op.level.tightness
  | filter _ _ _ => Level.filterTightness
  | member _ _ => Level.selectorTightness
  | index _ _ => Level.selectorTightness
  | _ => Level.primaryTightness

/-- The text of an expression in a place that asks for tightness `n`. -/
def placed (n : Nat) (e : Expr) (text : String) : String :=
  if e.tightness < n then "(" ++ text ++ ")" else text

mutual

/-- The text of an expression, with parentheses only where a place asks for them. Nothing is written
for a check, which no template spells out. -/
def concise : Expr → String
  | literal a => a.spelled
  | name n => n
  | member e key => placed Level.selectorTightness e (concise e) ++ "." ++ key
  | index e i => placed Level.selectorTightness e (concise e) ++ "[" ++ concise i ++ "]"
  | binary l op r =>
    placed op.level.tightness l (concise l) ++ " " ++ op.symbol ++ " " ++
      placed (op.level.tightness + 1) r (concise r)
  | unary op e => op.symbol ++ placed op.level.tightness e (concise e)
  | filter e n [] => placed Level.filterTightness e (concise e) ++ "|" ++ n
  | filter e n (a :: args) =>
    placed Level.filterTightness e (concise e) ++ "|" ++ n ++ "(" ++
      ", ".intercalate (concise a :: conciseItems args) ++ ")"
  | checked e => concise e
  | call n args => n ++ "(" ++ ", ".intercalate (conciseItems args) ++ ")"
  | list items => "[" ++ ", ".intercalate (conciseItems items) ++ "]"
  | map entries => "\x7b" ++ ", ".intercalate (conciseEntries entries) ++ "\x7d"

def conciseItems : List Expr → List String
  | [] => []
  | e :: rest => concise e :: conciseItems rest

def conciseEntries : List (Expr × Expr) → List String
  | [] => []
  | (key, e) :: rest => (concise key ++ ": " ++ concise e) :: conciseEntries rest

end

/-- What reading asks of one expression, apart from those inside it: it is no check, numbers have no
sign, and names are words that stand for nothing else. -/
def IsReadable : Expr → Prop
  | literal (.int i) => 0 ≤ i.value
  | name n => isWord n = true
  | member _ key => Scanner.isIdentifier key = true
  | filter _ n _ => Scanner.isIdentifier n = true
  | call n _ => isWord n = true
  | checked _ => False
  | _ => True

def placedLexemes (n : Nat) (e : Expr) (xs : List Lexeme) : List Lexeme :=
  if e.tightness < n then .symbol .openParen :: xs ++ [.symbol .closeParen] else xs

mutual

/-- The lexemes of the concise text. -/
def conciseLexemes : Expr → List Lexeme
  | literal a => [a.lexeme]
  | name n => [.name n]
  | member e key =>
    placedLexemes Level.selectorTightness e (conciseLexemes e) ++ [.symbol .dot, .name key]
  | index e i =>
    placedLexemes Level.selectorTightness e (conciseLexemes e) ++
      .symbol .openBracket :: conciseLexemes i ++ [.symbol .closeBracket]
  | binary l op r =>
    placedLexemes op.level.tightness l (conciseLexemes l) ++
      op.lexeme :: placedLexemes (op.level.tightness + 1) r (conciseLexemes r)
  | unary op e => op.lexeme :: placedLexemes op.level.tightness e (conciseLexemes e)
  | filter e n [] =>
    placedLexemes Level.filterTightness e (conciseLexemes e) ++ [.symbol .pipe, .name n]
  | filter e n (a :: args) =>
    placedLexemes Level.filterTightness e (conciseLexemes e) ++
      .symbol .pipe :: .name n :: .symbol .openParen ::
        (separated (conciseLexemes a :: conciseItemLexemes args) ++ [.symbol .closeParen])
  | checked e => conciseLexemes e
  | call n args =>
    .name n :: .symbol .openParen :: separated (conciseItemLexemes args) ++ [.symbol .closeParen]
  | list items =>
    .symbol .openBracket :: separated (conciseItemLexemes items) ++ [.symbol .closeBracket]
  | map entries =>
    .symbol .openBrace :: separated (conciseEntryLexemes entries) ++ [.symbol .closeBrace]

def conciseItemLexemes : List Expr → List (List Lexeme)
  | [] => []
  | e :: rest => conciseLexemes e :: conciseItemLexemes rest

def conciseEntryLexemes : List (Expr × Expr) → List (List Lexeme)
  | [] => []
  | (key, e) :: rest =>
    (conciseLexemes key ++ .symbol .colon :: conciseLexemes e) :: conciseEntryLexemes rest

end

theorem conciseItems_eq_map (es : List Expr) : conciseItems es = es.map concise := by
  induction es with
  | nil => rfl
  | cons e es ih => rw [conciseItems, ih, List.map_cons]

theorem conciseEntries_eq_map (es : List (Expr × Expr)) :
    conciseEntries es = es.map fun x => concise x.1 ++ ": " ++ concise x.2 := by
  induction es with
  | nil => rfl
  | cons e es ih => rw [conciseEntries, ih, List.map_cons]

theorem conciseItemLexemes_eq_map (es : List Expr) :
    conciseItemLexemes es = es.map conciseLexemes := by
  induction es with
  | nil => rfl
  | cons e es ih => rw [conciseItemLexemes, ih, List.map_cons]

theorem conciseEntryLexemes_eq_map (es : List (Expr × Expr)) :
    conciseEntryLexemes es = es.map (entrySpelling conciseLexemes) := by
  induction es with
  | nil => rfl
  | cons e es ih => rw [conciseEntryLexemes, ih, List.map_cons, entrySpelling]

/-! The concise text is written in its lexemes. -/

theorem written_placed {e : Expr} (h : Written (concise e).toList (conciseLexemes e)) (n : Nat) :
    Written (placed n e (concise e)).toList (placedLexemes n e (conciseLexemes e)) := by
  unfold placed placedLexemes
  split
  · simpa [Symbol.spelled] using Written.enclosed (y := .openParen) (z := .closeParen) rfl rfl h
  · exact h

theorem written_concise {e : Expr} (h : e.Every IsReadable) :
    Written (concise e).toList (conciseLexemes e) := by
  induction e using induction with
  | literal a =>
    have ha : IsWritable id (literal a) := by cases a <;> exact h
    exact Written.scalar ha
  | name n => exact Written.name (isIdentifier_of_isWord h)
  | member e key ih =>
    have hkey := Written.symbol_append (y := .dot) rfl (Written.name h.1)
    simpa [concise, conciseLexemes, Symbol.spelled] using
      (written_placed (ih h.2) _).append hkey (separates_symbol .dot _)
  | index e i ihe ihi =>
    have hi := Written.enclosed (y := .openBracket) (z := .closeBracket) rfl rfl (ihi h.2.2)
    simpa [concise, conciseLexemes, Symbol.spelled] using
      (written_placed (ihe h.2.1) _).append hi (separates_symbol .openBracket _)
  | binary l op r ihl ihr =>
    have hl := written_placed (ihl h.2.1) op.level.tightness
    have hr := written_placed (ihr h.2.2) (op.level.tightness + 1)
    have hop := (Written.binaryOp op).space.append hr.space (separates_space _)
    simpa [concise, conciseLexemes] using hl.append hop (separates_space _)
  | unary op e ih =>
    have he := written_placed (ih h.2) op.level.tightness
    cases op with
    | not =>
      simpa [concise, conciseLexemes, UnaryOp.symbol, UnaryOp.lexeme] using
        (Written.name (n := "not") (by decide)).append he.space (separates_space _)
    | negate =>
      simpa [concise, conciseLexemes, UnaryOp.symbol, UnaryOp.lexeme, Symbol.spelled] using
        Written.symbol_append (y := .minus) rfl he
  | filter e n args ihe ih =>
    have he := written_placed (ihe h.2.1) Level.filterTightness
    have hargs : ∀ a ∈ args, Written (concise a).toList (conciseLexemes a) :=
      fun a ha => ih a ha (everyItem_iff.1 h.2.2 a ha)
    cases args with
    | nil =>
      have hn := Written.symbol_append (y := .pipe) rfl (Written.name h.1)
      simpa [concise, conciseLexemes, Symbol.spelled] using he.append hn (separates_symbol .pipe _)
    | cons a args =>
      have hcall := Written.symbol_append (y := .pipe) rfl (written_call h.1 hargs)
      simpa [concise, conciseLexemes, Symbol.spelled, conciseItems_eq_map,
        conciseItemLexemes_eq_map] using he.append hcall (separates_symbol .pipe _)
  | checked e ih => exact absurd h.1 id
  | call n args ih =>
    have hargs : ∀ a ∈ args, Written (concise a).toList (conciseLexemes a) :=
      fun a ha => ih a ha (everyItem_iff.1 h.2 a ha)
    simpa [concise, conciseLexemes, conciseItems_eq_map, conciseItemLexemes_eq_map] using
      written_call (isIdentifier_of_isWord h.1) hargs
  | list items ih =>
    have hitems : ∀ a ∈ items, Written (concise a).toList (conciseLexemes a) :=
      fun a ha => ih a ha (everyItem_iff.1 h.2 a ha)
    simpa [concise, conciseLexemes, Symbol.spelled, conciseItems_eq_map,
      conciseItemLexemes_eq_map] using
      written_items (y := .openBracket) (z := .closeBracket) rfl rfl hitems
  | map entries ih =>
    have hentries : ∀ x ∈ entries, Written (concise x.1).toList (conciseLexemes x.1) ∧
        Written (concise x.2).toList (conciseLexemes x.2) := by
      intro x hx
      obtain ⟨hkey, he⟩ := everyEntry_iff.1 h.2 x hx
      exact ⟨(ih x hx).1 hkey, (ih x hx).2 he⟩
    simpa [concise, conciseLexemes, Symbol.spelled, conciseEntries_eq_map,
      conciseEntryLexemes_eq_map] using written_entries hentries

/-! The lexemes are read as the expression wherever the expression is tight enough. -/

theorem readsAt_placed {checks : Bool} {e : Expr}
    (h : ReadsAt checks e.tightness (conciseLexemes e) e) {n : Nat}
    (hn : n ≤ Level.primaryTightness) :
    ReadsAt checks n (placedLexemes n e (conciseLexemes e)) e := by
  unfold placedLexemes
  split
  · exact (readsAt_parens h).mono hn
  · next htight => exact h.mono (Nat.not_lt.1 htight)

theorem readsAt_concise {e : Expr} (h : e.Every IsReadable) :
    ReadsAt false e.tightness (conciseLexemes e) e := by
  induction e using induction with
  | literal a =>
    refine readsAt_operand ?_ (readsOperand_literal a)
    rcases a with s | i | (_ | _) | _ <;> exact opens_of_begins rfl _ _
  | name n => exact readsAt_operand (opens_of_begins (begins_of_isWord h) _ _) (readsOperand_name h)
  | member e key ih =>
    have he := readsAt_placed (ih h.2) Level.selector_le_primary
    have hopens := (he.opens.append [.symbol .dot, .name key]).tighten (by decide)
      Level.primaryTightness
    have hoperand := readsOperand_member (he.operand (Nat.le_refl _)) key
    exact (readsAt_operand hopens hoperand).mono Level.selector_le_primary
  | index e i ihe ihi =>
    have he := readsAt_placed (ihe h.2.1) Level.selector_le_primary
    have hopens := ((he.opens.append (.symbol .openBracket :: conciseLexemes i)).append
      [.symbol .closeBracket]).tighten (by decide) Level.primaryTightness
    have hoperand := readsOperand_index (he.operand (Nat.le_refl _)) (ihi h.2.2).whole
    exact (readsAt_operand hopens hoperand).mono Level.selector_le_primary
  | binary l op r ihl ihr =>
    exact readsAt_binary
      (readsAt_placed (ihl h.2.1) (Nat.le_of_lt op.level.tightness_lt_primary))
      (readsAt_placed (ihr h.2.2) op.level.tightness_lt_primary)
  | unary op e ih =>
    exact readsAt_unary (readsAt_placed (ih h.2) (Nat.le_of_lt op.level.tightness_lt_primary))
  | filter e n args ihe ih =>
    have he := readsAt_placed (ihe h.2.1) (n := Level.filterTightness) (by decide)
    have hfiltered := he.filtered (Nat.le_refl _)
    have hargs : ∀ a ∈ args, ReadsWhole false (conciseLexemes a) (id a) :=
      fun a ha => (ih a ha (everyItem_iff.1 h.2.2 a ha)).whole
    -- a filter is no operand, so nothing is asked of it before a selector
    have hlt : ¬ Level.selectorTightness ≤ Level.filterTightness := by decide
    cases args with
    | nil =>
      refine readsAt_filtered (Nat.le_refl _) (he.opens.append _) ?_ fun hn => absurd hn hlt
      exact fun t x? ht hx => readsFiltered_bare hfiltered n ht hx
    | cons a args =>
      refine readsAt_filtered (Nat.le_refl _) ?_ ?_ fun hn => absurd hn hlt
      · exact he.opens.append _
      · intro t x? _ _
        have hcall := readsFiltered_arguments hfiltered hargs n t
        simpa [conciseLexemes, conciseItemLexemes_eq_map, filtered] using hcall
  | checked e ih => exact absurd h.1 id
  | call n args ih =>
    have hargs : ∀ a ∈ args, ReadsWhole false (conciseLexemes a) (id a) :=
      fun a ha => (ih a ha (everyItem_iff.1 h.2 a ha)).whole
    refine readsAt_operand (opens_of_begins (begins_of_isWord h.1) _ _) fun t => ?_
    simpa [conciseLexemes, conciseItemLexemes_eq_map] using readsOperand_call h.1 hargs t
  | list items ih =>
    have hitems : ∀ a ∈ items, ReadsWhole false (conciseLexemes a) (id a) :=
      fun a ha => (ih a ha (everyItem_iff.1 h.2 a ha)).whole
    refine readsAt_operand (opens_of_begins rfl _ _) fun t => ?_
    simpa [conciseLexemes, conciseItemLexemes_eq_map] using readsOperand_list hitems t
  | map entries ih =>
    have hentries : ∀ p ∈ entries, ReadsWhole false (conciseLexemes p.1) (id p.1) ∧
        ReadsWhole false (conciseLexemes p.2) (id p.2) := by
      intro p hp
      obtain ⟨hkey, he⟩ := everyEntry_iff.1 h.2 p hp
      exact ⟨((ih p hp).1 hkey).whole, ((ih p hp).2 he).whole⟩
    refine readsAt_operand (opens_of_begins rfl _ _) fun t => ?_
    simpa [conciseLexemes, conciseEntryLexemes_eq_map] using readsOperand_map hentries t

end Expr

namespace Environment

open Polyglot.Expr

/-- Without a sandbox, a concise text is read back as its expression. -/
theorem parseExpr_concise (env : Environment) (henv : env.options.sandboxed = false) (e : Expr)
    (he : e.Every IsReadable) : env.parseExpr e.concise = .ok e := by
  have hread := readAlone_of_written (written_concise he) (readsAt_concise he)
  rw [parseExpr, henv]
  exact hread

/-- Both sides of operators of one level, signs in front of looser operands, and a filter around
members of another one. -/
theorem parseExpr_concise_nested :
    let env : Environment := .bare {}
    let filtered : Expr := .filter (.member (.filter (.name "and") "not" []) "or") "default"
      [.map [(.text "k", .binary (.name "a") .or (.name "or"))]]
    let sum : Expr := .binary (.binary (.name "a") .subtract (.int 1)) .subtract
      (.binary (.name "b") .subtract (.unary .negate filtered))
    let e : Expr := .unary .not (.binary sum .less (.binary (.unary .not (.name "c")) .and .null))
    env.options.sandboxed = false ∧ e.Every IsReadable ∧
      e.concise = "not a - 1 - (b - -(and|not).or|default(\x7b\"k\": a or or\x7d))" ++
        " < (not c and null)" ∧
      env.parseExpr e.concise = .ok e := by
  intro env filtered sum e
  have hreadable : e.Every IsReadable := by
    simp [e, sum, filtered, Every, EveryItem, EveryEntry, IsReadable]
    decide
  exact ⟨rfl, hreadable, by decide +kernel, parseExpr_concise env rfl e hreadable⟩

end Environment

end Polyglot
