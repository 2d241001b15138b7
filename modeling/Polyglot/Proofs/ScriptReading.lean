import Polyglot.Proofs.PlacedReading
import Polyglot.Template

/-!
Reading script forms back. In a script form every operator stands in parentheses, so each operand is
a primary expression with its members and indices, which fits in every place. The expression that is
read is the lowered one, because a filter and a check are written as calls.
-/
namespace Polyglot

namespace Expr

variable {checks : Bool} {function : String → String}

/-- The script form of a writable expression begins like an operand. -/
theorem lexemes_begins {e : Expr} (h : e.Every (IsWritable function)) :
    ∃ x xs, lexemes function e = x :: xs ∧ x.begins = true := by
  induction e using induction with
  | literal a => rcases a with s | i | (_ | _) | _ <;> exact ⟨_, _, rfl, rfl⟩
  | name n => exact ⟨_, _, rfl, begins_of_isWord h⟩
  | member e key ih =>
    obtain ⟨x, xs, hxs, hx⟩ := ih h.2
    exact ⟨x, xs ++ _, by rw [lexemes, hxs]; rfl, hx⟩
  | index e i ihe ihi =>
    obtain ⟨x, xs, hxs, hx⟩ := ihe h.2.1
    exact ⟨x, _, by rw [lexemes, hxs]; rfl, hx⟩
  | binary l op r ihl ihr => exact ⟨_, _, rfl, rfl⟩
  | unary op e ih => exact ⟨_, _, rfl, rfl⟩
  | filter e n args ihe ih => exact ⟨_, _, rfl, begins_of_isWord h.1⟩
  | checked e ih => exact ⟨_, _, rfl, by decide⟩
  | call n args ih => exact ⟨_, _, rfl, begins_of_isWord h.1⟩
  | list items ih => exact ⟨_, _, rfl, rfl⟩
  | map entries ih => exact ⟨_, _, rfl, rfl⟩

/-- The script form of an expression is read as an operand, whatever comes next. -/
def ReadBack (checks : Bool) (function : String → String) (e : Expr) : Prop :=
  ∀ t, ReadsOperand checks (lexemes function e) t (lowered function e)

theorem ReadBack.readsAt {e : Expr} (hread : ReadBack checks function e)
    (h : e.Every (IsWritable function)) :
    ReadsAt checks Level.primaryTightness (lexemes function e) (lowered function e) := by
  obtain ⟨x, xs, hxs, hx⟩ := lexemes_begins h
  refine readsAt_operand ?_ hread
  rw [hxs]
  exact opens_of_begins hx _ xs

theorem ReadBack.reads {e : Expr} (hread : ReadBack checks function e)
    (h : e.Every (IsWritable function)) {l : Level} {t : Cursor} {x? : Option Lexeme}
    (ht : t.Shows x?) (hend : Ends l x?) :
    Reads checks l (lexemes function e) t (lowered function e) :=
  (hread.readsAt h).reads l (Nat.le_of_lt l.tightness_lt_primary) t x? ht hend

theorem ReadBack.whole {e : Expr} (hread : ReadBack checks function e)
    (h : e.Every (IsWritable function)) :
    ReadsWhole checks (lexemes function e) (lowered function e) :=
  (hread.readsAt h).whole

theorem readBack (checks : Bool) {e : Expr} (h : e.Every (IsWritable function)) :
    ReadBack checks function e := by
  induction e using induction with
  | literal a => exact readsOperand_literal a
  | name n => exact readsOperand_name h
  | member e key ih => exact readsOperand_member (ih h.2) key
  | index e i ihe ihi => exact readsOperand_index (ihe h.2.1) ((ihi h.2.2).whole h.2.2)
  | binary l op r ihl ihr =>
    have hl := ((ihl h.2.1).readsAt h.2.1).mono (Nat.le_of_lt op.level.tightness_lt_primary)
    have hr := ((ihr h.2.2).readsAt h.2.2).mono op.level.tightness_lt_primary
    intro t
    rw [lexemes]
    exact readsOperand_parens (readsAt_binary hl hr).whole t
  | unary op e ih =>
    have he := ((ih h.2).readsAt h.2).mono (Nat.le_of_lt op.level.tightness_lt_primary)
    intro t
    rw [lexemes]
    exact readsOperand_parens (readsAt_unary he).whole t
  | filter e n args ihe ih =>
    have hargs : ∀ a ∈ e :: args, ReadsWhole checks (lexemes function a) (lowered function a) := by
      refine List.forall_mem_cons.2 ⟨(ihe h.2.1).whole h.2.1, fun a ha => ?_⟩
      have hwritable := everyItem_iff.1 h.2.2 a ha
      exact (ih a ha hwritable).whole hwritable
    intro t
    have hcall := readsOperand_call h.1 hargs t
    simpa [lexemes, lowered, itemLexemes_eq_map, loweredItems_eq_map] using hcall
  | checked e ih =>
    have hargs : ∀ a ∈ [e], ReadsWhole checks (lexemes function a) (lowered function a) :=
      List.forall_mem_singleton.2 ((ih h.2).whole h.2)
    intro t
    have hcall := readsOperand_call (n := "to_string") (by decide) hargs t
    simpa [separated, lexemes, lowered] using hcall
  | call n args ih =>
    have hwritable := everyItem_iff.1 h.2
    intro t
    rw [lexemes, lowered, itemLexemes_eq_map, loweredItems_eq_map]
    exact readsOperand_call h.1 (fun a ha => (ih a ha (hwritable a ha)).whole (hwritable a ha)) t
  | list items ih =>
    have hwritable := everyItem_iff.1 h.2
    intro t
    rw [lexemes, lowered, itemLexemes_eq_map, loweredItems_eq_map]
    exact readsOperand_list (fun a ha => (ih a ha (hwritable a ha)).whole (hwritable a ha)) t
  | map entries ih =>
    intro t
    rw [lexemes, lowered, entryLexemes_eq_map, loweredEntries_eq_map]
    refine readsOperand_map (fun p hp => ?_) t
    obtain ⟨hkey, he⟩ := everyEntry_iff.1 h.2 p hp
    exact ⟨((ih p hp).1 hkey).whole hkey, ((ih p hp).2 he).whole he⟩

theorem readAlone_script (checks : Bool) {e : Expr} (h : e.Every (IsWritable function)) :
    (readAlone checks (.ofExpression (e.script function))).result = .ok (e.lowered function) :=
  readAlone_of_written (written_script h) ((readBack checks h).readsAt h)

end Expr

namespace Environment

open Polyglot.Expr

/-- The script form of a writable expression is read back as its lowered form, and as the expression
itself if it has no filter and no check in it. -/
theorem parseExpr_script (env : Environment) (e : Expr) (h : e.Every (IsWritable env.function)) :
    env.parseExpr (e.script env.function) = .ok (e.lowered env.function) ∧
      (e.Every IsPlain → env.parseExpr (e.script env.function) = .ok e) := by
  have hread := readAlone_script env.options.sandboxed h
  refine ⟨hread, fun hplain => hread.trans ?_⟩
  rw [lowered_of_plain hplain]

/-- A filter bound to a function of another name, and maps that end with each other. -/
theorem parseExpr_script_nested :
    let env : Environment := .standard { sandboxed := true, translateFunction := "and" }
    let inner : Expr := .map [(.text "a\"\\\n", .map [(.text "\x7d\x7d", .unary .negate (.int 1))])]
    let e : Expr := .filter (.checked inner) "trans" [.binary (.name "or") .or (.name "and")]
    e.Every (IsWritable env.function) ∧
      env.parseExpr (e.script env.function) =
        .ok (.call "and" [.call "to_string" [inner], .binary (.name "or") .or (.name "and")]) := by
  intro env inner e
  have hwritable : e.Every (IsWritable env.function) := by
    simp [e, inner, Every, EveryItem, EveryEntry, IsWritable]
    decide
  exact ⟨hwritable, (parseExpr_script env e hwritable).1⟩

end Environment

end Polyglot
