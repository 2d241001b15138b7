import Polyglot.Proofs.ScriptReading
import Polyglot.Script

/-!
The lines of a script. A script is laid out in lines, each with some margin in front, and comments
may stand anywhere between them. No line holds a line break, because string literals and notes are
written without any, so the text of a script determines its lines.
-/
namespace Polyglot

namespace Expr

variable {function : String → String}

theorem mem_of_mem_intercalate {α : Type} {c : α} {sep : List α} {xss : List (List α)}
    (h : c ∈ sep.intercalate xss) : c ∈ sep ∨ ∃ xs ∈ xss, c ∈ xs := by
  induction xss with
  | nil => exact absurd h List.not_mem_nil
  | cons xs xss ih =>
    cases xss with
    | nil => exact .inr ⟨xs, List.mem_cons_self, by simpa using h⟩
    | cons ys xss =>
      rw [List.intercalate_cons_cons, List.mem_append, List.mem_append] at h
      rcases h with (h | h) | h
      · exact .inr ⟨xs, List.mem_cons_self, h⟩
      · exact .inl h
      · rcases ih h with h | ⟨zs, hzs, h⟩
        · exact .inl h
        · exact .inr ⟨zs, .tail _ hzs, h⟩

/-- The names in one expression, the functions that its filters stand for among them, are
identifiers; they may be reserved words. -/
def IsNamed (function : String → String) : Expr → Prop
  | name n => Scanner.isIdentifier n = true
  | member _ key => Scanner.isIdentifier key = true
  | filter _ n _ => Scanner.isIdentifier (function n) = true
  | call n _ => Scanner.isIdentifier n = true
  | _ => True

theorem isNamed_of_isWritable {e : Expr} (h : IsWritable function e) : IsNamed function e := by
  cases e with
  | name n => exact isIdentifier_of_isWord h
  | member e key => exact h
  | filter e n args => exact isIdentifier_of_isWord h
  | call n args => exact isIdentifier_of_isWord h
  | _ => trivial

/-- The characters that break a line. -/
def IsBreak (c : Char) : Prop := c = '\n' ∨ c = '\r'

variable {c : Char}

theorem not_mem_spell_of_isBreak (hc : IsBreak c) (s : String) :
    c ∉ (Literal.spell s).toList := by
  have hescape : ∀ d, c ∉ Literal.escape d := by
    intro d
    unfold Literal.escape
    rcases hc with rfl | rfl <;> split <;> simp_all [eq_comm]
  have hquote : c ≠ '"' := by rcases hc with rfl | rfl <;> decide
  simp [Literal.spell, Literal.body, hescape, hquote]

theorem not_mem_of_isBreak {n : String} (hc : IsBreak c) (h : Scanner.isIdentifier n = true) :
    c ∉ n.toList :=
  Scanner.not_mem_of_isIdentifier h (by rcases hc with rfl | rfl <;> decide)

theorem not_mem_digits_of_isBreak (hc : IsBreak c) (n : Nat) : c ∉ Decimal.digits n := fun h =>
  absurd (Decimal.isDigit_of_mem_digits h) (by rcases hc with rfl | rfl <;> decide)

theorem not_mem_scalar_of_isBreak (hc : IsBreak c) (a : Scalar) : c ∉ a.spelled.toList := by
  cases a with
  | text s => exact not_mem_spell_of_isBreak hc s
  | int i =>
    have hminus : c ≠ '-' := by rcases hc with rfl | rfl <;> decide
    simp only [Scalar.spelled, Integer.text, Decimal.text, Decimal.natText]
    split <;> simp [not_mem_digits_of_isBreak hc, hminus]
  | bool b => rcases hc with rfl | rfl <;> cases b <;> decide
  | null => rcases hc with rfl | rfl <;> decide

theorem not_mem_scripts_of_isBreak (hc : IsBreak c) {es : List Expr}
    (h : ∀ e ∈ es, c ∉ (script function e).toList) :
    c ∉ (", ".intercalate (scripts function es)).toList := by
  intro hmem
  rw [scripts_eq_map, String.toList_intercalate] at hmem
  rcases mem_of_mem_intercalate hmem with hmem | ⟨xs, hxs, hmem⟩
  · exact absurd hmem (by rcases hc with rfl | rfl <;> decide)
  · simp only [List.map_map, List.mem_map] at hxs
    obtain ⟨e, he, rfl⟩ := hxs
    exact h e he hmem

theorem not_mem_entryScripts_of_isBreak (hc : IsBreak c) {es : List (Expr × Expr)}
    (h : ∀ x ∈ es, c ∉ (script function x.1).toList ∧ c ∉ (script function x.2).toList) :
    c ∉ (", ".intercalate (entryScripts function es)).toList := by
  have hmarks : c ≠ ':' ∧ c ≠ ' ' := by rcases hc with rfl | rfl <;> decide
  intro hmem
  rw [entryScripts_eq_map, String.toList_intercalate] at hmem
  rcases mem_of_mem_intercalate hmem with hmem | ⟨xs, hxs, hmem⟩
  · exact absurd hmem (by rcases hc with rfl | rfl <;> decide)
  · simp only [List.map_map, List.mem_map] at hxs
    obtain ⟨x, hx, rfl⟩ := hxs
    obtain ⟨hkey, he⟩ := h x hx
    simp [hkey, he, hmarks] at hmem

/-- Script forms hold no line break, whatever texts are in them. -/
theorem not_mem_script_of_isBreak (hc : IsBreak c) {e : Expr} (h : e.Every (IsNamed function)) :
    c ∉ (script function e).toList := by
  -- the characters of everything that a script form puts around its parts
  have hmarks : c ∉ "()[].\x7b\x7d -notsrig_".toList := by rcases hc with rfl | rfl <;> decide
  simp only [String.reduceToList, List.mem_cons, List.not_mem_nil, or_false, not_or] at hmarks
  induction e using induction with
  | literal a => exact not_mem_scalar_of_isBreak hc a
  | name n => exact not_mem_of_isBreak hc h
  | member e key ih => simp [script, ih h.2, not_mem_of_isBreak hc h.1, hmarks]
  | index e i ihe ihi => simp [script, ihe h.2.1, ihi h.2.2, hmarks]
  | binary l op r ihl ihr =>
    have hop : c ∉ op.symbol.toList := by rcases hc with rfl | rfl <;> cases op <;> decide
    simp [script, ihl h.2.1, ihr h.2.2, hop, hmarks]
  | unary op e ih => cases op <;> simp [script, ih h.2, hmarks]
  | filter e n args ihe ih =>
    have hall : ∀ a ∈ e :: args, c ∉ (script function a).toList :=
      List.forall_mem_cons.2 ⟨ihe h.2.1, fun a ha => ih a ha (everyItem_iff.1 h.2.2 a ha)⟩
    have hargs := not_mem_scripts_of_isBreak hc hall
    simp only [scripts] at hargs
    simp [script, -String.toList_intercalate, not_mem_of_isBreak hc h.1, hargs, hmarks]
  | checked e ih => simp [script, ih h.2, hmarks]
  | call n args ih =>
    have hargs := not_mem_scripts_of_isBreak hc fun a ha => ih a ha (everyItem_iff.1 h.2 a ha)
    simp [script, -String.toList_intercalate, not_mem_of_isBreak hc h.1, hargs, hmarks]
  | list items ih =>
    have hitems := not_mem_scripts_of_isBreak hc fun a ha => ih a ha (everyItem_iff.1 h.2 a ha)
    simp [script, -String.toList_intercalate, hitems, hmarks]
  | map entries ih =>
    have hentries := not_mem_entryScripts_of_isBreak hc fun x hx =>
      ⟨(ih x hx).1 (everyEntry_iff.1 h.2 x hx).1, (ih x hx).2 (everyEntry_iff.1 h.2 x hx).2⟩
    simp [script, -String.toList_intercalate, hentries, hmarks]

theorem lineFeed_not_mem_script {e : Expr} (h : e.Every (IsWritable function)) :
    '\n' ∉ (script function e).toList :=
  not_mem_script_of_isBreak (.inl rfl) (h.mono fun _ => isNamed_of_isWritable)

theorem script_inj {d e : Expr} (hd : d.Every (IsWritable function) ∧ d.Every IsPlain)
    (he : e.Every (IsWritable function) ∧ e.Every IsPlain)
    (h : script function d = script function e) : d = e := by
  have hread := readAlone_script true hd.1
  rw [h, readAlone_script true he.1, lowered_of_plain hd.2, lowered_of_plain he.2] at hread
  exact (Except.ok.inj hread).symm

end Expr

namespace Script

/-- Two texts with a mark at the first place where it can be are equal on both sides of it. -/
theorem append_cons_inj {α : Type} {a : α} {as bs cs ds : List α} (has : a ∉ as) (hbs : a ∉ bs)
    (h : as ++ a :: cs = bs ++ a :: ds) : as = bs ∧ cs = ds := by
  induction as generalizing bs with
  | nil =>
    cases bs with
    | nil => exact ⟨rfl, (List.cons.inj h).2⟩
    | cons b bs =>
      obtain ⟨rfl, _⟩ := List.cons.inj h
      exact absurd List.mem_cons_self hbs
  | cons x as ih =>
    cases bs with
    | nil =>
      obtain ⟨rfl, _⟩ := List.cons.inj h
      exact absurd List.mem_cons_self has
    | cons b bs =>
      obtain ⟨rfl, htail⟩ := List.cons.inj h
      obtain ⟨rfl, rfl⟩ := ih (fun hm => has (.tail _ hm)) (fun hm => hbs (.tail _ hm)) htail
      exact ⟨rfl, rfl⟩

/-- A line that is no comment. -/
inductive Line where
  | emit (e : Expr)
  | loop (target : String) (items : Expr)
  | test (condition : Expr)
  | next (condition : Expr)
  | fallback
  | close

namespace Line

def spelled (function : String → String) : Line → String
  | emit e => "emit(" ++ e.script function ++ ");"
  | loop target items => "for " ++ target ++ " in " ++ items.script function ++ " \x7b"
  | test condition => "if " ++ condition.script function ++ " \x7b"
  | next condition => "\x7d else if " ++ condition.script function ++ " \x7b"
  | fallback => "\x7d else \x7b"
  | close => "\x7d"

/-- The expressions of a line are plain and writable, and the target of a loop is a word. -/
def IsClean (function : String → String) : Line → Prop
  | emit e => e.Every (Expr.IsWritable function) ∧ e.Every Expr.IsPlain
  | loop target items => Scanner.isIdentifier target = true ∧
    items.Every (Expr.IsWritable function) ∧ items.Every Expr.IsPlain
  | test condition => condition.Every (Expr.IsWritable function) ∧ condition.Every Expr.IsPlain
  | next condition => condition.Every (Expr.IsWritable function) ∧ condition.Every Expr.IsPlain
  | fallback => True
  | close => True

variable {function : String → String}

theorem lineFeed_not_mem_spelled {l : Line} (h : l.IsClean function) :
    '\n' ∉ (l.spelled function).toList := by
  cases l with
  | emit e => simp [spelled, Expr.lineFeed_not_mem_script h.1]
  | loop target items =>
    have htarget := Expr.not_mem_of_isBreak (.inl rfl) h.1
    simp [spelled, Expr.lineFeed_not_mem_script h.2.1, htarget]
  | test condition => simp [spelled, Expr.lineFeed_not_mem_script h.1]
  | next condition => simp [spelled, Expr.lineFeed_not_mem_script h.1]
  | fallback => simp [spelled]
  | close => simp [spelled]

theorem spelled_inj {l m : Line} (hl : l.IsClean function) (hm : m.IsClean function)
    (h : l.spelled function = m.spelled function) : l = m := by
  have htext := congrArg String.toList h
  cases l with
  | emit d =>
    cases m with
    | emit e =>
      have hscript : d.script function = e.script function := by simpa [spelled] using h
      rw [Expr.script_inj hl hm hscript]
    | _ => simp [spelled] at htext
  | loop target items =>
    cases m with
    | loop target' items' =>
      simp only [spelled, String.toList_append, List.append_assoc] at htext
      have hspace : ∀ {n : String}, Scanner.isIdentifier n = true → ' ' ∉ n.toList :=
        fun hn => Scanner.not_mem_of_isIdentifier hn (by decide)
      obtain ⟨htarget, hrest⟩ := append_cons_inj (hspace hl.1) (hspace hm.1)
        (List.append_cancel_left htext)
      have hscript : items.script function = items'.script function :=
        String.toList_inj.1 (by simpa using hrest)
      rw [String.toList_inj.1 htarget, Expr.script_inj hl.2 hm.2 hscript]
    | _ => simp [spelled] at htext
  | test c =>
    cases m with
    | test d =>
      have hscript : c.script function = d.script function := by simpa [spelled] using h
      rw [Expr.script_inj hl hm hscript]
    | _ => simp [spelled] at htext
  | next c =>
    cases m with
    | next d =>
      have hscript : c.script function = d.script function := by simpa [spelled] using h
      rw [Expr.script_inj hl hm hscript]
    | _ => simp [spelled] at htext
  | fallback => cases m <;> first | rfl | simp [spelled] at htext
  | close => cases m <;> first | rfl | simp [spelled] at htext

end Line

end Script

end Polyglot
