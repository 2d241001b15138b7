import Polyglot.Proofs.NodeSource
import Polyglot.Proofs.PlainText

/-!
Reading tag by tag. Between two tags a cursor is described by its scanner alone: whether it has
looked at the next token already makes no difference to what is read from there. The scanner finds a
text up to the next tag, a tag word by word, and notes up to the tag that ends them.
-/
namespace Polyglot

namespace Scanner

/-- Outside tags. -/
def inText (cs : List Char) (line : Nat) : Scanner := ⟨cs, line, .text, false⟩

/-- Inside a tag, with no brace open. -/
def inTag (cs : List Char) (line : Nat) : Scanner := ⟨cs, line, .tag 0, false⟩

/-- Where a text ends: at the end of the template or before a tag. -/
def Opens (cs : List Char) : Prop :=
  cs = [] ∨ (∃ rest, cs = '\x7b' :: '\x7b' :: rest) ∨ ∃ rest, cs = '\x7b' :: '%' :: rest

theorem plain_of_opens {cs : List Char} (h : Opens cs) : plain cs = [] := by
  rcases h with rfl | ⟨rest, rfl⟩ | ⟨rest, rfl⟩ <;> rfl

theorem plain_append {w cs : List Char} (hprint : ¬ ['\x7b', '\x7b'] <:+: w)
    (hblock : ¬ ['\x7b', '%'] <:+: w) (hlast : ¬ ['\x7b'] <:+ w) (hcs : Opens cs) :
    plain (w ++ cs) = w := by
  have hw : ∀ d ∈ Mode.text.delimiters, ¬ d <:+: w := by
    simp only [Mode.delimiters, List.forall_mem_cons]
    exact ⟨hblock, hprint, fun _ h => absurd h List.not_mem_nil⟩
  have hseam : ∀ c e, [c] <:+ w → cs.head? = some e → [c, e] ∉ Mode.text.delimiters := by
    intro c e hc _ hmem
    simp only [Mode.delimiters, List.mem_cons, List.not_mem_nil, or_false] at hmem
    rcases hmem with hmem | hmem
    · cases hmem
      exact hlast hc
    · cases hmem
      exact hlast hc
  rw [plain_append_of_not_within hw hseam, plain_of_opens hcs, List.append_nil]

/-- A text up to the next tag is one token. -/
theorem next_text {s : String} (h : Node.IsClean s) {cs : List Char} (hcs : Opens cs)
    (line : Nat) : (inText (s.toList ++ cs) line).next =
      (.ok (some ⟨.text s, line⟩), inText cs (line + Node.breaks s)) := by
  have hplain : plain (inText (s.toList ++ cs) line).rest = s.toList :=
    plain_append h.no_print h.no_block h.last hcs
  have hne : plain (inText (s.toList ++ cs) line).rest ≠ [] := by
    rw [hplain]
    exact fun hnil => h.ne_empty (String.toList_eq_nil_iff.1 hnil)
  have hafter : (inText (s.toList ++ cs) line).afterText = inText cs (line + Node.breaks s) := by
    rw [afterText, hplain]
    simp [inText, advance, Node.breaks]
  rw [next_of_plain rfl hne, hafter, hplain, String.ofList_toList]
  rfl

/-- Notes without the delimiter of a tag end at the tag that ends the phrase. -/
theorem lengthBefore_append {name w cs : List Char} (hw : ¬ ['\x7b', '%'] <:+: w)
    (hcs : opensTag name cs = true) :
    lengthBefore name (w ++ '\x7b' :: '%' :: cs) = some w.length := by
  induction w with
  | nil =>
    rw [List.nil_append, lengthBefore, if_pos hcs]
    rfl
  | cons c w ih =>
    have htail : lengthBefore name (w ++ '\x7b' :: '%' :: cs) = some w.length :=
      ih fun h => hw (h.trans (List.suffix_cons c w).isInfix)
    rw [List.cons_append, lengthBefore, htail]
    · rfl
    · -- a brace at the end of the notes opens no tag with the brace after it
      rintro rest rfl hrest
      cases w with
      | nil => cases hrest
      | cons d w =>
        obtain ⟨rfl, _⟩ := List.cons.inj hrest
        exact hw (List.prefix_append ['\x7b', '%'] w).isInfix

theorem rawUntil_append {name s : String} {cs : List Char}
    (hs : ¬ ['\x7b', '%'] <:+: s.toList) (hcs : opensTag name.toList cs = true) (line : Nat) :
    (inText (s.toList ++ '\x7b' :: '%' :: cs) line).rawUntil name =
      (some s, inTag cs (line + Node.breaks s)) := by
  have hlength := lengthBefore_append hs hcs
  have hdrop : (s.toList ++ '\x7b' :: '%' :: cs).drop (s.toList.length + 2) = cs := by
    rw [← List.drop_drop, List.drop_left]
    rfl
  have htake : (s.toList ++ '\x7b' :: '%' :: cs).take (s.toList.length + 2) =
      s.toList ++ ['\x7b', '%'] := by
    rw [List.take_add, List.take_left, List.drop_left]
    rfl
  have hbreaks : Blank.lineBreaks ['\x7b', '%'] = 0 := rfl
  simp only [inText, rawUntil, hlength, advance, hdrop, htake, Blank.lineBreaks_append, hbreaks,
    List.take_left, String.ofList_toList]
  rfl

theorem next_blockStart (cs : List Char) (line : Nat) :
    (inText ('\x7b' :: '%' :: cs) line).next = (.ok (some ⟨.blockStart, line⟩), inTag cs line) :=
  rfl

theorem next_printStart (cs : List Char) (line : Nat) :
    (inText ('\x7b' :: '\x7b' :: cs) line).next =
      (.ok (some ⟨.printStart, line⟩), inTag cs line) :=
  rfl

theorem next_blockEnd (cs : List Char) (line : Nat) :
    (inTag (' ' :: '%' :: '\x7d' :: cs) line).next =
      (.ok (some ⟨.blockEnd, line⟩), inText cs line) :=
  rfl

theorem next_printEnd (cs : List Char) (line : Nat) :
    (inTag (' ' :: '\x7d' :: '\x7d' :: cs) line).next =
      (.ok (some ⟨.printEnd, line⟩), inText cs line) :=
  rfl

end Scanner

namespace Node

open Scanner

theorem written_spaced {w : String} {xs : List Lexeme} (h : Expr.Written w.toList xs) :
    Expr.Written (spaced [w]).toList xs := by
  simpa [spaced] using h.space

theorem written_spaced_cons {w w' : String} {rest : List String} {xs ys : List Lexeme}
    (h : Expr.Written w.toList xs) (hrest : Expr.Written (spaced (w' :: rest)).toList ys) :
    Expr.Written (spaced (w :: w' :: rest)).toList (xs ++ ys) := by
  have hspace : (spaced (w' :: rest)).toList = ' ' :: (w'.toList ++ (spaced rest).toList) := by
    simp [spaced]
  have hwords : (spaced (w :: w' :: rest)).toList =
      (' ' :: w.toList) ++ (spaced (w' :: rest)).toList := by
    rw [spaced, String.toList_append, String.toList_append]
    rfl
  rw [hwords]
  rw [hspace] at hrest ⊢
  exact h.space.append hrest (Expr.separates_space _)

/-- What stands after the opening delimiter of a tag. -/
def inside (words : List String) (cs : List Char) : List Char :=
  (spaced words).toList ++ ' ' :: '%' :: '\x7d' :: cs

theorem blockTag_append (words : List String) (cs : List Char) :
    (blockTag words).toList ++ cs = '\x7b' :: '%' :: inside words cs := by
  simp [blockTag, inside]

theorem breaks_blockTag (words : List String) :
    breaks (blockTag words) = Blank.lineBreaks (spaced words).toList := by
  simp [breaks, blockTag, Blank.lineBreaks]

/-- The words of a tag and its closing delimiter. -/
theorem supplies_inside {words : List String} {xs : List Lexeme}
    (h : Expr.Written (spaced words).toList xs) (cs : List Char) (line : Nat) :
    (inTag (inside words cs) line).Supplies (xs ++ [.blockEnd])
      (inText cs (line + breaks (blockTag words))) := by
  have hspace := Expr.separates_space ['%', '\x7d'] cs
  have hwords := h.spells 0 (' ' :: '%' :: '\x7d' :: cs) hspace line false
  rw [breaks_blockTag]
  exact supplies_append hwords ⟨_, _, next_blockEnd cs _, rfl⟩

end Node

namespace Cursor

variable {s t : Cursor} {σ τ : Scanner}

/-- The cursor is at the scanner, or has looked at the next token from there. -/
def Near (s : Cursor) (σ : Scanner) : Prop :=
  ∃ line, s = ⟨[], σ, line⟩ ∨ s = (Cursor.mk [] σ line).looked

theorem near_fresh (σ : Scanner) (line : Nat) : (Cursor.mk [] σ line).Near σ :=
  ⟨line, .inl rfl⟩

theorem Near.looked (h : s.Near σ) : s.looked.Near σ := by
  obtain ⟨line, rfl | rfl⟩ := h
  · exact ⟨line, .inr rfl⟩
  · exact ⟨line, .inr (looked_looked _)⟩

theorem Near.step (h : s.Near σ) {token : Token} (hnext : σ.next = (.ok (some token), τ)) :
    s.step = (.ok token, ⟨[], τ, token.line⟩) := by
  have hfresh : ∀ line, (Cursor.mk [] σ line).step = (.ok token, ⟨[], τ, token.line⟩) := by
    intro line
    simp [Cursor.step, hnext]
  obtain ⟨line, rfl | rfl⟩ := h
  · exact hfresh line
  · rw [step_looked]
    exact hfresh line

/-- What the scanner supplies is read from the cursor. -/
theorem Near.supplies (h : s.Near σ) {x : Lexeme} {xs : List Lexeme}
    (hxs : σ.Supplies (x :: xs) τ) : ∃ line, s.Supplies (x :: xs) ⟨[], τ, line⟩ := by
  obtain ⟨line, rfl | rfl⟩ := h
  · exact hxs.cursor line
  · obtain ⟨line', hfresh⟩ := hxs.cursor line
    exact ⟨line', hfresh.looked⟩

end Cursor

namespace Reading

variable {α β : Type} {s : Cursor} {σ τ : Scanner}

/-- The reading succeeds with `a` and goes on near a scanner. -/
def Reaches (r : Reading s α) (a : α) (σ : Scanner) : Prop :=
  ∃ t, r.Gives a t ∧ t.Near σ

theorem reaches_done (hs : s.Near σ) (a : α) : (done s a).Reaches a σ :=
  ⟨s, gives_done s a, hs⟩

theorem reaches_map {r : Reading s α} {a : α} (f : α → β) (h : r.Reaches a σ) :
    (r.map f).Reaches (f a) σ := by
  obtain ⟨t, hgives, ht⟩ := h
  exact ⟨t, gives_map f hgives, ht⟩

/-- Goes on after a reading of which the exact rest is known. -/
theorem Gives.reaches_andThen {r : Reading s α} {a : α} {b : β} {t : Cursor}
    {next : (a : α) → (t : Cursor) → t.size ≤ s.size → Reading t β} (h : r.Gives a t)
    (hnext : ∀ ht, (next a t ht).Reaches b τ) : (r.andThen next).Reaches b τ := by
  have hle : t.size ≤ s.size := h.rest ▸ r.size_le
  obtain ⟨u, hgives, hu⟩ := hnext hle
  exact ⟨u, gives_andThen h fun _ => hgives, hu⟩

theorem reaches_andThen {r : Reading s α} {a : α} {b : β}
    {next : (a : α) → (t : Cursor) → t.size ≤ s.size → Reading t β} (h : r.Reaches a σ)
    (hnext : ∀ t ht, t.Near σ → (next a t ht).Reaches b τ) : (r.andThen next).Reaches b τ := by
  obtain ⟨t, hgives, ht⟩ := h
  exact hgives.reaches_andThen fun hle => hnext t hle ht

end Reading

namespace Cursor

variable {α β : Type} {s : Cursor} {σ τ : Scanner}

theorem size_lt_of_step {t : Cursor} {token : Token} (h : s.step = (.ok token, t)) :
    t.size < s.size := by
  have hstep : s.step.2 = t := congrArg Prod.snd h
  exact hstep ▸ size_step_lt (congrArg Prod.fst h)

theorem reaches_take {t : Cursor} {token : Token} {b : β}
    {k : (token : Token) → (t : Cursor) → t.size < s.size → Reading t β}
    (h : s.step = (.ok token, t)) (hk : ∀ ht, (k token t ht).Reaches b τ) :
    (s.take k).Reaches b τ := by
  obtain ⟨u, hgives, hu⟩ := hk (size_lt_of_step h)
  exact ⟨u, gives_take h fun _ => hgives, hu⟩

theorem reaches_takeName {t : Cursor} {n : String} {line : Nat} {b : β}
    {k : (n : String) → (t : Cursor) → t.size < s.size → Reading t β}
    (h : s.step = (.ok ⟨.name n, line⟩, t)) (hk : ∀ ht, (k n t ht).Reaches b τ) :
    (s.takeName k).Reaches b τ :=
  reaches_take h hk

theorem reaches_choose_yes {t : Cursor} {token : Token} {wanted : Lexeme → Option α} {a : α}
    {b : β} {yes : (a : α) → (t : Cursor) → t.size < s.size → Reading t β}
    {no : (t : Cursor) → t.size ≤ s.size → Reading t β} (h : s.step = (.ok token, t))
    (hw : wanted token.lexeme = some a) (hyes : ∀ ht, (yes a t ht).Reaches b τ) :
    (s.choose wanted yes no).Reaches b τ := by
  obtain ⟨u, hgives, hu⟩ := hyes (size_lt_of_step h)
  exact ⟨u, gives_choose_yes h hw fun _ => hgives, hu⟩

theorem reaches_choose_no {x : Lexeme} {wanted : Lexeme → Option α} {b : β}
    {yes : (a : α) → (t : Cursor) → t.size < s.size → Reading t β}
    {no : (t : Cursor) → t.size ≤ s.size → Reading t β} (h : s.Shows (some x))
    (hw : wanted x = none) (hno : ∀ ht, (no s.looked ht).Reaches b τ) :
    (s.choose wanted yes no).Reaches b τ := by
  obtain ⟨u, hgives, hu⟩ := hno (s.peek 0).size_le
  exact ⟨u, gives_choose_no h hw fun _ => hgives, hu⟩

theorem gives_raw {name content : String} (h : σ.rawUntil name = (some content, τ)) (line : Nat) :
    ((Cursor.mk [] σ line).raw name).Gives content ⟨[], τ, τ.line⟩ := by
  constructor <;> simp [raw, h]

theorem gives_tagName {n : String} {line : Nat} {t : Cursor}
    (h : s.step = (.ok ⟨.name n, line⟩, t)) : s.tagName.Gives n s.looked :=
  Reading.gives_andThen (gives_peek (peek_of_step h)) fun _ => Reading.gives_done _ _

end Cursor

end Polyglot
