import Polyglot.Proofs.ListedReading

/-!
Expressions in their places. The place of an operand asks for a tightness: that of the operator
around it, or one more to the right of a binary operator. What is tight enough is read whole there,
because nothing inside it takes what comes next; and what is not is made so by parentheses.
-/
namespace Polyglot

namespace Level

/-- How tight a level binds. Filters bind tighter than all levels, members and indices tighter than
filters, and all other expressions tightest. -/
def tightness : Level → Nat
  | or => 0
  | and => 1
  | not => 2
  | comparison => 3
  | concat => 4
  | sum => 5
  | product => 6
  | sign => 7

def filterTightness : Nat := 8

def selectorTightness : Nat := 9

def primaryTightness : Nat := 10

theorem selector_le_primary : selectorTightness ≤ primaryTightness := by decide

theorem tightness_add_looseness (l : Level) : l.tightness + l.looseness = 7 := by cases l <;> rfl

theorem tightness_le (l : Level) : l.tightness ≤ 7 := by
  have := l.tightness_add_looseness
  omega

theorem tightness_lt_primary (l : Level) : l.tightness < primaryTightness := by
  cases l <;> decide

theorem tightness_tighter {l : Level} (h : l ≠ sign) : l.tighter.tightness = l.tightness + 1 := by
  cases l <;> first | rfl | exact absurd rfl h

theorem eq_of_tightness_eq {k l : Level} (h : k.tightness = l.tightness) : k = l := by
  cases k <;> cases l <;> first | rfl | cases h

theorem looseness_le_of_tightness_le {k l : Level} (h : k.tightness ≤ l.tightness) :
    l.looseness ≤ k.looseness := by
  have := k.tightness_add_looseness
  have := l.tightness_add_looseness
  omega

end Level

def UnaryOp.level : UnaryOp → Level
  | not => .not
  | negate => .sign

namespace UnaryOp

theorem sign?_lexeme (op : UnaryOp) : op.level.sign? op.lexeme = some op := by cases op <;> rfl

theorem sign?_lexeme_of_tightness_lt {op : UnaryOp} {l : Level}
    (h : l.tightness < op.level.tightness) : l.sign? op.lexeme = none := by
  cases op <;> cases l <;> first | rfl | exact absurd h (by decide)

theorem tightness_ne (op : UnaryOp) (op' : BinaryOp) :
    op'.level.tightness ≠ op.level.tightness := by
  cases op <;> cases op' <;> decide

end UnaryOp

theorem BinaryOp.sign?_level (op : BinaryOp) (x : Lexeme) : op.level.sign? x = none := by
  cases op <;> rfl

namespace Expr

variable {checks : Bool} {m n : Nat} {xs ys : List Lexeme} {d e : Expr}

/-- Some lexemes do not begin like the end of a list, nor with the sign of a level that is looser
than a given tightness. -/
def Opens (n : Nat) (xs : List Lexeme) : Prop :=
  ∃ x rest, xs = x :: rest ∧ x.closes = false ∧ ∀ l : Level, l.tightness < n → l.sign? x = none

theorem Opens.mono (h : Opens n xs) (hmn : m ≤ n) : Opens m xs := by
  obtain ⟨x, rest, rfl, hx, hsign⟩ := h
  exact ⟨x, rest, rfl, hx, fun l hl => hsign l (by omega)⟩

theorem Opens.append (h : Opens n xs) (ys : List Lexeme) : Opens n (xs ++ ys) := by
  obtain ⟨x, rest, rfl, hx, hsign⟩ := h
  exact ⟨x, rest ++ ys, rfl, hx, hsign⟩

/-- The signs of all levels are looser than a filter. -/
theorem Opens.tighten (h : Opens n xs) (hn : Level.filterTightness ≤ n) (k : Nat) :
    Opens k xs := by
  obtain ⟨x, rest, rfl, hx, hsign⟩ := h
  refine ⟨x, rest, rfl, hx, fun l _ => hsign l ?_⟩
  have := l.tightness_le
  simp only [Level.filterTightness] at hn
  omega

theorem opens_of_begins {x : Lexeme} (hx : x.begins = true) (n : Nat) (xs : List Lexeme) :
    Opens n (x :: xs) := by
  refine ⟨x, xs, rfl, ?_, fun l _ => Level.sign?_of_begins hx l⟩
  cases hcloses : x.closes with
  | false => rfl
  | true => exact absurd rfl (Lexeme.ne_of_begins_of_closes hx hcloses)

/-- No member, index or call goes on with what comes next. -/
def EndsSelectors (x? : Option Lexeme) : Prop :=
  x? ≠ some (.symbol .dot) ∧ x? ≠ some (.symbol .openBracket) ∧ x? ≠ some (.symbol .openParen)

/-- Some lexemes are read as an expression to which the filters after it apply. The reader may have
looked at the first of them already. -/
def ReadsFiltered (checks : Bool) (xs : List Lexeme) (t : Cursor) (e : Expr) : Prop :=
  ∀ (s u : Cursor) (b : Expr), s.Supplies xs t →
    (∀ t' ∈ [t, t.looked], (filters checks e t').Gives b u) →
    ∃ a v c w, (primary checks s).Gives a v ∧ (selectors checks a v).Gives c w ∧
      (filters checks c w).Gives b u

theorem ReadsOperand.filtered {t : Cursor} {x? : Option Lexeme} (h : ReadsOperand checks xs t e)
    (ht : t.Shows x?) (hx : EndsSelectors x?) : ReadsFiltered checks xs t e := by
  intro s u b hs hfilters
  obtain ⟨a, v, ha, hv⟩ := h s t.looked e hs (gives_selectors ht hx)
  exact ⟨a, v, e, t.looked, ha, hv, hfilters _ (by simp)⟩

/-- Where no sign stands in front, the tightest level reads a filtered expression. -/
theorem ReadsFiltered.reads {t : Cursor} {x? : Option Lexeme} (h : ReadsFiltered checks xs t e)
    (hopens : Opens Level.filterTightness xs) (ht : t.Shows x?)
    (hpipe : x? ≠ some (.symbol .pipe)) :
    Reads checks .sign xs t e := by
  intro s hs
  obtain ⟨x, rest, rfl, _, hsign⟩ := hopens
  have hfilters : ∀ t' ∈ [t, t.looked], (filters checks e t').Gives e t.looked := by
    have hlooked := gives_filters checks e ht.looked hpipe
    rw [Cursor.looked_looked] at hlooked
    simpa using ⟨gives_filters checks e ht hpipe, hlooked⟩
  obtain ⟨a, v, c, w, ha, hv, hw⟩ := h s.looked t.looked e hs.looked hfilters
  rw [level]
  refine Cursor.gives_choose_no hs.shows (hsign .sign (by decide)) fun _ => ?_
  rw [dif_pos rfl]
  refine Reading.gives_andThen ha fun _ => ?_
  exact Reading.gives_andThen hv fun _ => hw

/-- In every place that asks for a tightness of at most `n`, some lexemes are read as an expression:
by a level, as the first operand of an operator, before a filter or before a selector. -/
structure ReadsAt (checks : Bool) (n : Nat) (xs : List Lexeme) (e : Expr) : Prop where
  opens : Opens n xs
  reads : ∀ l : Level, l.tightness ≤ n → ∀ t x?, t.Shows x? → Ends l x? → Reads checks l xs t e
  left : ∀ op : BinaryOp, op.level.tightness ≤ n → ∀ t x?, t.Shows x? →
    Ends op.level.tighter x? → ReadsLeft checks op.level xs t e
  filtered : Level.filterTightness ≤ n → ∀ t x?, t.Shows x? → EndsSelectors x? →
    ReadsFiltered checks xs t e
  operand : Level.selectorTightness ≤ n → ∀ t, ReadsOperand checks xs t e

theorem ReadsAt.mono (h : ReadsAt checks n xs e) (hmn : m ≤ n) : ReadsAt checks m xs e where
  opens := h.opens.mono hmn
  reads l hl := h.reads l (by omega)
  left op hop := h.left op (by omega)
  filtered hm := h.filtered (by omega)
  operand hm := h.operand (by omega)

theorem ReadsAt.whole (h : ReadsAt checks n xs e) : ReadsWhole checks xs e where
  opens := by
    obtain ⟨x, rest, hrest, hx, _⟩ := h.opens
    exact ⟨x, rest, hrest, hx⟩
  reads t x ht hx := h.reads .or (Nat.zero_le n) t (some x) ht (ends_of_closes hx .or)

/-- What is read by a level is read by all looser ones. -/
theorem Reads.loosen {k l : Level} {t : Cursor} {x? : Option Lexeme} (h : Reads checks k xs t e)
    (hopens : Opens k.tightness xs) (hlk : l.tightness ≤ k.tightness) (ht : t.Shows x?)
    (hend : Ends l x?) : Reads checks l xs t e := by
  obtain ⟨x, rest, rfl, _, hsign⟩ := hopens
  have hloose : ∀ m : Level, k.looseness < m.looseness → m.tightness < k.tightness := by
    intro m hm
    have := m.tightness_add_looseness
    have := k.tightness_add_looseness
    omega
  exact h.climb (Level.looseness_le_of_tightness_le hlk) (fun m hm => hsign m (hloose m hm)) ht
    fun m _ hm => hend.operator m hm

/-- What the tighter levels read is a first operand of a looser operator. -/
theorem readsLeft_of_tighter {op : BinaryOp} {t : Cursor} {x? : Option Lexeme}
    (hopens : Opens n xs) (hop : op.level.tightness < n)
    (h : ∀ l : Level, l.tightness ≤ n → ∀ t x?, t.Shows x? → Ends l x? → Reads checks l xs t e)
    (ht : t.Shows x?) (hend : Ends op.level.tighter x?) : ReadsLeft checks op.level xs t e := by
  have htight := Level.tightness_tighter op.level_ne_sign
  have hreads := h op.level.tighter (by omega) t x? ht hend
  obtain ⟨x, rest, rfl, _, _⟩ := hopens
  exact hreads.left op.level_ne_sign (op.sign?_level x)

/-- What filters can apply to is read in the place of every operator. -/
theorem readsAt_filtered (hn : Level.filterTightness ≤ n) (hopens : Opens n xs)
    (h : ∀ t x?, t.Shows x? → EndsSelectors x? → ReadsFiltered checks xs t e)
    (hoperand : Level.selectorTightness ≤ n → ∀ t, ReadsOperand checks xs t e) :
    ReadsAt checks n xs e := by
  have hreads : ∀ l : Level, l.tightness ≤ n → ∀ t x?, t.Shows x? → Ends l x? →
      Reads checks l xs t e := by
    intro l _ t x? ht hend
    have hsign := (h t x? ht hend.selector).reads (hopens.mono hn) ht hend.filter
    exact hsign.loosen (hopens.mono (Nat.le_trans (by decide) hn)) l.tightness_le ht hend
  refine ⟨hopens, hreads, fun op _ t x? ht hend => ?_, fun _ => h, hoperand⟩
  have htight := op.level.tightness_le
  simp only [Level.filterTightness] at hn
  exact readsLeft_of_tighter hopens (by omega) hreads ht hend

theorem readsAt_operand (hopens : Opens Level.primaryTightness xs)
    (h : ∀ t, ReadsOperand checks xs t e) : ReadsAt checks Level.primaryTightness xs e :=
  readsAt_filtered (by decide) hopens (fun t _ ht hx => (h t).filtered ht hx) fun _ => h

/-- Parentheses fit in every place. -/
theorem readsAt_parens (h : ReadsAt checks n xs e) :
    ReadsAt checks Level.primaryTightness (.symbol .openParen :: xs ++ [.symbol .closeParen]) e :=
  readsAt_operand (opens_of_begins rfl _ _) (readsOperand_parens h.whole)

theorem readsAt_unary {op : UnaryOp} (h : ReadsAt checks op.level.tightness xs e) :
    ReadsAt checks op.level.tightness (op.lexeme :: xs) (unary op e) := by
  have hopens : Opens op.level.tightness (op.lexeme :: xs) := by
    refine ⟨op.lexeme, xs, rfl, by cases op <;> rfl, fun l hl => ?_⟩
    exact UnaryOp.sign?_lexeme_of_tightness_lt hl
  have hreads : ∀ l : Level, l.tightness ≤ op.level.tightness → ∀ t x?, t.Shows x? → Ends l x? →
      Reads checks l (op.lexeme :: xs) t (unary op e) := by
    intro l hl t x? ht hend
    have hend' : Ends op.level x? :=
      ⟨fun k hk => hend.operator k (Nat.le_trans hk (Level.looseness_le_of_tightness_le hl)),
        hend.selector, hend.filter⟩
    have hlevel : Reads checks op.level (op.lexeme :: xs) t (unary op e) := by
      rintro s ⟨line, u, hu, he⟩
      rw [level]
      refine Cursor.gives_choose_yes hu op.sign?_lexeme fun _ => ?_
      exact Reading.gives_map _ (h.reads op.level (Nat.le_refl _) t x? ht hend' u he)
    exact hlevel.loosen hopens hl ht hend
  have htight := op.level.tightness_le
  refine ⟨hopens, hreads, fun op' hop' t x? ht hend => ?_, fun hn => ?_, fun hn => ?_⟩
  · exact readsLeft_of_tighter hopens (Nat.lt_of_le_of_ne hop' (op.tightness_ne op')) hreads ht hend
  · simp only [Level.filterTightness] at hn
    omega
  · simp only [Level.selectorTightness] at hn
    omega

/-- The operators of one level group to the left: the left operand is read with the operators
before this one, and the right operand takes none of the level. -/
theorem readsLeft_binary {op : BinaryOp} (hd : ReadsAt checks op.level.tightness xs d)
    (he : ReadsAt checks (op.level.tightness + 1) ys e) {t : Cursor} {x? : Option Lexeme}
    (ht : t.Shows x?) (hend : Ends op.level.tighter x?) :
    ReadsLeft checks op.level (xs ++ op.lexeme :: ys) t (binary d op e) := by
  have htight := Level.tightness_tighter op.level_ne_sign
  intro s u b hs hops
  obtain ⟨v, hv, hop⟩ := Cursor.supplies_append_iff.1 hs
  have hleft := hd.left op (Nat.le_refl _) v _ hop.shows
    (ends_binaryOp (Level.looseness_tighter_lt op.level_ne_sign))
  obtain ⟨line, w, hw, hright⟩ := hop
  have hread := he.reads op.level.tighter (by omega) t x? ht hend w hright
  refine hleft s u b hv ?_
  rw [operators]
  refine Cursor.gives_choose_yes ((Cursor.step_looked v).trans hw) op.operator?_lexeme fun _ => ?_
  exact Reading.gives_andThen hread fun _ => hops

theorem readsAt_binary {op : BinaryOp} (hd : ReadsAt checks op.level.tightness xs d)
    (he : ReadsAt checks (op.level.tightness + 1) ys e) :
    ReadsAt checks op.level.tightness (xs ++ op.lexeme :: ys) (binary d op e) := by
  have hopens := hd.opens.append (op.lexeme :: ys)
  have htight := op.level.tightness_le
  have hreads : ∀ l : Level, l.tightness ≤ op.level.tightness → ∀ t x?, t.Shows x? → Ends l x? →
      Reads checks l (xs ++ op.lexeme :: ys) t (binary d op e) := by
    intro l hl t x? ht hend
    have hloose := Level.looseness_le_of_tightness_le hl
    have htighter := Level.looseness_tighter_lt op.level_ne_sign
    have hend' : Ends op.level.tighter x? :=
      ⟨fun k hk => hend.operator k (by omega), hend.selector, hend.filter⟩
    have hlevel := (readsLeft_binary hd he ht hend').reads ht (hend.operator op.level hloose)
    exact hlevel.loosen hopens hl ht hend
  refine ⟨hopens, hreads, fun op' hop' t x? ht hend => ?_, fun hn => ?_, fun hn => ?_⟩
  · by_cases hsame : op'.level = op.level
    · rw [hsame] at hend ⊢
      exact readsLeft_binary hd he ht hend
    · have hne : op'.level.tightness ≠ op.level.tightness :=
        fun heq => hsame (Level.eq_of_tightness_eq heq)
      exact readsLeft_of_tighter hopens (Nat.lt_of_le_of_ne hop' hne) hreads ht hend
  · simp only [Level.filterTightness] at hn
    omega
  · simp only [Level.selectorTightness] at hn
    omega

/-- A filter applies to the whole filtered expression before it. -/
theorem readsFiltered_pipe {f : Expr} {t : Cursor}
    (h : ∀ t x?, t.Shows x? → EndsSelectors x? → ReadsFiltered checks xs t e)
    (hpipe : ∀ (v u : Cursor) (b : Expr), v.Supplies (.symbol .pipe :: ys) t →
      (∀ t' ∈ [t, t.looked], (filters checks f t').Gives b u) → (filters checks e v).Gives b u) :
    ReadsFiltered checks (xs ++ .symbol .pipe :: ys) t f := by
  intro s u b hs hfilters
  obtain ⟨v, hv, hys⟩ := Cursor.supplies_append_iff.1 hs
  refine h v (some (.symbol .pipe)) hys.shows (by simp [EndsSelectors]) s u b hv ?_
  simpa using ⟨hpipe v u b hys hfilters, hpipe v.looked u b hys.looked hfilters⟩

/-- A filter without arguments ends where none are opened. -/
theorem readsFiltered_bare {t : Cursor} {x? : Option Lexeme}
    (h : ∀ t x?, t.Shows x? → EndsSelectors x? → ReadsFiltered checks xs t e) (n : String)
    (ht : t.Shows x?) (hx : EndsSelectors x?) :
    ReadsFiltered checks (xs ++ [.symbol .pipe, .name n]) t (filtered checks e n []) := by
  refine readsFiltered_pipe h ?_
  rintro v u b ⟨line, w, hw, line', w', hw', rfl⟩ hfilters
  rw [filters]
  refine Cursor.gives_choose_yes hw (exactly_self _) fun _ => ?_
  refine Reading.gives_andThen (Cursor.gives_name hw') fun _ => ?_
  exact Cursor.gives_choose_no ht (exactly_of_ne hx.2.2) fun _ => hfilters w'.looked (by simp)

theorem readsFiltered_arguments {spell : Expr → List Lexeme} {made : Expr → Expr}
    {args : List Expr} (h : ∀ t x?, t.Shows x? → EndsSelectors x? → ReadsFiltered checks xs t e)
    (hargs : ∀ a ∈ args, ReadsWhole checks (spell a) (made a)) (n : String) (t : Cursor) :
    ReadsFiltered checks (xs ++ .symbol .pipe :: .name n :: .symbol .openParen ::
      (separated (args.map spell) ++ [.symbol .closeParen])) t
      (filtered checks e n (args.map made)) := by
  refine readsFiltered_pipe h ?_
  rintro v u b ⟨line, w, hw, line', w', hw', line'', w'', hw'', hlist⟩ hfilters
  rw [filters]
  refine Cursor.gives_choose_yes hw (exactly_self _) fun _ => ?_
  refine Reading.gives_andThen (Cursor.gives_name hw') fun _ => ?_
  refine Cursor.gives_choose_yes hw'' (exactly_self _) fun _ => ?_
  exact Reading.gives_andThen (gives_arguments hargs rfl (by simp) hlist) fun _ =>
    hfilters t (by simp)

/-- The lexemes that a text is written in are all there is of it. -/
theorem supplies_of_written {w : String} (h : Written w.toList xs) :
    ∃ t, (Cursor.ofExpression w).Supplies xs t ∧ t.Shows none := by
  have hspells := h.spells 0 [] (by simp [Scanner.EndsWord]) 1 false
  rw [List.append_nil] at hspells
  obtain ⟨line, hsupplies⟩ := hspells.cursor 1
  exact ⟨_, hsupplies, none, rfl, rfl⟩

theorem readAlone_of_written {w : String} (hw : Written w.toList xs) (h : ReadsAt checks n xs e) :
    (readAlone checks (.ofExpression w)).result = .ok e := by
  obtain ⟨t, hsupplies, ht⟩ := supplies_of_written hw
  have hread := h.reads .or (Nat.zero_le n) t none ht (ends_none .or) _ hsupplies
  obtain ⟨token?, hpeek, hnone⟩ := ht.looked
  obtain rfl : token? = none := Option.map_eq_none_iff.1 hnone
  have hgives : (readAlone checks (.ofExpression w)).Gives e t.looked.looked := by
    refine Reading.gives_andThen hread fun _ => ?_
    exact Reading.gives_andThen (Cursor.gives_peek hpeek) fun _ => Reading.gives_done _ _
  exact hgives.result

end Expr

end Polyglot
