import Polyglot.Proofs.ScriptLexemes

/-!
How operands are read, by their parts. An expression is read whole if a comma or a closing symbol
ends it wherever it stands; from expressions that are read whole come lists of them and the operands
that hold such lists. How expressions are spelled does not matter here.
-/
namespace Polyglot.Expr

variable {checks : Bool}

theorem begins_of_isWord {n : String} (h : isWord n = true) : (Lexeme.name n).begins = true := by
  simp only [isWord, reserved, Bool.and_eq_true, Bool.not_eq_true', List.contains_cons,
    Bool.or_eq_false_iff] at h
  simp only [Lexeme.begins, bne, h.2.2.2.2.2.1, Bool.not_false]

theorem ofName_of_isWord {n : String} (h : isWord n = true) : ofName n = name n := by
  unfold ofName
  split <;> first | rfl | exact absurd h (by decide)

/-- Some lexemes are read as an expression wherever what comes next closes it. -/
structure ReadsWhole (checks : Bool) (xs : List Lexeme) (e : Expr) : Prop where
  opens : ∃ x rest, xs = x :: rest ∧ x.closes = false
  reads : ∀ t x, t.Shows (some x) → x.closes = true → Reads checks .or xs t e

/-! Lists of expressions, each of which is spelled by `spell` and read as what `made` gives. -/

section Lists

variable {spell : Expr → List Lexeme} {made : Expr → Expr}

theorem gives_items {es : List Expr} (hes : es ≠ [])
    (h : ∀ e ∈ es, ReadsWhole checks (spell e) (made e)) {s t : Cursor} {x : Lexeme}
    (hs : s.Supplies (separated (es.map spell)) t) (ht : t.Shows (some x)) (hx : x.closes = true)
    (hcomma : x ≠ .symbol .comma) : (items checks s).Gives (es.map made) t.looked := by
  induction es generalizing s with
  | nil => exact absurd rfl hes
  | cons e es ih =>
    obtain ⟨he, hes'⟩ := List.forall_mem_cons.1 h
    rw [items]
    cases es with
    | nil =>
      have hsupplies : s.Supplies (spell e) t := by simpa [separated] using hs
      refine Reading.gives_andThen (he.reads t x ht hx s hsupplies) fun _ => ?_
      refine Cursor.gives_choose_no ht.looked (exactly_of_ne (by simpa using hcomma)) fun _ => ?_
      rw [Cursor.looked_looked]
      exact Reading.gives_done _ _
    | cons e' es =>
      simp only [separated, List.map_cons, List.intercalate_cons_cons, List.append_assoc] at hs
      obtain ⟨u, hu, hrest⟩ := Cursor.supplies_append_iff.1 hs
      have hfirst := he.reads u (.symbol .comma) hrest.shows rfl s hu
      obtain ⟨line, v, hv, hrest⟩ := hrest
      refine Reading.gives_andThen hfirst fun _ => ?_
      refine Cursor.gives_choose_yes ((Cursor.step_looked u).trans hv) (exactly_self _) fun _ => ?_
      exact Reading.gives_map _ (ih (by simp) hes' hrest)

/-- A list begins like its first member. -/
theorem opens_separated {xs : List Lexeme} (xss : List (List Lexeme))
    (h : ∃ x rest, xs = x :: rest ∧ x.closes = false) :
    ∃ x rest, separated (xs :: xss) = x :: rest ∧ x.closes = false := by
  obtain ⟨x, rest, rfl, hx⟩ := h
  cases xss with
  | nil => exact ⟨x, rest, by simp [separated], hx⟩
  | cons ys xss => exact ⟨x, _, by rw [separated, List.intercalate_cons_cons]; rfl, hx⟩

/-- What does not begin with a closing lexeme is not taken for the end of a list. -/
theorem shows_ne_of_opens {s t : Cursor} {xs : List Lexeme} {y : Symbol}
    (hy : (Lexeme.symbol y).closes = true) (hs : s.Supplies xs t)
    (h : ∃ x rest, xs = x :: rest ∧ x.closes = false) :
    s.looked.Supplies xs t ∧ ∃ x?, s.Shows x? ∧ x? ≠ some (.symbol y) := by
  obtain ⟨x, rest, rfl, hx⟩ := h
  refine ⟨hs.looked, some x, hs.shows, ?_⟩
  rintro ⟨⟩
  exact absurd hy (by simp [hx])

theorem gives_arguments {es : List Expr} (h : ∀ e ∈ es, ReadsWhole checks (spell e) (made e))
    {s t : Cursor} {y : Symbol} (hy : (Lexeme.symbol y).closes = true) (hcomma : y ≠ .comma)
    (hs : s.Supplies (separated (es.map spell) ++ [.symbol y]) t) :
    (arguments checks y s).Gives (es.map made) t := by
  rw [arguments]
  obtain ⟨u, hu, hclose⟩ := Cursor.supplies_append_iff.1 hs
  have hshows := hclose.shows
  obtain ⟨line, v, hv, rfl⟩ := hclose
  cases es with
  | nil =>
    cases hu
    exact Cursor.gives_choose_yes hv (exactly_self _) fun _ => Reading.gives_done _ _
  | cons e es =>
    have hopens := opens_separated (es.map spell) (h e List.mem_cons_self).opens
    obtain ⟨hlooked, x?, hx?, hne⟩ := shows_ne_of_opens hy hu hopens
    have hitems : (items checks s.looked).Gives ((e :: es).map made) u.looked :=
      gives_items (by simp) h hlooked hshows hy (by simpa using hcomma)
    refine Cursor.gives_choose_no hx? (exactly_of_ne hne) fun _ => ?_
    refine Reading.gives_andThen hitems fun _ => ?_
    exact Reading.gives_map _ (Cursor.gives_expect ((Cursor.step_looked u).trans hv))

/-- The first entry of a map; what comes after it decides whether there is another one. -/
theorem gives_entries_of_first {p : Expr × Expr} (hkey : ReadsWhole checks (spell p.1) (made p.1))
    (he : ReadsWhole checks (spell p.2) (made p.2)) {s t u : Cursor} {x : Lexeme}
    {b : List (Expr × Expr)} (hs : s.Supplies (entrySpelling spell p) t) (ht : t.Shows (some x))
    (hx : x.closes = true)
    (hrest : (t.looked.choose (exactly (.symbol .comma))
      (fun _ w _ => (entries checks w).map ((made p.1, made p.2) :: ·))
      fun w _ => .done w [(made p.1, made p.2)]).Gives b u) :
    (entries checks s).Gives b u := by
  obtain ⟨v, hv, hcolon⟩ := Cursor.supplies_append_iff.1 hs
  have hkeyread := hkey.reads v (.symbol .colon) hcolon.shows rfl s hv
  obtain ⟨line, w, hw, he'⟩ := hcolon
  rw [entries]
  refine Reading.gives_andThen hkeyread fun _ => ?_
  refine Reading.gives_andThen (Cursor.gives_expect ((Cursor.step_looked v).trans hw)) fun _ => ?_
  exact Reading.gives_andThen (he.reads t x ht hx w he') fun _ => hrest

theorem gives_entries {es : List (Expr × Expr)} (hes : es ≠ [])
    (h : ∀ p ∈ es, ReadsWhole checks (spell p.1) (made p.1) ∧
      ReadsWhole checks (spell p.2) (made p.2))
    {s t : Cursor} {x : Lexeme} (hs : s.Supplies (separated (es.map (entrySpelling spell))) t)
    (ht : t.Shows (some x)) (hx : x.closes = true) (hcomma : x ≠ .symbol .comma) :
    (entries checks s).Gives (es.map fun p => (made p.1, made p.2)) t.looked := by
  induction es generalizing s with
  | nil => exact absurd rfl hes
  | cons p es ih =>
    obtain ⟨⟨hkey, he⟩, hes'⟩ := List.forall_mem_cons.1 h
    cases es with
    | nil =>
      have hsupplies : s.Supplies (entrySpelling spell p) t := by simpa [separated] using hs
      refine gives_entries_of_first hkey he hsupplies ht hx ?_
      refine Cursor.gives_choose_no ht.looked (exactly_of_ne (by simpa using hcomma)) fun _ => ?_
      rw [Cursor.looked_looked]
      exact Reading.gives_done _ _
    | cons p' es =>
      simp only [separated, List.map_cons, List.intercalate_cons_cons, List.append_assoc] at hs
      obtain ⟨u, hu, hrest⟩ := Cursor.supplies_append_iff.1 hs
      have hcomma' := hrest.shows
      obtain ⟨line, v, hv, hrest⟩ := hrest
      refine gives_entries_of_first hkey he hu hcomma' rfl ?_
      refine Cursor.gives_choose_yes ((Cursor.step_looked u).trans hv) (exactly_self _) fun _ => ?_
      exact Reading.gives_map _ (ih (by simp) hes' hrest)

theorem gives_pairs {es : List (Expr × Expr)}
    (h : ∀ p ∈ es, ReadsWhole checks (spell p.1) (made p.1) ∧
      ReadsWhole checks (spell p.2) (made p.2)) {s t : Cursor}
    (hs : s.Supplies (separated (es.map (entrySpelling spell)) ++ [.symbol .closeBrace]) t) :
    (pairs checks s).Gives (es.map fun p => (made p.1, made p.2)) t := by
  rw [pairs]
  obtain ⟨u, hu, hclose⟩ := Cursor.supplies_append_iff.1 hs
  have hshows := hclose.shows
  obtain ⟨line, v, hv, rfl⟩ := hclose
  cases es with
  | nil =>
    cases hu
    exact Cursor.gives_choose_yes hv (exactly_self _) fun _ => Reading.gives_done _ _
  | cons p es =>
    have hopens : ∃ x rest, separated ((p :: es).map (entrySpelling spell)) = x :: rest ∧
        x.closes = false := by
      obtain ⟨x, rest, hrest, hx⟩ := (h p List.mem_cons_self).1.opens
      exact opens_separated _ ⟨x, _, by rw [entrySpelling, hrest]; rfl, hx⟩
    obtain ⟨hlooked, x?, hx?, hne⟩ := shows_ne_of_opens (y := .closeBrace) rfl hu hopens
    have hentries : (entries checks s.looked).Gives
        ((p :: es).map fun p => (made p.1, made p.2)) u.looked :=
      gives_entries (by simp) h hlooked hshows rfl (by simp)
    refine Cursor.gives_choose_no hx? (exactly_of_ne hne) fun _ => ?_
    refine Reading.gives_andThen hentries fun _ => ?_
    exact Reading.gives_map _ (Cursor.gives_expect ((Cursor.step_looked u).trans hv))

end Lists

/-! Operands, each by its first lexeme and its parts. -/

theorem readsOperand_literal (a : Scalar) (t : Cursor) :
    ReadsOperand checks [a.lexeme] t (literal a) := by
  rintro s u b ⟨line, v, hv, rfl⟩ hsel
  refine ⟨_, _, ?_, hsel⟩
  rw [primary]
  refine Cursor.gives_take hv fun _ => ?_
  rcases a with s | i | (_ | _) | _ <;> exact Reading.gives_done _ _

theorem readsOperand_name {n : String} (hn : isWord n = true) (t : Cursor) :
    ReadsOperand checks [.name n] t (name n) := by
  rintro s u b ⟨line, v, hv, rfl⟩ hsel
  refine ⟨_, _, ?_, hsel⟩
  rw [primary]
  refine Cursor.gives_take hv fun _ => ?_
  simp only [ofName_of_isWord hn]
  exact Reading.gives_done _ _

theorem readsOperand_member {xs : List Lexeme} {e : Expr}
    (h : ∀ t, ReadsOperand checks xs t e) (key : String) (t : Cursor) :
    ReadsOperand checks (xs ++ [.symbol .dot, .name key]) t (member e key) := by
  rintro s u b hs hsel
  obtain ⟨v, hv, line, w, hw, line', w', hw', rfl⟩ := Cursor.supplies_append_iff.1 hs
  refine h v s u b hv ?_
  rw [selectors]
  refine Cursor.gives_choose_yes hw (exactly_self _) fun _ => ?_
  exact Reading.gives_andThen (Cursor.gives_name hw') fun _ => hsel

theorem readsOperand_index {xs ys : List Lexeme} {e i : Expr}
    (h : ∀ t, ReadsOperand checks xs t e) (hi : ReadsWhole checks ys i) (t : Cursor) :
    ReadsOperand checks (xs ++ .symbol .openBracket :: ys ++ [.symbol .closeBracket]) t
      (index e i) := by
  rintro s u b hs hsel
  rw [List.append_assoc, List.cons_append] at hs
  obtain ⟨v, hv, hopen⟩ := Cursor.supplies_append_iff.1 hs
  have hshows := hopen.shows
  obtain ⟨line, w, hw, hys⟩ := hopen
  obtain ⟨w', hw', hclose⟩ := Cursor.supplies_append_iff.1 hys
  have hindex := hi.reads w' (.symbol .closeBracket) hclose.shows rfl w hw'
  obtain ⟨line', v', hv', rfl⟩ := hclose
  refine h v s u b hv ?_
  rw [selectors]
  refine Cursor.gives_choose_no hshows (exactly_of_ne (by simp)) fun _ => ?_
  refine Cursor.gives_choose_yes ((Cursor.step_looked v).trans hw) (exactly_self _) fun _ => ?_
  refine Reading.gives_andThen hindex fun _ => ?_
  have hexpect := Cursor.gives_expect ((Cursor.step_looked w').trans hv')
  exact Reading.gives_andThen hexpect fun _ => hsel

/-- An expression in parentheses. -/
theorem readsOperand_parens {xs : List Lexeme} {e : Expr} (h : ReadsWhole checks xs e)
    (t : Cursor) : ReadsOperand checks (.symbol .openParen :: xs ++ [.symbol .closeParen]) t e := by
  rintro s u b ⟨line, v, hv, hxs⟩ hsel
  obtain ⟨w, hw, hclose⟩ := Cursor.supplies_append_iff.1 hxs
  have hread := h.reads w (.symbol .closeParen) hclose.shows rfl v hw
  obtain ⟨line', v', hw', rfl⟩ := hclose
  refine ⟨e, v', ?_, hsel⟩
  rw [primary]
  refine Cursor.gives_take hv fun _ => ?_
  refine Reading.gives_andThen hread fun _ => ?_
  exact Reading.gives_map _ (Cursor.gives_expect ((Cursor.step_looked w).trans hw'))

section Lists

variable {spell : Expr → List Lexeme} {made : Expr → Expr}

/-- A call after its name. -/
theorem readsOperand_call {n : String} (hn : isWord n = true) {es : List Expr}
    (h : ∀ e ∈ es, ReadsWhole checks (spell e) (made e)) (t : Cursor) :
    ReadsOperand checks (.name n :: .symbol .openParen :: separated (es.map spell) ++
      [.symbol .closeParen]) t (call n (es.map made)) := by
  rintro s u b ⟨line, v, hv, line', w, hw, hargs⟩ hsel
  refine ⟨name n, v, ?_, ?_⟩
  · rw [primary]
    refine Cursor.gives_take hv fun _ => ?_
    simp only [ofName_of_isWord hn]
    exact Reading.gives_done _ _
  · have hshows : v.Shows (some (.symbol .openParen)) := Cursor.shows_of_step hw
    rw [selectors]
    refine Cursor.gives_choose_no hshows (exactly_of_ne (by simp)) fun _ => ?_
    refine Cursor.gives_choose_no hshows.looked (exactly_of_ne (by simp)) fun _ => ?_
    have hstep : v.looked.looked.step = (.ok ⟨.symbol .openParen, line'⟩, w) := by
      rw [Cursor.step_looked, Cursor.step_looked, hw]
    refine Cursor.gives_choose_yes hstep (if_pos rfl) fun _ => ?_
    exact Reading.gives_andThen (gives_arguments h rfl (by simp) hargs) fun _ => hsel

theorem readsOperand_list {es : List Expr} (h : ∀ e ∈ es, ReadsWhole checks (spell e) (made e))
    (t : Cursor) :
    ReadsOperand checks (.symbol .openBracket :: separated (es.map spell) ++
      [.symbol .closeBracket]) t (list (es.map made)) := by
  rintro s u b ⟨line, v, hv, hitems⟩ hsel
  refine ⟨_, _, ?_, hsel⟩
  rw [primary]
  refine Cursor.gives_take hv fun _ => ?_
  exact Reading.gives_map list (gives_arguments h rfl (by simp) hitems)

theorem readsOperand_map {es : List (Expr × Expr)}
    (h : ∀ p ∈ es, ReadsWhole checks (spell p.1) (made p.1) ∧
      ReadsWhole checks (spell p.2) (made p.2)) (t : Cursor) :
    ReadsOperand checks (.symbol .openBrace :: separated (es.map (entrySpelling spell)) ++
      [.symbol .closeBrace]) t (map (es.map fun p => (made p.1, made p.2))) := by
  rintro s u b ⟨line, v, hv, hentries⟩ hsel
  refine ⟨_, _, ?_, hsel⟩
  rw [primary]
  refine Cursor.gives_take hv fun _ => ?_
  exact Reading.gives_map map (gives_pairs h hentries)

end Lists

end Polyglot.Expr
