import Polyglot.Proofs.ScriptReading
import Polyglot.Proofs.SourceCursors

/-!
Reading sources back. The reader of each tag takes from the source of a node exactly that source,
and what it makes of it is the node. Nodes inside a tag end where a tag stands that the tag around
them waits for: its opening delimiter is taken, its name is left, and the tag around them goes on
from there.
-/
namespace Polyglot

namespace Expr

theorem gives_read {function : String → String} (checks : Bool) {e : Expr}
    (h : e.IsSpelled function) {s t : Cursor} {x : Lexeme}
    (hs : s.Supplies (lexemes function e) t) (ht : t.Shows (some x)) (hx : Ends .or (some x)) :
    (read checks s).Gives e t.looked := by
  have hread := (readBack checks h.writable).reads h.writable ht hx s hs
  rwa [lowered_of_plain h.plain] at hread

end Expr

namespace Node

open Scanner

variable {env : Environment} {function : String → String}

/-- None of the tags that nodes begin with ends the nodes. -/
def Stop.passes (stop : Stop) : Bool := ["for", "if", "trans"].all fun name => !stop.includes name

/-- A text begins with a tag that ends the nodes. -/
def Stop.MetBy (stop : Stop) (cs : List Char) : Prop :=
  ∃ name words xs rest, cs = (blockTag words).toList ++ rest ∧
    Expr.Written (spaced words).toList (.name name :: xs) ∧ stop.includes name = true

theorem Stop.not_includes {stop : Stop} (h : stop.passes = true) {name : String}
    (hname : name ∈ ["for", "if", "trans"]) : stop.includes name = false := by
  have hall := List.all_eq_true.1 h name hname
  simpa using hall

theorem opens_blockTag (words : List String) (cs : List Char) :
    Opens ((blockTag words).toList ++ cs) :=
  .inr (.inr ⟨_, blockTag_append words cs⟩)

theorem Stop.MetBy.opens {stop : Stop} {cs : List Char} (h : stop.MetBy cs) : Opens cs := by
  obtain ⟨name, words, xs, rest, rfl, _, _⟩ := h
  exact opens_blockTag words rest

theorem drop_blockTag (words : List String) (cs : List Char) :
    ((blockTag words).toList ++ cs).drop 2 = inside words cs := by
  rw [blockTag_append]
  rfl

/-- A tag of which the opening delimiter was taken. -/
theorem supplies_tag {words : List String} {x : Lexeme} {xs : List Lexeme} {cs : List Char}
    {line : Nat} {s : Cursor} (h : Expr.Written (spaced words).toList (x :: xs))
    (hs : s.Near (inTag (((blockTag words).toList ++ cs).drop 2) line)) :
    ∃ l, s.Supplies (x :: xs ++ [.blockEnd])
      ⟨[], inText cs (line + breaks (blockTag words)), l⟩ := by
  rw [drop_blockTag] at hs
  exact hs.supplies (supplies_inside h cs line)

theorem Stop.MetBy.shows {stop : Stop} {cs : List Char} (h : stop.MetBy cs) {line : Nat}
    {s : Cursor} (hs : s.Near (inTag (cs.drop 2) line)) :
    ∃ name, stop.includes name = true ∧ s.Shows (some (.name name)) := by
  obtain ⟨name, words, xs, rest, rfl, hwords, hname⟩ := h
  obtain ⟨l, hsupplies⟩ := supplies_tag hwords hs
  exact ⟨name, hname, hsupplies.shows⟩

/-- What the reader of nodes does first at every tag: it takes the opening delimiter and looks at
the name. -/
theorem reaches_of_name {stop : Stop} {name : String} {words : List String} {xs : List Lexeme}
    {cs : List Char} {line : Nat} {s : Cursor} {ns : List Node} {τ : Scanner}
    (h : Expr.Written (spaced words).toList (.name name :: xs))
    (hs : s.Near (inText ((blockTag words).toList ++ cs) line))
    (hstop : stop.includes name = true → ∀ t,
      t.Near (inTag (((blockTag words).toList ++ cs).drop 2) line) →
      (Reading.done t []).Reaches ns τ)
    (htag : stop.includes name = false → ∀ t l,
      t.Supplies (xs ++ [.blockEnd]) ⟨[], inText cs (line + breaks (blockTag words)), l⟩ →
      ((tag env name line t).andThen fun n u _ =>
        (nodes env stop u).map (n :: ·)).Reaches ns τ) :
    (nodes env stop s).Reaches ns τ := by
  have hnear : (Cursor.mk [] (inTag (inside words cs) line) line).Near
      (inTag (((blockTag words).toList ++ cs).drop 2) line) := by
    rw [drop_blockTag]
    exact Cursor.near_fresh _ _
  obtain ⟨l', l, u, hname, hsupplies⟩ := supplies_tag h hnear
  rw [blockTag_append] at hs
  have hstart := hs.step (next_blockStart (inside words cs) line)
  rw [nodes]
  refine (Cursor.gives_peek (Cursor.peek_of_step hstart)).reaches_andThen fun _ => ?_
  refine Cursor.reaches_take ((Cursor.step_looked s).trans hstart) fun _ => ?_
  refine (Cursor.gives_tagName hname).reaches_andThen fun _ => ?_
  split
  · next hincludes => exact hstop hincludes _ hnear.looked
  · next hincludes =>
    refine Cursor.reaches_take ((Cursor.step_looked _).trans hname) fun _ => ?_
    exact htag (by simpa using hincludes) u l' hsupplies

/-- Nodes end before a tag that is waited for. -/
theorem reaches_stop {stop : Stop} {cs : List Char} {line : Nat} {s : Cursor}
    (h : stop.MetBy cs) (hs : s.Near (inText cs line)) :
    (nodes env stop s).Reaches [] (inTag (cs.drop 2) line) := by
  obtain ⟨name, words, xs, rest, rfl, hwords, hincludes⟩ := h
  refine reaches_of_name hwords hs (fun _ t ht => Reading.reaches_done ht []) fun hnot => ?_
  exact absurd hincludes (by simp [hnot])

/-- Any other tag is read as a node. -/
theorem reaches_tag {stop : Stop} {name : String} {words : List String} {xs : List Lexeme}
    {cs : List Char} {line : Nat} {s : Cursor} {n : Node} {ns : List Node} {σ τ : Scanner}
    (h : Expr.Written (spaced words).toList (.name name :: xs))
    (hname : stop.includes name = false)
    (hs : s.Near (inText ((blockTag words).toList ++ cs) line))
    (htag : ∀ t l, t.Supplies (xs ++ [.blockEnd])
      ⟨[], inText cs (line + breaks (blockTag words)), l⟩ → (tag env name line t).Reaches n σ)
    (hnodes : ∀ t, t.Near σ → (nodes env stop t).Reaches ns τ) :
    (nodes env stop s).Reaches (n :: ns) τ := by
  refine reaches_of_name h hs (fun hincludes => ?_) fun _ t l ht => ?_
  · exact absurd hincludes (by simp [hname])
  · exact Reading.reaches_andThen (htag t l ht) fun u _ hu =>
      Reading.reaches_map _ (hnodes u hu)

/-- The source of a node is read as the node, whatever is read after it. -/
def IsReadBack (env : Environment) (function : String → String) (n : Node) : Prop :=
  ∀ (stop : Stop) (cs : List Char) (line : Nat) (ns : List Node) (τ : Scanner),
    stop.passes = true → (n.isText = true → Opens cs) →
    (∀ t : Cursor, t.Near (inText cs (line + breaks (source function n))) →
      (nodes env stop t).Reaches ns τ) →
    ∀ s : Cursor, s.Near (inText ((source function n).toList ++ cs) line) →
      (nodes env stop s).Reaches (lined function line n :: ns) τ

/-- The source of some nodes is read as the nodes, if the reader stops after it. -/
def AreReadBack (env : Environment) (function : String → String) (ns : List Node) : Prop :=
  ∀ (stop : Stop) (cs : List Char) (line : Nat) (τ : Scanner), stop.passes = true → Opens cs →
    (∀ t : Cursor, t.Near (inText cs (line + breaks (sources function ns))) →
      (nodes env stop t).Reaches [] τ) →
    ∀ s : Cursor, s.Near (inText ((sources function ns).toList ++ cs) line) →
      (nodes env stop s).Reaches (linedNodes function line ns) τ

theorem opens_source {n : Node} (h : n.isText = false) (cs : List Char) :
    Opens ((source function n).toList ++ cs) := by
  cases n with
  | text s => cases h
  | print e => exact .inr (.inl ⟨_, by simp [source]; rfl⟩)
  | loop target items body =>
    simpa [source] using opens_blockTag _ _
  | branch cases otherwise =>
    simp only [source, String.toList_append, List.append_assoc]
    rcases cases with _ | ⟨⟨condition, body⟩, cases⟩
    · rcases otherwise with _ | body
      · exact opens_blockTag _ _
      · simpa [fallbackSource, caseSources] using opens_blockTag _ _
    · simpa [caseSources] using opens_blockTag _ _
  | phrase p =>
    rcases p with ⟨e | nodes, domain, counted, notes, line⟩
    · exact opens_blockTag _ _
    · simpa [source, phraseSource] using opens_blockTag _ _

theorem opens_sources {ns : List Node} (h : ∀ n ∈ ns.head?, n.isText = false) {cs : List Char}
    (hcs : Opens cs) : Opens ((sources function ns).toList ++ cs) := by
  cases ns with
  | nil => exact hcs
  | cons n ns =>
    rw [sources, String.toList_append, List.append_assoc]
    exact opens_source (h n rfl) _

theorem areReadBack {ns : List Node} (h : ∀ n ∈ ns, n.IsReadBack env function)
    (hapart : TextsApart ns) : AreReadBack env function ns := by
  induction ns with
  | nil => exact fun stop cs line τ _ _ hend s hs => hend s hs
  | cons n ns ih =>
    intro stop cs line τ hstop hcs hend s hs
    obtain ⟨hn, hns⟩ := List.forall_mem_cons.1 h
    obtain ⟨hhead, htail⟩ := List.isChain_cons.1 hapart
    rw [sources, String.toList_append, List.append_assoc] at hs
    refine hn stop _ line _ τ hstop (fun htext => ?_) (fun t ht => ?_) s hs
    · -- a text ends here because the node after it is none
      exact opens_sources (fun m hm => hhead m hm htext) hcs
    · refine ih hns htail stop cs _ τ hstop hcs (fun u hu => hend u ?_) t ht
      rwa [sources, breaks_append, ← Nat.add_assoc]

/-- Nodes inside a tag, up to a tag that the one around them waits for. -/
theorem AreReadBack.reaches_drop {ns : List Node} (h : AreReadBack env function ns) {stop : Stop}
    (hstop : stop.passes = true) {cs : List Char} (hcs : stop.MetBy cs) {line : Nat} {s : Cursor}
    (hs : s.Near (inText ((sources function ns).toList ++ cs) line)) :
    (nodes env stop s).Reaches (linedNodes function line ns)
      (inTag (cs.drop 2) (line + breaks (sources function ns))) :=
  h stop cs line _ hstop hcs.opens (fun _ ht => reaches_stop hcs ht) s hs

/-- An expression up to a lexeme after it, which is taken. -/
theorem reaches_read {β : Type} {checks : Bool} {e : Expr} (he : e.IsSpelled function)
    {s v : Cursor} {x : Lexeme} (hx : x.closes = true)
    (hs : s.Supplies (Expr.lexemes function e ++ [x]) v) {b : β} {τ : Scanner}
    {k : (e : Expr) → (t : Cursor) → t.size ≤ s.size → (token : Token) → (u : Cursor) →
      u.size ≤ t.size → Reading u β}
    (hk : ∀ t ht token hu, (k e t ht token v hu).Reaches b τ) :
    ((Expr.read checks s).andThen fun e t ht =>
      (t.expect x).andThen fun token u hu => k e t ht token u hu).Reaches b τ := by
  obtain ⟨t, ht, hend⟩ := Cursor.supplies_append_iff.1 hs
  have hread := Expr.gives_read checks he ht hend.shows (Expr.ends_of_closes hx .or)
  obtain ⟨line, u, hstep, rfl⟩ := hend
  refine hread.reaches_andThen fun hle => ?_
  have hexpect := Cursor.gives_expect ((Cursor.step_looked t).trans hstep)
  exact hexpect.reaches_andThen fun hle' => hk _ hle _ hle'

theorem isReadBack_text {s : String} (h : IsClean s) : (text s).IsReadBack env function := by
  intro stop cs line ns τ _ hcs hrest t ht
  have hnext := ht.step (next_text h (hcs rfl) line)
  rw [nodes]
  refine (Cursor.gives_peek (Cursor.peek_of_step hnext)).reaches_andThen fun _ => ?_
  refine Cursor.reaches_take ((Cursor.step_looked t).trans hnext) fun _ => ?_
  exact Reading.reaches_map _ (hrest _ (Cursor.near_fresh _ _))

theorem isReadBack_print (hescape : env.options.autoescape = false) {e : Expr}
    (h : e.IsSpelled function) : (print e).IsReadBack env function := by
  intro stop cs line ns τ _ _ hrest t ht
  have hsource : (source function (print e)).toList ++ cs =
      '\x7b' :: '\x7b' ::
        ((' ' :: (e.script function).toList) ++ ' ' :: '\x7d' :: '\x7d' :: cs) := by
    simp [source]
  have hbreaks : breaks (source function (print e)) =
      Blank.lineBreaks (' ' :: (e.script function).toList) := by
    simp [source, breaks, Blank.lineBreaks]
  rw [hsource] at ht
  rw [hbreaks] at hrest
  have hstart := ht.step (next_printStart _ line)
  have hspells := (Expr.written_script h.writable).space.spells 0 (' ' :: '\x7d' :: '\x7d' :: cs)
    (Expr.separates_space ['\x7d', '\x7d'] cs) line false
  have hend : ∀ l, (inTag (' ' :: '\x7d' :: '\x7d' :: cs) l).Supplies [.printEnd] (inText cs l) :=
    fun l => ⟨l, _, next_printEnd cs l, rfl⟩
  obtain ⟨l, hsupplies⟩ := (supplies_append hspells (hend _)).cursor line
  have hprinted : env.printed e = e := by
    rw [Environment.printed, hescape]
    rfl
  rw [nodes]
  refine (Cursor.gives_peek (Cursor.peek_of_step hstart)).reaches_andThen fun _ => ?_
  refine Cursor.reaches_take ((Cursor.step_looked t).trans hstart) fun _ => ?_
  refine reaches_read h rfl hsupplies fun _ _ _ _ => ?_
  rw [hprinted]
  exact Reading.reaches_map _ (hrest _ (Cursor.near_fresh _ _))

theorem written_word {name : String} (h : isIdentifier name = true) :
    Expr.Written (spaced [name]).toList [.name name] :=
  written_spaced (Expr.Written.name h)

/-- The tag of a condition or a count. -/
theorem written_wordExpr {name : String} {e : Expr} (h : isIdentifier name = true)
    (he : e.IsSpelled function) :
    Expr.Written (spaced [name, e.script function]).toList
      (.name name :: Expr.lexemes function e) :=
  written_spaced_cons (Expr.Written.name h)
    (written_spaced (Expr.written_script he.writable))

theorem Stop.metBy_word {stop : Stop} {name : String} (h : isIdentifier name = true)
    (hname : stop.includes name = true) (cs : List Char) :
    stop.MetBy ((blockTag [name]).toList ++ cs) :=
  ⟨name, _, [], cs, rfl, written_word h, hname⟩

theorem Stop.metBy_wordExpr {stop : Stop} {name : String} {e : Expr}
    (h : isIdentifier name = true) (he : e.IsSpelled function)
    (hname : stop.includes name = true) (cs : List Char) :
    stop.MetBy ((blockTag [name, e.script function]).toList ++ cs) :=
  ⟨name, _, _, cs, rfl, written_wordExpr h he, hname⟩

theorem reaches_closing {name : String} (h : isIdentifier name = true) {cs : List Char}
    {line : Nat} {s : Cursor}
    (hs : s.Near (inTag (((blockTag [name]).toList ++ cs).drop 2) line)) :
    ∃ token, (closing name s).Reaches token (inText cs (line + breaks (blockTag [name]))) := by
  obtain ⟨l, l', t, ht, l'', u, hu, rfl⟩ := supplies_tag (written_word h) hs
  refine ⟨⟨.blockEnd, l''⟩, (Cursor.gives_expect ht).reaches_andThen fun _ => ?_⟩
  exact ⟨_, Cursor.gives_expect hu, Cursor.near_fresh _ _⟩

theorem isReadBack_loop {target : String} {items : Expr} {body : List Node}
    (htarget : isIdentifier target = true) (hitems : items.IsSpelled function)
    (hbody : AreReadBack env function body) :
    (loop target items body).IsReadBack env function := by
  intro stop cs line ns τ hstop _ hrest s hs
  simp only [source, String.toList_append, List.append_assoc] at hs
  have hwords : Expr.Written (spaced ["for", target, "in", items.script function]).toList
      (.name "for" :: .name target :: .name "in" :: Expr.lexemes function items) := by
    refine written_spaced_cons (Expr.Written.name (n := "for") (by decide)) ?_
    exact written_spaced_cons (Expr.Written.name htarget)
      (written_wordExpr (by decide) hitems)
  have hend : Stop.MetBy (.before ["endfor"]) ((blockTag ["endfor"]).toList ++ cs) :=
    Stop.metBy_word (by decide) rfl cs
  refine reaches_tag hwords (Stop.not_includes hstop (by simp)) hs (fun t l ht => ?_) hrest
  obtain ⟨l', u, hu, l'', v, hv, hexpr⟩ := ht
  rw [tag, if_pos rfl, loopTag]
  refine (Cursor.gives_name hu).reaches_andThen fun _ => ?_
  refine (Cursor.gives_expect hv).reaches_andThen fun _ => ?_
  refine reaches_read hitems rfl hexpr fun _ _ _ _ => ?_
  refine Reading.reaches_andThen
    (hbody.reaches_drop rfl hend (Cursor.near_fresh _ _)) fun x _ hx => ?_
  obtain ⟨token, hclosing⟩ := reaches_closing (by decide) hx
  rw [source, breaks_append, breaks_append, ← Nat.add_assoc, ← Nat.add_assoc]
  exact Reading.reaches_map _ hclosing

/-- A condition of a branch and the nodes it guards. -/
def CaseReadBack (env : Environment) (function : String → String) (c : Expr × List Node) : Prop :=
  c.1.IsSpelled function ∧ AreReadBack env function c.2

def branchStop : Stop := .before ["elif", "else", "endif"]

theorem reaches_guarded {c : Expr × List Node} (h : CaseReadBack env function c) {cs : List Char}
    (hcs : branchStop.MetBy cs) {line l : Nat} {s : Cursor}
    (hs : s.Supplies (Expr.lexemes function c.1 ++ [.blockEnd])
      ⟨[], inText ((sources function c.2).toList ++ cs) line, l⟩) :
    (guarded env s).Reaches (c.1, linedNodes function line c.2)
      (inTag (cs.drop 2) (line + breaks (sources function c.2))) := by
  rw [guarded]
  refine reaches_read h.1 rfl hs fun _ _ _ _ => ?_
  exact Reading.reaches_map _ (h.2.reaches_drop rfl hcs (Cursor.near_fresh _ _))

/-- What stands after the first case of a branch. -/
def furtherSource (function : String → String) (cases : List (Expr × List Node))
    (otherwise : Option (List Node)) : String :=
  caseSources function "elif" cases ++ fallbackSource function otherwise ++ blockTag ["endif"]

theorem metBy_furtherSource {cases : List (Expr × List Node)} {otherwise : Option (List Node)}
    (hcases : ∀ c ∈ cases, CaseReadBack env function c) (cs : List Char) :
    branchStop.MetBy ((furtherSource function cases otherwise).toList ++ cs) := by
  simp only [furtherSource, String.toList_append, List.append_assoc]
  cases cases with
  | nil =>
    cases otherwise with
    | none => exact Stop.metBy_word (by decide) rfl cs
    | some body =>
      simp only [caseSources, fallbackSource, String.toList_append, List.append_assoc]
      exact Stop.metBy_word (by decide) rfl _
  | cons c cases =>
    obtain ⟨hc, _⟩ := List.forall_mem_cons.1 hcases
    simp only [caseSources, String.toList_append, List.append_assoc]
    exact Stop.metBy_wordExpr (by decide) hc.1 rfl _

theorem reaches_furtherCases {cases : List (Expr × List Node)} {otherwise : Option (List Node)}
    (hcases : ∀ c ∈ cases, CaseReadBack env function c)
    (hotherwise : ∀ body ∈ otherwise, AreReadBack env function body) {cs : List Char}
    {line : Nat} {s : Cursor}
    (hs : s.Near (inTag (((furtherSource function cases otherwise).toList ++ cs).drop 2) line)) :
    (furtherCases env s).Reaches
      (linedCases function "elif" line cases,
        linedFallback function (line + breaks (caseSources function "elif" cases)) otherwise)
      (inText cs (line + breaks (furtherSource function cases otherwise))) := by
  induction cases generalizing line s with
  | nil =>
    rw [furtherCases]
    cases otherwise with
    | none =>
      have hsource : furtherSource function [] none = blockTag ["endif"] := by
        simp [furtherSource, caseSources, fallbackSource]
      rw [hsource] at hs ⊢
      obtain ⟨l, l', t, ht, l'', u, hu, rfl⟩ :=
        supplies_tag (written_word (by decide)) hs
      refine Cursor.reaches_takeName ht fun _ => ?_
      rw [if_neg (by decide), if_neg (by decide), if_pos rfl]
      exact Reading.reaches_map _ ⟨_, Cursor.gives_expect hu, Cursor.near_fresh _ _⟩
    | some body =>
      have hsource : furtherSource function [] (some body) =
          blockTag ["else"] ++ (sources function body ++ blockTag ["endif"]) := by
        simp [furtherSource, caseSources, fallbackSource, String.append_assoc]
      have hend : Stop.MetBy (.before ["endif"]) ((blockTag ["endif"]).toList ++ cs) :=
        Stop.metBy_word (by decide) rfl cs
      rw [hsource] at hs ⊢
      simp only [String.toList_append, List.append_assoc] at hs
      obtain ⟨l, l', t, ht, l'', u, hu, rfl⟩ :=
        supplies_tag (written_word (by decide)) hs
      refine Cursor.reaches_takeName ht fun _ => ?_
      rw [if_neg (by decide), if_pos rfl]
      refine (Cursor.gives_expect hu).reaches_andThen fun _ => ?_
      refine Reading.reaches_andThen ((hotherwise body rfl).reaches_drop rfl hend
        (Cursor.near_fresh _ _)) fun x _ hx => ?_
      obtain ⟨token, hclosing⟩ := reaches_closing (by decide) hx
      simp only [breaks_append, ← Nat.add_assoc]
      exact Reading.reaches_map _ hclosing
  | cons c cases ih =>
    obtain ⟨hc, hcases'⟩ := List.forall_mem_cons.1 hcases
    have hsource : furtherSource function (c :: cases) otherwise =
        blockTag ["elif", c.1.script function] ++
          (sources function c.2 ++ furtherSource function cases otherwise) := by
      simp [furtherSource, caseSources, String.append_assoc]
    rw [hsource] at hs ⊢
    simp only [String.toList_append, List.append_assoc] at hs
    obtain ⟨l, l', t, ht, hexpr⟩ := supplies_tag (written_wordExpr (by decide) hc.1) hs
    rw [furtherCases]
    refine Cursor.reaches_takeName ht fun _ => ?_
    rw [if_pos rfl]
    refine Reading.reaches_andThen (reaches_guarded hc (metBy_furtherSource hcases' cs) hexpr)
      fun u _ hu => ?_
    have hfurther := ih hcases' hu
    obtain ⟨condition, body⟩ := c
    simp only [linedCases, caseSources, breaks_append, ← Nat.add_assoc]
    exact Reading.reaches_map _ hfurther

theorem isReadBack_branch {cases : List (Expr × List Node)} {otherwise : Option (List Node)}
    (hne : cases ≠ []) (hcases : ∀ c ∈ cases, CaseReadBack env function c)
    (hotherwise : ∀ body ∈ otherwise, AreReadBack env function body) :
    (branch cases otherwise).IsReadBack env function := by
  intro stop cs line ns τ hstop _ hrest s hs
  cases cases with
  | nil => exact absurd rfl hne
  | cons c cases =>
    obtain ⟨condition, body⟩ := c
    obtain ⟨hc, hcases'⟩ := List.forall_mem_cons.1 hcases
    have hsource : source function (branch ((condition, body) :: cases) otherwise) =
        blockTag ["if", condition.script function] ++
          (sources function body ++ furtherSource function cases otherwise) := by
      simp [source, furtherSource, caseSources, String.append_assoc]
    rw [hsource] at hs hrest
    simp only [String.toList_append, List.append_assoc] at hs
    refine reaches_tag (written_wordExpr (by decide) hc.1) (Stop.not_includes hstop (by simp)) hs
      (fun t l ht => ?_) hrest
    rw [tag, if_neg (by decide), if_pos rfl, branchTag]
    refine Reading.reaches_andThen (reaches_guarded hc (metBy_furtherSource hcases' cs) ht)
      fun u _ hu => ?_
    have hfurther := reaches_furtherCases hcases' hotherwise hu
    simp only [lined, linedCases, caseSources, breaks_append, ← Nat.add_assoc]
    exact Reading.reaches_map _ hfurther

end Node

end Polyglot
