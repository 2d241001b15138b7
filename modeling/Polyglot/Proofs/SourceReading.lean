import Polyglot.Proofs.TagReading

/-!
Templates are read back from their sources. A phrase in one tag has its message right after its
domain, where it must not look like the rest of the domain. A phrase with a body ends it where the
plural body, the notes or the end tag come, and the notes are taken as they stand.
-/
namespace Polyglot

namespace Expr

variable {function : String → String}

/-- No expression goes on with a literal, a number or a name that is no operator. -/
theorem ends_of_ne {x : Lexeme} (hsymbol : ∀ y, x ≠ .symbol y) (hand : x ≠ .name "and")
    (hor : x ≠ .name "or") (l : Level) : Ends l (some x) where
  operator k _ := by
    change k.operator? x = none
    unfold Level.operator?
    split <;> first | rfl | exact absurd rfl (hsymbol _) | exact absurd rfl hand |
      exact absurd rfl hor
  selector := by
    refine ⟨?_, ?_, ?_⟩ <;> rintro ⟨⟩ <;> exact hsymbol _ rfl
  filter := by
    rintro ⟨⟩
    exact hsymbol _ rfl

/-- A message in a tag is one lexeme, and the domain does not go on with it. -/
theorem exists_lexeme_of_isAtomic {e : Expr} (h : e.isAtomic = true) (hand : e ≠ name "and")
    (hor : e ≠ name "or") :
    ∃ x, lexemes function e = [x] ∧ x ≠ .blockEnd ∧ Ends .or (some x) := by
  cases e with
  | literal a =>
    have hname : a.lexeme ≠ .name "and" ∧ a.lexeme ≠ .name "or" := by
      rcases a with s | i | (_ | _) | _ <;> simp [Scalar.lexeme, Scalar.boolWord]
    refine ⟨a.lexeme, rfl, ?_, ends_of_ne (fun y => ?_) hname.1 hname.2 .or⟩
    · cases a <;> simp [Scalar.lexeme]
    · cases a <;> simp [Scalar.lexeme]
  | name n =>
    refine ⟨.name n, rfl, by simp, ends_of_ne (by simp) ?_ ?_ .or⟩
    · rintro ⟨⟩
      exact hand rfl
    · rintro ⟨⟩
      exact hor rfl
  | _ => cases h

end Expr

namespace Node

open Scanner

variable {env : Environment} {function : String → String}

/-- A phrase whose parts are read after its domain. -/
theorem reaches_phrase (hrule : env.tagRule? "trans" = some .phrase) {domain : Expr}
    (hdomain : domain.IsSpelled function) {s t v : Cursor} {x : Lexeme} {p : Parts} {line l : Nat}
    {σ : Scanner} (hs : s.Supplies (.name "from" :: Expr.lexemes function domain) t)
    (ht : t.Shows (some x)) (hx : Expr.Ends .or (some x))
    (hparts : (parts env t.looked).Gives p v) (hv : v.Supplies [.blockEnd] ⟨[], σ, l⟩)
    (hcheck : Message.check p.body line = .ok ()) :
    (tag env "trans" line s).Reaches (phrase ⟨p.body, domain, p.counted, p.notes, line⟩) σ := by
  obtain ⟨l', u, hfrom, hu⟩ := hs
  obtain ⟨l'', w, hend, rfl⟩ := hv
  have hofParts : ofParts p domain line =
      .ok (phrase ⟨p.body, domain, p.counted, p.notes, line⟩) := by
    rw [ofParts_eq, hcheck]
    rfl
  rw [tag, if_neg (by decide), if_neg (by decide), hrule]
  dsimp only
  rw [ruledTag]
  refine (Cursor.gives_expect hfrom).reaches_andThen fun _ => ?_
  refine (Expr.gives_read _ hdomain hu ht hx).reaches_andThen fun _ => ?_
  refine hparts.reaches_andThen fun _ => ?_
  refine Reading.Gives.reaches_andThen (Cursor.gives_expect hend) fun _ => ?_
  rw [hofParts]
  exact Reading.reaches_done (Cursor.near_fresh _ _) _

theorem gives_parts_inline {e : Expr} (he : e.IsSpelled function) {x : Lexeme}
    (hx : Expr.lexemes function e = [x]) (hne : x ≠ .blockEnd) {s t : Cursor}
    (hs : s.Supplies [x] t) (ht : t.Shows (some .blockEnd)) :
    (parts env s).Gives ⟨.inline e, none, none⟩ t.looked := by
  have hsees := Cursor.gives_sees hs.shows .blockEnd
  have hfalse : (some x == some Lexeme.blockEnd) = false := by simpa using hne
  have hread := Expr.gives_read env.options.sandboxed he (hx ▸ hs.looked) ht
    (Expr.ends_of_closes (x := .blockEnd) rfl .or)
  rw [hfalse] at hsees
  rw [parts]
  exact Reading.gives_andThen hsees fun _ => Reading.gives_map _ hread

theorem isReadBack_inline (hrule : env.tagRule? "trans" = some .phrase) {e domain : Expr}
    {written : Nat} (he : e.IsSpelled function) (hatomic : e.isAtomic = true)
    (hand : e ≠ .name "and") (hor : e ≠ .name "or") (hdomain : domain.IsSpelled function) :
    (phrase ⟨.inline e, domain, none, none, written⟩).IsReadBack env function := by
  intro stop cs line ns τ hstop _ hrest s hs
  have hwords : Expr.Written
      (spaced ["trans", "from", domain.script function, e.script function]).toList
      (.name "trans" ::
        (.name "from" :: Expr.lexemes function domain ++ Expr.lexemes function e)) := by
    refine written_spaced_cons (Expr.Written.name (n := "trans") (by decide)) ?_
    refine written_spaced_cons (Expr.Written.name (n := "from") (by decide)) ?_
    exact written_spaced_cons (Expr.written_script hdomain.writable)
      (written_spaced (Expr.written_script he.writable))
  refine reaches_tag hwords (Stop.not_includes hstop (by simp)) hs (fun t l ht => ?_) hrest
  obtain ⟨x, hx, hne, hends⟩ := Expr.exists_lexeme_of_isAtomic hatomic hand hor
  rw [hx] at ht
  obtain ⟨u, hu, hend⟩ := Cursor.supplies_append_iff.1 ht
  obtain ⟨v, hv, hmessage⟩ := Cursor.supplies_append_iff.1 hu
  exact reaches_phrase hrule hdomain hv hmessage.shows hends
    (gives_parts_inline he hx hne hmessage.looked hend.shows) hend.looked (if_pos hatomic)

/-- The notes and the end tag of a phrase. -/
def notesEnd (function : String → String) (notes? : Option (List Node)) : String :=
  notesSource function notes? ++ blockTag ["endtrans"]

theorem metBy_notesEnd {stop : Stop} (hnotes : stop.includes "notes" = true)
    (hend : stop.includes "endtrans" = true) (notes? : Option (List Node)) (cs : List Char) :
    stop.MetBy ((notesEnd function notes?).toList ++ cs) := by
  cases notes? with
  | none =>
    simp only [notesEnd, notesSource, String.toList_append, List.append_assoc]
    exact Stop.metBy_word (by decide) hend cs
  | some ns =>
    simp only [notesEnd, notesSource, String.toList_append, List.append_assoc]
    exact Stop.metBy_word (by decide) hnotes _

theorem reaches_notes {notes? : Option (List Node)} (h : AreNotes notes?) {cs : List Char}
    {line : Nat} {s : Cursor}
    (hs : s.Near (inTag (((notesEnd function notes?).toList ++ cs).drop 2) line)) :
    (notes s).Reaches notes? (inTag (((blockTag ["endtrans"]).toList ++ cs).drop 2)
      (line + breaks (notesSource function notes?))) := by
  cases notes? with
  | none =>
    have hsource : notesEnd function none = blockTag ["endtrans"] := by
      simp [notesEnd, notesSource]
    rw [hsource] at hs
    obtain ⟨l, hsupplies⟩ := supplies_tag (written_word (by decide)) hs
    have hend : s.Shows (some (.name "endtrans")) := hsupplies.shows
    rw [notes]
    refine Cursor.reaches_choose_no hend rfl fun _ => ?_
    exact Reading.reaches_done hs.looked none
  | some ns =>
    obtain ⟨content, rfl, hcontent⟩ := h ns rfl
    have hsource : (notesEnd function (some [text content])).toList ++ cs =
        (blockTag ["notes"]).toList ++
          (content.toList ++ '\x7b' :: '%' :: inside ["endtrans"] cs) := by
      rw [← blockTag_append]
      simp [notesEnd, notesSource, sources, source]
    rw [hsource] at hs
    obtain ⟨l, l', t, ht, l'', u, hu, rfl⟩ := supplies_tag (written_word (by decide)) hs
    have hopens : opensTag "endtrans".toList (inside ["endtrans"] cs) = true := by rfl
    have hraw := Cursor.gives_raw
      (rawUntil_append hcontent hopens (line + breaks (blockTag ["notes"]))) l
    have hbreaks : breaks (notesSource function (some [text content])) =
        breaks (blockTag ["notes"]) + breaks content := by
      simp [notesSource, sources, source, breaks_append]
    rw [hbreaks, ← Nat.add_assoc, drop_blockTag, notes]
    refine Cursor.reaches_choose_yes ht (Expr.exactly_self _) fun _ => ?_
    refine Reading.Gives.reaches_andThen (Cursor.gives_expect hu) fun _ => ?_
    refine Reading.reaches_map _ (Reading.reaches_map _ ⟨_, hraw, ?_⟩)
    exact Cursor.near_fresh _ _

/-- What stands after the singular body of a phrase. -/
def bodyEnd (function : String → String) (counted? : Option (Counted Node))
    (notes? : Option (List Node)) : String :=
  countedSource function counted? ++ notesEnd function notes?

/-- There is a plural body, and it is read back. -/
def CountedReadBack (env : Environment) (function : String → String)
    (counted? : Option (Counted Node)) : Prop :=
  ∀ c ∈ counted?, c.count.IsSpelled function ∧
    ∃ plural, c.plural = some plural ∧ AreReadBack env function plural

theorem metBy_bodyEnd {counted? : Option (Counted Node)}
    (h : CountedReadBack env function counted?) (notes? : Option (List Node)) (cs : List Char) :
    Stop.MetBy (.before ["plural", "notes", "endtrans"])
      ((bodyEnd function counted? notes?).toList ++ cs) := by
  cases counted? with
  | none =>
    simp only [bodyEnd, countedSource, String.toList_append, List.append_assoc]
    exact metBy_notesEnd rfl rfl notes? cs
  | some c =>
    obtain ⟨hcount, plural, hplural, _⟩ := h c rfl
    obtain ⟨count, _⟩ := c
    subst hplural
    simp only [bodyEnd, countedSource, String.toList_append, List.append_assoc]
    exact Stop.metBy_wordExpr (by decide) hcount rfl _

theorem reaches_counted {counted? : Option (Counted Node)}
    (h : CountedReadBack env function counted?) {notes? : Option (List Node)} {cs : List Char}
    {line : Nat} {s : Cursor}
    (hs : s.Near (inTag (((bodyEnd function counted? notes?).toList ++ cs).drop 2) line)) :
    (counted env s).Reaches (linedCounted function line counted?)
      (inTag (((notesEnd function notes?).toList ++ cs).drop 2)
        (line + breaks (countedSource function counted?))) := by
  cases counted? with
  | none =>
    have hsource : bodyEnd function none notes? = notesEnd function notes? := by
      simp [bodyEnd, countedSource]
    rw [hsource] at hs
    have hend : Stop.MetBy (.before ["notes", "endtrans"])
        ((notesEnd function notes?).toList ++ cs) := metBy_notesEnd rfl rfl notes? cs
    -- either of the two tags that may come now says that there is no plural body
    obtain ⟨name, hname, hshows⟩ := hend.shows hs
    have hne : name ≠ "plural" := by
      rintro rfl
      exact absurd hname (by decide)
    rw [counted]
    refine Cursor.reaches_choose_no hshows (if_neg (by simpa using hne)) fun _ => ?_
    exact Reading.reaches_done hs.looked none
  | some c =>
    obtain ⟨hcount, plural, hplural, hread⟩ := h c rfl
    obtain ⟨count, _⟩ := c
    subst hplural
    have hsource : bodyEnd function (some ⟨count, some plural⟩) notes? =
        blockTag ["plural", count.script function] ++
          (sources function plural ++ notesEnd function notes?) := by
      simp [bodyEnd, countedSource, String.append_assoc]
    rw [hsource] at hs
    simp only [String.toList_append, List.append_assoc] at hs
    obtain ⟨l, l', t, ht, hexpr⟩ := supplies_tag (written_wordExpr (by decide) hcount) hs
    have hend : Stop.MetBy (.before ["notes", "endtrans"])
        ((notesEnd function notes?).toList ++ cs) := metBy_notesEnd rfl rfl notes? cs
    rw [counted]
    refine Cursor.reaches_choose_yes ht (Expr.exactly_self _) fun _ => ?_
    refine reaches_read hcount rfl hexpr fun _ _ _ _ => ?_
    simp only [linedCounted, countedSource, breaks_append, ← Nat.add_assoc]
    exact Reading.reaches_map _ (hread.reaches_drop rfl hend (Cursor.near_fresh _ _))

theorem gives_parts_block {body : List Node} {counted? : Option (Counted Node)}
    {notes? : Option (List Node)} (hbody : AreReadBack env function body)
    (hcounted : CountedReadBack env function counted?) (hnotes : AreNotes notes?) {cs : List Char}
    {line l : Nat} {s : Cursor}
    (hs : s.Supplies [.blockEnd] ⟨[], inText ((sources function body).toList ++
      ((bodyEnd function counted? notes?).toList ++ cs)) line, l⟩) :
    ∃ v l', (parts env s).Gives ⟨.block (linedNodes function line body),
        linedCounted function (line + breaks (sources function body)) counted?, notes?⟩ v ∧
      v.Supplies [.blockEnd] ⟨[], inText cs (line + breaks (sources function body ++
        bodyEnd function counted? notes?)), l'⟩ := by
  have hsees := Cursor.gives_sees hs.shows .blockEnd
  rw [beq_self_eq_true] at hsees
  obtain ⟨l₀, u, hstart, rfl⟩ := hs
  have hend := metBy_bodyEnd hcounted notes? cs
  have hnear := Cursor.near_fresh (inText ((sources function body).toList ++
    ((bodyEnd function counted? notes?).toList ++ cs)) line) l
  obtain ⟨v, hgives, hv⟩ := hbody.reaches_drop rfl hend hnear
  obtain ⟨w, hgives', hw⟩ := reaches_counted hcounted hv
  obtain ⟨x, hgives'', hx⟩ := reaches_notes hnotes hw
  obtain ⟨l', l'', y, hy, hlast⟩ := supplies_tag (written_word (by decide)) hx
  refine ⟨y, l', ?_, ?_⟩
  · rw [parts]
    refine Reading.gives_andThen hsees fun _ => ?_
    rw [if_pos rfl]
    refine Reading.gives_andThen
      (Cursor.gives_expect ((Cursor.step_looked s).trans hstart)) fun _ => ?_
    refine Reading.gives_andThen hgives fun _ => ?_
    refine Reading.gives_andThen hgives' fun _ => ?_
    refine Reading.gives_andThen hgives'' fun _ => ?_
    exact Reading.gives_map _ (Cursor.gives_expect hy)
  · simp only [bodyEnd, notesEnd, breaks_append, ← Nat.add_assoc]
    exact hlast

theorem isTranslatable_lined {n : Node} (h : n.IsSimple) (line : Nat) :
    Message.isTranslatable (lined function line n) = true := by
  cases n with
  | text s => rfl
  | print e => cases e <;> first | rfl | cases h
  | _ => cases h

theorem all_isTranslatable_linedNodes {ns : List Node} (h : ∀ n ∈ ns, n.IsSimple) (line : Nat) :
    (linedNodes function line ns).all Message.isTranslatable = true := by
  induction ns generalizing line with
  | nil => rfl
  | cons n ns ih =>
    obtain ⟨hn, hns⟩ := List.forall_mem_cons.1 h
    rw [linedNodes, List.all_cons, isTranslatable_lined hn, ih hns]
    rfl

theorem isReadBack_block (hrule : env.tagRule? "trans" = some .phrase) {body : List Node}
    {domain : Expr} {counted? : Option (Counted Node)} {notes? : Option (List Node)}
    {written : Nat} (hsimple : ∀ n ∈ body, n.IsSimple) (hbody : AreReadBack env function body)
    (hdomain : domain.IsSpelled function) (hcounted : CountedReadBack env function counted?)
    (hnotes : AreNotes notes?) :
    (phrase ⟨.block body, domain, counted?, notes?, written⟩).IsReadBack env function := by
  intro stop cs line ns τ hstop _ hrest s hs
  have hsource : source function (phrase ⟨.block body, domain, counted?, notes?, written⟩) =
      blockTag ["trans", "from", domain.script function] ++
        (sources function body ++ bodyEnd function counted? notes?) := by
    simp [source, phraseSource, bodyEnd, notesEnd, String.append_assoc]
  have hwords : Expr.Written (spaced ["trans", "from", domain.script function]).toList
      (.name "trans" :: .name "from" :: Expr.lexemes function domain) :=
    written_spaced_cons (Expr.Written.name (n := "trans") (by decide))
      (written_wordExpr (by decide) hdomain)
  rw [hsource] at hs hrest
  simp only [String.toList_append, List.append_assoc] at hs
  refine reaches_tag hwords (Stop.not_includes hstop (by simp)) hs (fun t l ht => ?_) hrest
  obtain ⟨u, hu, hend⟩ := Cursor.supplies_append_iff.1 ht
  obtain ⟨v, l', hparts, hv⟩ := gives_parts_block hbody hcounted hnotes hend.looked
  rw [breaks_append, ← Nat.add_assoc]
  exact reaches_phrase hrule hdomain hu hend.shows (Expr.ends_of_closes rfl .or) hparts hv
    (if_pos (all_isTranslatable_linedNodes hsimple _))

/-- Every node that a source spells is read back. -/
theorem isReadBack (hrule : env.tagRule? "trans" = some .phrase)
    (hescape : env.options.autoescape = false) {n : Node} (h : n.Every (IsSpelled function)) :
    n.IsReadBack env function := by
  induction h with
  | text h => exact isReadBack_text h
  | print h => exact isReadBack_print hescape h
  | loop h _ ih =>
    obtain ⟨htarget, hitems, hapart⟩ := h
    exact isReadBack_loop htarget hitems (areReadBack ih hapart)
  | branch h _ _ ihcases ihotherwise =>
    obtain ⟨hne, hcases, hotherwise⟩ := h
    refine isReadBack_branch hne (fun c hc => ?_) fun body hbody => ?_
    · exact ⟨(hcases c hc).1, areReadBack (ihcases c hc) (hcases c hc).2⟩
    · exact areReadBack (ihotherwise body hbody) (hotherwise body hbody)
  | @phrase p h _ ih =>
    cases h with
    | inline hatomic he hand hor hdomain =>
      exact isReadBack_inline hrule he hatomic hand hor hdomain
    | block hsimple hapart hdomain hcounted hnotes =>
      refine isReadBack_block hrule hsimple (areReadBack (ih _ List.mem_cons_self) hapart) hdomain
        (fun c hc => ?_) hnotes
      obtain ⟨hcount, plural, hplural, hpluralApart⟩ := hcounted c hc
      refine ⟨hcount, plural, hplural, areReadBack (ih plural ?_) hpluralApart⟩
      exact Phrase.plural_mem_bodies _ (Option.bind_eq_some_iff.2 ⟨c, hc, hplural⟩)

theorem reaches_atEnd {line : Nat} {s : Cursor} (hs : s.Near (inText [] line)) :
    (nodes env .atEnd s).Reaches [] (inText [] line) := by
  have hpeek : (s.peek 0).result = .ok none := by
    obtain ⟨l, rfl | rfl⟩ := hs
    · rfl
    · exact (Cursor.peek_looked _).1.trans rfl
  rw [nodes]
  refine (Cursor.gives_peek hpeek).reaches_andThen fun _ => ?_
  exact Reading.reaches_done hs.looked []

end Node

namespace Environment

/-- The source of a template is read as exactly the nodes that it spells, with each phrase on the
line of its opening tag. -/
theorem parse_sources {options : Options} (htrims : options.trimBlocks = false)
    (hescape : options.autoescape = false) {ns : List Node} (hapart : Node.TextsApart ns)
    (h : ∀ n ∈ ns, n.Every (Node.IsSpelled (standard options).function)) :
    (standard options).parse (Node.sources (standard options).function ns) =
      .ok (Node.linedNodes (standard options).function 1 ns) := by
  have hread : Node.AreReadBack (standard options) (standard options).function ns :=
    Node.areReadBack (fun n hn => Node.isReadBack rfl hescape (h n hn)) hapart
  have hstart : (Cursor.ofTemplate (Node.sources (standard options).function ns)
      options.trimBlocks).Near (Scanner.inText
        ((Node.sources (standard options).function ns).toList ++ []) 1) := by
    rw [htrims, List.append_nil]
    exact Cursor.near_fresh _ 1
  obtain ⟨t, hgives, _⟩ := hread .atEnd [] 1 _ rfl (.inl rfl)
    (fun _ ht => Node.reaches_atEnd ht) _ hstart
  exact hgives.result

/-- A phrase on the second line, with a loop and a branch in its plural body. -/
theorem parse_sources_phrase :
    let options : Options := { trimBlocks := false, autoescape := false }
    let plural : List Node :=
      [.loop "item" (.name "items") [.branch [(.name "item", [])] (some [.text "none"])]]
    let ns (line : Nat) : List Node :=
      [.text "Cart\n", .phrase ⟨.block [.text "one ", .print (.name "n")], .name "shop",
        some ⟨.name "n", some plural⟩, some [.text "as {{ n }}"], line⟩]
    (Node.TextsApart (ns 0) ∧ ∀ n ∈ ns 0, n.Every (Node.IsSpelled (standard options).function)) ∧
      (standard options).parse
        ("Cart\n{% trans from shop %}one {{ n }}{% plural n %}{% for item in items %}" ++
          "{% if item %}{% else %}none{% endif %}{% endfor %}{% notes %}as {{ n }}" ++
          "{% endtrans %}") = .ok (ns 2) := by
  intro options plural ns
  have hname : ∀ n, Expr.isWord n = true →
      (Expr.name n).IsSpelled (standard options).function := fun n hn => ⟨trivial, hn⟩
  have hclean : ∀ s, Node.IsClean s →
      (Node.text s).Every (Node.IsSpelled (standard options).function) := fun s hs => .text hs
  have hapart : Node.TextsApart (ns 0) := by simp [ns, Node.TextsApart, Node.isText]
  have hbranch : (Node.branch [(.name "item", [])] (some [.text "none"])).Every
      (Node.IsSpelled (standard options).function) := by
    have hitem := hname "item" (by decide)
    have hnone := hclean "none" (by decide +kernel)
    refine Node.every_branch.2 ⟨⟨by simp, ?_, ?_⟩, ?_, ?_⟩
    · exact List.forall_mem_singleton.2 ⟨hitem, .nil⟩
    · rintro body ⟨⟩
      exact .singleton _
    · simp
    · rintro body ⟨⟩
      exact List.forall_mem_singleton.2 hnone
  have hplural : ∀ n ∈ plural, n.Every (Node.IsSpelled (standard options).function) := by
    refine List.forall_mem_singleton.2 (Node.every_loop.2 ⟨⟨by decide, ?_, .singleton _⟩, ?_⟩)
    · exact hname "items" (by decide)
    · exact List.forall_mem_singleton.2 hbranch
  have hspelled : ∀ n ∈ ns 0, n.Every (Node.IsSpelled (standard options).function) := by
    refine List.forall_mem_cons.2 ⟨hclean "Cart\n" (by decide +kernel), ?_⟩
    refine List.forall_mem_singleton.2 (Node.every_phrase.2 ⟨.block ?_ ?_ ?_ ?_ ?_, ?_⟩)
    · simp [Node.IsSimple]
    · simp [Node.TextsApart, Node.isText]
    · exact hname "shop" (by decide)
    · rintro c ⟨⟩
      exact ⟨hname "n" (by decide), plural, rfl, .singleton _⟩
    · rintro notes ⟨⟩
      exact ⟨"as {{ n }}", rfl, by decide +kernel⟩
    · refine List.forall_mem_cons.2 ⟨?_, List.forall_mem_singleton.2 hplural⟩
      refine List.forall_mem_cons.2 ⟨hclean "one " (by decide +kernel), ?_⟩
      exact List.forall_mem_singleton.2 (Node.every_print.2 (hname "n" (by decide)))
  have hparse : (standard options).parse (Node.sources (standard options).function (ns 0)) =
      .ok (Node.linedNodes (standard options).function 1 (ns 0)) :=
    parse_sources rfl rfl hapart hspelled
  have hsource : Node.sources (standard options).function (ns 0) =
      "Cart\n{% trans from shop %}one {{ n }}{% plural n %}{% for item in items %}" ++
        "{% if item %}{% else %}none{% endif %}{% endfor %}{% notes %}as {{ n }}" ++
        "{% endtrans %}" := by
    decide +kernel
  have hlined : Node.linedNodes (standard options).function 1 (ns 0) =
      ns (1 + Node.breaks "Cart\n") := rfl
  have hbreaks : Node.breaks "Cart\n" = 1 := by decide +kernel
  rw [hsource, hlined, hbreaks] at hparse
  exact ⟨⟨hapart, hspelled⟩, hparse⟩

end Environment

end Polyglot
