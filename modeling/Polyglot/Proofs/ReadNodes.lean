import Polyglot.Proofs.PhraseCalls
import Polyglot.Proofs.ReadExprs
import Polyglot.Template

/-!
What every node that was read satisfies, in an environment whose extensions register no tags but
those of phrases: its expressions were read as such, what is printed says how it is escaped if
everything has to, a branch has a case, and the singular body of a phrase is translatable.
-/
namespace Polyglot

namespace Cursor

variable {s : Cursor}

theorem Sound.obtains_tagName (hs : s.Sound) : s.tagName.Obtains fun _ => True := by
  refine Reading.ensures_andThen (ensures_peek s) fun token? t _ ht => ?_
  obtain ⟨rfl, _⟩ := ht
  split
  · exact Reading.ensures_refuse
  · exact Reading.ensures_done ⟨trivial, hs.looked⟩
  · exact Reading.ensures_refuse

theorem Sound.obtains_sees (hs : s.Sound) (x : Lexeme) : (s.sees x).Obtains fun _ => True := by
  refine Reading.ensures_map ((ensures_peek s).mono fun _ t ht => ?_)
  obtain ⟨rfl, _⟩ := ht
  exact ⟨trivial, hs.looked⟩

theorem Sound.obtains_raw (hs : s.Sound) (name : String) :
    (s.raw name).Obtains fun _ => True := by
  unfold raw
  split
  · dsimp only
    split
    · exact fun _ _ => ⟨trivial, hs⟩
    · exact Reading.ensures_refuse
  · exact Reading.ensures_refuse

end Cursor

namespace Node

/-- What the reader grants of one node, apart from those inside it. -/
def IsRead (env : Environment) : Node → Prop
  | text _ => True
  | print e => ∃ e' : Expr, e'.Every (Expr.IsRead env.options.sandboxed) ∧ e = env.printed e'
  | loop target items _ =>
    Scanner.isIdentifier target = true ∧ items.Every (Expr.IsRead env.options.sandboxed)
  | branch cases _ =>
    cases ≠ [] ∧ ∀ c ∈ cases, c.1.Every (Expr.IsRead env.options.sandboxed)
  | phrase p =>
    Message.check p.body p.line = .ok () ∧
      ∀ e ∈ p.exprs, e.Every (Expr.IsRead env.options.sandboxed)

variable {env : Environment}

/-- The expressions of a node were read, unless the node prints what is printed for one. -/
theorem IsRead.exprs {n : Node} (h : n.IsRead env) :
    ∀ e ∈ n.exprs, e.Every (Expr.IsRead env.options.sandboxed) ∨
      ∃ e' : Expr, e'.Every (Expr.IsRead env.options.sandboxed) ∧ e = env.printed e' := by
  cases n with
  | text s => exact fun _ he => absurd he List.not_mem_nil
  | print e => exact List.forall_mem_singleton.2 (.inr h)
  | loop target items body => exact List.forall_mem_singleton.2 (.inl h.2)
  | branch cases otherwise =>
    intro e he
    obtain ⟨c, hc, rfl⟩ := List.mem_map.1 he
    exact .inl (h.2 c hc)
  | phrase p => exact fun e he => .inl (h.2 e he)

def AllRead (env : Environment) (ns : List Node) : Prop := ∀ n ∈ ns, n.Every (IsRead env)

def CaseRead (env : Environment) (c : Expr × List Node) : Prop :=
  c.1.Every (Expr.IsRead env.options.sandboxed) ∧ AllRead env c.2

/-- Further cases and a fallback. -/
def CasesRead (env : Environment) (r : List (Expr × List Node) × Option (List Node)) : Prop :=
  (∀ c ∈ r.1, CaseRead env c) ∧ ∀ body ∈ r.2, AllRead env body

def CountedRead (env : Environment) (c? : Option (Counted Node)) : Prop :=
  ∀ c ∈ c?, c.count.Every (Expr.IsRead env.options.sandboxed) ∧
    ∀ plural ∈ c.plural, AllRead env plural

/-- Whatever phrase is made of the parts, its nodes and expressions were read as such. -/
def PartsRead (env : Environment) (p : Parts) : Prop :=
  ∀ domain line n, domain.Every (Expr.IsRead env.options.sandboxed) →
    ofParts p domain line = .ok n → n.Every (IsRead env)

theorem exists_of_ofParts {p : Parts} {domain : Expr} {line : Nat} {n : Node}
    (h : ofParts p domain line = .ok n) :
    Message.check p.body line = .ok () ∧
      n = phrase ⟨p.body, domain, p.counted, p.notes, line⟩ := by
  rw [ofParts_eq] at h
  cases hcheck : Message.check p.body line with
  | error e => simp [hcheck, Except.map] at h
  | ok u =>
    simp only [hcheck, Except.map, Except.ok.injEq] at h
    exact ⟨rfl, h.symm⟩

theorem partsRead_block {body : List Node} {counted : Option (Counted Node)}
    {notes : Option (List Node)} (hbody : AllRead env body) (hcounted : CountedRead env counted) :
    PartsRead env ⟨.block body, counted, notes⟩ := by
  intro domain line n hdomain h
  obtain ⟨hcheck, rfl⟩ := exists_of_ofParts h
  refine .phrase ⟨hcheck, List.forall_mem_cons.2 ⟨hdomain, ?_⟩⟩ (List.forall_mem_cons.2 ⟨hbody, ?_⟩)
  · intro e he
    obtain ⟨c, hc, rfl⟩ := Option.map_eq_some_iff.1 (Option.mem_toList.1 he)
    exact (hcounted c hc).1
  · intro plural hplural
    obtain ⟨c, hc, hplural⟩ := Option.bind_eq_some_iff.1 (Option.mem_toList.1 hplural)
    exact (hcounted c hc).2 plural hplural

theorem partsRead_inline {e : Expr} (he : e.Every (Expr.IsRead env.options.sandboxed)) :
    PartsRead env ⟨.inline e, none, none⟩ := by
  intro domain line n hdomain h
  obtain ⟨hcheck, rfl⟩ := exists_of_ofParts h
  refine .phrase ⟨hcheck, List.forall_mem_cons.2 ⟨he, List.forall_mem_singleton.2 hdomain⟩⟩ ?_
  exact fun _ h => absurd h List.not_mem_nil

theorem ensures_expectBlockEnd {s : Cursor} (hs : s.Sound) :
    (expectBlockEnd s).Ensures fun _ t => t.Sound :=
  hs.ensures_expect _

theorem ensures_closing {s : Cursor} (hs : s.Sound) (name : String) :
    (closing name s).Ensures fun _ t => t.Sound :=
  Reading.ensures_andThen (hs.ensures_expect _) fun _ _ _ ht => ensures_expectBlockEnd ht

theorem ensures_notes {s : Cursor} (hs : s.Sound) : (notes s).Ensures fun _ t => t.Sound := by
  refine hs.ensures_choose (fun _ t _ ht => ?_) fun t _ ht => Reading.ensures_done ht
  refine Reading.ensures_andThen (ensures_expectBlockEnd ht) fun _ u _ hu => ?_
  refine Reading.ensures_map (Reading.ensures_map ((hu.obtains_raw _).mono fun _ v hv => ?_))
  exact hv.2

/-- What is read from sound tokens is as the reader grants it, where only phrases have a tag with a
rule. -/
def granting (env : Environment) : Contract where
  nodes _ s x := s.Sound → x.Obtains (AllRead env)
  tag _ _ s x := s.Sound → x.Obtains (Every (IsRead env))
  loopTag s x := s.Sound → x.Obtains (Every (IsRead env))
  branchTag s x := s.Sound → x.Obtains (Every (IsRead env))
  guarded s x := s.Sound → x.Obtains (CaseRead env)
  furtherCases s x := s.Sound → x.Obtains (CasesRead env)
  ruledTag rule _ _ s x := rule = .phrase → s.Sound → x.Obtains (Every (IsRead env))
  parts s x := s.Sound → x.Obtains (PartsRead env)
  counted s x := s.Sound → x.Obtains (CountedRead env)

section

variable {r : Readers}

theorem obtains_nodes (h : r.Keep (granting env)) (stop : Stop) (s : Cursor) (hs : s.Sound) :
    ((r.calling env).nodes stop s).Obtains (AllRead env) := by
  rw [Readers.calling_nodes]
  refine Reading.ensures_andThen (Cursor.ensures_peek s) fun token? t _ hpeek => ?_
  obtain ⟨rfl, _⟩ := hpeek
  have hlooked := hs.looked
  split
  · split
    · exact Reading.ensures_done ⟨fun _ h => absurd h List.not_mem_nil, hlooked⟩
    · exact Reading.ensures_refuse
  · refine Cursor.ensures_take fun token u _ hstep => ?_
    have hsound := (Cursor.sound_of_step hlooked hstep).2
    refine Reading.ensures_map ((h.nodes stop u hsound).mono fun ns v hns => ?_)
    exact ⟨List.forall_mem_cons.2 ⟨.text trivial, hns.1⟩, hns.2⟩
  · refine Cursor.ensures_take fun token u _ hstep => ?_
    have hsound := (Cursor.sound_of_step hlooked hstep).2
    refine Reading.ensures_andThen (Expr.ensures_read _ hsound) fun e v _ he => ?_
    refine Reading.ensures_andThen (he.2.ensures_expect _) fun _ w _ hsound => ?_
    refine Reading.ensures_map ((h.nodes stop w hsound).mono fun ns x hns => ?_)
    exact ⟨List.forall_mem_cons.2 ⟨.print ⟨e, he.1, rfl⟩, hns.1⟩, hns.2⟩
  · next line _ =>
    refine Cursor.ensures_take fun token u _ hstep => ?_
    have hsound := (Cursor.sound_of_step hlooked hstep).2
    refine Reading.ensures_andThen hsound.obtains_tagName fun name v _ hname => ?_
    split
    · exact Reading.ensures_done ⟨fun _ h => absurd h List.not_mem_nil, hname.2⟩
    · refine Cursor.ensures_take fun _ w _ hstep => ?_
      have hsound := (Cursor.sound_of_step hname.2 hstep).2
      refine Reading.ensures_andThen (h.tag name line w hsound) fun n x _ hn => ?_
      refine Reading.ensures_map ((h.nodes stop x hn.2).mono fun ns y hns => ?_)
      exact ⟨List.forall_mem_cons.2 ⟨hn.1, hns.1⟩, hns.2⟩
  · exact Reading.ensures_refuse

theorem obtains_tag (hrules : ∀ name rule, env.tagRule? name = some rule → rule = .phrase)
    (h : r.Keep (granting env)) (name : String) (line : Nat) (s : Cursor) (hs : s.Sound) :
    ((r.calling env).tag name line s).Obtains (Every (IsRead env)) := by
  dsimp only [Readers.calling]
  split
  · exact h.loopTag s hs
  split
  · exact h.branchTag s hs
  split
  · next rule hrule => exact h.ruledTag rule name line s (hrules name rule hrule) hs
  · exact Reading.ensures_refuse

theorem obtains_loopTag (h : r.Keep (granting env)) (s : Cursor) (hs : s.Sound) :
    ((r.calling env).loopTag s).Obtains (Every (IsRead env)) := by
  dsimp only [Readers.calling]
  refine Reading.ensures_andThen hs.ensures_name fun target t _ htarget => ?_
  refine Reading.ensures_andThen (htarget.2.ensures_expect _) fun _ u _ hsound => ?_
  refine Reading.ensures_andThen (Expr.ensures_read _ hsound) fun e v _ he => ?_
  refine Reading.ensures_andThen (ensures_expectBlockEnd he.2) fun _ w _ hsound => ?_
  refine Reading.ensures_andThen (h.nodes _ w hsound) fun body x _ hbody => ?_
  refine Reading.ensures_map ((ensures_closing hbody.2 _).mono fun _ y hy => ?_)
  exact ⟨.loop ⟨htarget.1, he.1⟩ hbody.1, hy⟩

theorem obtains_branchTag (h : r.Keep (granting env)) (s : Cursor) (hs : s.Sound) :
    ((r.calling env).branchTag s).Obtains (Every (IsRead env)) := by
  dsimp only [Readers.calling]
  refine Reading.ensures_andThen (h.guarded s hs) fun first t _ hfirst => ?_
  refine Reading.ensures_map ((h.furtherCases t hfirst.2).mono fun x u hx => ?_)
  have hall : ∀ c ∈ first :: x.1, CaseRead env c := List.forall_mem_cons.2 ⟨hfirst.1, hx.1.1⟩
  exact ⟨.branch ⟨by simp, fun c hc => (hall c hc).1⟩ (fun c hc => (hall c hc).2) hx.1.2, hx.2⟩

theorem obtains_guarded (h : r.Keep (granting env)) (s : Cursor) (hs : s.Sound) :
    ((r.calling env).guarded s).Obtains (CaseRead env) := by
  dsimp only [Readers.calling]
  refine Reading.ensures_andThen (Expr.ensures_read _ hs) fun e t _ he => ?_
  refine Reading.ensures_andThen (ensures_expectBlockEnd he.2) fun _ u _ hsound => ?_
  exact Reading.ensures_map ((h.nodes _ u hsound).mono fun body v hbody =>
    ⟨⟨he.1, hbody.1⟩, hbody.2⟩)

theorem obtains_furtherCases (h : r.Keep (granting env)) (s : Cursor) (hs : s.Sound) :
    ((r.calling env).furtherCases s).Obtains (CasesRead env) := by
  rw [Readers.calling_furtherCases]
  refine hs.ensures_takeName fun name t _ _ hsound => ?_
  split
  · refine Reading.ensures_andThen (h.guarded t hsound) fun c u _ hc => ?_
    refine Reading.ensures_map ((h.furtherCases u hc.2).mono fun x v hx => ?_)
    exact ⟨⟨List.forall_mem_cons.2 ⟨hc.1, hx.1.1⟩, hx.1.2⟩, hx.2⟩
  split
  · refine Reading.ensures_andThen (ensures_expectBlockEnd hsound) fun _ u _ hsound => ?_
    refine Reading.ensures_andThen (h.nodes _ u hsound) fun body v _ hbody => ?_
    refine Reading.ensures_map ((ensures_closing hbody.2 _).mono fun _ w hw => ?_)
    refine ⟨⟨fun _ h => absurd h List.not_mem_nil, fun b hb => ?_⟩, hw⟩
    exact Option.some.inj hb ▸ hbody.1
  split
  · refine Reading.ensures_map ((ensures_expectBlockEnd hsound).mono fun _ u hu => ?_)
    exact ⟨⟨fun _ hc => absurd hc List.not_mem_nil, fun _ hb => (Option.not_mem_none _ hb).elim⟩,
      hu⟩
  · exact Reading.ensures_refuse

theorem obtains_phraseTag (h : r.Keep (granting env)) (name : String) (line : Nat) (s : Cursor)
    (hs : s.Sound) :
    ((r.calling env).ruledTag .phrase name line s).Obtains (Every (IsRead env)) := by
  dsimp only [Readers.calling]
  refine Reading.ensures_andThen (hs.ensures_expect _) fun _ t _ hsound => ?_
  refine Reading.ensures_andThen (Expr.ensures_read _ hsound) fun domain u _ hdomain => ?_
  refine Reading.ensures_andThen (h.parts u hdomain.2) fun p v _ hp => ?_
  refine Reading.ensures_andThen (ensures_expectBlockEnd hp.2) fun _ w _ hsound => ?_
  split
  · next n hn => exact Reading.ensures_done ⟨hp.1 domain line n hdomain.1 hn, hsound⟩
  · exact Reading.ensures_fail

theorem obtains_parts (h : r.Keep (granting env)) (s : Cursor) (hs : s.Sound) :
    ((r.calling env).parts s).Obtains (PartsRead env) := by
  dsimp only [Readers.calling]
  refine Reading.ensures_andThen (hs.obtains_sees _) fun isBlock t _ hsound => ?_
  split
  · refine Reading.ensures_andThen (ensures_expectBlockEnd hsound.2) fun _ u _ hsound => ?_
    refine Reading.ensures_andThen (h.nodes _ u hsound) fun body v _ hbody => ?_
    refine Reading.ensures_andThen (h.counted v hbody.2) fun c w _ hc => ?_
    refine Reading.ensures_andThen (ensures_notes hc.2) fun notes x _ hsound => ?_
    refine Reading.ensures_map ((hsound.ensures_expect _).mono fun _ y hy => ?_)
    exact ⟨partsRead_block hbody.1 hc.1, hy⟩
  · exact Reading.ensures_map ((Expr.ensures_read _ hsound.2).mono fun e u he =>
      ⟨partsRead_inline he.1, he.2⟩)

theorem obtains_counted (h : r.Keep (granting env)) (s : Cursor) (hs : s.Sound) :
    ((r.calling env).counted s).Obtains (CountedRead env) := by
  dsimp only [Readers.calling]
  refine hs.ensures_choose (fun _ t _ hsound => ?_) fun t _ hsound => ?_
  · refine Reading.ensures_andThen (Expr.ensures_read _ hsound) fun count u _ hcount => ?_
    refine Reading.ensures_andThen (ensures_expectBlockEnd hcount.2) fun _ v _ hsound => ?_
    refine Reading.ensures_map ((h.nodes _ v hsound).mono fun body w hbody => ?_)
    refine ⟨fun c hc => ?_, hbody.2⟩
    cases hc
    exact ⟨hcount.1, fun plural hplural => Option.some.inj hplural ▸ hbody.1⟩
  · exact Reading.ensures_done ⟨fun _ hc => (Option.not_mem_none _ hc).elim, hsound⟩

theorem refusing_keep_granting (env : Environment) : Readers.refusing.Keep (granting env) where
  nodes _ _ _ := Reading.ensures_refuse
  tag _ _ _ _ := Reading.ensures_refuse
  loopTag _ _ := Reading.ensures_refuse
  branchTag _ _ := Reading.ensures_refuse
  guarded _ _ := Reading.ensures_refuse
  furtherCases _ _ := Reading.ensures_refuse
  ruledTag _ _ _ _ _ _ := Reading.ensures_refuse
  parts _ _ := Reading.ensures_refuse
  counted _ _ := Reading.ensures_refuse

theorem calling_keep_granting
    (hrules : ∀ name rule, env.tagRule? name = some rule → rule = .phrase)
    (h : r.Keep (granting env)) : (r.calling env).Keep (granting env) where
  nodes := obtains_nodes h
  tag := obtains_tag hrules h
  loopTag := obtains_loopTag h
  branchTag := obtains_branchTag h
  guarded := obtains_guarded h
  furtherCases := obtains_furtherCases h
  ruledTag rule name line s hrule := by
    subst hrule
    exact obtains_phraseTag h name line s
  parts := obtains_parts h
  counted := obtains_counted h

end

theorem readers_keep_granting
    (hrules : ∀ name rule, env.tagRule? name = some rule → rule = .phrase) :
    (readers env).Keep (granting env) :=
  keep_readers (refusing_keep_granting env) fun _ h => calling_keep_granting hrules h

end Node

namespace Environment

theorem every_of_printed {env : Environment} {p : Expr → Prop} {e : Expr}
    (h : (env.printed e).Every p) : e.Every p := by
  unfold printed at h
  split at h
  · unfold Expr.filtered at h
    split at h
    · exact h.2.1.2
    · exact h.2.1
  · exact h

/-- What is printed has a property of the expression that the filter and the check around it have
as well. -/
theorem every_printed {options : Options} {p : Expr → Prop} {e : Expr} (h : e.Every p)
    (hescape : ∀ e, p (.filter e options.escapeFunction []))
    (hchecked : ∀ e, options.sandboxed = true → p (.checked e)) :
    ((standard options).printed e).Every p := by
  have hoptions : (standard options).options = options := rfl
  unfold printed
  rw [hoptions]
  split
  · unfold Expr.filtered
    split
    · next hsandboxed => exact ⟨hescape _, ⟨hchecked e hsandboxed, h⟩, trivial⟩
    · exact ⟨hescape e, h, trivial⟩
  · exact h

/-- The variable that a print stands for in a message. -/
theorem isIdentifier_of_variableName? {options : Options} {e : Expr} {n : String}
    (hread : (Node.print e).IsRead (standard options)) (hn : Message.variableName? e = some n) :
    Scanner.isIdentifier n = true := by
  obtain ⟨e', he', rfl⟩ := hread
  have hidentifier : ((standard options).printed e').Every
      fun e => ∀ n, e = .name n → Scanner.isIdentifier n = true := by
    refine every_printed (he'.mono ?_) (fun _ _ h => nomatch h) fun _ _ _ h => nomatch h
    rintro _ hname n rfl
    exact hname.1
  exact Message.every_name_of_nameUnder hn hidentifier n rfl

theorem function_standard (options : Options) (n : String) :
    (standard options).function n = if n = "trans" then options.translateFunction else n := by
  have hfilter : (standard options).filterFunction? n =
      Entries.get? n [("trans", options.translateFunction)] := rfl
  rw [function, hfilter, Entries.get?, Entries.get?]
  by_cases hn : n = "trans"
  · rw [if_pos hn.symm, if_pos hn]
    rfl
  · rw [if_neg (Ne.symm hn), if_neg hn]
    rfl

theorem phrase_of_tagRule? (options : Options) {name : String} {rule : TagRule}
    (h : (standard options).tagRule? name = some rule) : rule = .phrase := by
  have hrule : Entries.get? name [("trans", TagRule.phrase)] = some rule := h
  simp only [Entries.get?] at hrule
  split at hrule
  · exact (Option.some.inj hrule).symm
  · cases hrule

/-- Every node of a template that was read, and every node inside it. -/
theorem isRead_of_parse {options : Options} {source : String} {ns : List Node}
    (h : (standard options).parse source = .ok ns) :
    ∀ n ∈ ns, n.Every (Node.IsRead (standard options)) := by
  have hkeep := Node.readers_keep_granting fun _ _ hrule => phrase_of_tagRule? options hrule
  have hread := hkeep.nodes .atEnd (.ofTemplate source options.trimBlocks)
    (Cursor.sound_ofTemplate _ _)
  exact (hread ns h).1

theorem render_of_parse {env : Environment} {source : String} {ns : List Node}
    (h : env.parse source = .ok ns) (context : Entries Value) (translator : Translator) :
    env.render source context translator = env.renderNodes ns context translator := by
  rw [render, h]
  rfl

end Environment

end Polyglot
