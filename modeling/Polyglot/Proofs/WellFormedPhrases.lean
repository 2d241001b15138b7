import Polyglot.Proofs.CompiledPhrases
import Polyglot.Proofs.ReaderInduction

/-!
Phrases as the reader makes them. Along each of its ways a phrase has a count exactly if it has a
plural body, and what was read inside the tag itself is one name or constant with nothing else. The
check of the singular body while reading refuses everything the message cannot be made of, so that
only a plural body can leave a phrase without a call.
-/
namespace Polyglot

namespace Message

theorem piece?_of_isTranslatable {n : Node} (h : isTranslatable n = true) :
    ∃ p, piece? n = some p := by
  unfold isTranslatable at h
  split at h
  · exact ⟨_, rfl⟩
  · exact ⟨_, rfl⟩
  · obtain ⟨m, hm⟩ := Option.isSome_iff_exists.1 h
    exact ⟨_, by rw [piece?, hm, Option.map_some]⟩
  · cases h

theorem pieces?_of_isTranslatable {nodes : List Node} (h : nodes.all isTranslatable = true) :
    ∃ ps, pieces? nodes = some ps := by
  induction nodes with
  | nil => exact ⟨[], rfl⟩
  | cons n nodes ih =>
    rw [List.all_cons, Bool.and_eq_true] at h
    obtain ⟨p, hp⟩ := piece?_of_isTranslatable h.1
    obtain ⟨ps, hps⟩ := ih h.2
    exact ⟨p :: ps, by rw [pieces?, hp, hps]; rfl⟩

theorem check_inline (e : Expr) (line : Nat) :
    check (.inline e) line = if e.isAtomic then .ok () else .error (.untranslatable line) := rfl

theorem check_block (nodes : List Node) (line : Nat) :
    check (.block nodes) line =
      if nodes.all isTranslatable then .ok () else .error (.untranslatable line) := rfl

theorem isAtomic_of_check {e : Expr} {line : Nat} (h : check (.inline e) line = .ok ()) :
    e.isAtomic = true := by
  rw [check_inline] at h
  split at h
  · assumption
  · cases h

theorem isTranslatable_of_check {nodes : List Node} {line : Nat}
    (h : check (.block nodes) line = .ok ()) : nodes.all isTranslatable = true := by
  rw [check_block] at h
  split at h
  · assumption
  · cases h

/-- A body that passes the check has a message. -/
theorem exists_ofBody_of_check {body : Body Node} {line : Nat} (h : check body line = .ok ()) :
    ∃ x, ofBody body line = .ok x := by
  cases body with
  | inline e => exact ⟨_, if_pos (isAtomic_of_check h)⟩
  | block nodes =>
    obtain ⟨ps, hps⟩ := pieces?_of_isTranslatable (isTranslatable_of_check h)
    exact ⟨ofPieces ps, by rw [ofBody, ofNodes, hps]⟩

end Message

namespace Phrase

/-- What the reader grants of a phrase. -/
structure IsFormed (p : Phrase Node) : Prop where
  counted : p.count?.isSome ↔ p.plural?.isSome
  inline : ∀ e, p.body = .inline e →
    e.isAtomic = true ∧ p.count? = none ∧ p.plural? = none ∧ p.notes = none
  notes : ∀ nodes, p.notes = some nodes → ∃ s, nodes = [.text s]
  check : Message.check p.body p.line = .ok ()

variable {p : Phrase Node} (targets : Targets)

theorem IsFormed.call_of_no_plural (hp : p.IsFormed) (hplural : p.plural? = none) :
    ∃ e, p.call targets = .ok e := by
  obtain ⟨x, hx⟩ := Message.exists_ofBody_of_check hp.check
  unfold call
  rw [hx]
  split
  · next count plural hcounted => simp [plural?, hcounted] at hplural
  · exact ⟨_, rfl⟩

/-- Only the plural body can leave a phrase without a call. -/
theorem IsFormed.call_eq_error_iff (hp : p.IsFormed) {plural : List Node}
    (hplural : p.plural? = some plural) (e : Error) :
    p.call targets = .error e ↔ Message.ofNodes plural p.line = .error e := by
  obtain ⟨x, hx⟩ := Message.exists_ofBody_of_check hp.check
  obtain ⟨⟨count, plural'⟩, hcounted, hsome⟩ := Option.bind_eq_some_iff.1 hplural
  cases hsome
  unfold call
  rw [hx, hcounted]
  change Message.ofNodes plural p.line >>= _ = _ ↔ _
  constructor
  · intro h
    rcases error_of_bind_eq_error h with hy | ⟨y, _, h⟩
    · exact hy
    · cases h
  · intro hy
    rw [hy]
    rfl

theorem call_ne_pluralWithoutCount (line : Nat) :
    p.call targets ≠ .error (.pluralWithoutCount line) := by
  intro h
  cases error_of_call h

end Phrase

namespace Node

/-- A phrase is as the reader makes it; other nodes may be anything. -/
def IsFormed (n : Node) : Prop := ∀ p, n = phrase p → p.IsFormed

def AllFormed (ns : List Node) : Prop := ∀ n ∈ ns, n.Every IsFormed

theorem allFormed_nil : AllFormed [] := fun _ h => absurd h List.not_mem_nil

theorem AllFormed.cons {n : Node} {ns : List Node} (hn : n.Every IsFormed) (hns : AllFormed ns) :
    AllFormed (n :: ns) :=
  List.forall_mem_cons.2 ⟨hn, hns⟩

/-- Further cases and a fallback. -/
def CasesFormed (r : List (Expr × List Node) × Option (List Node)) : Prop :=
  (∀ c ∈ r.1, AllFormed c.2) ∧ ∀ body ∈ r.2, AllFormed body

/-- A count comes with a plural body. -/
def CountedFormed (c? : Option (Counted Node)) : Prop :=
  ∀ c ∈ c?, ∃ plural, c.plural = some plural ∧ AllFormed plural

/-- Whatever phrase is made of the parts, it is as the reader makes it. -/
def PartsFormed (p : Parts) : Prop :=
  ∀ domain line n, ofParts p domain line = .ok n → n.Every IsFormed

theorem isFormed_text (s : String) : (text s).Every IsFormed := .text fun _ h => nomatch h

theorem isFormed_loop (target : String) (items : Expr) (body : List Node) :
    IsFormed (loop target items body) := fun _ h => nomatch h

theorem isFormed_branch (cases : List (Expr × List Node)) (otherwise : Option (List Node)) :
    IsFormed (branch cases otherwise) := fun _ h => nomatch h

theorem isFormed_print (e : Expr) : (print e).Every IsFormed := .print fun _ h => nomatch h

theorem partsFormed_inline (e : Expr) : PartsFormed ⟨.inline e, none, none⟩ := by
  intro domain line n h
  obtain ⟨hcheck, rfl⟩ := exists_of_ofParts h
  refine .phrase (fun p hp => ?_) fun _ h => absurd h List.not_mem_nil
  cases hp
  refine ⟨Iff.rfl, fun e' he => ?_, fun _ h => (nomatch h), hcheck⟩
  cases he
  exact ⟨Message.isAtomic_of_check hcheck, rfl, rfl, rfl⟩

theorem partsFormed_block {body : List Node} {counted : Option (Counted Node)}
    {notes : Option (List Node)} (hbody : AllFormed body) (hcounted : CountedFormed counted)
    (hnotes : ∀ nodes, notes = some nodes → ∃ s, nodes = [text s]) :
    PartsFormed ⟨.block body, counted, notes⟩ := by
  intro domain line n h
  obtain ⟨hcheck, rfl⟩ := exists_of_ofParts h
  refine .phrase (fun p hp => ?_) (List.forall_mem_cons.2 ⟨hbody, fun nodes hnodes => ?_⟩)
  · cases hp
    refine ⟨?_, fun _ h => (nomatch h), hnotes, hcheck⟩
    cases counted with
    | none => exact Iff.rfl
    | some c =>
      obtain ⟨plural, hplural, _⟩ := hcounted c rfl
      simp [Phrase.count?, Phrase.plural?, hplural]
  · obtain ⟨c, hc, hplural⟩ := Option.bind_eq_some_iff.1 (Option.mem_toList.1 hnodes)
    obtain ⟨plural, hsome, hformed⟩ := hcounted c hc
    cases hsome.symm.trans hplural
    exact hformed

end Node

namespace Reading

variable {α : Type} {s : Cursor}

theorem ensures_true (r : Reading s α) : r.Ensures fun _ _ => True := fun _ _ => trivial

end Reading

namespace Node

theorem ensures_notes_text (s : Cursor) :
    (notes s).Ensures fun notes _ => ∀ nodes, notes = some nodes → ∃ s, nodes = [text s] := by
  refine Cursor.ensures_choose (fun _ _ t _ _ _ => ?_) fun _ => ?_
  · refine Reading.ensures_andThen (Reading.ensures_true _) fun _ u _ _ => ?_
    refine Reading.ensures_map (Reading.ensures_map ((Reading.ensures_true _).mono ?_))
    rintro content v _ nodes ⟨⟩
    exact ⟨content, rfl⟩
  · exact Reading.ensures_done fun _ h => nomatch h

/-- The phrases that are read are as the reader makes them, where only phrases have a tag with a
rule. -/
def forming : Contract where
  nodes _ _ x := x.Ensures fun ns _ => AllFormed ns
  tag _ _ _ x := x.Ensures fun n _ => n.Every IsFormed
  loopTag _ x := x.Ensures fun n _ => n.Every IsFormed
  branchTag _ x := x.Ensures fun n _ => n.Every IsFormed
  guarded _ x := x.Ensures fun c _ => AllFormed c.2
  furtherCases _ x := x.Ensures fun r _ => CasesFormed r
  ruledTag rule _ _ _ x := rule = .phrase → x.Ensures fun n _ => n.Every IsFormed
  parts _ x := x.Ensures fun p _ => PartsFormed p
  counted _ x := x.Ensures fun c _ => CountedFormed c

section

variable {env : Environment} {r : Readers}

theorem formed_nodes (h : r.Keep forming) (stop : Stop) (s : Cursor) :
    ((r.calling env).nodes stop s).Ensures fun ns _ => AllFormed ns := by
  have hnodes : ∀ stop s, (r.nodes stop s).Ensures fun ns _ => AllFormed ns := h.nodes
  have htag : ∀ name line s, (r.tag name line s).Ensures fun n _ => n.Every IsFormed := h.tag
  rw [Readers.calling_nodes]
  refine Reading.ensures_andThen (Reading.ensures_true _) fun token? t _ _ => ?_
  split
  · split
    · exact Reading.ensures_done allFormed_nil
    · exact Reading.ensures_refuse
  · refine Cursor.ensures_take fun token u _ _ => ?_
    refine Reading.ensures_map ((hnodes stop u).mono fun ns _ hns => ?_)
    exact hns.cons (isFormed_text _)
  · refine Cursor.ensures_take fun token u _ _ => ?_
    refine Reading.ensures_andThen (Reading.ensures_true _) fun e v _ _ => ?_
    refine Reading.ensures_andThen (Reading.ensures_true _) fun _ w _ _ => ?_
    refine Reading.ensures_map ((hnodes stop w).mono fun ns _ hns => ?_)
    exact hns.cons (isFormed_print _)
  · refine Cursor.ensures_take fun token u _ _ => ?_
    refine Reading.ensures_andThen (Reading.ensures_true _) fun name v _ _ => ?_
    split
    · exact Reading.ensures_done allFormed_nil
    · refine Cursor.ensures_take fun _ w _ _ => ?_
      refine Reading.ensures_andThen (htag _ _ w) fun n x _ hn => ?_
      refine Reading.ensures_map ((hnodes stop x).mono fun ns _ hns => ?_)
      exact hns.cons hn
  · exact Reading.ensures_refuse

theorem formed_tag (hrules : ∀ name rule, env.tagRule? name = some rule → rule = .phrase)
    (h : r.Keep forming) (name : String) (line : Nat) (s : Cursor) :
    ((r.calling env).tag name line s).Ensures fun n _ => n.Every IsFormed := by
  dsimp only [Readers.calling]
  split
  · exact h.loopTag s
  split
  · exact h.branchTag s
  split
  · next rule hrule => exact h.ruledTag rule name line s (hrules name rule hrule)
  · exact Reading.ensures_refuse

theorem formed_loopTag (h : r.Keep forming) (s : Cursor) :
    ((r.calling env).loopTag s).Ensures fun n _ => n.Every IsFormed := by
  have hnodes : ∀ stop s, (r.nodes stop s).Ensures fun ns _ => AllFormed ns := h.nodes
  dsimp only [Readers.calling]
  refine Reading.ensures_andThen (Reading.ensures_true _) fun target t _ _ => ?_
  refine Reading.ensures_andThen (Reading.ensures_true _) fun _ u _ _ => ?_
  refine Reading.ensures_andThen (Reading.ensures_true _) fun e v _ _ => ?_
  refine Reading.ensures_andThen (Reading.ensures_true _) fun _ w _ _ => ?_
  refine Reading.ensures_andThen (hnodes _ w) fun body x _ hbody => ?_
  refine Reading.ensures_map ((Reading.ensures_true _).mono fun _ _ _ => ?_)
  exact .loop (isFormed_loop _ _ _) hbody

theorem formed_branchTag (h : r.Keep forming) (s : Cursor) :
    ((r.calling env).branchTag s).Ensures fun n _ => n.Every IsFormed := by
  have hguarded : ∀ s, (r.guarded s).Ensures fun c _ => AllFormed c.2 := h.guarded
  have hcases : ∀ s, (r.furtherCases s).Ensures fun x _ => CasesFormed x := h.furtherCases
  dsimp only [Readers.calling]
  refine Reading.ensures_andThen (hguarded s) fun first t _ hfirst => ?_
  refine Reading.ensures_map ((hcases t).mono fun x _ hx => ?_)
  exact .branch (isFormed_branch _ _) (List.forall_mem_cons.2 ⟨hfirst, hx.1⟩) hx.2

theorem formed_guarded (h : r.Keep forming) (s : Cursor) :
    ((r.calling env).guarded s).Ensures fun c _ => AllFormed c.2 := by
  have hnodes : ∀ stop s, (r.nodes stop s).Ensures fun ns _ => AllFormed ns := h.nodes
  dsimp only [Readers.calling]
  refine Reading.ensures_andThen (Reading.ensures_true _) fun e t _ _ => ?_
  refine Reading.ensures_andThen (Reading.ensures_true _) fun _ u _ _ => ?_
  exact Reading.ensures_map (hnodes _ u)

theorem formed_furtherCases (h : r.Keep forming) (s : Cursor) :
    ((r.calling env).furtherCases s).Ensures fun r _ => CasesFormed r := by
  have hguarded : ∀ s, (r.guarded s).Ensures fun c _ => AllFormed c.2 := h.guarded
  have hcases : ∀ s, (r.furtherCases s).Ensures fun x _ => CasesFormed x := h.furtherCases
  have hnodes : ∀ stop s, (r.nodes stop s).Ensures fun ns _ => AllFormed ns := h.nodes
  rw [Readers.calling_furtherCases]
  refine Cursor.ensures_takeName fun name _ t _ _ => ?_
  split
  · refine Reading.ensures_andThen (hguarded t) fun c u _ hc => ?_
    refine Reading.ensures_map ((hcases u).mono fun x _ hx => ?_)
    exact ⟨List.forall_mem_cons.2 ⟨hc, hx.1⟩, hx.2⟩
  split
  · refine Reading.ensures_andThen (Reading.ensures_true _) fun _ u _ _ => ?_
    refine Reading.ensures_andThen (hnodes _ u) fun body v _ hbody => ?_
    refine Reading.ensures_map ((Reading.ensures_true _).mono fun _ _ _ => ?_)
    refine ⟨fun _ h => absurd h List.not_mem_nil, ?_⟩
    rintro _ ⟨⟩
    exact hbody
  split
  · refine Reading.ensures_map ((Reading.ensures_true _).mono fun _ _ _ => ?_)
    exact ⟨fun _ hc => absurd hc List.not_mem_nil, fun _ hb => (Option.not_mem_none _ hb).elim⟩
  · exact Reading.ensures_refuse

theorem formed_phraseTag (h : r.Keep forming) (name : String) (line : Nat) (s : Cursor) :
    ((r.calling env).ruledTag .phrase name line s).Ensures fun n _ => n.Every IsFormed := by
  have hparts : ∀ s, (r.parts s).Ensures fun p _ => PartsFormed p := h.parts
  dsimp only [Readers.calling]
  refine Reading.ensures_andThen (Reading.ensures_true _) fun _ t _ _ => ?_
  refine Reading.ensures_andThen (Reading.ensures_true _) fun domain u _ _ => ?_
  refine Reading.ensures_andThen (hparts u) fun p v _ hp => ?_
  refine Reading.ensures_andThen (Reading.ensures_true _) fun _ w _ _ => ?_
  split
  · next n hn => exact Reading.ensures_done (hp domain line n hn)
  · exact Reading.ensures_fail

theorem formed_parts (h : r.Keep forming) (s : Cursor) :
    ((r.calling env).parts s).Ensures fun p _ => PartsFormed p := by
  have hnodes : ∀ stop s, (r.nodes stop s).Ensures fun ns _ => AllFormed ns := h.nodes
  have hcounted : ∀ s, (r.counted s).Ensures fun c _ => CountedFormed c := h.counted
  dsimp only [Readers.calling]
  refine Reading.ensures_andThen (Reading.ensures_true _) fun isBlock t _ _ => ?_
  split
  · refine Reading.ensures_andThen (Reading.ensures_true _) fun _ u _ _ => ?_
    refine Reading.ensures_andThen (hnodes _ u) fun body v _ hbody => ?_
    refine Reading.ensures_andThen (hcounted v) fun c w _ hc => ?_
    refine Reading.ensures_andThen (ensures_notes_text w) fun notes x _ hnotes => ?_
    refine Reading.ensures_map ((Reading.ensures_true _).mono fun _ _ _ => ?_)
    exact partsFormed_block hbody hc hnotes
  · exact Reading.ensures_map ((Reading.ensures_true _).mono fun e _ _ => partsFormed_inline e)

theorem formed_counted (h : r.Keep forming) (s : Cursor) :
    ((r.calling env).counted s).Ensures fun c _ => CountedFormed c := by
  have hnodes : ∀ stop s, (r.nodes stop s).Ensures fun ns _ => AllFormed ns := h.nodes
  dsimp only [Readers.calling]
  refine Cursor.ensures_choose (fun _ _ t _ _ _ => ?_) fun _ => ?_
  · refine Reading.ensures_andThen (Reading.ensures_true _) fun count u _ _ => ?_
    refine Reading.ensures_andThen (Reading.ensures_true _) fun _ v _ _ => ?_
    refine Reading.ensures_map ((hnodes _ v).mono fun body _ hbody => ?_)
    rintro _ ⟨⟩
    exact ⟨body, rfl, hbody⟩
  · exact Reading.ensures_done fun _ hc => (Option.not_mem_none _ hc).elim

theorem refusing_keep_forming : Readers.refusing.Keep forming where
  nodes _ _ _ h := nomatch h
  tag _ _ _ _ h := nomatch h
  loopTag _ _ h := nomatch h
  branchTag _ _ h := nomatch h
  guarded _ _ h := nomatch h
  furtherCases _ _ h := nomatch h
  ruledTag _ _ _ _ _ _ h := nomatch h
  parts _ _ h := nomatch h
  counted _ _ h := nomatch h

theorem calling_keep_forming
    (hrules : ∀ name rule, env.tagRule? name = some rule → rule = .phrase)
    (h : r.Keep forming) : (r.calling env).Keep forming where
  nodes := formed_nodes h
  tag := formed_tag hrules h
  loopTag := formed_loopTag h
  branchTag := formed_branchTag h
  guarded := formed_guarded h
  furtherCases := formed_furtherCases h
  ruledTag rule name line s hrule := by
    subst hrule
    exact formed_phraseTag h name line s
  parts := formed_parts h
  counted := formed_counted h

end

theorem readers_keep_forming {env : Environment}
    (hrules : ∀ name rule, env.tagRule? name = some rule → rule = .phrase) :
    (readers env).Keep forming :=
  keep_readers refusing_keep_forming fun _ h => calling_keep_forming hrules h

end Node

namespace Environment

/-- Every phrase in a template that was read is as the reader makes it. It has a call if it has no
plural body; with one it has no call only if the plural body by itself has no message. -/
theorem isFormed_of_parse {options : Options} {source : String} {ns : List Node}
    (h : (standard options).parse source = .ok ns) :
    ∀ n ∈ ns, n.Every fun n => ∀ p, n = .phrase p →
      p.IsFormed ∧ ∀ targets : Targets,
        (∀ line, p.call targets ≠ .error (.pluralWithoutCount line)) ∧
        (p.plural? = none → ∃ e, p.call targets = .ok e) ∧
        ∀ plural, p.plural? = some plural → ∀ e,
          (p.call targets = .error e ↔ Message.ofNodes plural p.line = .error e) ∧
          (p.call targets = .error e → e = .untranslatable p.line) := by
  have hkeep := Node.readers_keep_forming fun _ _ hrule => phrase_of_tagRule? options hrule
  have hformed := hkeep.nodes .atEnd (.ofTemplate source options.trimBlocks) ns h
  intro n hn
  refine (hformed n hn).mono fun n hformed p hnode => ?_
  have hp := hformed p hnode
  refine ⟨hp, fun targets => ⟨?_, ?_, ?_⟩⟩
  · exact fun line => Phrase.call_ne_pluralWithoutCount targets line
  · exact fun hplural => hp.call_of_no_plural targets hplural
  · intro plural hplural e
    exact ⟨hp.call_eq_error_iff targets hplural e, Phrase.error_of_call⟩

/-- A phrase in the plural body of another one has a call, which leaves the other without one. -/
theorem isFormed_of_parse_nested :
    ∃ p q, (standard {}).parse
        "{% trans from d %}a{% plural n %}{% trans from d x %}{% endtrans %}" = .ok [.phrase p] ∧
      p.plural? = some [.phrase q] ∧ q.IsFormed ∧
      (∃ e, q.call (.ofOptions {}) = .ok e) ∧
      p.call (.ofOptions {}) = .error (.untranslatable p.line) := by
  have hparse : (standard {}).parse
      "{% trans from d %}a{% plural n %}{% trans from d x %}{% endtrans %}" =
      .ok [.phrase ⟨.block [.text "a"], .name "d", some ⟨.name "n", some
        [.phrase ⟨.inline (.name "x"), .name "d", none, none, 1⟩]⟩, none, 1⟩] := by
    decide +kernel
  have hevery := isFormed_of_parse hparse _ List.mem_cons_self
  obtain ⟨hself, hbodies⟩ := Node.every_phrase.1 hevery
  obtain ⟨_, houter⟩ := hself _ rfl
  have hinner := (hbodies [.phrase ⟨.inline (.name "x"), .name "d", none, none, 1⟩]
    (List.mem_cons_of_mem _ List.mem_cons_self) _ List.mem_cons_self).self
  obtain ⟨hformed, hcall⟩ := hinner _ rfl
  refine ⟨_, _, hparse, rfl, hformed, (hcall _).2.1 rfl, ?_⟩
  exact ((houter _).2.2 _ rfl _).1.2 rfl

end Environment

end Polyglot
