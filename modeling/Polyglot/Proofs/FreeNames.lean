import Polyglot.Proofs.PhraseCalls

/-!
The free names of a template. In the body of a loop, its target and `loop` are bound; every other
name is looked up in the scopes around it. The expressions of a node have no names besides its free
ones, and the call of a phrase has none besides those of the phrase.
-/
namespace Polyglot

namespace Expr

mutual

/-- The names in an expression, in the order in which they stand there. -/
def names : Expr → List String
  | literal _ => []
  | name n => [n]
  | member e _ => names e
  | index e i => names e ++ names i
  | binary l _ r => names l ++ names r
  | unary _ e => names e
  | filter e _ args => names e ++ itemNames args
  | checked e => names e
  | call _ args => itemNames args
  | list items => itemNames items
  | map entries => entryNames entries

def itemNames : List Expr → List String
  | [] => []
  | e :: rest => names e ++ itemNames rest

def entryNames : List (Expr × Expr) → List String
  | [] => []
  | (key, e) :: rest => names key ++ names e ++ entryNames rest

end

/-- A name among some names, or no name. -/
def IsAmong (ns : List String) (e : Expr) : Prop := ∀ n, e = name n → n ∈ ns

variable {ns : List String}

theorem everyItem_isAmong {es : List Expr}
    (h : ∀ e ∈ es, (∀ n ∈ names e, n ∈ ns) → e.Every (IsAmong ns))
    (hes : ∀ n ∈ itemNames es, n ∈ ns) : EveryItem (IsAmong ns) es := by
  induction es with
  | nil => trivial
  | cons e es ih =>
    obtain ⟨he, hrest⟩ := List.forall_mem_cons.1 h
    rw [itemNames, List.forall_mem_append] at hes
    exact ⟨he hes.1, ih hrest hes.2⟩

theorem everyEntry_isAmong {es : List (Expr × Expr)}
    (h : ∀ x ∈ es, ((∀ n ∈ names x.1, n ∈ ns) → x.1.Every (IsAmong ns)) ∧
      ((∀ n ∈ names x.2, n ∈ ns) → x.2.Every (IsAmong ns)))
    (hes : ∀ n ∈ entryNames es, n ∈ ns) : EveryEntry (IsAmong ns) es := by
  induction es with
  | nil => trivial
  | cons x es ih =>
    obtain ⟨⟨hkey, he⟩, hrest⟩ := List.forall_mem_cons.1 h
    rw [entryNames, List.forall_mem_append, List.forall_mem_append] at hes
    exact ⟨hkey hes.1.1, he hes.1.2, ih hrest hes.2⟩

/-- The names inside an expression are those that are listed for it. -/
theorem every_isAmong {e : Expr} (h : ∀ n ∈ names e, n ∈ ns) : e.Every (IsAmong ns) := by
  induction e using induction with
  | literal a => exact fun _ h => (nomatch h)
  | name n =>
    rintro _ ⟨⟩
    exact h n List.mem_cons_self
  | member e key ih => exact ⟨fun _ h => (nomatch h), ih h⟩
  | index e i ihe ihi =>
    rw [names, List.forall_mem_append] at h
    exact ⟨fun _ h => (nomatch h), ihe h.1, ihi h.2⟩
  | binary l op r ihl ihr =>
    rw [names, List.forall_mem_append] at h
    exact ⟨fun _ h => (nomatch h), ihl h.1, ihr h.2⟩
  | unary op e ih => exact ⟨fun _ h => (nomatch h), ih h⟩
  | filter e n args ihe ih =>
    rw [names, List.forall_mem_append] at h
    exact ⟨fun _ h => (nomatch h), ihe h.1, everyItem_isAmong ih h.2⟩
  | checked e ih => exact ⟨fun _ h => (nomatch h), ih h⟩
  | call n args ih => exact ⟨fun _ h => (nomatch h), everyItem_isAmong ih h⟩
  | list items ih => exact ⟨fun _ h => (nomatch h), everyItem_isAmong ih h⟩
  | map entries ih => exact ⟨fun _ h => (nomatch h), everyEntry_isAmong ih h⟩

end Expr

namespace Node

mutual

/-- The free names of a node: those in its expressions and in the nodes inside it, except that the
body of a loop binds the target and `loop`. -/
def freeNames : Node → List String
  | text _ => []
  | print e => e.names
  | loop target items body =>
    items.names ++ (freeNamesOf body).filter fun n => n != target && n != "loop"
  | branch cases otherwise => caseNames cases ++ fallbackNames otherwise
  | phrase p => phraseNames p

def freeNamesOf : List Node → List String
  | [] => []
  | n :: rest => freeNames n ++ freeNamesOf rest

def caseNames : List (Expr × List Node) → List String
  | [] => []
  | (condition, body) :: rest => condition.names ++ freeNamesOf body ++ caseNames rest

def fallbackNames : Option (List Node) → List String
  | none => []
  | some body => freeNamesOf body

def phraseNames : Phrase Node → List String
  | ⟨body, domain, counted, _, _⟩ => bodyNames body ++ domain.names ++ countedNames counted

def bodyNames : Body Node → List String
  | .inline e => e.names
  | .block nodes => freeNamesOf nodes

def countedNames : Option (Counted Node) → List String
  | none => []
  | some ⟨count, plural⟩ => count.names ++ fallbackNames plural

end

variable {ns : List String}

theorem freeNames_subset {nodes : List Node} (h : ∀ n ∈ freeNamesOf nodes, n ∈ ns) :
    ∀ node ∈ nodes, ∀ n ∈ freeNames node, n ∈ ns := by
  induction nodes with
  | nil => exact fun _ hnode => absurd hnode List.not_mem_nil
  | cons node nodes ih =>
    rw [freeNamesOf, List.forall_mem_append] at h
    exact List.forall_mem_cons.2 ⟨h.1, ih h.2⟩

theorem every_of_caseNames {cases : List (Expr × List Node)} (h : ∀ n ∈ caseNames cases, n ∈ ns) :
    ∀ c ∈ cases, c.1.Every (Expr.IsAmong ns) ∧ ∀ n ∈ freeNamesOf c.2, n ∈ ns := by
  induction cases with
  | nil => exact fun _ hc => absurd hc List.not_mem_nil
  | cons c cases ih =>
    rw [caseNames, List.forall_mem_append, List.forall_mem_append] at h
    exact List.forall_mem_cons.2 ⟨⟨Expr.every_isAmong h.1.1, h.1.2⟩, ih h.2⟩

theorem exprs_isAmong_of_phraseNames {p : Phrase Node} (h : ∀ n ∈ phraseNames p, n ∈ ns) :
    ∀ e ∈ p.exprs, e.Every (Expr.IsAmong ns) := by
  obtain ⟨body, domain, counted, notes, line⟩ := p
  rw [phraseNames, List.forall_mem_append, List.forall_mem_append] at h
  obtain ⟨⟨hbody, hdomain⟩, hcounted⟩ := h
  have hcount : ∀ e ∈ (counted.map (·.count)).toList, e.Every (Expr.IsAmong ns) := by
    intro e he
    obtain ⟨⟨count, plural⟩, rfl, rfl⟩ := Option.map_eq_some_iff.1 (Option.mem_toList.1 he)
    rw [countedNames, List.forall_mem_append] at hcounted
    exact Expr.every_isAmong hcounted.1
  have hrest : ∀ e ∈ domain :: (counted.map (·.count)).toList, e.Every (Expr.IsAmong ns) :=
    List.forall_mem_cons.2 ⟨Expr.every_isAmong hdomain, hcount⟩
  cases body with
  | inline e => exact List.forall_mem_cons.2 ⟨Expr.every_isAmong hbody, hrest⟩
  | block nodes => exact hrest

theorem freeNames_subset_of_phraseNames {p : Phrase Node} (h : ∀ n ∈ phraseNames p, n ∈ ns) :
    ∀ body ∈ p.bodies, ∀ n ∈ freeNamesOf body, n ∈ ns := by
  obtain ⟨body, domain, counted, notes, line⟩ := p
  rw [phraseNames, List.forall_mem_append, List.forall_mem_append] at h
  obtain ⟨⟨hbody, _⟩, hcounted⟩ := h
  have hplural : ∀ nodes ∈ (counted.bind (·.plural)).toList, ∀ n ∈ freeNamesOf nodes, n ∈ ns := by
    intro nodes hnodes
    obtain ⟨⟨count, plural⟩, rfl, hsome⟩ :=
      Option.bind_eq_some_iff.1 (Option.mem_toList.1 hnodes)
    cases hsome
    rw [countedNames, List.forall_mem_append] at hcounted
    exact hcounted.2
  cases body with
  | inline e => exact hplural
  | block nodes => exact List.forall_mem_cons.2 ⟨hbody, hplural⟩

/-- The expressions of a node itself have no names but its free ones. -/
theorem exprs_isAmong {node : Node} (h : ∀ n ∈ freeNames node, n ∈ ns) :
    ∀ e ∈ node.exprs, e.Every (Expr.IsAmong ns) := by
  cases node with
  | text s => exact fun _ he => absurd he List.not_mem_nil
  | print e => exact List.forall_mem_singleton.2 (Expr.every_isAmong h)
  | loop target items body =>
    rw [freeNames, List.forall_mem_append] at h
    exact List.forall_mem_singleton.2 (Expr.every_isAmong h.1)
  | branch cases otherwise =>
    rw [freeNames, List.forall_mem_append] at h
    exact List.forall_mem_map.2 fun c hc => (every_of_caseNames h.1 c hc).1
  | phrase p => exact exprs_isAmong_of_phraseNames h

end Node

namespace Message

/-- The nodes of a message are texts and prints, with no nodes inside. -/
theorem every_of_ofNodes {nodes : List Node} {line : Nat} {x : Extracted}
    (h : ofNodes nodes line = .ok x) {q : Node → Prop} (hnodes : ∀ n ∈ nodes, q n) :
    ∀ n ∈ nodes, n.Every q := by
  obtain ⟨ps, hps, hx⟩ := eq_ofPieces h
  clear h hx
  induction nodes generalizing ps with
  | nil => exact fun _ hn => absurd hn List.not_mem_nil
  | cons n nodes ih =>
    obtain ⟨hn, hrest⟩ := List.forall_mem_cons.1 hnodes
    rw [pieces?] at hps
    obtain ⟨p, hp, hps⟩ := Option.bind_eq_some_iff.1 hps
    obtain ⟨qs, hqs, _⟩ := Option.bind_eq_some_iff.1 hps
    refine List.forall_mem_cons.2 ⟨?_, ih hrest qs hqs⟩
    cases n with
    | text s => exact .text hn
    | print e => exact .print hn
    | loop target items body => cases hp
    | branch cases otherwise => cases hp
    | phrase r => cases hp

end Message

namespace Phrase

/-- A phrase with a call has messages for bodies. -/
theorem exists_ofNodes_of_call {p : Phrase Node} {targets : Targets} {e : Expr}
    (h : p.call targets = .ok e) :
    ∀ body ∈ p.bodies, ∃ x, Message.ofNodes body p.line = .ok x := by
  obtain ⟨x, hx, hcall⟩ := call_cases h
  have hplural : ∀ nodes ∈ p.plural?.toList, ∃ y, Message.ofNodes nodes p.line = .ok y := by
    intro nodes hnodes
    have hsome := Option.mem_toList.1 hnodes
    rcases hcall with ⟨count, plural, y, hcounted, hy, _⟩ | ⟨hnone, _⟩
    · have hplural : p.plural? = some plural := by simp [plural?, hcounted]
      rw [hplural] at hsome
      cases hsome
      exact ⟨y, hy⟩
    · rw [hnone] at hsome
      cases hsome
  obtain ⟨body, domain, counted, notes, line⟩ := p
  cases body with
  | inline e => exact hplural
  | block nodes => exact List.forall_mem_cons.2 ⟨⟨x, hx⟩, hplural⟩

theorem frames_isAmong (options : Options) (ns : List String) :
    Frames options (Expr.IsAmong ns) :=
  ⟨⟨fun _ _ h => (nomatch h), fun _ _ h => (nomatch h), fun _ _ _ _ h => (nomatch h)⟩,
    fun _ _ h => (nomatch h), fun _ _ _ _ h => (nomatch h)⟩

/-- The call of a phrase has no names but the free names of the phrase, although it takes those of
its placeholders from the messages. -/
theorem isAmong_of_call {options : Options} {ns : List String} {p : Phrase Node} {e : Expr}
    (h : p.call (.ofOptions options) = .ok e)
    (hnames : ∀ n ∈ Node.freeNames (.phrase p), n ∈ ns) : e.Every (Expr.IsAmong ns) := by
  refine every_call (frames_isAmong options ns) h (.phrase (Node.exprs_isAmong hnames) ?_)
  intro body hbody
  obtain ⟨x, hx⟩ := exists_ofNodes_of_call h body hbody
  have hfree := Node.freeNames_subset (Node.freeNames_subset_of_phraseNames hnames body hbody)
  exact Message.every_of_ofNodes hx fun n hn => Node.exprs_isAmong (hfree n hn)

end Phrase

end Polyglot
