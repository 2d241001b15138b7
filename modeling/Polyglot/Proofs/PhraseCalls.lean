import Polyglot.Proofs.NodeTrees

/-!
What the call of a phrase is made of. The variables of a message are names that the nodes of its
body print, so a property of the expressions in a phrase holds of its call as well, provided that
the expressions which the call puts around them have it.
-/
namespace Polyglot

/-- Both parts of a success are successes. -/
theorem exists_of_bind_eq_ok {ε α β : Type} {x : Except ε α} {f : α → Except ε β} {b : β}
    (h : x >>= f = .ok b) : ∃ a, x = .ok a ∧ f a = .ok b := by
  cases x with
  | error e => cases h
  | ok a => exact ⟨a, rfl, h⟩

namespace Variable

theorem mem_add {known : List Variable} {v w : Variable} (h : w ∈ add known v) :
    w ∈ known ∨ w = v := by
  unfold add at h
  split at h
  · exact .inl h
  · simpa using h

theorem mem_union {known new : List Variable} {w : Variable} (h : w ∈ union known new) :
    w ∈ known ∨ w ∈ new := by
  induction new generalizing known with
  | nil => exact .inl h
  | cons v new ih =>
    rcases ih h with hadd | hnew
    · rcases mem_add hadd with hknown | rfl
      · exact .inl hknown
      · exact .inr List.mem_cons_self
    · exact .inr (List.mem_cons_of_mem _ hnew)

end Variable

namespace Message

/-- The name under some filters and checks is an expression inside. -/
theorem every_name_of_nameUnder {p : Expr → Prop} {layers : Nat} {e : Expr} {n : String}
    (h : nameUnder layers e = some n) (he : e.Every p) : p (.name n) := by
  fun_induction nameUnder layers e with
  | case1 layers m =>
    cases h
    exact he
  | case2 layers e m args ih => exact ih h he.2.1
  | case3 layers e ih => exact ih h he.2
  | case4 => cases h

theorem mem_of_pieces? {nodes : List Node} {ps : List Piece} (h : pieces? nodes = some ps)
    {p : Piece} (hp : p ∈ ps) : ∃ n ∈ nodes, piece? n = some p := by
  induction nodes generalizing ps with
  | nil =>
    cases h
    exact absurd hp List.not_mem_nil
  | cons n nodes ih =>
    rw [pieces?] at h
    obtain ⟨q, hq, h⟩ := Option.bind_eq_some_iff.1 h
    obtain ⟨qs, hqs, h⟩ := Option.bind_eq_some_iff.1 h
    cases h
    rcases List.mem_cons.1 hp with rfl | hp
    · exact ⟨n, List.mem_cons_self, hq⟩
    · obtain ⟨m, hm, hpm⟩ := ih hqs hp
      exact ⟨m, List.mem_cons_of_mem _ hm, hpm⟩

theorem eq_ofPieces {nodes : List Node} {line : Nat} {x : Extracted}
    (h : ofNodes nodes line = .ok x) : ∃ ps, pieces? nodes = some ps ∧ x = ofPieces ps := by
  unfold ofNodes at h
  split at h
  · next ps hps =>
    cases h
    exact ⟨ps, hps, rfl⟩
  · cases h

/-- Every variable of a message is printed by a node, without a filter if it is raw. -/
theorem print_of_mem_vars {nodes : List Node} {line : Nat} {x : Extracted}
    (h : ofNodes nodes line = .ok x) {v : Variable} (hv : v ∈ x.vars) :
    ∃ e, .print e ∈ nodes ∧ variableName? e = some v.name ∧ v.raw = !e.isFilter := by
  obtain ⟨ps, hps, rfl⟩ := eq_ofPieces h
  rcases Variable.mem_union hv with hv | hv
  · exact absurd hv List.not_mem_nil
  · obtain ⟨p, hp, hheld⟩ := List.mem_filterMap.1 hv
    obtain ⟨n, hn, hpiece⟩ := mem_of_pieces? hps hp
    cases n with
    | print e =>
      obtain ⟨m, hm, rfl⟩ := Option.map_eq_some_iff.1 hpiece
      cases hheld
      exact ⟨e, hn, hm, rfl⟩
    | text s =>
      cases hpiece
      cases hheld
    | loop target items body => cases hpiece
    | branch cases otherwise => cases hpiece
    | phrase q => cases hpiece

end Message

namespace Phrase

/-- A property that holds of everything a call puts around the variables and the count. -/
structure Fills (options : Options) (p : Expr → Prop) : Prop where
  text : ∀ s, p (.text s)
  map : ∀ es, p (.map es)
  filling : ∀ n ∈ [options.escapeFunction, "abs"], ∀ args, p (.call n args)

/-- A property that holds of everything a call puts around the expressions of a phrase. -/
structure Frames (options : Options) (p : Expr → Prop) : Prop extends Fills options p where
  list : ∀ es, p (.list es)
  translating : ∀ n ∈ [options.translateFunction, options.translatePluralFunction], ∀ args,
    p (.call n args)

variable {options : Options} {p : Expr → Prop}

theorem every_toExpr_of_ofNodes (hp : Frames options p) {nodes : List Node} {line : Nat}
    {x : Extracted} (h : Message.ofNodes nodes line = .ok x) : x.message.toExpr.Every p := by
  obtain ⟨ps, _, rfl⟩ := Message.eq_ofPieces h
  exact hp.text _

theorem name_of_mem_vars {nodes : List Node} {line : Nat} {x : Extracted}
    (h : Message.ofNodes nodes line = .ok x)
    (hnodes : ∀ n ∈ nodes, n.Every fun n => ∀ e ∈ n.exprs, e.Every p) :
    ∀ v ∈ x.vars, p (.name v.name) := by
  intro v hv
  obtain ⟨e, he, hname, _⟩ := Message.print_of_mem_vars h hv
  exact Message.every_name_of_nameUnder hname ((hnodes _ he).self e List.mem_cons_self)

theorem every_absolute (hp : Fills options p) {count : Expr} (hcount : count.Every p) :
    (absolute count).Every p :=
  ⟨hp.filling _ (by simp) _, hcount, trivial⟩

theorem every_value (hp : Fills options p) {count : Option Expr}
    (hcount : ∀ e ∈ count, e.Every p) {v : Variable} (hv : p (.name v.name)) :
    (value count (.ofOptions options) v).Every p := by
  have hname : (if v.raw then .name v.name
      else (Targets.ofOptions options).escape (.name v.name)).Every p := by
    split
    · exact hv
    · exact ⟨hp.filling _ (by simp) _, hv, trivial⟩
  unfold value
  split
  · next count =>
    split
    · exact every_absolute hp (hcount count rfl)
    · exact hname
  · exact hname

theorem every_replacements (hp : Fills options p) {count : Option Expr}
    (hcount : ∀ e ∈ count, e.Every p) {vs : List Variable} (hvs : ∀ v ∈ vs, p (.name v.name)) :
    ∀ e ∈ replacements count (.ofOptions options) vs, e.Every p := by
  unfold replacements
  split
  · exact fun _ h => absurd h List.not_mem_nil
  · refine List.forall_mem_singleton.2 ⟨hp.map _, Expr.everyEntry_iff.2 fun x hx => ?_⟩
    obtain ⟨v, hv, rfl⟩ := List.mem_map.1 hx
    exact ⟨hp.text _, every_value hp hcount (hvs v hv)⟩

theorem message_of_ofBody (hp : Frames options p) {q : Phrase Node} {x : Extracted}
    (h : Message.ofBody q.body q.line = .ok x) (hexprs : ∀ e ∈ q.exprs, e.Every p)
    (hbodies : ∀ body ∈ q.bodies, ∀ n ∈ body, n.Every fun n => ∀ e ∈ n.exprs, e.Every p) :
    x.message.toExpr.Every p ∧ ∀ v ∈ x.vars, p (.name v.name) := by
  unfold Message.ofBody at h
  split at h
  · next e hbody =>
    split at h
    · cases h
      refine ⟨hexprs e ?_, fun _ hv => absurd hv List.not_mem_nil⟩
      simp [exprs, hbody]
    · cases h
  · next nodes hbody =>
    have hnodes := hbodies nodes (by simp [bodies, hbody])
    exact ⟨every_toExpr_of_ofNodes hp h, name_of_mem_vars h hnodes⟩

/-- A phrase with a plural body calls the one function, any other phrase the other. -/
theorem call_cases {q : Phrase Node} {targets : Targets} {e : Expr} (h : q.call targets = .ok e) :
    ∃ x, Message.ofBody q.body q.line = .ok x ∧
      ((∃ count plural y, q.counted = some ⟨count, some plural⟩ ∧
          Message.ofNodes plural q.line = .ok y ∧
          e = .call targets.translatePlural
            ([.list [x.message.toExpr, y.message.toExpr], q.domain, absolute count] ++
              replacements (some count) targets (Variable.union x.vars y.vars))) ∨
        q.plural? = none ∧ e = .call targets.translate
          ([x.message.toExpr, q.domain] ++ replacements q.count? targets x.vars)) := by
  unfold call at h
  obtain ⟨x, hx, h⟩ := exists_of_bind_eq_ok h
  refine ⟨x, hx, ?_⟩
  split at h
  · next count plural hcounted =>
    obtain ⟨y, hy, h⟩ := exists_of_bind_eq_ok h
    have hcount : q.count? = some count := by simp [count?, hcounted]
    rw [hcount] at h
    exact .inl ⟨count, plural, y, hcounted, hy, (Except.ok.inj h).symm⟩
  · next hcounted =>
    refine .inr ⟨?_, (Except.ok.inj h).symm⟩
    cases hq : q.counted with
    | none => simp [plural?, hq]
    | some c =>
      obtain ⟨count, plural⟩ := c
      cases plural with
      | none => simp [plural?, hq]
      | some plural => exact absurd hq (hcounted count plural)

/-- The call of a phrase has a property that its expressions and those of its bodies have. -/
theorem every_call (hp : Frames options p) {q : Phrase Node} {e : Expr}
    (h : q.call (.ofOptions options) = .ok e)
    (hq : (Node.phrase q).Every fun n => ∀ e ∈ n.exprs, e.Every p) : e.Every p := by
  obtain ⟨hexprs, hbodies⟩ := Node.every_phrase.1 hq
  change ∀ e ∈ q.exprs, e.Every p at hexprs
  have hdomain : q.domain.Every p := hexprs _ q.domain_mem_exprs
  have hcount : ∀ e ∈ q.count?, e.Every p := fun e he => hexprs e (q.count_mem_exprs he)
  obtain ⟨x, hx, hcall⟩ := call_cases h
  obtain ⟨hmessage, hvars⟩ := message_of_ofBody hp hx hexprs hbodies
  rcases hcall with ⟨count, plural, y, hcounted, hy, rfl⟩ | ⟨_, rfl⟩
  · have hplural := hbodies plural (q.plural_mem_bodies (by simp [plural?, hcounted]))
    have hcount' : count.Every p := hcount count (by simp [count?, hcounted])
    have hvars' : ∀ v ∈ Variable.union x.vars y.vars, p (.name v.name) := by
      intro v hv
      rcases Variable.mem_union hv with hv | hv
      · exact hvars v hv
      · exact name_of_mem_vars hy hplural v hv
    refine ⟨hp.translating _ (by simp [Targets.ofOptions]) _, Expr.everyItem_iff.2 fun a ha => ?_⟩
    rcases List.mem_append.1 ha with ha | ha
    · simp only [List.mem_cons, List.not_mem_nil, or_false] at ha
      rcases ha with rfl | rfl | rfl
      · exact ⟨hp.list _, hmessage, every_toExpr_of_ofNodes hp hy, trivial⟩
      · exact hdomain
      · exact every_absolute hp.toFills hcount'
    · exact every_replacements hp.toFills (by simpa using hcount') hvars' a ha
  · refine ⟨hp.translating _ (by simp [Targets.ofOptions]) _, Expr.everyItem_iff.2 fun a ha => ?_⟩
    rcases List.mem_append.1 ha with ha | ha
    · simp only [List.mem_cons, List.not_mem_nil, or_false] at ha
      rcases ha with rfl | rfl
      · exact hmessage
      · exact hdomain
    · exact every_replacements hp.toFills hcount hvars a ha

end Phrase

end Polyglot
