import Polyglot.Proofs.LoweredRendering
import Polyglot.Proofs.ReadNodes
import Polyglot.Proofs.RenderingFailures

/-!
What a template that was compiled can still run into. Compiling calls all phrases among the
statements in the order of the source, also those in branches that are never taken, and stops at the
first one that has no call. If none stops it, whatever fails later fails while rendering.
-/
namespace Polyglot

namespace Message

theorem error_of_ofNodes {nodes : List Node} {line : Nat} {e : Error}
    (h : ofNodes nodes line = .error e) : e = .untranslatable line := by
  unfold ofNodes at h
  split at h
  · cases h
  · exact (Except.error.inj h).symm

theorem error_of_ofBody {body : Body Node} {line : Nat} {e : Error}
    (h : ofBody body line = .error e) : e = .untranslatable line := by
  unfold ofBody at h
  split at h
  · split at h
    · cases h
    · exact (Except.error.inj h).symm
  · exact error_of_ofNodes h

theorem error_of_check {body : Body Node} {line : Nat} {e : Error}
    (h : check body line = .error e) : e = .untranslatable line := by
  unfold check at h
  extract_lets translatable at h
  split at h
  · cases h
  · exact (Except.error.inj h).symm

end Message

/-- A failure of two steps is a failure of one of them. -/
theorem error_of_bind_eq_error {ε α β : Type} {x : Except ε α} {f : α → Except ε β} {e : ε}
    (h : x >>= f = .error e) : x = .error e ∨ ∃ a, x = .ok a ∧ f a = .error e := by
  cases x with
  | error e' =>
    cases h
    exact .inl rfl
  | ok a => exact .inr ⟨a, rfl, h⟩

namespace Phrase

/-- A phrase has no call only because of a body, and then the error points at the phrase. -/
theorem error_of_call {p : Phrase Node} {targets : Targets} {e : Error}
    (h : p.call targets = .error e) : e = .untranslatable p.line := by
  unfold call at h
  rcases error_of_bind_eq_error h with hbody | ⟨x, _, h⟩
  · exact Message.error_of_ofBody hbody
  · split at h
    · rcases error_of_bind_eq_error h with hplural | ⟨y, _, h⟩
      · exact Message.error_of_ofNodes hplural
      · cases h
    · cases h

/-- Calls phrases in turn, up to the first that has no call. -/
def callAll (options : Options) : List (Phrase Node) → Except Error Unit
  | [] => .ok ()
  | p :: ps => do
    let _ ← p.call (.ofOptions options)
    callAll options ps

variable {options : Options} {ps : List (Phrase Node)}

theorem callAll_append (ps qs : List (Phrase Node)) :
    callAll options (ps ++ qs) = callAll options ps >>= fun _ => callAll options qs := by
  induction ps with
  | nil => rfl
  | cons p ps ih =>
    rw [List.cons_append, callAll, callAll, ih, bind_assoc]

theorem callAll_eq_ok :
    callAll options ps = .ok () ↔ ∀ p ∈ ps, ∃ e, p.call (.ofOptions options) = .ok e := by
  induction ps with
  | nil => exact ⟨fun _ _ hp => absurd hp List.not_mem_nil, fun _ => rfl⟩
  | cons p ps ih =>
    rw [List.forall_mem_cons, ← ih, callAll]
    constructor
    · intro h
      obtain ⟨e, he, hps⟩ := exists_of_bind_eq_ok h
      exact ⟨⟨e, he⟩, hps⟩
    · rintro ⟨⟨e, he⟩, hps⟩
      rw [he]
      exact hps

theorem exists_of_callAll_eq_error {e : Error} (h : callAll options ps = .error e) :
    ∃ before p after, ps = before ++ p :: after ∧
      (∀ q ∈ before, ∃ call, q.call (.ofOptions options) = .ok call) ∧
      p.call (.ofOptions options) = .error e := by
  induction ps with
  | nil => cases h
  | cons p ps ih =>
    rcases error_of_bind_eq_error h with hp | ⟨call, hcall, hps⟩
    · exact ⟨[], p, ps, rfl, fun _ hq => absurd hq List.not_mem_nil, hp⟩
    · obtain ⟨before, q, after, rfl, hbefore, hq⟩ := ih hps
      exact ⟨p :: before, q, after, rfl, List.forall_mem_cons.2 ⟨⟨call, hcall⟩, hbefore⟩, hq⟩

end Phrase

namespace Node

mutual

/-- The phrases among the statements of a node in the order of the source; the bodies of a phrase
hold no statements. -/
def phrases : Node → List (Phrase Node)
  | text _ => []
  | print _ => []
  | loop _ _ body => phrasesOf body
  | branch cases otherwise => casePhrases cases ++ fallbackPhrases otherwise
  | phrase p => [p]

def phrasesOf : List Node → List (Phrase Node)
  | [] => []
  | n :: rest => phrases n ++ phrasesOf rest

def casePhrases : List (Expr × List Node) → List (Phrase Node)
  | [] => []
  | (_, body) :: rest => phrasesOf body ++ casePhrases rest

def fallbackPhrases : Option (List Node) → List (Phrase Node)
  | none => []
  | some body => phrasesOf body

end

variable {P : Phrase Node → Prop}

theorem forall_phrasesOf_iff {ns : List Node} :
    (∀ p ∈ phrasesOf ns, P p) ↔ ∀ n ∈ ns, ∀ p ∈ n.phrases, P p := by
  induction ns with
  | nil => simp [phrasesOf]
  | cons n ns ih => rw [phrasesOf, List.forall_mem_append, List.forall_mem_cons, ih]

theorem forall_casePhrases_iff {cases : List (Expr × List Node)} :
    (∀ p ∈ casePhrases cases, P p) ↔ ∀ c ∈ cases, ∀ p ∈ phrasesOf c.2, P p := by
  induction cases with
  | nil => simp [casePhrases]
  | cons c cases ih => rw [casePhrases, List.forall_mem_append, List.forall_mem_cons, ih]

/-- The phrases that are called are among the nodes inside a node. -/
theorem forall_phrases_of_every {n : Node} (h : n.Every fun n => ∀ p, n = phrase p → P p) :
    ∀ p ∈ n.phrases, P p := by
  induction n using induction with
  | text s => exact fun _ hp => absurd hp List.not_mem_nil
  | print e => exact fun _ hp => absurd hp List.not_mem_nil
  | loop target items body ih =>
    obtain ⟨_, hbody⟩ := every_loop.1 h
    rw [phrases]
    exact forall_phrasesOf_iff.2 fun n hn => ih n hn (hbody n hn)
  | branch cases otherwise ihcases ihotherwise =>
    obtain ⟨_, hcases, hotherwise⟩ := every_branch.1 h
    rw [phrases]
    refine List.forall_mem_append.2 ⟨forall_casePhrases_iff.2 fun c hc => ?_, ?_⟩
    · exact forall_phrasesOf_iff.2 fun n hn => ihcases c hc n hn (hcases c hc n hn)
    · cases otherwise with
      | none => exact fun _ hp => absurd hp List.not_mem_nil
      | some body =>
        have hbody := hotherwise body rfl
        exact forall_phrasesOf_iff.2 fun n hn => ihotherwise body rfl n hn (hbody n hn)
  | phrase q _ =>
    rw [phrases]
    exact List.forall_mem_singleton.2 (h.self q rfl)

end Node

namespace Script

variable (env : Environment)

theorem result_andThen (r : Except Error Unit × Script)
    (next : Script → Except Error Unit × Script) :
    (andThen r next).1 = r.1 >>= fun _ => (next r.2).1 := by
  obtain ⟨result, s⟩ := r
  cases result <;> rfl

/-- The result of writing statements is known if the result of each is, whatever was written. -/
theorem result_nodes_of_forall {ns : List Node}
    (h : ∀ n ∈ ns, ∀ s, (node env n s).1 = Phrase.callAll env.options n.phrases) (s : Script) :
    (nodes env ns s).1 = Phrase.callAll env.options (Node.phrasesOf ns) := by
  induction ns generalizing s with
  | nil => rfl
  | cons n ns ih =>
    obtain ⟨hn, hns⟩ := List.forall_mem_cons.1 h
    rw [nodes, result_andThen, hn s, ih hns, Node.phrasesOf, Phrase.callAll_append]

theorem result_branches {cases : List (Expr × List Node)}
    (h : ∀ c ∈ cases, ∀ n ∈ c.2, ∀ s, (node env n s).1 = Phrase.callAll env.options n.phrases)
    (isFirst : Bool) (s : Script) :
    (branches env isFirst cases s).1 = Phrase.callAll env.options (Node.casePhrases cases) := by
  induction cases generalizing isFirst s with
  | nil => rfl
  | cons c cases ih =>
    obtain ⟨hbody, hcases⟩ := List.forall_mem_cons.1 h
    rw [branches, result_andThen, result_nodes_of_forall env hbody, ih hcases, Node.casePhrases,
      Phrase.callAll_append]

/-- Whether a statement can be written is decided by its phrases alone. -/
theorem result_node (n : Node) (s : Script) :
    (node env n s).1 = Phrase.callAll env.options n.phrases := by
  induction n using Node.induction generalizing s with
  | text content => rfl
  | print e => rfl
  | loop target items body ih =>
    rw [node, result_andThen, result_nodes_of_forall env ih, Node.phrases]
    exact bind_pure _
  | branch cases otherwise ihcases ihotherwise =>
    have hfallback : ∀ s, (fallback env otherwise s).1 =
        Phrase.callAll env.options (Node.fallbackPhrases otherwise) := by
      intro s
      cases otherwise with
      | none => rfl
      | some body => exact result_nodes_of_forall env (ihotherwise body rfl) _
    rw [node, result_andThen, result_branches env ihcases, Node.phrases, Phrase.callAll_append]
    congr 1
    funext _
    rw [result_andThen, hfallback]
    exact bind_pure _
  | phrase p _ =>
    rw [node, phrase, Node.phrases, Phrase.callAll]
    cases p.call (.ofOptions env.options) <;> rfl

theorem result_nodes (ns : List Node) (s : Script) :
    (nodes env ns s).1 = Phrase.callAll env.options (Node.phrasesOf ns) :=
  result_nodes_of_forall env (fun n _ => result_node env n) s

end Script

namespace Evaluator

variable {m : Evaluator}

theorem failsInRendering_turns {body : Rendering String} (h : body.FailsInRendering)
    (target : String) (count turn : Nat) (items : List Value) :
    (turns target body count turn items).FailsInRendering := by
  induction items generalizing turn with
  | nil => exact Rendering.failsInRendering_pure ""
  | cons item items ih =>
    refine Rendering.failsInRendering_bind (Rendering.failsInRendering_within h _) fun s => ?_
    exact Rendering.failsInRendering_bind (ih (turn + 1)) fun t => Rendering.failsInRendering_pure _

theorem failsInRendering_renderNodes_of_forall {ns : List Node}
    (h : ∀ n ∈ ns, (m.renderNode n).FailsInRendering) : (m.renderNodes ns).FailsInRendering := by
  induction ns with
  | nil => exact Rendering.failsInRendering_pure ""
  | cons n ns ih =>
    obtain ⟨hn, hns⟩ := List.forall_mem_cons.1 h
    refine Rendering.failsInRendering_bind hn fun s => ?_
    exact Rendering.failsInRendering_bind (ih hns) fun t => Rendering.failsInRendering_pure _

theorem failsInRendering_renderCases {cases : List (Expr × List Node)}
    {fallback : Rendering String} (h : ∀ c ∈ cases, (m.renderNodes c.2).FailsInRendering)
    (hfallback : fallback.FailsInRendering) : (m.renderCases cases fallback).FailsInRendering := by
  induction cases with
  | nil => exact hfallback
  | cons c cases ih =>
    obtain ⟨hbody, hcases⟩ := List.forall_mem_cons.1 h
    refine Rendering.failsInRendering_bind
      (Rendering.failsInRendering_reading fun _ => m.failsInRendering_eval _ _) fun v => ?_
    split
    · exact hbody
    · exact ih hcases

/-- A node whose phrases all have calls fails only in rendering, whichever of them it reaches. -/
theorem failsInRendering_renderNode {n : Node}
    (h : ∀ p ∈ n.phrases, ∃ e, p.call (.ofOptions m.env.options) = .ok e) :
    (m.renderNode n).FailsInRendering := by
  induction n using Node.induction with
  | text s => exact Rendering.failsInRendering_pure s
  | print e =>
    exact Rendering.failsInRendering_reading fun scopes => m.failsInRendering_evalPrinted scopes e
  | loop target items body ih =>
    refine Rendering.failsInRendering_bind
      (Rendering.failsInRendering_reading fun _ => m.failsInRendering_eval _ _) fun v => ?_
    split
    · have hbody : (m.renderNodes body).FailsInRendering :=
        failsInRendering_renderNodes_of_forall fun n hn =>
          ih n hn (Node.forall_phrasesOf_iff.1 h n hn)
      exact failsInRendering_turns hbody _ _ _ _
    · exact Rendering.failsInRendering_pure ""
    · exact Rendering.failsInRendering_reading fun _ => Run.failsInRendering_fail _
  | branch cases otherwise ihcases ihotherwise =>
    rw [Node.phrases, List.forall_mem_append] at h
    refine failsInRendering_renderCases (fun c hc => ?_) ?_
    · have hbody := Node.forall_casePhrases_iff.1 h.1 c hc
      exact failsInRendering_renderNodes_of_forall fun n hn =>
        ihcases c hc n hn (Node.forall_phrasesOf_iff.1 hbody n hn)
    · cases otherwise with
      | none => exact Rendering.failsInRendering_pure ""
      | some body =>
        exact failsInRendering_renderNodes_of_forall fun n hn =>
          ihotherwise body rfl n hn (Node.forall_phrasesOf_iff.1 h.2 n hn)
  | phrase p _ =>
    obtain ⟨call, hcall⟩ := h p List.mem_cons_self
    rw [renderNode_phrase m hcall]
    exact Rendering.failsInRendering_reading fun scopes =>
      m.failsInRendering_evalPrinted scopes call

theorem failsInRendering_renderNodes {ns : List Node}
    (h : ∀ p ∈ Node.phrasesOf ns, ∃ e, p.call (.ofOptions m.env.options) = .ok e) :
    (m.renderNodes ns).FailsInRendering :=
  failsInRendering_renderNodes_of_forall fun n hn =>
    failsInRendering_renderNode (Node.forall_phrasesOf_iff.1 h n hn)

end Evaluator

namespace Environment

/-- Compiling fails where calling the phrases in turn fails. -/
theorem compileNodes_eq_callAll (env : Environment) (ns : List Node) :
    ∃ code, env.compileNodes ns =
      (Phrase.callAll env.options (Node.phrasesOf ns)).map fun _ => code := by
  refine ⟨(Script.nodes env ns {}).2.written, ?_⟩
  rw [compileNodes, Script.result_nodes]

theorem exists_compileNodes_eq_ok {env : Environment} {ns : List Node} :
    (∃ code, env.compileNodes ns = .ok code) ↔
      ∀ p ∈ Node.phrasesOf ns, ∃ e, p.call (.ofOptions env.options) = .ok e := by
  obtain ⟨code, hcode⟩ := compileNodes_eq_callAll env ns
  rw [← Phrase.callAll_eq_ok, hcode]
  cases Phrase.callAll env.options (Node.phrasesOf ns) with
  | error e => simp [Except.map]
  | ok u => exact ⟨fun _ => rfl, fun _ => ⟨code, rfl⟩⟩

theorem exists_of_compileNodes_eq_error {env : Environment} {ns : List Node} {e : Error}
    (h : env.compileNodes ns = .error e) :
    ∃ before p after, Node.phrasesOf ns = before ++ p :: after ∧
      (∀ q ∈ before, ∃ call, q.call (.ofOptions env.options) = .ok call) ∧
      p.call (.ofOptions env.options) = .error e := by
  obtain ⟨code, hcode⟩ := compileNodes_eq_callAll env ns
  rw [hcode] at h
  apply Phrase.exists_of_callAll_eq_error
  cases hcalls : Phrase.callAll env.options (Node.phrasesOf ns) with
  | error e' =>
    rw [hcalls] at h
    exact congrArg Except.error (Except.error.inj h)
  | ok u =>
    rw [hcalls] at h
    cases h

theorem compile_of_parse {env : Environment} {source : String} {ns : List Node}
    (h : env.parse source = .ok ns) : env.compile source = env.compileNodes ns := by
  rw [compile, h]
  rfl

theorem exists_of_compile_eq_ok {env : Environment} {source code : String}
    (h : env.compile source = .ok code) :
    ∃ ns, env.parse source = .ok ns ∧ env.compileNodes ns = .ok code :=
  exists_of_bind_eq_ok h

/-- What is compiled can only fail in rendering. A template is compiled if and only if it can be
read and every phrase among its statements has a call; else the error points at the first phrase
that has none. -/
theorem failsInRendering_of_compile (options : Options) (source : String) :
    ((∃ code, (standard options).compile source = .ok code) ↔
      ∃ ns, (standard options).parse source = .ok ns ∧
        ∀ p ∈ Node.phrasesOf ns, ∃ e, p.call (.ofOptions options) = .ok e) ∧
    (∀ ns e, (standard options).parse source = .ok ns →
      (standard options).compile source = .error e →
        ∃ before p after, Node.phrasesOf ns = before ++ p :: after ∧
          (∀ q ∈ before, ∃ call, q.call (.ofOptions options) = .ok call) ∧
          p.call (.ofOptions options) = .error e ∧ e = .untranslatable p.line) ∧
    ∀ code, (standard options).compile source = .ok code → ∀ context translator e,
      ((standard options).render source context translator).result = .error e →
        ∃ failure, e = .rendering failure := by
  refine ⟨⟨?_, ?_⟩, ?_, ?_⟩
  · rintro ⟨code, hcode⟩
    obtain ⟨ns, hparse, hns⟩ := exists_of_compile_eq_ok hcode
    exact ⟨ns, hparse, exists_compileNodes_eq_ok.1 ⟨code, hns⟩⟩
  · rintro ⟨ns, hparse, hns⟩
    rw [compile_of_parse hparse]
    exact exists_compileNodes_eq_ok.2 hns
  · intro ns e hparse hcompile
    rw [compile_of_parse hparse] at hcompile
    obtain ⟨before, p, after, hns, hbefore, hp⟩ := exists_of_compileNodes_eq_error hcompile
    exact ⟨before, p, after, hns, hbefore, hp, Phrase.error_of_call hp⟩
  · intro code hcode context translator
    obtain ⟨ns, hparse, hns⟩ := exists_of_compile_eq_ok hcode
    rw [render_of_parse hparse]
    have hcalls := exists_compileNodes_eq_ok.1 ⟨code, hns⟩
    exact Evaluator.failsInRendering_renderNodes (m := ⟨standard options, translator⟩) hcalls
      [context]

set_option maxRecDepth 1500 in
/-- A phrase without a call stops the compiler also in a branch that is never taken; a member that
is missing does not. -/
theorem failsInRendering_of_compile_unreachable :
    (∃ ns, (standard {}).parse
        "{% if x %}\n{% trans from d %}{% plural n %}{{ x.y }}{% endtrans %}{% endif %}" = .ok ns ∧
      ((standard {}).renderNodes ns [] Translator.passthrough).result = .ok "" ∧
      ∃ p ∈ Node.phrasesOf ns, p.line = 2 ∧ (standard {}).compile
        "{% if x %}\n{% trans from d %}{% plural n %}{{ x.y }}{% endtrans %}{% endif %}" =
          .error (.untranslatable p.line)) ∧
    ∃ failure, ((standard {}).render "{{ x.y }}" [] Translator.passthrough).result =
      .error (.rendering failure) := by
  have hparse' : (standard {}).parse "{{ x.y }}" =
      .ok [.print (.filter (.member (.name "x") "y") "escape" [])] := by
    decide +kernel
  have hcompile' : (standard {}).compile "{{ x.y }}" = .ok "emit(escape(x.y));\n" := by
    rw [compile_of_parse hparse']
    decide +kernel
  have hresult : ((standard {}).render "{{ x.y }}" [] Translator.passthrough).result =
      .error (.rendering (.memberOfNonMap "y" .null)) := by
    rw [render_of_parse hparse']
    decide +kernel
  have hparse : (standard {}).parse
      "{% if x %}\n{% trans from d %}{% plural n %}{{ x.y }}{% endtrans %}{% endif %}" =
      .ok [.branch [(.name "x", [.phrase ⟨.block [], .name "d", some ⟨.name "n", some
        [.print (.filter (.member (.name "x") "y") "escape" [])]⟩, none, 2⟩])] none] := by
    decide +kernel
  have hcompile : (standard {}).compile
      "{% if x %}\n{% trans from d %}{% plural n %}{{ x.y }}{% endtrans %}{% endif %}" =
      .error (.untranslatable 2) := by
    rw [compile_of_parse hparse]
    decide +kernel
  have hout : ((standard {}).renderNodes [.branch [(.name "x", [.phrase ⟨.block [], .name "d",
      some ⟨.name "n", some [.print (.filter (.member (.name "x") "y") "escape" [])]⟩,
      none, 2⟩])] none] [] Translator.passthrough).result = .ok "" := by
    decide +kernel
  constructor
  · obtain ⟨before, p, after, hphrases, _, _, hline⟩ :=
      (failsInRendering_of_compile {} _).2.1 _ _ hparse hcompile
    refine ⟨_, hparse, hout, p, ?_, (Error.untranslatable.inj hline).symm, ?_⟩
    · rw [hphrases]
      exact List.mem_append_right before List.mem_cons_self
    · rw [hcompile, hline]
  · obtain ⟨failure, hfailure⟩ :=
      (failsInRendering_of_compile {} _).2.2 _ hcompile' _ _ _ hresult
    rw [hfailure] at hresult
    exact ⟨failure, hresult⟩

end Environment

end Polyglot
