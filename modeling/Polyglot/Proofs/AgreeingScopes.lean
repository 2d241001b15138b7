import Polyglot.Proofs.FreeNames
import Polyglot.Proofs.LoweredRendering
import Polyglot.Proofs.ScopeStacks
import Polyglot.Template

/-!
Scopes that cannot be told apart. An expression is evaluated alike under two stacks of scopes that
agree on its names, and a node is rendered alike under two that agree on its free names: a turn of
a loop puts the same scope on both, which makes them agree on the names it binds as well.
-/
namespace Polyglot

namespace Scopes

/-- Each of the names has the same value in both. -/
def AgreeOn (ns : List String) (scopes scopes' : Scopes) : Prop :=
  ∀ n ∈ ns, lookup n scopes = lookup n scopes'

variable {ns : List String} {scopes scopes' : Scopes}

theorem lookup_cons_of_some {n : String} {scope : Entries Value} {v : Value}
    (h : scope.get? n = some v) (scopes : Scopes) : lookup n (scope :: scopes) = v := by
  rw [lookup, List.findSome?_cons, h]
  rfl

theorem lookup_cons_of_none {n : String} {scope : Entries Value} (h : scope.get? n = none)
    (scopes : Scopes) : lookup n (scope :: scopes) = lookup n scopes := by
  rw [lookup, List.findSome?_cons, h]
  rfl

/-- A scope on top of both hides how they differ in the names that it binds. -/
theorem AgreeOn.push {scope : Entries Value}
    (h : ∀ n ∈ ns, scope.get? n = none → lookup n scopes = lookup n scopes') :
    AgreeOn ns (scope :: scopes) (scope :: scopes') := by
  intro n hn
  cases hget : scope.get? n with
  | some v => rw [lookup_cons_of_some hget, lookup_cons_of_some hget]
  | none => rw [lookup_cons_of_none hget, lookup_cons_of_none hget, h n hn hget]

end Scopes

namespace Evaluator

variable (m : Evaluator) {ns : List String} {scopes scopes' : Scopes}

theorem evalItems_eq_of_forall {es : List Expr}
    (h : ∀ e ∈ es, m.eval scopes e = m.eval scopes' e) :
    m.evalItems scopes es = m.evalItems scopes' es := by
  induction es with
  | nil => rfl
  | cons e es ih =>
    obtain ⟨he, hes⟩ := List.forall_mem_cons.1 h
    rw [evalItems, evalItems, he, ih hes]

theorem evalEntries_eq_of_forall {es : List (Expr × Expr)}
    (h : ∀ x ∈ es, m.eval scopes x.1 = m.eval scopes' x.1 ∧
      m.eval scopes x.2 = m.eval scopes' x.2) :
    m.evalEntries scopes es = m.evalEntries scopes' es := by
  induction es with
  | nil => rfl
  | cons x es ih =>
    obtain ⟨⟨hkey, he⟩, hes⟩ := List.forall_mem_cons.1 h
    rw [evalEntries, evalEntries, hkey, he, ih hes]

/-- An expression is evaluated alike under scopes that agree on its names. -/
theorem eval_eq_of_agreeOn (hs : Scopes.AgreeOn ns scopes scopes') {e : Expr}
    (h : e.Every (Expr.IsAmong ns)) : m.eval scopes e = m.eval scopes' e := by
  induction e using Expr.induction with
  | literal a => rfl
  | name n =>
    have hn : n ∈ ns := Expr.Every.self h n rfl
    rw [eval, eval, hs n hn]
  | member e key ih => rw [eval, eval, ih h.2]
  | index e i ihe ihi => rw [eval, eval, ihe h.2.1, ihi h.2.2]
  | binary l op r ihl ihr => rw [eval, eval, ihl h.2.1, ihr h.2.2]
  | unary op e ih => rw [eval, eval, ih h.2]
  | filter e n args ihe ih =>
    have hargs := m.evalItems_eq_of_forall fun a ha => ih a ha (Expr.everyItem_iff.1 h.2.2 a ha)
    rw [eval, eval, ihe h.2.1, hargs]
  | checked e ih => rw [eval, eval, ih h.2]
  | call n args ih =>
    have hargs := m.evalItems_eq_of_forall fun a ha => ih a ha (Expr.everyItem_iff.1 h.2 a ha)
    rw [eval, eval, hargs]
  | list items ih =>
    have hitems := m.evalItems_eq_of_forall fun a ha => ih a ha (Expr.everyItem_iff.1 h.2 a ha)
    rw [eval, eval, hitems]
  | map entries ih =>
    have hentries := m.evalEntries_eq_of_forall fun x hx =>
      ⟨(ih x hx).1 (Expr.everyEntry_iff.1 h.2 x hx).1,
        (ih x hx).2 (Expr.everyEntry_iff.1 h.2 x hx).2⟩
    rw [eval, eval, hentries]

theorem evalPrinted_eq_of_agreeOn (hs : Scopes.AgreeOn ns scopes scopes') {e : Expr}
    (h : e.Every (Expr.IsAmong ns)) : m.evalPrinted scopes e = m.evalPrinted scopes' e := by
  rw [evalPrinted, evalPrinted, m.eval_eq_of_agreeOn hs h]

end Evaluator

namespace Rendering

variable {α β : Type} {ns : List String}

/-- Scopes that agree on the names cannot be told apart by what is rendered. -/
def DependsOn (ns : List String) (x : Rendering α) : Prop :=
  ∀ scopes scopes', Scopes.AgreeOn ns scopes scopes' → (x scopes).1 = (x scopes').1

theorem dependsOn_pure (a : α) : (pure a : Rendering α).DependsOn ns := fun _ _ _ => rfl

theorem dependsOn_reading {run : Scopes → Run α}
    (h : ∀ scopes scopes', Scopes.AgreeOn ns scopes scopes' → run scopes = run scopes') :
    (reading run).DependsOn ns :=
  h

theorem dependsOn_within {ms : List String} {scope : Entries Value} {x : Rendering α}
    (h : x.DependsOn ms) (hms : ∀ n ∈ ms, scope.get? n = none → n ∈ ns) :
    (within scope x).DependsOn ns :=
  fun _ _ hs => h _ _ (Scopes.AgreeOn.push fun n hn hget => hs n (hms n hn hget))

/-- What comes second sees the scopes that the first has left as they were. -/
theorem dependsOn_bind {x : Rendering α} {next : α → Rendering β} (hrestores : x.Restores)
    (h : x.DependsOn ns) (hnext : ∀ a, (next a).DependsOn ns) : (x >>= next).DependsOn ns := by
  intro scopes scopes' hs
  have hx := h scopes scopes' hs
  have hrest := hrestores scopes
  have hrest' := hrestores scopes'
  rcases hr : x scopes with ⟨run, after⟩
  rcases hr' : x scopes' with ⟨run', after'⟩
  rw [hr, hr'] at hx
  rw [hr] at hrest
  rw [hr'] at hrest'
  cases hx
  cases hrest
  cases hrest'
  obtain ⟨requests, e | a⟩ := run
  · rw [bind_of_error hr, bind_of_error hr']
  · rw [bind_of_ok hr, bind_of_ok hr', hnext a after after' hs]

end Rendering

namespace Evaluator

variable (m : Evaluator) {ns : List String}

/-- The scope of a turn binds the target and `loop`. -/
theorem mem_of_get?_loopScope {target n : String} {item : Value} {turn count : Nat}
    {names : List String} (hn : n ∈ names)
    (hget : (loopScope target item turn count).get? n = none) :
    n ∈ names.filter fun n => n != target && n != "loop" := by
  have hscope : loopScope target item turn count =
      (Entries.insert target item []).insert "loop" (loopValue turn count) := rfl
  rw [hscope] at hget
  have hloop : n ≠ "loop" := by
    rintro rfl
    rw [Entries.get?_insert_self] at hget
    cases hget
  have htarget : n ≠ target := by
    rintro rfl
    rw [Entries.get?_insert_of_ne hloop, Entries.get?_insert_self] at hget
    cases hget
  exact List.mem_filter.2 ⟨hn, by simp [htarget, hloop]⟩

theorem dependsOn_turns {names : List String} {target : String} {body : Rendering String}
    (hrestores : body.Restores) (h : body.DependsOn names)
    (hnames : ∀ n ∈ names.filter fun n => n != target && n != "loop", n ∈ ns)
    (count turn : Nat) (items : List Value) :
    (turns target body count turn items).DependsOn ns := by
  induction items generalizing turn with
  | nil => exact Rendering.dependsOn_pure ""
  | cons item items ih =>
    have hturn : (Rendering.within (loopScope target item turn count) body).DependsOn ns :=
      Rendering.dependsOn_within h fun n hn hget => hnames n (mem_of_get?_loopScope hn hget)
    refine Rendering.dependsOn_bind (Rendering.restores_within hrestores _) hturn fun s => ?_
    refine Rendering.dependsOn_bind (restores_turns hrestores _ _ _ _) (ih (turn + 1)) fun t => ?_
    exact Rendering.dependsOn_pure _

theorem dependsOn_renderNodes_of_forall {nodes : List Node}
    (h : ∀ n ∈ nodes, (m.renderNode n).DependsOn ns) : (m.renderNodes nodes).DependsOn ns := by
  induction nodes with
  | nil => exact Rendering.dependsOn_pure ""
  | cons n nodes ih =>
    obtain ⟨hn, hnodes⟩ := List.forall_mem_cons.1 h
    refine Rendering.dependsOn_bind (restores_renderNode m n) hn fun s => ?_
    refine Rendering.dependsOn_bind (restores_renderNodes m nodes) (ih hnodes) fun t => ?_
    exact Rendering.dependsOn_pure _

theorem dependsOn_renderCases {cases : List (Expr × List Node)} {fallback : Rendering String}
    (hconditions : ∀ c ∈ cases, c.1.Every (Expr.IsAmong ns))
    (hbodies : ∀ c ∈ cases, (m.renderNodes c.2).DependsOn ns) (hfallback : fallback.DependsOn ns) :
    (m.renderCases cases fallback).DependsOn ns := by
  induction cases with
  | nil => exact hfallback
  | cons c cases ih =>
    obtain ⟨hcondition, hconditions⟩ := List.forall_mem_cons.1 hconditions
    obtain ⟨hbody, hbodies⟩ := List.forall_mem_cons.1 hbodies
    refine Rendering.dependsOn_bind (Rendering.restores_reading _)
      (Rendering.dependsOn_reading fun _ _ hs => m.eval_eq_of_agreeOn hs hcondition) fun v => ?_
    split
    · exact hbody
    · exact ih hconditions hbodies

/-- The call of a phrase has no names but the free names of the phrase. -/
theorem dependsOn_phrase {p : Phrase Node} (h : ∀ n ∈ Node.freeNames (.phrase p), n ∈ ns) :
    (m.renderNode (.phrase p)).DependsOn ns := by
  cases hcall : p.call (.ofOptions m.env.options) with
  | error e =>
    intro scopes scopes' _
    rw [renderNode, hcall]
    rfl
  | ok call =>
    rw [renderNode_phrase m hcall]
    exact Rendering.dependsOn_reading fun _ _ hs =>
      m.evalPrinted_eq_of_agreeOn hs (Phrase.isAmong_of_call hcall h)

/-- Only the free names of a node have a part in what it renders. -/
theorem dependsOn_renderNode (node : Node) {ns : List String}
    (h : ∀ n ∈ node.freeNames, n ∈ ns) : (m.renderNode node).DependsOn ns := by
  induction node using Node.induction generalizing ns with
  | text s => exact Rendering.dependsOn_pure s
  | print e =>
    exact Rendering.dependsOn_reading fun _ _ hs =>
      m.evalPrinted_eq_of_agreeOn hs (Expr.every_isAmong h)
  | loop target items body ih =>
    rw [Node.freeNames, List.forall_mem_append] at h
    refine Rendering.dependsOn_bind (Rendering.restores_reading _)
      (Rendering.dependsOn_reading fun _ _ hs =>
        m.eval_eq_of_agreeOn hs (Expr.every_isAmong h.1)) fun v => ?_
    split
    · have hbody : (m.renderNodes body).DependsOn (Node.freeNamesOf body) :=
        m.dependsOn_renderNodes_of_forall fun n hn =>
          ih n hn (Node.freeNames_subset (fun _ hx => hx) n hn)
      exact dependsOn_turns (restores_renderNodes m body) hbody h.2 _ _ _
    · exact Rendering.dependsOn_pure ""
    · exact Rendering.dependsOn_reading fun _ _ _ => rfl
  | branch cases otherwise ihcases ihotherwise =>
    rw [Node.freeNames, List.forall_mem_append] at h
    have hcases := Node.every_of_caseNames h.1
    refine m.dependsOn_renderCases (fun c hc => (hcases c hc).1) (fun c hc => ?_) ?_
    · exact m.dependsOn_renderNodes_of_forall fun n hn =>
        ihcases c hc n hn (Node.freeNames_subset (hcases c hc).2 n hn)
    · cases otherwise with
      | none => exact Rendering.dependsOn_pure ""
      | some body =>
        exact m.dependsOn_renderNodes_of_forall fun n hn =>
          ihotherwise body rfl n hn (Node.freeNames_subset h.2 n hn)
  | phrase p _ => exact m.dependsOn_phrase h

theorem dependsOn_renderNodes (nodes : List Node) :
    (m.renderNodes nodes).DependsOn (Node.freeNamesOf nodes) :=
  m.dependsOn_renderNodes_of_forall fun n hn =>
    m.dependsOn_renderNode n (Node.freeNames_subset (fun _ hx => hx) n hn)

end Evaluator

namespace Scopes

theorem lookup_singleton (n : String) (context : Entries Value) :
    lookup n [context] = (context.get? n).getD .null := by
  cases h : context.get? n with
  | some v => rw [lookup_cons_of_some h, Option.getD_some]
  | none =>
    rw [lookup_cons_of_none h]
    rfl

end Scopes

namespace Environment

/-- Contexts that bind the free names of a template alike give the same requests and the same
output or error. -/
theorem renderNodes_eq_of_agree (env : Environment) {nodes : List Node}
    {context context' : Entries Value}
    (h : ∀ n ∈ Node.freeNamesOf nodes, context.get? n = context'.get? n)
    (translator : Translator) :
    env.renderNodes nodes context translator = env.renderNodes nodes context' translator := by
  refine (Evaluator.mk env translator).dependsOn_renderNodes nodes [context] [context'] ?_
  intro n hn
  rw [Scopes.lookup_singleton, Scopes.lookup_singleton, h n hn]

/-- The target of a loop is not a free name, although a phrase in its body has a placeholder for
it. -/
theorem renderNodes_eq_of_agree_target :
    let nodes : List Node := [.loop "x" (.name "xs")
      [.phrase ⟨.block [.print (.name "x")], .text "d", none, none, 1⟩]]
    let context : Entries Value := [("x", .text "c"), ("xs", .list [.text "a", .text "b"])]
    Node.freeNamesOf nodes = ["xs"] ∧
      (standard {}).renderNodes nodes context Translator.echo =
        ⟨[.single "%x%" "d", .single "%x%" "d"], .ok "<d>a<d>b"⟩ := by
  intro nodes context
  let context' : Entries Value := [("xs", .list [.text "a", .text "b"])]
  have hfree : Node.freeNamesOf nodes = ["xs"] := by
    decide
  have hagree : ∀ n ∈ Node.freeNamesOf nodes, context.get? n = context'.get? n := by
    rw [hfree]
    decide
  have hrun : (standard {}).renderNodes nodes context' Translator.echo =
      ⟨[.single "%x%" "d", .single "%x%" "d"], .ok "<d>a<d>b"⟩ := by
    decide +kernel
  exact ⟨hfree, (renderNodes_eq_of_agree (standard {}) hagree Translator.echo).trans hrun⟩

end Environment

end Polyglot
