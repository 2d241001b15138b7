import Polyglot.Proofs.PhraseCalls
import Polyglot.Rendering

/-!
Lowering preserves what a template does. A filter is evaluated like the call of the function that it
is bound to, and a phrase like its call; only a check is not the call it is written as, because it
gives back the value itself and not its printed form.
-/
namespace Polyglot

namespace Expr

/-- No check. -/
def IsUnchecked : Expr → Prop
  | checked _ => False
  | _ => True

end Expr

namespace Node

mutual

/-- Prints in place of texts and phrases, with all expressions lowered. A phrase without a call
stays. -/
def lowered (env : Environment) : Node → Node
  | text s => print (.text s)
  | print e => print (e.lowered env.function)
  | loop target items body => loop target (items.lowered env.function) (loweredNodes env body)
  | branch cases otherwise => branch (loweredCases env cases) (loweredFallback env otherwise)
  | phrase p =>
    match p.call (.ofOptions env.options) with
    | .ok call => print (call.lowered env.function)
    | .error _ => phrase p

def loweredNodes (env : Environment) : List Node → List Node
  | [] => []
  | n :: rest => lowered env n :: loweredNodes env rest

def loweredCases (env : Environment) : List (Expr × List Node) → List (Expr × List Node)
  | [] => []
  | (condition, body) :: rest =>
    (condition.lowered env.function, loweredNodes env body) :: loweredCases env rest

def loweredFallback (env : Environment) : Option (List Node) → Option (List Node)
  | none => none
  | some body => some (loweredNodes env body)

end

theorem loweredNodes_eq_map (env : Environment) (ns : List Node) :
    loweredNodes env ns = ns.map (lowered env) := by
  induction ns with
  | nil => rfl
  | cons n ns ih => rw [loweredNodes, ih, List.map_cons]

theorem loweredCases_eq_map (env : Environment) (cases : List (Expr × List Node)) :
    loweredCases env cases =
      cases.map fun c => (c.1.lowered env.function, loweredNodes env c.2) := by
  induction cases with
  | nil => rfl
  | cons c cases ih => rw [loweredCases, ih, List.map_cons]

end Node

namespace Evaluator

variable (m : Evaluator)

theorem evalItems_lowered (scopes : Scopes) {es : List Expr}
    (h : ∀ e ∈ es, m.eval scopes (e.lowered m.env.function) = m.eval scopes e) :
    m.evalItems scopes (Expr.loweredItems m.env.function es) = m.evalItems scopes es := by
  induction es with
  | nil => rfl
  | cons e es ih =>
    obtain ⟨he, hes⟩ := List.forall_mem_cons.1 h
    rw [Expr.loweredItems, evalItems, evalItems, he, ih hes]

theorem evalEntries_lowered (scopes : Scopes) {es : List (Expr × Expr)}
    (h : ∀ x ∈ es, m.eval scopes (x.1.lowered m.env.function) = m.eval scopes x.1 ∧
      m.eval scopes (x.2.lowered m.env.function) = m.eval scopes x.2) :
    m.evalEntries scopes (Expr.loweredEntries m.env.function es) = m.evalEntries scopes es := by
  induction es with
  | nil => rfl
  | cons x es ih =>
    obtain ⟨⟨hkey, he⟩, hes⟩ := List.forall_mem_cons.1 h
    rw [Expr.loweredEntries, evalEntries, evalEntries, hkey, he, ih hes]

/-- Lowering does not change the value of an expression without checks. -/
theorem eval_lowered (scopes : Scopes) {e : Expr} (h : e.Every Expr.IsUnchecked) :
    m.eval scopes (e.lowered m.env.function) = m.eval scopes e := by
  induction e using Expr.induction with
  | literal a => rfl
  | name n => rfl
  | member e key ih => rw [Expr.lowered, eval, eval, ih h.2]
  | index e i ihe ihi => rw [Expr.lowered, eval, eval, ihe h.2.1, ihi h.2.2]
  | binary l op r ihl ihr => rw [Expr.lowered, eval, eval, ihl h.2.1, ihr h.2.2]
  | unary op e ih => rw [Expr.lowered, eval, eval, ih h.2]
  | filter e n args ihe ih =>
    have hargs := m.evalItems_lowered scopes fun a ha => ih a ha (Expr.everyItem_iff.1 h.2.2 a ha)
    simp only [Expr.lowered, eval, evalItems, ihe h.2.1, hargs, bind_assoc, pure_bind]
  | checked e ih => exact absurd h.1 id
  | call n args ih =>
    have hargs := m.evalItems_lowered scopes fun a ha => ih a ha (Expr.everyItem_iff.1 h.2 a ha)
    rw [Expr.lowered, eval, eval, hargs]
  | list items ih =>
    have hitems := m.evalItems_lowered scopes fun a ha => ih a ha (Expr.everyItem_iff.1 h.2 a ha)
    rw [Expr.lowered, eval, eval, hitems]
  | map entries ih =>
    have hentries := m.evalEntries_lowered scopes fun x hx =>
      ⟨(ih x hx).1 (Expr.everyEntry_iff.1 h.2 x hx).1,
        (ih x hx).2 (Expr.everyEntry_iff.1 h.2 x hx).2⟩
    rw [Expr.lowered, eval, eval, hentries]

theorem evalPrinted_lowered (scopes : Scopes) {e : Expr} (h : e.Every Expr.IsUnchecked) :
    m.evalPrinted scopes (e.lowered m.env.function) = m.evalPrinted scopes e := by
  rw [evalPrinted, evalPrinted, eval_lowered m scopes h]

theorem renderNode_text (s : String) :
    m.renderNode (.text s) = m.renderNode (.print (.text s)) := rfl

theorem renderNode_phrase {p : Phrase Node} {call : Expr}
    (h : p.call (.ofOptions m.env.options) = .ok call) :
    m.renderNode (.phrase p) = m.renderNode (.print call) := by
  rw [renderNode, renderNode, h]
  rfl

theorem renderNodes_lowered_of_forall {ns : List Node}
    (h : ∀ n ∈ ns, m.renderNode (n.lowered m.env) = m.renderNode n) :
    m.renderNodes (Node.loweredNodes m.env ns) = m.renderNodes ns := by
  induction ns with
  | nil => rfl
  | cons n ns ih =>
    obtain ⟨hn, hns⟩ := List.forall_mem_cons.1 h
    rw [Node.loweredNodes, renderNodes, renderNodes, hn, ih hns]

theorem renderCases_lowered {cases : List (Expr × List Node)} {fallback : Rendering String}
    (hconditions : ∀ c ∈ cases, c.1.Every Expr.IsUnchecked)
    (hbodies : ∀ c ∈ cases, ∀ n ∈ c.2, m.renderNode (n.lowered m.env) = m.renderNode n) :
    m.renderCases (Node.loweredCases m.env cases) fallback = m.renderCases cases fallback := by
  induction cases with
  | nil => rfl
  | cons c cases ih =>
    obtain ⟨condition, body⟩ := c
    obtain ⟨hcondition, hconditions⟩ := List.forall_mem_cons.1 hconditions
    obtain ⟨hbody, hbodies⟩ := List.forall_mem_cons.1 hbodies
    have heval : (fun scopes => m.eval scopes (condition.lowered m.env.function)) =
        fun scopes => m.eval scopes condition :=
      funext fun scopes => m.eval_lowered scopes hcondition
    rw [Node.loweredCases, renderCases, renderCases, heval, ih hconditions hbodies,
      renderNodes_lowered_of_forall m hbody]

theorem frames_isUnchecked (options : Options) : Phrase.Frames options Expr.IsUnchecked :=
  ⟨⟨fun _ => trivial, fun _ => trivial, fun _ _ _ => trivial⟩, fun _ => trivial,
    fun _ _ _ => trivial⟩

/-- Lowering does not change what a node without checks renders. -/
theorem renderNode_lowered {n : Node}
    (h : n.Every fun n => ∀ e ∈ n.exprs, e.Every Expr.IsUnchecked) :
    m.renderNode (n.lowered m.env) = m.renderNode n := by
  induction n using Node.induction with
  | text s => exact (m.renderNode_text s).symm
  | print e =>
    have he := h.self e List.mem_cons_self
    simp only [Node.lowered, renderNode, evalPrinted_lowered m _ he]
  | loop target items body ih =>
    obtain ⟨hitems, hbody⟩ := Node.every_loop.1 h
    have hitems' : items.Every Expr.IsUnchecked := hitems items List.mem_cons_self
    have hbody' := renderNodes_lowered_of_forall m fun n hn => ih n hn (hbody n hn)
    simp only [Node.lowered, renderNode, hbody', eval_lowered m _ hitems']
  | branch cases otherwise ihcases ihotherwise =>
    obtain ⟨hconditions, hcases, hotherwise⟩ := Node.every_branch.1 h
    have hfallback : m.renderFallback (Node.loweredFallback m.env otherwise) =
        m.renderFallback otherwise := by
      cases otherwise with
      | none => rfl
      | some body =>
        exact renderNodes_lowered_of_forall m fun n hn =>
          ihotherwise body rfl n hn (hotherwise body rfl n hn)
    have hconditions' : ∀ c ∈ cases, c.1.Every Expr.IsUnchecked := fun c hc =>
      hconditions c.1 (List.mem_map.2 ⟨c, hc, rfl⟩)
    rw [Node.lowered, renderNode, renderNode, hfallback]
    exact renderCases_lowered m hconditions' fun c hc n hn => ihcases c hc n hn (hcases c hc n hn)
  | phrase p ih =>
    rw [Node.lowered]
    split
    · next call hcall =>
      have hunchecked := Phrase.every_call (frames_isUnchecked m.env.options) hcall h
      rw [renderNode_phrase m hcall]
      simp only [renderNode, evalPrinted_lowered m _ hunchecked]
    · rfl

theorem renderNodes_lowered {ns : List Node}
    (h : ∀ n ∈ ns, n.Every fun n => ∀ e ∈ n.exprs, e.Every Expr.IsUnchecked) :
    m.renderNodes (Node.loweredNodes m.env ns) = m.renderNodes ns :=
  renderNodes_lowered_of_forall m fun n hn => renderNode_lowered m (h n hn)

end Evaluator

end Polyglot
