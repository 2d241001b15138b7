import Polyglot.Proofs.CompiledPhrases
import Polyglot.Proofs.ExtendedReading

/-!
What an extension changes for a template that could be read before. Its tags are read as before if
the extension registers none of the tags that have a rule, and a filter stands for the function that
it stood for if the extension does not bind it. A template without such filters is therefore read,
compiled and rendered as before.
-/
namespace Polyglot

namespace Expr

/-- A filter is bound to the same function both times. -/
def IsBoundAlike (function function' : String → String) : Expr → Prop
  | filter _ n _ => function' n = function n
  | _ => True

/-- None of some filters is applied. -/
def Avoids (filters : List String) : Expr → Prop
  | filter _ n _ => n ∉ filters
  | _ => True

variable {function function' : String → String}

theorem scripts_congr {es : List Expr} (h : ∀ e ∈ es, e.script function' = e.script function) :
    scripts function' es = scripts function es := by
  rw [scripts_eq_map, scripts_eq_map, List.map_congr_left h]

theorem entryScripts_congr {es : List (Expr × Expr)}
    (h : ∀ x ∈ es, x.1.script function' = x.1.script function ∧
      x.2.script function' = x.2.script function) :
    entryScripts function' es = entryScripts function es := by
  rw [entryScripts_eq_map, entryScripts_eq_map]
  exact List.map_congr_left fun x hx => by rw [(h x hx).1, (h x hx).2]

/-- The script form depends on the functions of the filters that are applied. -/
theorem script_congr {e : Expr} (h : e.Every (IsBoundAlike function function')) :
    e.script function' = e.script function := by
  induction e using induction with
  | literal a => rfl
  | name n => rfl
  | member e key ih => rw [script, script, ih h.2]
  | index e i ihe ihi => rw [script, script, ihe h.2.1, ihi h.2.2]
  | binary l op r ihl ihr => rw [script, script, ihl h.2.1, ihr h.2.2]
  | unary op e ih => cases op <;> rw [script, script, ih h.2]
  | filter e n args ihe ih =>
    have hn : function' n = function n := h.1
    have hargs := scripts_congr fun a ha => ih a ha (everyItem_iff.1 h.2.2 a ha)
    rw [script, script, hn, ihe h.2.1, hargs]
  | checked e ih => rw [script, script, ih h.2]
  | call n args ih =>
    rw [script, script, scripts_congr fun a ha => ih a ha (everyItem_iff.1 h.2 a ha)]
  | list items ih =>
    rw [script, script, scripts_congr fun a ha => ih a ha (everyItem_iff.1 h.2 a ha)]
  | map entries ih =>
    have hentries := entryScripts_congr fun x hx =>
      ⟨(ih x hx).1 (everyEntry_iff.1 h.2 x hx).1, (ih x hx).2 (everyEntry_iff.1 h.2 x hx).2⟩
    rw [script, script, hentries]

end Expr

namespace Node

/-- The filters in the expressions of a node itself are bound to the same functions both times. -/
def IsBoundAlike (function function' : String → String) (n : Node) : Prop :=
  ∀ e ∈ n.exprs, e.Every (Expr.IsBoundAlike function function')

/-- None of some filters is applied in the expressions of a node itself. -/
def Avoids (filters : List String) (n : Node) : Prop :=
  ∀ e ∈ n.exprs, e.Every (Expr.Avoids filters)

end Node

theorem Phrase.frames_isBoundAlike (options : Options) (function function' : String → String) :
    Frames options (Expr.IsBoundAlike function function') :=
  ⟨⟨fun _ => trivial, fun _ => trivial, fun _ _ _ => trivial⟩, fun _ => trivial,
    fun _ _ _ => trivial⟩

variable {env env' : Environment}

namespace Evaluator

variable (translator : Translator)

theorem callFunction_congr (h : env'.options = env.options) (name : String) (args : List Value) :
    (Evaluator.mk env' translator).callFunction name args =
      (Evaluator.mk env translator).callFunction name args := by
  unfold callFunction
  rw [h]
  rfl

variable {scopes : Scopes}

theorem evalItems_congr {es : List Expr}
    (h : ∀ e ∈ es, (Evaluator.mk env' translator).eval scopes e =
      (Evaluator.mk env translator).eval scopes e) :
    (Evaluator.mk env' translator).evalItems scopes es =
      (Evaluator.mk env translator).evalItems scopes es := by
  induction es with
  | nil => rfl
  | cons e es ih =>
    obtain ⟨he, hes⟩ := List.forall_mem_cons.1 h
    rw [evalItems, evalItems, he, ih hes]

theorem evalEntries_congr {es : List (Expr × Expr)}
    (h : ∀ x ∈ es,
      (Evaluator.mk env' translator).eval scopes x.1 =
          (Evaluator.mk env translator).eval scopes x.1 ∧
        (Evaluator.mk env' translator).eval scopes x.2 =
          (Evaluator.mk env translator).eval scopes x.2) :
    (Evaluator.mk env' translator).evalEntries scopes es =
      (Evaluator.mk env translator).evalEntries scopes es := by
  induction es with
  | nil => rfl
  | cons x es ih =>
    obtain ⟨⟨hkey, he⟩, hes⟩ := List.forall_mem_cons.1 h
    rw [evalEntries, evalEntries, hkey, he, ih hes]

/-- The value of an expression depends on the functions of the filters that are applied. -/
theorem eval_congr (hoptions : env'.options = env.options) {e : Expr}
    (h : e.Every (Expr.IsBoundAlike env.function env'.function)) :
    (Evaluator.mk env' translator).eval scopes e =
      (Evaluator.mk env translator).eval scopes e := by
  induction e using Expr.induction with
  | literal a => rfl
  | name n => rfl
  | member e key ih => rw [eval, eval, ih h.2]
  | index e i ihe ihi => rw [eval, eval, ihe h.2.1, ihi h.2.2]
  | binary l op r ihl ihr => rw [eval, eval, ihl h.2.1, ihr h.2.2]
  | unary op e ih => rw [eval, eval, ih h.2]
  | filter e n args ihe ih =>
    have hn : env'.function n = env.function n := h.1
    have hargs := evalItems_congr translator fun a ha => ih a ha (Expr.everyItem_iff.1 h.2.2 a ha)
    simp only [eval, ihe h.2.1, hargs, hn, callFunction_congr translator hoptions]
  | checked e ih => rw [eval, eval, ih h.2]
  | call n args ih =>
    have hargs := evalItems_congr translator fun a ha => ih a ha (Expr.everyItem_iff.1 h.2 a ha)
    simp only [eval, hargs, callFunction_congr translator hoptions]
  | list items ih =>
    rw [eval, eval, evalItems_congr translator fun a ha => ih a ha (Expr.everyItem_iff.1 h.2 a ha)]
  | map entries ih =>
    have hentries := evalEntries_congr translator fun x hx =>
      ⟨(ih x hx).1 (Expr.everyEntry_iff.1 h.2 x hx).1,
        (ih x hx).2 (Expr.everyEntry_iff.1 h.2 x hx).2⟩
    rw [eval, eval, hentries]

theorem evalPrinted_congr (hoptions : env'.options = env.options) {e : Expr}
    (h : e.Every (Expr.IsBoundAlike env.function env'.function)) :
    (Evaluator.mk env' translator).evalPrinted scopes e =
      (Evaluator.mk env translator).evalPrinted scopes e := by
  rw [evalPrinted, evalPrinted, eval_congr translator hoptions h]

theorem renderNodes_congr {ns : List Node}
    (h : ∀ n ∈ ns, (Evaluator.mk env' translator).renderNode n =
      (Evaluator.mk env translator).renderNode n) :
    (Evaluator.mk env' translator).renderNodes ns =
      (Evaluator.mk env translator).renderNodes ns := by
  induction ns with
  | nil => rfl
  | cons n ns ih =>
    obtain ⟨hn, hns⟩ := List.forall_mem_cons.1 h
    rw [renderNodes, renderNodes, hn, ih hns]

theorem renderCases_congr (hoptions : env'.options = env.options)
    {cases : List (Expr × List Node)} {fallback : Rendering String}
    (hconditions : ∀ c ∈ cases, c.1.Every (Expr.IsBoundAlike env.function env'.function))
    (hbodies : ∀ c ∈ cases, ∀ n ∈ c.2, (Evaluator.mk env' translator).renderNode n =
      (Evaluator.mk env translator).renderNode n) :
    (Evaluator.mk env' translator).renderCases cases fallback =
      (Evaluator.mk env translator).renderCases cases fallback := by
  induction cases with
  | nil => rfl
  | cons c cases ih =>
    obtain ⟨hcondition, hconditions⟩ := List.forall_mem_cons.1 hconditions
    obtain ⟨hbody, hbodies⟩ := List.forall_mem_cons.1 hbodies
    simp only [renderCases, eval_congr translator hoptions hcondition,
      renderNodes_congr translator hbody,
      ih hconditions hbodies]

/-- What a node renders depends on the functions of the filters that are applied in it. -/
theorem renderNode_congr (hoptions : env'.options = env.options) {n : Node}
    (h : n.Every (Node.IsBoundAlike env.function env'.function)) :
    (Evaluator.mk env' translator).renderNode n = (Evaluator.mk env translator).renderNode n := by
  induction n using Node.induction with
  | text s => rfl
  | print e =>
    have he : e.Every _ := h.self e List.mem_cons_self
    simp only [renderNode, evalPrinted_congr translator hoptions he]
  | loop target items body ih =>
    obtain ⟨hitems, hbody⟩ := Node.every_loop.1 h
    have hitems' : items.Every _ := hitems items List.mem_cons_self
    have hbody' := renderNodes_congr translator fun n hn => ih n hn (hbody n hn)
    simp only [renderNode, hbody', eval_congr translator hoptions hitems']
  | branch cases otherwise ihcases ihotherwise =>
    obtain ⟨hconditions, hcases, hotherwise⟩ := Node.every_branch.1 h
    have hfallback : (Evaluator.mk env' translator).renderFallback otherwise =
        (Evaluator.mk env translator).renderFallback otherwise := by
      cases otherwise with
      | none => rfl
      | some body =>
        exact renderNodes_congr translator fun n hn =>
          ihotherwise body rfl n hn (hotherwise body rfl n hn)
    rw [renderNode, renderNode, hfallback]
    exact renderCases_congr translator hoptions
      (fun c hc => hconditions c.1 (List.mem_map.2 ⟨c, hc, rfl⟩))
      fun c hc n hn => ihcases c hc n hn (hcases c hc n hn)
  | phrase p _ =>
    cases hcall : p.call (.ofOptions env.options) with
    | error e => simp only [renderNode, hoptions, hcall]; rfl
    | ok call =>
      have hbound := Phrase.every_call (Phrase.frames_isBoundAlike _ _ _) hcall h
      have hcall' : p.call (.ofOptions env'.options) = .ok call := by rw [hoptions, hcall]
      rw [renderNode_phrase _ hcall', renderNode_phrase _ hcall]
      simp only [renderNode, evalPrinted_congr translator hoptions hbound]

end Evaluator

namespace Script

theorem nodes_congr {ns : List Node} (h : ∀ n ∈ ns, ∀ s, node env' n s = node env n s)
    (s : Script) : nodes env' ns s = nodes env ns s := by
  induction ns generalizing s with
  | nil => rfl
  | cons n ns ih =>
    obtain ⟨hn, hns⟩ := List.forall_mem_cons.1 h
    rw [nodes, nodes, hn s, funext (ih hns)]

theorem branches_congr {cases : List (Expr × List Node)}
    (hconditions : ∀ c ∈ cases, c.1.script env'.function = c.1.script env.function)
    (hbodies : ∀ c ∈ cases, ∀ n ∈ c.2, ∀ s, node env' n s = node env n s) (isFirst : Bool)
    (s : Script) : branches env' isFirst cases s = branches env isFirst cases s := by
  induction cases generalizing isFirst s with
  | nil => rfl
  | cons c cases ih =>
    obtain ⟨hcondition, hconditions⟩ := List.forall_mem_cons.1 hconditions
    obtain ⟨hbody, hbodies⟩ := List.forall_mem_cons.1 hbodies
    rw [branches, branches, hcondition, nodes_congr hbody,
      funext (ih hconditions hbodies false)]

/-- What is written for a node depends on the functions of the filters that are applied in it. -/
theorem node_congr (hoptions : env'.options = env.options) {n : Node}
    (h : n.Every (Node.IsBoundAlike env.function env'.function)) (s : Script) :
    node env' n s = node env n s := by
  induction n using Node.induction generalizing s with
  | text content => rfl
  | print e =>
    have he : e.Every _ := h.self e List.mem_cons_self
    rw [node, node, Expr.script_congr he]
  | loop target items body ih =>
    obtain ⟨hitems, hbody⟩ := Node.every_loop.1 h
    have hitems' : items.Every _ := hitems items List.mem_cons_self
    rw [node, node, Expr.script_congr hitems',
      nodes_congr fun n hn => ih n hn (hbody n hn)]
  | branch cases otherwise ihcases ihotherwise =>
    obtain ⟨hconditions, hcases, hotherwise⟩ := Node.every_branch.1 h
    have hscripts : ∀ c ∈ cases, c.1.script env'.function = c.1.script env.function :=
      fun c hc => Expr.script_congr (hconditions c.1 (List.mem_map.2 ⟨c, hc, rfl⟩))
    have hfallback : fallback env' otherwise = fallback env otherwise := by
      funext s
      cases otherwise with
      | none => rfl
      | some body =>
        exact nodes_congr (fun n hn => ihotherwise body rfl n hn (hotherwise body rfl n hn)) _
    rw [node, node, hfallback,
      branches_congr hscripts fun c hc n hn => ihcases c hc n hn (hcases c hc n hn)]
  | phrase p _ =>
    rw [node, node, phrase, phrase, hoptions]
    cases hcall : p.call (.ofOptions env.options) with
    | error e => rfl
    | ok call =>
      have hbound := Phrase.every_call (Phrase.frames_isBoundAlike _ _ _) hcall h
      simp only [Expr.script_congr hbound]

end Script

namespace Entries

variable {α : Type}

/-- Inserting entries for other names does not change a lookup. -/
theorem get?_foldl_insert_of_not_mem {es : List (String × α)} {name : String}
    (h : name ∉ es.map (·.1)) (acc : Entries α) :
    (es.foldl (fun acc e => acc.insert e.1 e.2) acc).get? name = acc.get? name := by
  induction es generalizing acc with
  | nil => rfl
  | cons e es ih =>
    rw [List.map_cons, List.mem_cons, not_or] at h
    rw [List.foldl_cons, ih h.2, get?_insert_of_ne h.1]

end Entries

namespace Environment

theorem extendedBy_add (env : Environment) {extension : Extension}
    (h : ∀ e ∈ extension.tags, env.tagRule? e.1 = none) :
    env.ExtendedBy (env.add extension) where
  options := rfl
  tagRule? := by
    intro name rule hrule
    have hname : name ∉ extension.tags.map (·.1) := by
      intro hmem
      obtain ⟨e, he, rfl⟩ := List.mem_map.1 hmem
      rw [h e he] at hrule
      cases hrule
    exact (Entries.get?_foldl_insert_of_not_mem hname env.tags).trans hrule

theorem function_add (env : Environment) {extension : Extension} {n : String}
    (h : n ∉ extension.filters.map (·.1)) : (env.add extension).function n = env.function n :=
  congrArg (Option.getD · n) (Entries.get?_foldl_insert_of_not_mem h env.filters)

theorem isBoundAlike_of_avoids (env : Environment) {extension : Extension} {n : Node}
    (h : n.Avoids (extension.filters.map (·.1))) :
    n.IsBoundAlike env.function (env.add extension).function := by
  refine fun e he => (h e he).mono fun e he => ?_
  cases e with
  | filter e m args => exact env.function_add he
  | _ => trivial

/-- Adding an extension is conservative. A template that was read is read as the same nodes, if none
of the tags of the extension had a rule, and is compiled and rendered as before, if no filter that
the extension binds is applied in it. -/
theorem add_conservative (env : Environment) (extension : Extension) {source : String}
    {ns : List Node} (hparse : env.parse source = .ok ns)
    (htags : ∀ e ∈ extension.tags, env.tagRule? e.1 = none)
    (hfilters : ∀ n ∈ ns, n.Every (Node.Avoids (extension.filters.map (·.1)))) :
    (env.add extension).parse source = .ok ns ∧
      (env.add extension).compile source = env.compile source ∧
      ∀ context translator, (env.add extension).render source context translator =
        env.render source context translator := by
  have hparse' := (env.extendedBy_add htags).parse hparse
  have hbound : ∀ n ∈ ns,
      n.Every (Node.IsBoundAlike env.function (env.add extension).function) :=
    fun n hn => (hfilters n hn).mono fun _ h => env.isBoundAlike_of_avoids h
  have hoptions : (env.add extension).options = env.options := rfl
  refine ⟨hparse', ?_, fun context translator => ?_⟩
  · have hnodes := Script.nodes_congr (fun n hn => Script.node_congr hoptions (hbound n hn)) {}
    rw [compile_of_parse hparse', compile_of_parse hparse, compileNodes, compileNodes, hnodes]
  · have hnodes := Evaluator.renderNodes_congr translator fun n hn =>
      Evaluator.renderNode_congr translator hoptions (hbound n hn)
    rw [render_of_parse hparse', render_of_parse hparse, renderNodes, renderNodes, hnodes]

/-- Two more tags, one of them named like a loop, do not get in the way of the first. -/
theorem add_conservative_wrap :
    let env := (standard {}).add ⟨"boxes", [("box", .wrap)], [("size", "length")]⟩
    let notes : Extension := ⟨"notes", [("note", .raw), ("for", .print)], [("low", "lower")]⟩
    ∃ ns, env.parse "{% box %}{{ x|size }}{% endbox %}" = .ok ns ∧
      (∀ e ∈ notes.tags, env.tagRule? e.1 = none) ∧
      (∀ n ∈ ns, n.Every (Node.Avoids (notes.filters.map (·.1)))) ∧
      (env.add notes).parse "{% box %}{{ x|size }}{% endbox %}" = .ok ns ∧
      (env.add notes).compile "{% box %}{{ x|size }}{% endbox %}" =
        .ok "if true \x7b\n    emit(escape(length(x)));\n\x7d\n" := by
  have hparse : ((standard {}).add ⟨"boxes", [("box", .wrap)], [("size", "length")]⟩).parse
      "{% box %}{{ x|size }}{% endbox %}" = .ok [.branch [(.literal (.bool true),
        [.print (.filter (.filter (.name "x") "size" []) "escape" [])])] none] := by
    decide +kernel
  have hscript : ((standard {}).add ⟨"boxes", [("box", .wrap)], [("size", "length")]⟩).compile
      "{% box %}{{ x|size }}{% endbox %}" =
        .ok "if true \x7b\n    emit(escape(length(x)));\n\x7d\n" := by
    rw [compile_of_parse hparse]
    decide +kernel
  intro env notes
  have htags : ∀ e ∈ notes.tags, env.tagRule? e.1 = none := by decide
  refine ⟨_, hparse, htags, ?_⟩
  have hfilters : ∀ n ∈ [Node.branch [(.literal (.bool true),
      [.print (.filter (.filter (.name "x") "size" []) "escape" [])])] none],
      n.Every (Node.Avoids (notes.filters.map (·.1))) := by
    simp [notes, Node.Avoids, Node.exprs, Expr.Every, Expr.Avoids, Expr.everyItem_iff]
  obtain ⟨hparse', hcompile, _⟩ := env.add_conservative notes hparse htags hfilters
  exact ⟨hfilters, hparse', hcompile.trans hscript⟩

end Environment

end Polyglot
