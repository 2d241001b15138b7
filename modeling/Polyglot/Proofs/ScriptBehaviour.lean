import Mathlib.Control.Monad.Basic
import Polyglot.Proofs.ReadNodes
import Polyglot.Proofs.ScriptDecoding

/-!
The script of a template determines what the template does. Two templates with the same script have
the same lowered nodes, because scripts are uniquely decodable, and lowering preserves what is
rendered and what the translator is asked for on the way.
-/
namespace Polyglot

namespace Expr

/-- No variable and no function is named `not`, and no filter is named like a constant or `not`. -/
def AvoidsReserved : Expr → Prop
  | name n => n ≠ "not"
  | call n _ => n ≠ "not"
  | filter _ n _ => reserved.contains n = false
  | _ => True

theorem isWord_of_ofName {n : String} (hn : Scanner.isIdentifier n = true)
    (hname : ofName n = name n) (hnot : n ≠ "not") : isWord n = true := by
  have hreserved : n ∉ reserved := by
    intro hmem
    simp only [reserved, List.mem_cons, List.not_mem_nil, or_false] at hmem
    rcases hmem with rfl | rfl | rfl | rfl | rfl
    · cases hname
    · cases hname
    · cases hname
    · cases hname
    · exact hnot rfl
  simp [isWord, hn, hreserved]

theorem not_reserved_of_isWord {n : String} (h : isWord n = true) :
    reserved.contains n = false := by
  simpa using (Bool.and_eq_true_iff.1 h).2

end Expr

/-- The functions that a project chooses can be called in a script. -/
structure Options.NamesWords (options : Options) : Prop where
  translate : Expr.isWord options.translateFunction = true
  translatePlural : Expr.isWord options.translatePluralFunction = true
  escape : Expr.isWord options.escapeFunction = true

namespace Environment

variable {options : Options}

theorem isWord_function (hwords : options.NamesWords) {n : String}
    (hn : Scanner.isIdentifier n = true) (hreserved : Expr.reserved.contains n = false) :
    Expr.isWord ((standard options).function n) = true := by
  rw [function_standard]
  split
  · exact hwords.translate
  · simp only [Expr.isWord, hn, hreserved, Bool.not_false, Bool.and_self]

/-- Expressions that were read and name no reserved words are writable. -/
theorem isWritable_of_isRead (hwords : options.NamesWords) {checks : Bool} {e : Expr}
    (hread : e.Every (Expr.IsRead checks)) (havoids : e.Every Expr.AvoidsReserved) :
    e.Every (Expr.IsWritable (standard options).function) := by
  refine (hread.and havoids).mono fun e he => ?_
  obtain ⟨hread, havoids⟩ := he
  cases e with
  | literal a => cases a <;> exact hread
  | name n => exact Expr.isWord_of_ofName hread.1 hread.2 havoids
  | member e key => exact hread
  | filter e n args => exact isWord_function hwords hread havoids
  | call n args => exact Expr.isWord_of_ofName hread.1 hread.2 havoids
  | _ => trivial

theorem isUnchecked_of_isRead {e : Expr} (h : e.Every (Expr.IsRead false)) :
    e.Every Expr.IsUnchecked :=
  h.mono fun e he => by cases e <;> first | exact absurd he (by decide) | trivial

/-- The expressions of a node that was read are unchecked, and writable unless they name reserved
words. -/
theorem exprs_of_isRead (hwords : options.NamesWords) (hsandboxed : options.sandboxed = false)
    {n : Node} (hread : n.IsRead (standard options))
    (havoids : ∀ e ∈ n.exprs, e.Every Expr.AvoidsReserved) :
    ∀ e ∈ n.exprs, e.Every Expr.IsUnchecked ∧
      e.Every (Expr.IsWritable (standard options).function) := by
  have hexpr : ∀ {e : Expr}, e.Every (Expr.IsRead (standard options).options.sandboxed) →
      e.Every Expr.AvoidsReserved →
      e.Every Expr.IsUnchecked ∧ e.Every (Expr.IsWritable (standard options).function) := by
    intro e he ha
    have he' : e.Every (Expr.IsRead false) := hsandboxed ▸ he
    exact ⟨isUnchecked_of_isRead he', isWritable_of_isRead hwords he' ha⟩
  intro e he
  rcases hread.exprs e he with hread | ⟨e', hread, rfl⟩
  · exact hexpr hread (havoids e he)
  · obtain ⟨hunchecked, hwritable⟩ := hexpr hread (every_of_printed (havoids _ he))
    have hescape := isWord_function hwords (Expr.isIdentifier_of_isWord hwords.escape)
      (Expr.not_reserved_of_isWord hwords.escape)
    have hchecked : ∀ e, options.sandboxed = true → (Expr.checked e).IsUnchecked := by
      intro e h
      rw [hsandboxed] at h
      cases h
    refine ⟨every_printed hunchecked (fun _ => trivial) hchecked, ?_⟩
    exact every_printed hwritable (fun _ => hescape) fun _ _ => trivial

theorem frames_isWritable (hwords : options.NamesWords) :
    Phrase.Frames options (Expr.IsWritable (standard options).function) where
  text _ := trivial
  list _ := trivial
  map _ := trivial
  filling n hn _ := by
    simp only [List.mem_cons, List.not_mem_nil, or_false] at hn
    rcases hn with rfl | rfl
    · exact hwords.escape
    · exact (by decide : Expr.isWord "abs" = true)
  translating n hn _ := by
    simp only [List.mem_cons, List.not_mem_nil, or_false] at hn
    rcases hn with rfl | rfl
    · exact hwords.translate
    · exact hwords.translatePlural

end Environment

namespace Script

variable {env : Environment}

/-- Some script goes on with the node. -/
def Compiles (env : Environment) (n : Node) : Prop := ∃ s t, node env n s = (.ok (), t)

theorem compiles_of_nodes {ns : List Node} {s t : Script} (h : nodes env ns s = (.ok (), t)) :
    ∀ n ∈ ns, Compiles env n := by
  induction ns generalizing s with
  | nil => exact fun _ hn => absurd hn List.not_mem_nil
  | cons n ns ih =>
    obtain ⟨u, hu, ht⟩ := ok_of_andThen h
    exact List.forall_mem_cons.2 ⟨⟨s, u, hu⟩, ih ht⟩

theorem compiles_of_branches {cases : List (Expr × List Node)} {isFirst : Bool} {s t : Script}
    (h : branches env isFirst cases s = (.ok (), t)) : ∀ c ∈ cases, ∀ n ∈ c.2, Compiles env n := by
  induction cases generalizing s isFirst with
  | nil => exact fun _ hc => absurd hc List.not_mem_nil
  | cons c cases ih =>
    obtain ⟨u, hu, ht⟩ := ok_of_andThen h
    exact List.forall_mem_cons.2 ⟨compiles_of_nodes hu, ih ht⟩

/-- Lowering makes statements of nodes that were read, if they have a script. -/
theorem isStatement_lowered
    (hframes : Phrase.Frames env.options (Expr.IsWritable env.function)) {n : Node}
    (hn : n.Every fun n => n.IsRead env ∧ ∀ e ∈ n.exprs, e.Every (Expr.IsWritable env.function))
    (h : Compiles env n) : (n.lowered env).Every (IsStatement env.function) := by
  induction n using Node.induction with
  | text s => exact .print ⟨trivial, trivial⟩
  | print e =>
    have he := hn.self.2 e List.mem_cons_self
    exact .print ⟨Expr.isWritable_lowered he, Expr.plain_lowered e⟩
  | loop target items body ih =>
    obtain ⟨⟨hread, hexprs⟩, hbody⟩ := Node.every_loop.1 hn
    obtain ⟨s, t, hst⟩ := h
    obtain ⟨u, hu, _⟩ := ok_of_andThen hst
    have hitems := hexprs items List.mem_cons_self
    refine .loop ⟨hread.1, Expr.isWritable_lowered hitems, Expr.plain_lowered items⟩ ?_
    rw [Node.loweredNodes_eq_map]
    intro m hm
    obtain ⟨n, hn, rfl⟩ := List.mem_map.1 hm
    exact ih n hn (hbody n hn) (compiles_of_nodes hu n hn)
  | branch cases otherwise ihcases ihotherwise =>
    obtain ⟨⟨hread, hexprs⟩, hcases, hotherwise⟩ := Node.every_branch.1 hn
    obtain ⟨s, t, hst⟩ := h
    obtain ⟨u, hu, hst⟩ := ok_of_andThen hst
    obtain ⟨v, hv, _⟩ := ok_of_andThen hst
    rw [Node.lowered, Node.loweredCases_eq_map]
    refine .branch ⟨by simpa using hread.1, fun c hc => ?_⟩ (fun c hc m hm => ?_)
      fun body hbody m hm => ?_
    · obtain ⟨c, hmem, rfl⟩ := List.mem_map.1 hc
      have hcondition := hexprs c.1 (List.mem_map.2 ⟨c, hmem, rfl⟩)
      exact ⟨Expr.isWritable_lowered hcondition, Expr.plain_lowered c.1⟩
    · obtain ⟨c, hmem, rfl⟩ := List.mem_map.1 hc
      rw [Node.loweredNodes_eq_map] at hm
      obtain ⟨n, hn, rfl⟩ := List.mem_map.1 hm
      exact ihcases c hmem n hn (hcases c hmem n hn) (compiles_of_branches hu c hmem n hn)
    · cases otherwise with
      | none => cases hbody
      | some otherwise =>
        cases hbody
        rw [Node.loweredNodes_eq_map] at hm
        obtain ⟨n, hn, rfl⟩ := List.mem_map.1 hm
        exact ihotherwise _ rfl n hn (hotherwise _ rfl n hn) (compiles_of_nodes hv n hn)
  | phrase p _ =>
    obtain ⟨s, t, hst⟩ := h
    rw [Node.lowered]
    split
    · next call hcall =>
      have hcall' := Phrase.every_call hframes hcall (hn.mono fun _ h => h.2)
      exact .print ⟨Expr.isWritable_lowered hcall', Expr.plain_lowered call⟩
    · next e hcall =>
      change phrase env p s = (.ok (), t) at hst
      simp [phrase, hcall] at hst

/-- Nodes with the same script are rendered in the same way. -/
theorem renderNodes_eq_of_written_eq (m : Evaluator)
    (hframes : Phrase.Frames m.env.options (Expr.IsWritable m.env.function)) {ns ms : List Node}
    (hns : ∀ n ∈ ns, n.Every fun n => n.IsRead m.env ∧ ∀ e ∈ n.exprs,
      e.Every Expr.IsUnchecked ∧ e.Every (Expr.IsWritable m.env.function))
    (hms : ∀ n ∈ ms, n.Every fun n => n.IsRead m.env ∧ ∀ e ∈ n.exprs,
      e.Every Expr.IsUnchecked ∧ e.Every (Expr.IsWritable m.env.function))
    {t u : Script} (ht : nodes m.env ns {} = (.ok (), t)) (hu : nodes m.env ms {} = (.ok (), u))
    (h : t.written = u.written) : m.renderNodes ns = m.renderNodes ms := by
  have hstatements : ∀ {ns : List Node} {t : Script}, (∀ n ∈ ns, n.Every fun n => n.IsRead m.env ∧
      ∀ e ∈ n.exprs, e.Every Expr.IsUnchecked ∧ e.Every (Expr.IsWritable m.env.function)) →
      nodes m.env ns {} = (.ok (), t) →
      (∀ n ∈ Node.loweredNodes m.env ns, n.Every (IsStatement m.env.function)) ∧
        Lays m.env.function t.written.toList (linesOf (Node.loweredNodes m.env ns)) ∧
        m.renderNodes (Node.loweredNodes m.env ns) = m.renderNodes ns := by
    intro ns t hns ht
    refine ⟨?_, ?_, ?_⟩
    · rw [Node.loweredNodes_eq_map]
      intro n hn
      obtain ⟨n, hmem, rfl⟩ := List.mem_map.1 hn
      refine isStatement_lowered hframes ((hns n hmem).mono fun n h => ?_)
        (compiles_of_nodes ht n hmem)
      exact ⟨h.1, fun e he => (h.2 e he).2⟩
    · obtain ⟨w, hw, hlays⟩ := appends_nodes (fun n _ _ _ hn => appends_node hn) ht
      rw [hw]
      simpa using hlays
    · exact m.renderNodes_lowered fun n hn => (hns n hn).mono fun n h e he => (h.2 e he).1
  obtain ⟨hns', hlays, hrender⟩ := hstatements hns ht
  obtain ⟨hms', hlays', hrender'⟩ := hstatements hms hu
  rw [← hrender, ← hrender', Lays.statements_unique hns' hms' (h ▸ hlays) hlays']

end Script

namespace Environment

theorem exists_of_compile {env : Environment} {source code : String} {ns : List Node}
    (hparse : env.parse source = .ok ns) (h : env.compile source = .ok code) :
    ∃ t, Script.nodes env ns {} = (.ok (), t) ∧ t.written = code := by
  rw [compile, hparse] at h
  change env.compileNodes ns = .ok code at h
  unfold compileNodes at h
  cases hr : Script.nodes env ns {} with
  | mk result t =>
    rw [hr] at h
    cases result with
    | error e => cases h
    | ok u =>
      cases h
      exact ⟨t, rfl, rfl⟩

/-- The script of a template determines what the template does: if two templates are compiled to the
same script, they have the same output or the same error and ask the translator the same. -/
theorem render_eq_of_compile_eq {options : Options} (hsandboxed : options.sandboxed = false)
    (hwords : options.NamesWords) {source source' code : String} {ns ns' : List Node}
    (hparse : (standard options).parse source = .ok ns)
    (hparse' : (standard options).parse source' = .ok ns')
    (havoids : ∀ n ∈ ns, n.Every fun n => ∀ e ∈ n.exprs, e.Every Expr.AvoidsReserved)
    (havoids' : ∀ n ∈ ns', n.Every fun n => ∀ e ∈ n.exprs, e.Every Expr.AvoidsReserved)
    (hcompile : (standard options).compile source = .ok code)
    (hcompile' : (standard options).compile source' = .ok code) (context : Entries Value)
    (translator : Translator) :
    (standard options).render source context translator =
      (standard options).render source' context translator := by
  have hread : ∀ {source : String} {ns : List Node}, (standard options).parse source = .ok ns →
      (∀ n ∈ ns, n.Every fun n => ∀ e ∈ n.exprs, e.Every Expr.AvoidsReserved) →
      ∀ n ∈ ns, n.Every fun n => n.IsRead (standard options) ∧ ∀ e ∈ n.exprs,
        e.Every Expr.IsUnchecked ∧ e.Every (Expr.IsWritable (standard options).function) := by
    intro source ns hparse havoids n hn
    refine ((isRead_of_parse hparse n hn).and (havoids n hn)).mono fun n h => ?_
    exact ⟨h.1, exprs_of_isRead hwords hsandboxed h.1 h.2⟩
  obtain ⟨t, ht, hwritten⟩ := exists_of_compile hparse hcompile
  obtain ⟨u, hu, hwritten'⟩ := exists_of_compile hparse' hcompile'
  have hrender := Script.renderNodes_eq_of_written_eq ⟨standard options, translator⟩
    (frames_isWritable hwords) (hread hparse havoids) (hread hparse' havoids') ht hu
    (hwritten.trans hwritten'.symm)
  rw [render_of_parse hparse, render_of_parse hparse', renderNodes, renderNodes, hrender]

/-- A filter and the call that it stands for. -/
theorem render_eq_of_compile_eq_filter :
    (standard {}).compile "{{ x|upper }}" = .ok "emit(escape(upper(x)));\n" ∧
      (standard {}).compile "{{ upper(x) }}" = .ok "emit(escape(upper(x)));\n" ∧
      ∀ context translator, (standard {}).render "{{ x|upper }}" context translator =
        (standard {}).render "{{ upper(x) }}" context translator := by
  have hparse : (standard {}).parse "{{ x|upper }}" =
      .ok [.print (.filter (.filter (.name "x") "upper" []) "escape" [])] := by decide +kernel
  have hparse' : (standard {}).parse "{{ upper(x) }}" =
      .ok [.print (.filter (.call "upper" [.name "x"]) "escape" [])] := by decide +kernel
  have hcompile : (standard {}).compile "{{ x|upper }}" = .ok "emit(escape(upper(x)));\n" := by
    rw [compile, hparse]
    decide +kernel
  have hcompile' : (standard {}).compile "{{ upper(x) }}" = .ok "emit(escape(upper(x)));\n" := by
    rw [compile, hparse']
    decide +kernel
  have hwords : ({} : Options).NamesWords := ⟨by decide, by decide, by decide⟩
  refine ⟨hcompile, hcompile', ?_⟩
  refine render_eq_of_compile_eq rfl hwords hparse hparse' ?_ ?_ hcompile hcompile'
  · simp [Node.exprs, Expr.Every, Expr.EveryItem, Expr.AvoidsReserved, Expr.reserved]
  · simp [Node.exprs, Expr.Every, Expr.EveryItem, Expr.AvoidsReserved, Expr.reserved]

end Environment

end Polyglot
