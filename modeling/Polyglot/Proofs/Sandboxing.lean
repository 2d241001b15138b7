import Polyglot.Proofs.ReadNodes
import Polyglot.Proofs.RunRules
import Polyglot.Proofs.SandboxedReading

/-!
Sandboxing only ever rejects. A check either ends a run or gives back the value that it looked at,
so an expression without its checks repeats every success of the expression with them; and so does
a template, which is read as the same tree without the checks.
-/
namespace Polyglot

namespace Run

variable {α β : Type}

/-- Where the first run succeeds, the second one is the same run. -/
def RepeatedBy (r r' : Run α) : Prop := ∀ a, r.result = .ok a → r' = r

theorem repeatedBy_refl (r : Run α) : r.RepeatedBy r := fun _ _ => rfl

theorem repeatedBy_bind {r r' : Run α} {next next' : α → Run β} (h : r.RepeatedBy r')
    (hnext : ∀ a, (next a).RepeatedBy (next' a)) :
    (r >>= next).RepeatedBy (r' >>= next') := by
  intro b hb
  cases hr : r.result with
  | error e =>
    rw [bind_of_error hr] at hb
    cases hb
  | ok a =>
    rw [bind_of_ok hr] at hb
    rw [h a hr, bind_of_ok hr, bind_of_ok hr, hnext a b hb]

/-- A run that only looks at a result before it gives it back is repeated without the look. -/
theorem repeatedBy_of_look {r r' : Run α} {look : α → Except Failure β} (h : r.RepeatedBy r') :
    (r >>= fun a => ofFailure (look a) >>= fun _ => Pure.pure a).RepeatedBy r' := by
  intro a ha
  cases hr : r.result with
  | error e =>
    rw [bind_of_error hr] at ha
    cases ha
  | ok a' =>
    rw [bind_of_ok hr] at ha ⊢
    rw [h a' hr]
    obtain ⟨requests, result⟩ := r
    cases hr
    cases hlook : look a' with
    | error failure =>
      rw [hlook] at ha
      cases ha
    | ok b => simp [ofFailure, Except.mapError, Bind.bind, bind, Pure.pure, pure]

end Run

namespace Rendering

variable {α β : Type}

/-- Where the first rendering succeeds, the second one does the same. -/
def RepeatedBy (x y : Rendering α) : Prop :=
  ∀ scopes a, (x scopes).1.result = .ok a → y scopes = x scopes

theorem repeatedBy_refl (x : Rendering α) : x.RepeatedBy x := fun _ _ _ => rfl

theorem repeatedBy_reading {run run' : Scopes → Run α}
    (h : ∀ scopes, (run scopes).RepeatedBy (run' scopes)) :
    (reading run).RepeatedBy (reading run') := by
  intro scopes a ha
  rw [reading, reading, h scopes a ha]

theorem repeatedBy_within {scope : Entries Value} {x y : Rendering α} (h : x.RepeatedBy y) :
    (within scope x).RepeatedBy (within scope y) := by
  intro scopes a ha
  rw [within, within, h (scope :: scopes) a ha]

theorem repeatedBy_bind {x y : Rendering α} {next next' : α → Rendering β} (h : x.RepeatedBy y)
    (hnext : ∀ a, (next a).RepeatedBy (next' a)) :
    (x >>= next).RepeatedBy (y >>= next') := by
  intro scopes b hb
  rcases hx : x scopes with ⟨⟨requests, e | a⟩, scopes'⟩
  · rw [bind_of_error hx] at hb
    cases hb
  · have hy : y scopes = (⟨requests, .ok a⟩, scopes') := (h scopes a (by rw [hx])).trans hx
    rw [bind_of_ok hx] at hb ⊢
    rw [bind_of_ok hy, hnext a scopes' b hb]

end Rendering

namespace Evaluator

variable {env : Environment} {translator : Translator}

/-- Where templates are evaluated that were read with checks or without them. -/
def sandboxing (env : Environment) (translator : Translator) (checks : Bool) : Evaluator :=
  ⟨env.sandboxing checks, translator⟩

theorem repeatedBy_evalItems {scopes : Scopes} {es : List Expr}
    (h : ∀ e ∈ es, ((sandboxing env translator true).eval scopes e).RepeatedBy
      ((sandboxing env translator false).eval scopes e.erased)) :
    ((sandboxing env translator true).evalItems scopes es).RepeatedBy
      ((sandboxing env translator false).evalItems scopes (Expr.erasedItems es)) := by
  induction es with
  | nil => exact Run.repeatedBy_refl _
  | cons e es ih =>
    obtain ⟨he, hes⟩ := List.forall_mem_cons.1 h
    refine Run.repeatedBy_bind he fun v => ?_
    exact Run.repeatedBy_bind (ih hes) fun vs => Run.repeatedBy_refl _

theorem repeatedBy_evalEntries {scopes : Scopes} {es : List (Expr × Expr)}
    (h : ∀ x ∈ es, ((sandboxing env translator true).eval scopes x.1).RepeatedBy
        ((sandboxing env translator false).eval scopes x.1.erased) ∧
      ((sandboxing env translator true).eval scopes x.2).RepeatedBy
        ((sandboxing env translator false).eval scopes x.2.erased)) :
    ((sandboxing env translator true).evalEntries scopes es).RepeatedBy
      ((sandboxing env translator false).evalEntries scopes (Expr.erasedEntries es)) := by
  induction es with
  | nil => exact Run.repeatedBy_refl _
  | cons x es ih =>
    obtain ⟨⟨hkey, he⟩, hes⟩ := List.forall_mem_cons.1 h
    refine Run.repeatedBy_bind hkey fun k => ?_
    refine Run.repeatedBy_bind (Run.repeatedBy_refl _) fun name => ?_
    refine Run.repeatedBy_bind he fun v => ?_
    exact Run.repeatedBy_bind (ih hes) fun _ => Run.repeatedBy_refl _

/-- Without its checks, an expression repeats every success. -/
theorem repeatedBy_eval (scopes : Scopes) (e : Expr) :
    ((sandboxing env translator true).eval scopes e).RepeatedBy
      ((sandboxing env translator false).eval scopes e.erased) := by
  induction e using Expr.induction with
  | literal a => exact Run.repeatedBy_refl _
  | name n => exact Run.repeatedBy_refl _
  | member e key ih => exact Run.repeatedBy_bind ih fun v => Run.repeatedBy_refl _
  | index e i ihe ihi =>
    refine Run.repeatedBy_bind ihe fun v => ?_
    exact Run.repeatedBy_bind ihi fun j => Run.repeatedBy_refl _
  | binary l op r ihl ihr =>
    refine Run.repeatedBy_bind ihl fun v => ?_
    exact Run.repeatedBy_bind ihr fun w => Run.repeatedBy_refl _
  | unary op e ih => exact Run.repeatedBy_bind ih fun v => Run.repeatedBy_refl _
  | filter e n args ihe ih =>
    refine Run.repeatedBy_bind ihe fun v => ?_
    exact Run.repeatedBy_bind (repeatedBy_evalItems ih) fun vs => Run.repeatedBy_refl _
  | checked e ih => exact Run.repeatedBy_of_look ih
  | call n args ih =>
    exact Run.repeatedBy_bind (repeatedBy_evalItems ih) fun vs => Run.repeatedBy_refl _
  | list items ih =>
    exact Run.repeatedBy_bind (repeatedBy_evalItems ih) fun vs => Run.repeatedBy_refl _
  | map entries ih =>
    exact Run.repeatedBy_bind (repeatedBy_evalEntries ih) fun es => Run.repeatedBy_refl _

theorem repeatedBy_evalPrinted (scopes : Scopes) (e : Expr) :
    ((sandboxing env translator true).evalPrinted scopes e).RepeatedBy
      ((sandboxing env translator false).evalPrinted scopes e.erased) :=
  Run.repeatedBy_bind (repeatedBy_eval scopes e) fun _ => Run.repeatedBy_refl _

theorem repeatedBy_renderNodes {ns : List Node}
    (h : ∀ n ∈ ns, ((sandboxing env translator true).renderNode n).RepeatedBy
      ((sandboxing env translator false).renderNode n.erased)) :
    ((sandboxing env translator true).renderNodes ns).RepeatedBy
      ((sandboxing env translator false).renderNodes (Node.erasedNodes ns)) := by
  induction ns with
  | nil => exact Rendering.repeatedBy_refl _
  | cons n ns ih =>
    obtain ⟨hn, hns⟩ := List.forall_mem_cons.1 h
    refine Rendering.repeatedBy_bind hn fun s => ?_
    exact Rendering.repeatedBy_bind (ih hns) fun t => Rendering.repeatedBy_refl _

theorem repeatedBy_turns {body body' : Rendering String} (h : body.RepeatedBy body')
    (target : String) (count turn : Nat) (items : List Value) :
    (turns target body count turn items).RepeatedBy (turns target body' count turn items) := by
  induction items generalizing turn with
  | nil => exact Rendering.repeatedBy_refl _
  | cons item items ih =>
    refine Rendering.repeatedBy_bind (Rendering.repeatedBy_within h) fun s => ?_
    exact Rendering.repeatedBy_bind (ih (turn + 1)) fun t => Rendering.repeatedBy_refl _

theorem repeatedBy_renderCases {cases : List (Expr × List Node)}
    {fallback fallback' : Rendering String}
    (h : ∀ c ∈ cases, ∀ n ∈ c.2, ((sandboxing env translator true).renderNode n).RepeatedBy
      ((sandboxing env translator false).renderNode n.erased))
    (hfallback : fallback.RepeatedBy fallback') :
    ((sandboxing env translator true).renderCases cases fallback).RepeatedBy
      ((sandboxing env translator false).renderCases (Node.erasedCases cases) fallback') := by
  induction cases with
  | nil => exact hfallback
  | cons c cases ih =>
    obtain ⟨condition, body⟩ := c
    obtain ⟨hbody, hcases⟩ := List.forall_mem_cons.1 h
    refine Rendering.repeatedBy_bind
      (Rendering.repeatedBy_reading fun scopes => repeatedBy_eval scopes condition) fun v => ?_
    by_cases hv : v.holds = true
    · rw [if_pos hv, if_pos hv]
      exact repeatedBy_renderNodes hbody
    · rw [if_neg hv, if_neg hv]
      exact ih hcases

theorem repeatedBy_renderFallback {otherwise : Option (List Node)}
    (h : ∀ body ∈ otherwise, ∀ n ∈ body,
      ((sandboxing env translator true).renderNode n).RepeatedBy
        ((sandboxing env translator false).renderNode n.erased)) :
    ((sandboxing env translator true).renderFallback otherwise).RepeatedBy
      ((sandboxing env translator false).renderFallback (Node.erasedFallback otherwise)) := by
  cases otherwise with
  | none => exact Rendering.repeatedBy_refl _
  | some body => exact repeatedBy_renderNodes (h body rfl)

/-- Without its checks, a node repeats every success. -/
theorem repeatedBy_renderNode {n : Node} (hn : n.Guarded) :
    ((sandboxing env translator true).renderNode n).RepeatedBy
      ((sandboxing env translator false).renderNode n.erased) := by
  induction n using Node.induction with
  | text s => exact Rendering.repeatedBy_refl _
  | print e => exact Rendering.repeatedBy_reading fun scopes => repeatedBy_evalPrinted scopes e
  | loop target items body ih =>
    have hbody := Node.guardedNodes_iff.1 hn.2
    refine Rendering.repeatedBy_bind
      (Rendering.repeatedBy_reading fun scopes => repeatedBy_eval scopes items) fun v => ?_
    split
    · refine repeatedBy_turns (repeatedBy_renderNodes fun n hmem => ?_) _ _ _ _
      exact ih n hmem (hbody n hmem)
    · exact Rendering.repeatedBy_refl _
    · exact Rendering.repeatedBy_refl _
  | branch cases otherwise ihcases ihotherwise =>
    obtain ⟨hcases, hotherwise⟩ := hn
    have hbodies := Node.guardedCases_iff.1 hcases
    refine repeatedBy_renderCases (fun c hc n hmem => ?_) (repeatedBy_renderFallback ?_)
    · exact ihcases c hc n hmem (Node.guardedNodes_iff.1 (hbodies c hc).2 n hmem)
    · intro body hbody n hmem
      obtain rfl : otherwise = some body := hbody
      exact ihotherwise body rfl n hmem (Node.guardedNodes_iff.1 hotherwise n hmem)
  | phrase p _ =>
    cases hcall : p.call (.ofOptions env.options) with
    | error e =>
      intro scopes a ha
      have hcall' : p.call (.ofOptions (sandboxing env translator true).env.options) = .error e :=
        hcall
      rw [renderNode, hcall'] at ha
      cases ha
    | ok call =>
      have herased := Phrase.call_erased hn hcall
      rw [renderNode_phrase (sandboxing env translator true) hcall, Node.erased,
        renderNode_phrase (sandboxing env translator false) herased]
      exact Rendering.repeatedBy_reading fun scopes => repeatedBy_evalPrinted scopes call

end Evaluator

namespace Environment

/-- A template that is rendered with checks is read without them as the same tree apart from the
checks, and rendered with the same output and the same requests. The tree that is read with checks
has one directly under every filter, and nowhere else. -/
theorem render_of_sandboxing {options : Options} {source : String} {context : Entries Value}
    {translator : Translator} {out : String}
    (h : ((standard { options with sandboxed := true }).render source context translator).result =
      .ok out) :
    ∃ ns, (standard { options with sandboxed := true }).parse source = .ok ns ∧
      (∀ n ∈ ns, n.Guarded) ∧
      (standard { options with sandboxed := false }).parse source = .ok (ns.map Node.erased) ∧
      (standard { options with sandboxed := false }).render source context translator =
        (standard { options with sandboxed := true }).render source context translator := by
  cases hparse : (standard { options with sandboxed := true }).parse source with
  | error e =>
    rw [render, hparse] at h
    cases h
  | ok ns =>
    obtain ⟨hguarded, herased⟩ := parse_sandboxing (standard options) hparse
    have hnodes := Node.guardedNodes_iff.1 hguarded
    replace herased : (standard { options with sandboxed := false }).parse source =
        .ok (ns.map Node.erased) := by
      rw [← Node.erasedNodes_eq_map]
      exact herased
    refine ⟨ns, rfl, hnodes, herased, ?_⟩
    rw [render_of_parse hparse] at h ⊢
    rw [render_of_parse herased, ← Node.erasedNodes_eq_map]
    have hrepeated : ((Evaluator.sandboxing (standard options) translator true).renderNodes
        ns).RepeatedBy ((Evaluator.sandboxing (standard options) translator false).renderNodes
          (Node.erasedNodes ns)) :=
      Evaluator.repeatedBy_renderNodes fun n hn => Evaluator.repeatedBy_renderNode (hnodes n hn)
    exact congrArg Prod.fst (hrepeated [context] out h)

/-- A filter that translates, with two checks in the tree that is read with checks. -/
theorem render_of_sandboxing_filter :
    (standard { sandboxed := true }).render "{{ x|trans }}" [("x", .text "a")] Translator.echo =
        ⟨[.single "a" ""], .ok "&lt;&gt;a"⟩ ∧
      (standard { sandboxed := false }).parse "{{ x|trans }}" =
        .ok [.print (.filter (.filter (.name "x") "trans" []) "escape" [])] ∧
      (standard { sandboxed := false }).render "{{ x|trans }}" [("x", .text "a")]
        Translator.echo = ⟨[.single "a" ""], .ok "&lt;&gt;a"⟩ := by
  have hparse : (standard { sandboxed := true }).parse "{{ x|trans }}" = .ok
      [.print (.filter (.checked (.filter (.checked (.name "x")) "trans" [])) "escape" [])] := by
    decide +kernel
  have hrun : (standard { sandboxed := true }).render "{{ x|trans }}" [("x", .text "a")]
      Translator.echo = ⟨[.single "a" ""], .ok "&lt;&gt;a"⟩ := by
    rw [render_of_parse hparse]
    decide +kernel
  obtain ⟨ns, hns, _, herased, hrender⟩ :=
    @render_of_sandboxing {} _ _ _ _ (congrArg Run.result hrun)
  rw [hparse] at hns
  cases hns
  exact ⟨hrun, herased, hrender.trans hrun⟩

end Environment

end Polyglot
