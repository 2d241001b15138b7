import Polyglot.Proofs.JoinedTemplates

/-!
Rendering templates one after the other. The stack of scopes is the same after the first as before
it, so that the second is rendered as if it stood alone: the output of both is one output after the
other, and the translator is asked for the texts of the first and then for those of the second.
-/
namespace Polyglot

namespace Run

variable {α β : Type} {r r' : Run α}

theorem requests_bind_pure (r : Run α) (f : α → β) :
    (r >>= fun a => Pure.pure (f a)).requests = r.requests := by
  cases hr : r.result with
  | ok a =>
    rw [bind_of_ok hr]
    exact List.append_nil r.requests
  | error e => rw [bind_of_error hr]

theorem bind_pure_eq_ok_iff {f : α → β} {b : β} :
    (r >>= fun a => Pure.pure (f a)).result = .ok b ↔ ∃ a, r.result = .ok a ∧ b = f a := by
  cases hr : r.result with
  | ok a =>
    rw [bind_of_ok hr]
    constructor
    · rintro ⟨⟩
      exact ⟨a, rfl, rfl⟩
    · rintro ⟨_, ⟨⟩, rfl⟩
      rfl
  | error e =>
    rw [bind_of_error hr]
    constructor
    · exact fun h => nomatch h
    · rintro ⟨_, ⟨⟩, _⟩

/-! Runs that are the same apart from lines. -/

theorem requests_eq_of_unlined (h : r'.unlined = r.unlined) : r'.requests = r.requests := by
  have hrequests := congrArg Run.requests h
  exact hrequests

theorem eq_ok_iff_of_unlined (h : r'.unlined = r.unlined) (a : α) :
    r'.result = .ok a ↔ r.result = .ok a := by
  have hresult : r'.result.mapError Error.unlined = r.result.mapError Error.unlined :=
    congrArg Run.result h
  cases hr : r.result with
  | ok b =>
    cases hr' : r'.result with
    | ok b' => rw [hr, hr'] at hresult; cases hresult; rfl
    | error e' => rw [hr, hr'] at hresult; cases hresult
  | error e =>
    cases hr' : r'.result with
    | ok b' => rw [hr, hr'] at hresult; cases hresult
    | error e' => exact ⟨fun h => (nomatch h), fun h => (nomatch h)⟩

theorem exists_error_of_unlined (h : r'.unlined = r.unlined) {e : Error}
    (hr : r.result = .error e) : ∃ e', r'.result = .error e' ∧ e'.unlined = e.unlined := by
  have hresult : r'.result.mapError Error.unlined = r.result.mapError Error.unlined :=
    congrArg Run.result h
  rw [hr] at hresult
  cases hr' : r'.result with
  | ok b' => rw [hr'] at hresult; cases hresult
  | error e' =>
    rw [hr'] at hresult
    exact ⟨e', rfl, Except.error.inj hresult⟩

end Run

namespace Environment

/-- The nodes that come second see the scopes that the first have left as they were. -/
theorem renderNodes_append (env : Environment) (ns ms : List Node) (context : Entries Value)
    (translator : Translator) :
    env.renderNodes (ns ++ ms) context translator = do
      let s ← env.renderNodes ns context translator
      let t ← env.renderNodes ms context translator
      return s ++ t := by
  have hns := Evaluator.restores_renderNodes ⟨env, translator⟩ ns
  have hms := Evaluator.restores_renderNodes ⟨env, translator⟩ ms
  rw [renderNodes, Evaluator.renderNodes_append, hns.run_bind]
  refine congrArg (env.renderNodes ns context translator >>= ·) (funext fun s => ?_)
  rw [hms.run_bind]
  rfl

theorem unlined_renderNodes_congr (env : Environment) {ns ns' : List Node}
    (h : Node.shown ns' = Node.shown ns)
    (context : Entries Value) (translator : Translator) :
    (env.renderNodes ns' context translator).unlined =
      (env.renderNodes ns context translator).unlined :=
  congrArg Prod.fst (congrFun (congrFun h ⟨env, translator⟩) [context])

/-- Rendering is compositional in the source. Of two templates that can be read, the first followed
by the second can be read, unless a tag opens or a line break is dropped where they meet; its output
is that of the first followed by that of the second, and it fails if one of them does. -/
theorem render_append {options : Options} {a b : String} {na nb : List Node}
    (ha : (standard options).parse a = .ok na) (hb : (standard options).parse b = .ok nb)
    (hseam : ¬ (a.toList.getLast? = some '\x7b' ∧
      (b.toList.head? = some '\x7b' ∨ b.toList.head? = some '%')))
    (hbreak : options.trimBlocks = false ∨
      ¬ ['\n'] <+: b.toList ∧ ¬ ['\r', '\n'] <+: b.toList) :
    (∃ ms, (standard options).parse (a ++ b) = .ok ms) ∧ ∀ context translator,
      (∀ x, ((standard options).render a context translator).result = .ok x →
        ((standard options).render (a ++ b) context translator).requests =
          ((standard options).render a context translator).requests ++
            ((standard options).render b context translator).requests ∧
        ∀ z, ((standard options).render (a ++ b) context translator).result = .ok z ↔
          ∃ y, ((standard options).render b context translator).result = .ok y ∧ z = x ++ y) ∧
      ∀ e, ((standard options).render a context translator).result = .error e →
        ((standard options).render (a ++ b) context translator).requests =
          ((standard options).render a context translator).requests ∧
        ∃ e', ((standard options).render (a ++ b) context translator).result = .error e' ∧
          e'.unlined = e.unlined := by
  obtain ⟨ms, hms, hshown⟩ := exists_parse_append ha hb hseam hbreak
  refine ⟨⟨ms, hms⟩, fun context translator => ?_⟩
  rw [render_of_parse ha, render_of_parse hb, render_of_parse hms]
  have hrun := unlined_renderNodes_congr (standard options) hshown context translator
  rw [renderNodes_append] at hrun
  have hrequests := Run.requests_eq_of_unlined hrun
  refine ⟨fun x hx => ?_, fun e he => ?_⟩
  · rw [Run.bind_of_ok hx, Run.requests_bind_pure] at hrequests
    refine ⟨hrequests, fun z => ?_⟩
    rw [Run.eq_ok_iff_of_unlined hrun, Run.bind_of_ok hx]
    exact Run.bind_pure_eq_ok_iff
  · rw [Run.bind_of_error he] at hrequests
    refine ⟨hrequests, Run.exists_error_of_unlined hrun ?_⟩
    rw [Run.bind_of_error he]

/-- A text that ends in an open brace goes on in the next template, and each of the two asks for its
own phrase. -/
theorem render_append_brace :
    (standard {}).render ("{% trans from d x %}, \x7b" ++ " {% trans from d y %}")
        [("d", .text "m"), ("x", .text "Hi"), ("y", .text "Bo")] Translator.echo =
      ⟨[.single "Hi" "m", .single "Bo" "m"], .ok "<m>Hi, \x7b <m>Bo"⟩ := by
  have ha : (standard {}).parse "{% trans from d x %}, \x7b" =
      .ok [.phrase ⟨.inline (.name "x"), .name "d", none, none, 1⟩, .text ", \x7b"] := by
    decide +kernel
  have hb : (standard {}).parse " {% trans from d y %}" =
      .ok [.text " ", .phrase ⟨.inline (.name "y"), .name "d", none, none, 1⟩] := by
    decide +kernel
  have hrendera : (standard {}).render "{% trans from d x %}, \x7b"
        [("d", .text "m"), ("x", .text "Hi"), ("y", .text "Bo")] Translator.echo =
      ⟨[.single "Hi" "m"], .ok "<m>Hi, \x7b"⟩ := by
    rw [render_of_parse ha]
    decide +kernel
  have hrenderb : (standard {}).render " {% trans from d y %}"
        [("d", .text "m"), ("x", .text "Hi"), ("y", .text "Bo")] Translator.echo =
      ⟨[.single "Bo" "m"], .ok " <m>Bo"⟩ := by
    rw [render_of_parse hb]
    decide +kernel
  have hboth := (render_append ha hb (by decide) (by decide)).2
    [("d", .text "m"), ("x", .text "Hi"), ("y", .text "Bo")] Translator.echo
  rw [hrendera, hrenderb] at hboth
  obtain ⟨hrequests, hresult⟩ := hboth.1 "<m>Hi, \x7b" rfl
  have hok := (hresult "<m>Hi, \x7b <m>Bo").2 ⟨" <m>Bo", rfl, rfl⟩
  generalize (standard {}).render ("{% trans from d x %}, \x7b" ++ " {% trans from d y %}") _ _ = r
    at hrequests hok ⊢
  obtain ⟨requests, result⟩ := r
  cases hrequests
  cases hok
  rfl

end Environment

end Polyglot
