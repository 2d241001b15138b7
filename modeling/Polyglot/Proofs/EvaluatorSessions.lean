import Polyglot.Environment
import Polyglot.Proofs.ScopeStacks
import Polyglot.Template

/-!
One evaluator used for several steps. Rendering puts scopes on the stack of the evaluator and takes
them off again, also where it stops in the middle of a loop, so that every step starts from the
stack of the first one: it gives what a fresh evaluator gives, whatever came before it.
-/
namespace Polyglot

/-- What an evaluator is asked to do. -/
inductive Step where
  | render (nodes : List Node)
  | eval (e : Expr)

/-- What comes of a step that succeeds. -/
inductive Outcome where
  | output (s : String)
  | value (v : Value)
  deriving DecidableEq

namespace Step

/-- A step of an evaluator with a stack of scopes, and the stack that it leaves. -/
def perform (m : Evaluator) (scopes : Scopes) : Step → Run Outcome × Scopes
  | render nodes => (.output <$> (m.renderNodes nodes scopes).1, (m.renderNodes nodes scopes).2)
  | eval e => (.value <$> m.eval scopes e, scopes)

/-- A step on its own, in a context. -/
def alone (env : Environment) (context : Entries Value) (translator : Translator) :
    Step → Run Outcome
  | render nodes => .output <$> env.renderNodes nodes context translator
  | eval e => .value <$> (Evaluator.mk env translator).eval [context] e

end Step

namespace Evaluator

variable (m : Evaluator)

/-- The steps in order, each with the stack of scopes that the one before it has left. A step that
fails does not end the session. -/
def session : List Step → Scopes → List (Run Outcome) × Scopes
  | [], scopes => ([], scopes)
  | step :: rest, scopes =>
    let r := step.perform m scopes
    let rs := session rest r.2
    (r.1 :: rs.1, rs.2)

theorem perform_restores (step : Step) (scopes : Scopes) : (step.perform m scopes).2 = scopes := by
  cases step with
  | render nodes => exact restores_renderNodes m nodes scopes
  | eval e => rfl

/-- Every step of a session gives what it gives from the first stack of scopes. -/
theorem session_eq_map (steps : List Step) (scopes : Scopes) :
    m.session steps scopes = (steps.map fun step => (step.perform m scopes).1, scopes) := by
  induction steps with
  | nil => rfl
  | cons step steps ih => rw [session, perform_restores, ih, List.map_cons]

theorem perform_alone (step : Step) (context : Entries Value) :
    (step.perform m [context]).1 = step.alone m.env context m.translator := by
  cases step <;> rfl

/-- An evaluator is left as it was found. Rendering any nodes from any stack of scopes ends with the
same stack, in success and in failure; so each step of a session gives the requests and the result
of a fresh evaluator for that step alone. -/
theorem session_eq_alone :
    (∀ nodes scopes, (m.renderNodes nodes scopes).2 = scopes) ∧
    ∀ steps context, m.session steps [context] =
      (steps.map (Step.alone m.env context m.translator), [context]) := by
  refine ⟨fun nodes scopes => restores_renderNodes m nodes scopes, fun steps context => ?_⟩
  have hsteps : (steps.map fun step => (step.perform m [context]).1) =
      steps.map (Step.alone m.env context m.translator) :=
    List.map_congr_left fun step _ => m.perform_alone step context
  rw [session_eq_map, hsteps]

end Evaluator

end Polyglot
