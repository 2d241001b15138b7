import Polyglot.Proofs.RunRules

/-!
How evaluation fails. No expression ends in an error of any kind but a failure of rendering, however
its operands and arguments fail, and whatever a translator answers.
-/
namespace Polyglot

namespace Run

variable {α β : Type}

/-- The run succeeds or ends in a failure of rendering. -/
def FailsInRendering (r : Run α) : Prop :=
  ∀ e, r.result = .error e → ∃ failure, e = .rendering failure

theorem failsInRendering_pure (a : α) : (Pure.pure a : Run α).FailsInRendering :=
  fun _ h => nomatch h

theorem failsInRendering_fail (failure : Failure) : (fail failure : Run α).FailsInRendering := by
  intro e he
  cases he
  exact ⟨failure, rfl⟩

theorem failsInRendering_ofFailure (result : Except Failure α) :
    (ofFailure result).FailsInRendering := by
  intro e he
  cases result with
  | error failure =>
    cases he
    exact ⟨failure, rfl⟩
  | ok a => cases he

theorem failsInRendering_ask (translator : Translator) (request : Request) :
    (ask translator request).FailsInRendering :=
  fun _ h => nomatch h

theorem failsInRendering_bind {r : Run α} {next : α → Run β} (h : r.FailsInRendering)
    (hnext : ∀ a, (next a).FailsInRendering) : (r >>= next).FailsInRendering := by
  intro e he
  cases hr : r.result with
  | error e' =>
    rw [bind_of_error hr] at he
    cases he
    exact h e hr
  | ok a =>
    rw [bind_of_ok hr] at he
    exact hnext a e he

end Run

namespace Rendering

variable {α β : Type}

/-- The rendering succeeds or ends in a failure of rendering, whatever the scopes are. -/
def FailsInRendering (x : Rendering α) : Prop := ∀ scopes, (x scopes).1.FailsInRendering

theorem failsInRendering_pure (a : α) : (pure a : Rendering α).FailsInRendering :=
  fun _ => Run.failsInRendering_pure a

theorem failsInRendering_reading {run : Scopes → Run α}
    (h : ∀ scopes, (run scopes).FailsInRendering) : (reading run).FailsInRendering :=
  h

theorem failsInRendering_within {x : Rendering α} (h : x.FailsInRendering)
    (scope : Entries Value) : (within scope x).FailsInRendering :=
  fun scopes => h (scope :: scopes)

theorem failsInRendering_bind {x : Rendering α} {next : α → Rendering β} (h : x.FailsInRendering)
    (hnext : ∀ a, (next a).FailsInRendering) : (x >>= next).FailsInRendering := by
  intro scopes e he
  rcases hx : x scopes with ⟨⟨requests, e' | a⟩, scopes'⟩
  · rw [bind_of_error hx] at he
    cases he
    exact h scopes e (by rw [hx])
  · rw [bind_of_ok hx] at he
    exact hnext a scopes' e he

end Rendering

namespace Evaluator

open Run

variable (m : Evaluator)

theorem failsInRendering_printed (v : Value) : (printed v).FailsInRendering :=
  failsInRendering_ofFailure _

theorem failsInRendering_answer (request : Request) (last : Option Value) :
    (m.answer request last).FailsInRendering := by
  refine failsInRendering_bind (failsInRendering_ask _ _) fun translated => ?_
  exact failsInRendering_bind (failsInRendering_ofFailure _) fun rs => failsInRendering_pure _

theorem failsInRendering_translate (args : List Value) :
    (m.translate args).FailsInRendering := by
  refine failsInRendering_bind (failsInRendering_printed _) fun message => ?_
  exact failsInRendering_bind (failsInRendering_printed _) fun domain =>
    m.failsInRendering_answer _ _

theorem failsInRendering_translatePlural (args : List Value) :
    (m.translatePlural args).FailsInRendering := by
  unfold translatePlural
  split
  · refine failsInRendering_bind (failsInRendering_printed _) fun singular => ?_
    refine failsInRendering_bind (failsInRendering_printed _) fun plural => ?_
    refine failsInRendering_bind (failsInRendering_printed _) fun domain => ?_
    exact failsInRendering_bind (failsInRendering_ofFailure _) fun n =>
      m.failsInRendering_answer _ _
  · exact failsInRendering_fail _

theorem failsInRendering_callFunction (name : String) (args : List Value) :
    (m.callFunction name args).FailsInRendering := by
  unfold callFunction
  split
  · exact m.failsInRendering_translate args
  · exact m.failsInRendering_translatePlural args
  · exact failsInRendering_ofFailure _
  · exact failsInRendering_fail _

variable {m} {scopes : Scopes}

theorem failsInRendering_evalItems {es : List Expr}
    (h : ∀ e ∈ es, (m.eval scopes e).FailsInRendering) :
    (m.evalItems scopes es).FailsInRendering := by
  induction es with
  | nil => exact failsInRendering_pure _
  | cons e es ih =>
    obtain ⟨he, hes⟩ := List.forall_mem_cons.1 h
    refine failsInRendering_bind he fun v => ?_
    exact failsInRendering_bind (ih hes) fun vs => failsInRendering_pure _

theorem failsInRendering_evalEntries {es : List (Expr × Expr)}
    (h : ∀ x ∈ es, (m.eval scopes x.1).FailsInRendering ∧ (m.eval scopes x.2).FailsInRendering) :
    (m.evalEntries scopes es).FailsInRendering := by
  induction es with
  | nil => exact failsInRendering_pure _
  | cons x es ih =>
    obtain ⟨⟨hkey, he⟩, hes⟩ := List.forall_mem_cons.1 h
    refine failsInRendering_bind hkey fun k => ?_
    refine failsInRendering_bind (failsInRendering_printed _) fun name => ?_
    refine failsInRendering_bind he fun v => ?_
    exact failsInRendering_bind (ih hes) fun vs => failsInRendering_pure _

variable (m scopes)

/-- Every error of an expression is a failure of rendering. -/
theorem failsInRendering_eval (e : Expr) : (m.eval scopes e).FailsInRendering := by
  induction e using Expr.induction with
  | literal a => exact failsInRendering_pure _
  | name n => exact failsInRendering_pure _
  | member e key ih => exact failsInRendering_bind ih fun v => failsInRendering_ofFailure _
  | index e i ihe ihi =>
    refine failsInRendering_bind ihe fun v => ?_
    exact failsInRendering_bind ihi fun j => failsInRendering_ofFailure _
  | binary l op r ihl ihr =>
    refine failsInRendering_bind ihl fun v => ?_
    exact failsInRendering_bind ihr fun w => failsInRendering_ofFailure _
  | unary op e ih => exact failsInRendering_bind ih fun v => failsInRendering_ofFailure _
  | filter e n args ihe ih =>
    refine failsInRendering_bind ihe fun v => ?_
    exact failsInRendering_bind (failsInRendering_evalItems ih) fun vs =>
      m.failsInRendering_callFunction _ _
  | checked e ih =>
    refine failsInRendering_bind ih fun v => ?_
    exact failsInRendering_bind (failsInRendering_printed _) fun _ => failsInRendering_pure _
  | call n args ih =>
    exact failsInRendering_bind (failsInRendering_evalItems ih) fun vs =>
      m.failsInRendering_callFunction _ _
  | list items ih =>
    exact failsInRendering_bind (failsInRendering_evalItems ih) fun vs => failsInRendering_pure _
  | map entries ih =>
    exact failsInRendering_bind (failsInRendering_evalEntries ih) fun es => failsInRendering_pure _

theorem failsInRendering_evalPrinted (e : Expr) : (m.evalPrinted scopes e).FailsInRendering :=
  failsInRendering_bind (m.failsInRendering_eval scopes e) fun _ => failsInRendering_printed _

end Evaluator

end Polyglot
