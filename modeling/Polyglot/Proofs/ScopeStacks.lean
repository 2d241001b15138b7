import Polyglot.Proofs.RunRules

/-!
Renderings leave the stack of scopes as they found it. Only a turn of a loop puts a scope on the
stack, and takes it off again whether its body failed or not, so one node is rendered under the
same scopes as the node before it.
-/
namespace Polyglot

namespace Rendering

variable {α β : Type}

/-- The stack of scopes is the same afterwards, also after a failure. -/
def Restores (x : Rendering α) : Prop := ∀ scopes, (x scopes).2 = scopes

theorem restores_pure (a : α) : (pure a : Rendering α).Restores := fun _ => rfl

theorem restores_reading (run : Scopes → Run α) : (reading run).Restores := fun _ => rfl

theorem restores_within {x : Rendering α} (h : x.Restores) (scope : Entries Value) :
    (within scope x).Restores := by
  intro scopes
  have hx : (x (scope :: scopes)).2 = scope :: scopes := h (scope :: scopes)
  change (x (scope :: scopes)).2.tail = scopes
  rw [hx, List.tail_cons]

theorem restores_bind {x : Rendering α} {next : α → Rendering β} (h : x.Restores)
    (hnext : ∀ a, (next a).Restores) : (x >>= next).Restores := by
  intro scopes
  have hx : (x scopes).2 = scopes := h scopes
  rcases hr : x scopes with ⟨⟨requests, e | a⟩, scopes'⟩
  · rw [hr] at hx
    rw [bind_of_error hr]
    exact hx
  · rw [hr] at hx
    rw [bind_of_ok hr, hnext a scopes']
    exact hx

/-- What comes after a rendering that leaves the scopes as they were begins with the same scopes. -/
theorem Restores.run_bind {x : Rendering α} (h : x.Restores) (next : α → Rendering β)
    (scopes : Scopes) :
    ((x >>= next) scopes).1 = (x scopes).1 >>= fun a => (next a scopes).1 := by
  have hrest := h scopes
  rcases hx : x scopes with ⟨⟨requests, e | a⟩, scopes'⟩
  · rw [bind_of_error hx]
    rfl
  · rw [hx] at hrest
    obtain rfl : scopes' = scopes := hrest
    rw [bind_of_ok hx]
    rfl

end Rendering

namespace Evaluator

variable (m : Evaluator)

theorem restores_turns {body : Rendering String} (h : body.Restores) (target : String)
    (count turn : Nat) (items : List Value) : (turns target body count turn items).Restores := by
  induction items generalizing turn with
  | nil => exact Rendering.restores_pure ""
  | cons item items ih =>
    refine Rendering.restores_bind (Rendering.restores_within h _) fun s => ?_
    exact Rendering.restores_bind (ih (turn + 1)) fun t => Rendering.restores_pure _

theorem restores_renderNodes_of_forall {ns : List Node} (h : ∀ n ∈ ns, (m.renderNode n).Restores) :
    (m.renderNodes ns).Restores := by
  induction ns with
  | nil => exact Rendering.restores_pure ""
  | cons n ns ih =>
    obtain ⟨hn, hns⟩ := List.forall_mem_cons.1 h
    refine Rendering.restores_bind hn fun s => ?_
    exact Rendering.restores_bind (ih hns) fun t => Rendering.restores_pure _

theorem restores_renderCases {cases : List (Expr × List Node)} {fallback : Rendering String}
    (h : ∀ c ∈ cases, ∀ n ∈ c.2, (m.renderNode n).Restores) (hfallback : fallback.Restores) :
    (m.renderCases cases fallback).Restores := by
  induction cases with
  | nil => exact hfallback
  | cons c cases ih =>
    obtain ⟨hbody, hcases⟩ := List.forall_mem_cons.1 h
    refine Rendering.restores_bind (Rendering.restores_reading _) fun v => ?_
    split
    · exact restores_renderNodes_of_forall m hbody
    · exact ih hcases

theorem restores_renderNode (n : Node) : (m.renderNode n).Restores := by
  induction n using Node.induction with
  | text s => exact Rendering.restores_pure s
  | print e => exact Rendering.restores_reading _
  | loop target items body ih =>
    refine Rendering.restores_bind (Rendering.restores_reading _) fun v => ?_
    split
    · exact restores_turns (restores_renderNodes_of_forall m ih) _ _ _ _
    · exact Rendering.restores_pure ""
    · exact Rendering.restores_reading _
  | branch cases otherwise ihcases ihotherwise =>
    refine restores_renderCases m ihcases ?_
    cases otherwise with
    | none => exact Rendering.restores_pure ""
    | some body => exact restores_renderNodes_of_forall m (ihotherwise body rfl)
  | phrase p _ =>
    refine Rendering.restores_bind (Rendering.restores_reading _) fun call => ?_
    exact Rendering.restores_reading _

theorem restores_renderNodes (ns : List Node) : (m.renderNodes ns).Restores :=
  restores_renderNodes_of_forall m fun n _ => restores_renderNode m n

end Evaluator

end Polyglot
