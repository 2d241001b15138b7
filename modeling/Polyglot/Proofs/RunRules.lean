import Mathlib.Control.Monad.Basic
import Polyglot.Proofs.NodeTrees
import Polyglot.Rendering

/-!
Postconditions of runs and renderings. A run returns only results with a property if it has it
whenever it succeeds; a rendering does so if it does from all scopes.
-/
namespace Polyglot

variable {α β : Type}

namespace Run

instance [DecidableEq α] : DecidableEq (Run α) := fun r r' =>
  decidable_of_iff (r.requests = r'.requests ∧ r.result = r'.result) (by cases r; cases r'; simp)

/-- Every result has a property. -/
def Returns (r : Run α) (P : α → Prop) : Prop := ∀ a, r.result = .ok a → P a

variable {P : α → Prop} {Q : β → Prop}

theorem returns_pure {a : α} (h : P a) : (Pure.pure a : Run α).Returns P := by
  intro b hb
  cases hb
  exact h

theorem returns_fail (failure : Failure) : (fail failure : Run α).Returns P := by
  intro a ha
  cases ha

theorem returns_ofFailure {result : Except Failure α} (h : ∀ a, result = .ok a → P a) :
    (ofFailure result).Returns P := by
  intro a ha
  cases result with
  | error e => cases ha
  | ok b =>
    cases ha
    exact h _ rfl

theorem returns_ofExcept {result : Except Error α} : (ofExcept result).Returns (result = .ok ·) :=
  fun _ h => h

theorem returns_ask {P : String → Prop} {translator : Translator} {request : Request}
    (h : P (translator request)) : (ask translator request).Returns P := by
  intro s hs
  cases hs
  exact h

theorem returns_bind {r : Run α} {next : α → Run β} (h : r.Returns P)
    (hnext : ∀ a, P a → (next a).Returns Q) : (r >>= next).Returns Q := by
  intro b hb
  cases hr : r.result with
  | error e =>
    rw [bind_of_error hr] at hb
    cases hb
  | ok a =>
    rw [bind_of_ok hr] at hb
    exact hnext a (h a hr) b hb

theorem returns_true (r : Run α) : r.Returns fun _ => True := fun _ _ => trivial

theorem Returns.mono {r : Run α} {P Q : α → Prop} (h : r.Returns P) (hPQ : ∀ a, P a → Q a) :
    r.Returns Q :=
  fun a ha => hPQ a (h a ha)

end Run

namespace Rendering

/-- Every result has a property, whatever the scopes are. -/
def Returns (x : Rendering α) (P : α → Prop) : Prop := ∀ scopes, (x scopes).1.Returns P

variable {P : α → Prop} {Q : β → Prop}

theorem returns_pure {a : α} (h : P a) : (pure a : Rendering α).Returns P :=
  fun _ => Run.returns_pure h

theorem returns_reading {run : Scopes → Run α} (h : ∀ scopes, (run scopes).Returns P) :
    (reading run).Returns P :=
  h

theorem returns_within {scope : Entries Value} {x : Rendering α} (h : x.Returns P) :
    (within scope x).Returns P :=
  fun scopes => h (scope :: scopes)

theorem bind_of_ok {x : Rendering α} {scopes scopes' : Scopes} {requests : List Request} {a : α}
    (h : x scopes = (⟨requests, .ok a⟩, scopes')) (next : α → Rendering β) :
    (x >>= next) scopes = (⟨requests ++ (next a scopes').1.requests, (next a scopes').1.result⟩,
      (next a scopes').2) := by
  simp only [bind, h]

theorem bind_of_error {x : Rendering α} {scopes scopes' : Scopes} {requests : List Request}
    {e : Error} (h : x scopes = (⟨requests, .error e⟩, scopes')) (next : α → Rendering β) :
    (x >>= next) scopes = (⟨requests, .error e⟩, scopes') := by
  simp only [bind, h]

theorem returns_bind {x : Rendering α} {next : α → Rendering β} (h : x.Returns P)
    (hnext : ∀ a, P a → (next a).Returns Q) : (x >>= next).Returns Q := by
  intro scopes b hb
  rcases hx : x scopes with ⟨⟨requests, e | a⟩, scopes'⟩
  · rw [bind_of_error hx] at hb
    cases hb
  · rw [bind_of_ok hx] at hb
    have ha : P a := h scopes a (by rw [hx])
    exact hnext a ha scopes' b hb

theorem returns_true (x : Rendering α) : x.Returns fun _ => True :=
  fun scopes => Run.returns_true (x scopes).1

end Rendering

namespace Evaluator

variable {P : String → Prop} (m : Evaluator)

/-! What a rendering puts together from parts with a property has the property, if it holds of the
empty text and of one text followed by another. -/

theorem returns_turns (hnil : P "") (happend : ∀ s t, P s → P t → P (s ++ t)) {target : String}
    {body : Rendering String} (hbody : body.Returns P) (count turn : Nat) (items : List Value) :
    (turns target body count turn items).Returns P := by
  induction items generalizing turn with
  | nil => exact Rendering.returns_pure hnil
  | cons item items ih =>
    refine Rendering.returns_bind (Rendering.returns_within hbody) fun s hs => ?_
    refine Rendering.returns_bind (ih (turn + 1)) fun t ht => ?_
    exact Rendering.returns_pure (happend s t hs ht)

theorem returns_renderNodes (hnil : P "") (happend : ∀ s t, P s → P t → P (s ++ t))
    {ns : List Node} (h : ∀ n ∈ ns, (m.renderNode n).Returns P) : (m.renderNodes ns).Returns P := by
  induction ns with
  | nil => exact Rendering.returns_pure hnil
  | cons n ns ih =>
    obtain ⟨hn, hns⟩ := List.forall_mem_cons.1 h
    refine Rendering.returns_bind hn fun s hs => ?_
    refine Rendering.returns_bind (ih hns) fun t ht => ?_
    exact Rendering.returns_pure (happend s t hs ht)

theorem returns_renderCases (hnil : P "") (happend : ∀ s t, P s → P t → P (s ++ t))
    {cases : List (Expr × List Node)} {fallback : Rendering String}
    (h : ∀ c ∈ cases, ∀ n ∈ c.2, (m.renderNode n).Returns P) (hfallback : fallback.Returns P) :
    (m.renderCases cases fallback).Returns P := by
  induction cases with
  | nil => exact hfallback
  | cons c cases ih =>
    obtain ⟨hbody, hcases⟩ := List.forall_mem_cons.1 h
    refine Rendering.returns_bind (Rendering.returns_true _) fun v _ => ?_
    split
    · exact returns_renderNodes m hnil happend hbody
    · exact ih hcases

theorem returns_renderFallback (hnil : P "") (happend : ∀ s t, P s → P t → P (s ++ t))
    {otherwise : Option (List Node)}
    (h : ∀ body ∈ otherwise, ∀ n ∈ body, (m.renderNode n).Returns P) :
    (m.renderFallback otherwise).Returns P := by
  cases otherwise with
  | none => exact Rendering.returns_pure hnil
  | some body => exact returns_renderNodes m hnil happend (h body rfl)

/-- If what texts, prints and phrases render has a property, so has what any node renders. -/
theorem returns_renderNode {q : Node → Prop} (hnil : P "")
    (happend : ∀ s t, P s → P t → P (s ++ t)) (htext : ∀ s, q (.text s) → P s)
    (hprint : ∀ e, q (.print e) → ∀ scopes, (m.evalPrinted scopes e).Returns P)
    (hphrase : ∀ p, (Node.phrase p).Every q → (m.renderNode (.phrase p)).Returns P) {n : Node}
    (hn : n.Every q) : (m.renderNode n).Returns P := by
  induction n using Node.induction with
  | text s => exact Rendering.returns_pure (htext s hn.self)
  | print e => exact Rendering.returns_reading (hprint e hn.self)
  | loop target items body ih =>
    obtain ⟨_, hbody⟩ := Node.every_loop.1 hn
    refine Rendering.returns_bind (Rendering.returns_true _) fun v _ => ?_
    split
    · refine returns_turns hnil happend ?_ _ _ _
      exact returns_renderNodes m hnil happend fun n hn => ih n hn (hbody n hn)
    · exact Rendering.returns_pure hnil
    · exact Rendering.returns_reading fun _ => Run.returns_fail _
  | branch cases otherwise ihcases ihotherwise =>
    obtain ⟨_, hcases, hotherwise⟩ := Node.every_branch.1 hn
    refine returns_renderCases m hnil happend
      (fun c hc n hn => ihcases c hc n hn (hcases c hc n hn)) ?_
    refine returns_renderFallback m hnil happend fun body hbody n hn => ?_
    exact ihotherwise body hbody n hn (hotherwise body hbody n hn)
  | phrase p _ => exact hphrase p hn

end Evaluator

end Polyglot
