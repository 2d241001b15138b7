import Polyglot.Message
import Polyglot.Proofs.ScopeStacks

/-!
Rendering, apart from the lines that errors point at. What a list of nodes renders is told by what
each of them renders, and by what the nodes in the body of a phrase contribute to its message; the
line of a phrase only shows in its errors.
-/
namespace Polyglot

/-- The error without the line that it points at. -/
def Error.unlined : Error → Error
  | malformed fault _ => malformed fault 0
  | untranslatable _ => untranslatable 0
  | pluralWithoutCount _ => pluralWithoutCount 0
  | rendering failure => rendering failure
  | refusedOptions => refusedOptions

theorem mapError_bind {ε ε' α β : Type} (f : ε → ε') (x : Except ε α) (next : α → Except ε β) :
    (x >>= next).mapError f = x.mapError f >>= fun a => (next a).mapError f := by
  cases x <;> rfl

namespace Run

variable {α : Type}

def unlined (r : Run α) : Run α := ⟨r.requests, r.result.mapError Error.unlined⟩

end Run

namespace Rendering

variable {α β γ : Type}

theorem map_id (x : Rendering α) : id <$> x = x := by
  funext scopes
  change (x >>= fun a => pure a) scopes = x scopes
  rcases hx : x scopes with ⟨⟨requests, e | a⟩, scopes'⟩
  · rw [bind_of_error hx]
  · rw [bind_of_ok hx]
    simp [pure, Run.pure]

theorem bind_assoc (x : Rendering α) (f : α → Rendering β) (g : β → Rendering γ) :
    x >>= f >>= g = x >>= fun a => f a >>= g := by
  funext scopes
  rcases hx : x scopes with ⟨⟨requests, e | a⟩, scopes'⟩
  · rw [bind_of_error (bind_of_error hx f), bind_of_error hx]
  · rcases hf : f a scopes' with ⟨⟨requests', e | b⟩, scopes''⟩
    · have hboth : (x >>= f) scopes = (⟨requests ++ requests', .error e⟩, scopes'') := by
        rw [bind_of_ok hx, hf]
      rw [bind_of_error hboth, bind_of_ok hx, bind_of_error hf]
    · have hboth : (x >>= f) scopes = (⟨requests ++ requests', .ok b⟩, scopes'') := by
        rw [bind_of_ok hx, hf]
      rw [bind_of_ok hboth, bind_of_ok hx, bind_of_ok hf, List.append_assoc]

instance : LawfulMonad Rendering :=
  .mk' Rendering map_id (fun _ _ => rfl) bind_assoc

/-- The rendering with no line in its error. -/
def unlined (x : Rendering α) : Rendering α := fun scopes => ((x scopes).1.unlined, (x scopes).2)

@[simp] theorem unlined_pure (a : α) : (pure a : Rendering α).unlined = pure a := rfl

theorem unlined_bind (x : Rendering α) (next : α → Rendering β) :
    (x >>= next).unlined = x.unlined >>= fun a => (next a).unlined := by
  funext scopes
  rcases hx : x scopes with ⟨⟨requests, e | a⟩, scopes'⟩
  · have hx' : x.unlined scopes = (⟨requests, .error e.unlined⟩, scopes') := by
      rw [unlined, hx]
      rfl
    rw [unlined, bind_of_error hx, bind_of_error hx']
    rfl
  · have hx' : x.unlined scopes = (⟨requests, .ok a⟩, scopes') := by
      rw [unlined, hx]
      rfl
    rw [unlined, bind_of_ok hx, bind_of_ok hx']
    rfl

theorem unlined_within (scope : Entries Value) (x : Rendering α) :
    (within scope x).unlined = within scope x.unlined := rfl

theorem unlined_reading (run : Scopes → Run α) :
    (reading run).unlined = reading fun scopes => (run scopes).unlined := rfl

end Rendering

/-- One list of nodes after another. -/
theorem Evaluator.renderNodes_append (m : Evaluator) (ns ms : List Node) :
    m.renderNodes (ns ++ ms) = do
      let s ← m.renderNodes ns
      let t ← m.renderNodes ms
      return s ++ t := by
  induction ns with
  | nil => simp only [List.nil_append, renderNodes, pure_bind, String.empty_append, bind_pure]
  | cons n ns ih =>
    simp only [List.cons_append, renderNodes, ih, pure_bind, bind_assoc, String.append_assoc]

/-! Nodes may be replaced in a phrase. -/

namespace Body

variable {N M : Type}

def map (f : N → M) : Body N → Body M
  | inline e => inline e
  | block nodes => block (nodes.map f)

end Body

namespace Counted

variable {N M : Type}

def map (f : N → M) (c : Counted N) : Counted M := ⟨c.count, c.plural.map (List.map f)⟩

end Counted

namespace Node

/-- What is seen of a node from outside: whether it may stand in the singular body of a phrase, what
it contributes to a message, and what it renders. -/
structure Meaning where
  translatable : Bool
  piece? : Option Message.Piece
  shown : Evaluator → Rendering String

/-- What is seen of a node, apart from lines. -/
def meaning (n : Node) : Meaning :=
  ⟨Message.isTranslatable n, Message.piece? n, fun m => (m.renderNode n).unlined⟩

def meanings (ns : List Node) : List Meaning := ns.map meaning

/-- What a list of nodes renders, apart from lines. -/
def shown (ns : List Node) (m : Evaluator) : Rendering String := (m.renderNodes ns).unlined

def caseMeaning (c : Expr × List Node) : Expr × List Meaning := (c.1, meanings c.2)

variable {n n' : Node} {ns ns' : List Node}

theorem shown_cons (n : Node) (ns : List Node) (m : Evaluator) :
    shown (n :: ns) m = do
      let s ← n.meaning.shown m
      let t ← shown ns m
      return s ++ t := by
  rw [shown, Evaluator.renderNodes, Rendering.unlined_bind]
  refine congrArg (n.meaning.shown m >>= ·) (funext fun s => ?_)
  rw [Rendering.unlined_bind]
  rfl

theorem shown_cons_congr (hn : n'.meaning = n.meaning) (hns : shown ns' = shown ns) :
    shown (n' :: ns') = shown (n :: ns) := by
  funext m
  rw [shown_cons, shown_cons, hn, hns]

theorem shown_congr (h : meanings ns' = meanings ns) : shown ns' = shown ns := by
  induction ns generalizing ns' with
  | nil => rw [List.map_eq_nil_iff.1 h]
  | cons n ns ih =>
    obtain ⟨n', ns', rfl, hn, hns⟩ := List.map_eq_cons_iff.1 h
    exact shown_cons_congr hn (ih hns)

theorem shown_append (ns ms : List Node) (m : Evaluator) :
    shown (ns ++ ms) m = do
      let s ← shown ns m
      let t ← shown ms m
      return s ++ t := by
  rw [shown, m.renderNodes_append, Rendering.unlined_bind]
  refine congrArg (shown ns m >>= ·) (funext fun s => ?_)
  rw [Rendering.unlined_bind]
  rfl

theorem shown_append_congr (h : shown ns' = shown ns) (ms : List Node) :
    shown (ns' ++ ms) = shown (ns ++ ms) := by
  funext m
  rw [shown_append, shown_append, h]

/-! Texts next to each other. -/

theorem shown_text_nil (ns : List Node) : shown (text "" :: ns) = shown ns := by
  funext m
  simp only [shown, Evaluator.renderNodes, Evaluator.renderNode, pure_bind, String.empty_append,
    bind_pure]

theorem shown_text_append (s t : String) (ns : List Node) :
    shown (text (s ++ t) :: ns) = shown (text s :: text t :: ns) := by
  funext m
  simp only [shown, Evaluator.renderNodes, Evaluator.renderNode, pure_bind, bind_assoc,
    String.append_assoc]

end Node

namespace Evaluator

variable (m : Evaluator)

theorem unlined_turns (target : String) (body : Rendering String) (count turn : Nat)
    (items : List Value) : (turns target body count turn items).unlined =
      turns target body.unlined count turn items := by
  induction items generalizing turn with
  | nil => rfl
  | cons item items ih =>
    simp only [turns, Rendering.unlined_bind, Rendering.unlined_within, Rendering.unlined_pure, ih]

theorem unlined_renderCases_congr {cases cases' : List (Expr × List Node)}
    {fallback fallback' : Rendering String}
    (h : cases'.map Node.caseMeaning = cases.map Node.caseMeaning)
    (hfallback : fallback'.unlined = fallback.unlined) :
    (m.renderCases cases' fallback').unlined = (m.renderCases cases fallback).unlined := by
  induction cases generalizing cases' with
  | nil => rw [List.map_eq_nil_iff.1 h]; exact hfallback
  | cons c cases ih =>
    obtain ⟨c', cases', rfl, hc, hcases⟩ := List.map_eq_cons_iff.1 h
    obtain ⟨condition, body⟩ := c
    obtain ⟨condition', body'⟩ := c'
    obtain ⟨rfl, hbody⟩ := Prod.mk.inj hc
    have hshown := congrFun (Node.shown_congr hbody) m
    simp only [renderCases, Rendering.unlined_bind]
    refine congrArg (Rendering.unlined (Rendering.reading _) >>= ·) (funext fun v => ?_)
    split
    · exact hshown
    · exact ih hcases

theorem unlined_renderFallback_congr {otherwise otherwise' : Option (List Node)}
    (h : otherwise'.map Node.meanings = otherwise.map Node.meanings) :
    (m.renderFallback otherwise').unlined = (m.renderFallback otherwise).unlined := by
  cases otherwise with
  | none => rw [Option.map_eq_none_iff.1 h]
  | some body =>
    obtain ⟨body', rfl, hbody⟩ := Option.map_eq_some_iff.1 h
    exact congrFun (Node.shown_congr hbody) m

end Evaluator

namespace Message

variable {ns ns' : List Node}

theorem pieces?_congr (h : Node.meanings ns' = Node.meanings ns) : pieces? ns' = pieces? ns := by
  induction ns generalizing ns' with
  | nil => rw [List.map_eq_nil_iff.1 h]
  | cons n ns ih =>
    obtain ⟨n', ns', rfl, hn, hns⟩ := List.map_eq_cons_iff.1 h
    have hpiece : piece? n' = piece? n := congrArg Node.Meaning.piece? hn
    rw [pieces?, pieces?, hpiece, ih hns]

theorem all_isTranslatable_congr (h : Node.meanings ns' = Node.meanings ns) :
    ns'.all isTranslatable = ns.all isTranslatable := by
  have hall := congrArg (·.all Node.Meaning.translatable) h
  simp only [Node.meanings, List.all_map] at hall
  exact hall

theorem ofNodes_congr (h : Node.meanings ns' = Node.meanings ns) (line line' : Nat) :
    (ofNodes ns' line').mapError Error.unlined = (ofNodes ns line).mapError Error.unlined := by
  rw [ofNodes, ofNodes, pieces?_congr h]
  split <;> rfl

/-- The check of a singular body sees no lines. -/
theorem check_congr {body body' : Body Node} (h : body'.map Node.meaning = body.map Node.meaning)
    (line line' : Nat) :
    (check body' line').mapError Error.unlined = (check body line).mapError Error.unlined := by
  cases body with
  | inline e =>
    cases body' with
    | inline e' => cases h; simp only [check]; split <;> rfl
    | block ns' => cases h
  | block ns =>
    cases body' with
    | inline e' => cases h
    | block ns' =>
      have hall := all_isTranslatable_congr (Body.block.inj h)
      simp only [check, hall]
      split <;> rfl

theorem ofBody_congr {body body' : Body Node} (h : body'.map Node.meaning = body.map Node.meaning)
    (line line' : Nat) :
    (ofBody body' line').mapError Error.unlined = (ofBody body line).mapError Error.unlined := by
  cases body with
  | inline e =>
    cases body' with
    | inline e' => cases h; simp only [ofBody]; split <;> rfl
    | block ns' => cases h
  | block ns =>
    cases body' with
    | inline e' => cases h
    | block ns' => exact ofNodes_congr (Body.block.inj h) line line'

end Message

namespace Phrase

/-- A phrase has the same call at any line, or none. -/
theorem call_congr {p p' : Phrase Node} (hbody : p'.body.map Node.meaning = p.body.map Node.meaning)
    (hdomain : p'.domain = p.domain)
    (hcounted : p'.counted.map (Counted.map Node.meaning) =
      p.counted.map (Counted.map Node.meaning)) (targets : Targets) :
    (p'.call targets).mapError Error.unlined = (p.call targets).mapError Error.unlined := by
  obtain ⟨body, domain, counted, notes, line⟩ := p
  obtain ⟨body', domain', counted', notes', line'⟩ := p'
  obtain rfl : domain' = domain := hdomain
  have hsingular := Message.ofBody_congr hbody line line'
  simp only [call, mapError_bind, hsingular]
  refine congrArg (_ >>= ·) (funext fun singular => ?_)
  match counted, counted', hcounted with
  | none, none, _ => rfl
  | some ⟨count, none⟩, some ⟨count', none⟩, hcounted =>
    cases hcounted
    rfl
  | some ⟨count, some plural⟩, some ⟨count', some plural'⟩, hcounted =>
    obtain ⟨rfl, hplural⟩ := Counted.mk.inj (Option.some.inj hcounted)
    have hboth := Message.ofNodes_congr (Option.some.inj hplural) line line'
    simp only [mapError_bind, hboth]
    rfl

end Phrase

namespace Node

variable {ns ns' : List Node}

theorem meaning_loop (target : String) (items : Expr) (h : meanings ns' = meanings ns) :
    (loop target items ns').meaning = (loop target items ns).meaning := by
  have hshown : ∀ m, ((Evaluator.renderNode m (loop target items ns')).unlined) =
      (Evaluator.renderNode m (loop target items ns)).unlined := by
    intro m
    have hbody := congrFun (shown_congr h) m
    simp only [Evaluator.renderNode, Rendering.unlined_bind]
    refine congrArg (Rendering.unlined (Rendering.reading _) >>= ·) (funext fun v => ?_)
    split
    · rw [Evaluator.unlined_turns, Evaluator.unlined_turns]
      exact congrArg (Evaluator.turns _ · _ _ _) hbody
    · rfl
    · rfl
  rw [meaning, meaning, funext hshown]
  rfl

theorem meaning_branch {cases cases' : List (Expr × List Node)}
    {otherwise otherwise' : Option (List Node)}
    (hcases : cases'.map caseMeaning = cases.map caseMeaning)
    (hotherwise : otherwise'.map meanings = otherwise.map meanings) :
    (branch cases' otherwise').meaning = (branch cases otherwise).meaning := by
  have hshown : ∀ m, ((Evaluator.renderNode m (branch cases' otherwise')).unlined) =
      (Evaluator.renderNode m (branch cases otherwise)).unlined := by
    intro m
    have hfallback := m.unlined_renderFallback_congr hotherwise
    exact m.unlined_renderCases_congr hcases hfallback
  rw [meaning, meaning, funext hshown]
  rfl

theorem meaning_phrase {p p' : Phrase Node}
    (hbody : p'.body.map meaning = p.body.map meaning) (hdomain : p'.domain = p.domain)
    (hcounted : p'.counted.map (Counted.map meaning) = p.counted.map (Counted.map meaning)) :
    (phrase p').meaning = (phrase p).meaning := by
  have hshown : ∀ m, ((Evaluator.renderNode m (phrase p')).unlined) =
      (Evaluator.renderNode m (phrase p)).unlined := by
    intro m
    have hcall := Phrase.call_congr hbody hdomain hcounted (.ofOptions m.env.options)
    have hrun : (Run.ofExcept (p'.call (.ofOptions m.env.options))).unlined =
        (Run.ofExcept (p.call (.ofOptions m.env.options))).unlined :=
      congrArg Run.ofExcept hcall
    simp only [Evaluator.renderNode, Rendering.unlined_bind, Rendering.unlined_reading, hrun]
  rw [meaning, meaning, funext hshown]
  rfl

end Node

end Polyglot
