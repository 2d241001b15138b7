import Polyglot.Evaluation
import Polyglot.Phrase.Call

/-!
Rendering nodes. A rendering works on a stack of scopes: every turn of a loop puts its own scope on
the stack and takes it off again when its body is done, whether the body failed or not. Rendering
stops at the first failure, and then there is no output.
-/
namespace Polyglot

def Rendering (α : Type) := Scopes → Run α × Scopes

namespace Rendering

variable {α β : Type}

instance : Monad Rendering where
  pure a := fun scopes => (Run.pure a, scopes)
  bind x next := fun scopes =>
    match x scopes with
    | (⟨requests, .ok a⟩, scopes) =>
      let r := next a scopes
      (⟨requests ++ r.1.requests, r.1.result⟩, r.2)
    | (⟨requests, .error e⟩, scopes) => (⟨requests, .error e⟩, scopes)

/-- A run that looks at the scopes and leaves them alone. -/
def reading (run : Scopes → Run α) : Rendering α := fun scopes => (run scopes, scopes)

/-- A rendering under one more scope, which is gone afterwards. -/
def within (scope : Entries Value) (x : Rendering α) : Rendering α := fun scopes =>
  let r := x (scope :: scopes)
  (r.1, r.2.tail)

end Rendering

namespace Evaluator

/-- What the name `loop` is bound to in a turn of a loop. -/
def loopValue (turn turns : Nat) : Value :=
  .map (Entries.ofList [
    ("index0", .int (.wrap turn)),
    ("index", .int (.wrap (turn + 1))),
    ("first", .bool (turn == 0)),
    ("last", .bool (turn + 1 == turns))])

/-- The scope of a turn. A target of the name `loop` is never seen. -/
def loopScope (target : String) (item : Value) (turn turns : Nat) : Entries Value :=
  Entries.ofList [(target, item), ("loop", loopValue turn turns)]

/-- The turns of a loop from a given one on. -/
def turns (target : String) (body : Rendering String) (count : Nat) :
    Nat → List Value → Rendering String
  | _, [] => pure ""
  | turn, item :: rest => do
    let s ← Rendering.within (loopScope target item turn count) body
    let t ← turns target body count (turn + 1) rest
    return s ++ t

mutual

def renderNode (m : Evaluator) : Node → Rendering String
  | .text content => pure content
  | .print e => Rendering.reading fun scopes => m.evalPrinted scopes e
  | .loop target items body => do
    let v ← Rendering.reading fun scopes => m.eval scopes items
    match v with
    | .list items => turns target (renderNodes m body) items.length 0 items
    | .null => pure ""
    | v => Rendering.reading fun _ => .fail (.notIterable v)
  | .branch cases otherwise => renderCases m cases (renderFallback m otherwise)
  | .phrase p => do
    let call ← Rendering.reading fun _ => .ofExcept (p.call (.ofOptions m.env.options))
    Rendering.reading fun scopes => m.evalPrinted scopes call

def renderNodes (m : Evaluator) : List Node → Rendering String
  | [] => pure ""
  | n :: rest => do
    let s ← renderNode m n
    let t ← renderNodes m rest
    return s ++ t

/-- The first case that holds, else the fallback. -/
def renderCases (m : Evaluator) :
    List (Expr × List Node) → Rendering String → Rendering String
  | [], fallback => fallback
  | (condition, body) :: rest, fallback => do
    let v ← Rendering.reading fun scopes => m.eval scopes condition
    if v.holds then renderNodes m body else renderCases m rest fallback

def renderFallback (m : Evaluator) : Option (List Node) → Rendering String
  | none => pure ""
  | some body => renderNodes m body

end

end Evaluator

end Polyglot
