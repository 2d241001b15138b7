import Polyglot.Proofs.CalledFunctions
import Polyglot.Proofs.ExprTrees

/-!
Evaluation in which a check need not give the value that it looks at. If it does, this is evaluation
as it is; if it gives the text that the value prints as, it is evaluation of the lowered expression,
where a check is a call of `to_string`.
-/
namespace Polyglot.Evaluator

mutual

/-- Evaluation in which a check of a value `v` that prints as `s` gives `given v s`. -/
def evalGiving (m : Evaluator) (given : Value → String → Value) (scopes : Scopes) : Expr → Run Value
  | .literal a => pure (.scalar a)
  | .name n => pure (scopes.lookup n)
  | .member e key => do
    let v ← evalGiving m given scopes e
    Run.ofFailure (v.member key)
  | .index e i => do
    let v ← evalGiving m given scopes e
    let j ← evalGiving m given scopes i
    Run.ofFailure (v.index j)
  | .binary l op r => do
    let v ← evalGiving m given scopes l
    let w ← evalGiving m given scopes r
    Run.ofFailure (v.binary op w)
  | .unary op e => do
    let v ← evalGiving m given scopes e
    Run.ofFailure (v.unary op)
  | .filter e n args => do
    let v ← evalGiving m given scopes e
    let vs ← evalItemsGiving m given scopes args
    m.callFunction (m.env.function n) (v :: vs)
  | .checked e => do
    let v ← evalGiving m given scopes e
    let s ← printed v
    return given v s
  | .call n args => do
    let vs ← evalItemsGiving m given scopes args
    m.callFunction n vs
  | .list items => do
    let vs ← evalItemsGiving m given scopes items
    return .list vs
  | .map entries => do
    let es ← evalEntriesGiving m given scopes entries
    return .map (Entries.ofList es)

def evalItemsGiving (m : Evaluator) (given : Value → String → Value) (scopes : Scopes) :
    List Expr → Run (List Value)
  | [] => pure []
  | e :: rest => do
    let v ← evalGiving m given scopes e
    let vs ← evalItemsGiving m given scopes rest
    return v :: vs

def evalEntriesGiving (m : Evaluator) (given : Value → String → Value) (scopes : Scopes) :
    List (Expr × Expr) → Run (List (String × Value))
  | [] => pure []
  | (key, e) :: rest => do
    let k ← evalGiving m given scopes key
    let name ← printed k
    let v ← evalGiving m given scopes e
    let es ← evalEntriesGiving m given scopes rest
    return (name, v) :: es

end

variable {m : Evaluator} {given : Value → String → Value} {scopes : Scopes}

section

variable {t : Expr → Expr}

end

end Polyglot.Evaluator
