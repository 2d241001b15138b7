import Polyglot.Environment
import Polyglot.Operation
import Polyglot.Placeholder
import Polyglot.Run

/-!
The value of an expression. Names are looked up from the innermost scope outwards, and a name
without a binding is null. Operands and arguments are evaluated from left to right, all of them
before they are used; a translator is asked in that order.
-/
namespace Polyglot

/-- The bindings in force, innermost first. -/
abbrev Scopes := List (Entries Value)

def Scopes.lookup (name : String) (scopes : Scopes) : Value :=
  (scopes.findSome? (·.get? name)).getD .null

/-- Where templates are evaluated. -/
structure Evaluator where
  env : Environment
  translator : Translator

/-- What a function name means in a call. -/
inductive Callee where
  | translate
  | translatePlural
  | builtin (f : Builtin)
  | unknown
  deriving DecidableEq

/-- The configured names come before the built-in ones. -/
def Options.callee (options : Options) (name : String) : Callee :=
  if name = options.translateFunction then .translate
  else if name = options.translatePluralFunction then .translatePlural
  else
    match Builtin.ofName? (if name = options.escapeFunction then "escape" else name) with
    | some f => .builtin f
    | none => .unknown

namespace Evaluator

def printed (v : Value) : Run String := .ofFailure v.printed

/-- The printed forms of the entries of a map. If several values have none, the language leaves open
which of them is reported; here it is the first that is listed. -/
def printedEntries : List (String × Value) → Except Failure (Entries String)
  | [] => .ok []
  | (key, v) :: rest => do
    let s ← v.printed
    let es ← printedEntries rest
    return (key, s) :: es

/-- The replacements that the last argument of a translating function gives, if there is one. -/
def replacements : Option Value → Except Failure (Entries String)
  | none => .ok []
  | some .null => .ok []
  | some (.map entries) => printedEntries entries
  | some v => .error (.notReplacements v)

/-- Asks for a text and fills in its placeholders. -/
def answer (m : Evaluator) (request : Request) (last : Option Value) : Run Value := do
  let translated ← Run.ask m.translator request
  let rs ← Run.ofFailure (replacements last)
  return .text (Placeholder.fill rs translated)

/-- An argument by its place; a missing one is null. -/
def argument (args : List Value) (i : Nat) : Value := args[i]?.getD .null

/-- Translates the text that the first argument prints as. -/
def translate (m : Evaluator) (args : List Value) : Run Value := do
  let message ← printed (argument args 0)
  let domain ← printed (argument args 1)
  m.answer (.single message domain) args[2]?

/-- Translates one of the two texts in the first argument, by the size of a number. -/
def translatePlural (m : Evaluator) (args : List Value) : Run Value := do
  match args.head? with
  | some (.list [one, other]) =>
    let singular ← printed one
    let plural ← printed other
    let domain ← printed (argument args 1)
    let n ← Run.ofFailure (argument args 2).number
    m.answer (.plural singular plural domain n.value.natAbs) args[3]?
  | first => .fail (.notTwoForms first)

/-- A built-in function only looks at its first argument. -/
def callFunction (m : Evaluator) (name : String) (args : List Value) : Run Value :=
  match m.env.options.callee name with
  | .translate => m.translate args
  | .translatePlural => m.translatePlural args
  | .builtin f => .ofFailure (f.apply (argument args 0))
  | .unknown => .fail (.unknownFunction name)

mutual

def eval (m : Evaluator) (scopes : Scopes) : Expr → Run Value
  | .literal a => pure (.scalar a)
  | .name n => pure (scopes.lookup n)
  | .member e key => do
    let v ← eval m scopes e
    Run.ofFailure (v.member key)
  | .index e i => do
    let v ← eval m scopes e
    let j ← eval m scopes i
    Run.ofFailure (v.index j)
  | .binary l op r => do
    let v ← eval m scopes l
    let w ← eval m scopes r
    Run.ofFailure (v.binary op w)
  | .unary op e => do
    let v ← eval m scopes e
    Run.ofFailure (v.unary op)
  | .filter e n args => do
    let v ← eval m scopes e
    let vs ← evalItems m scopes args
    m.callFunction (m.env.function n) (v :: vs)
  | .checked e => do
    let v ← eval m scopes e
    let _ ← printed v
    return v
  | .call n args => do
    let vs ← evalItems m scopes args
    m.callFunction n vs
  | .list items => do
    let vs ← evalItems m scopes items
    return .list vs
  | .map entries => do
    let es ← evalEntries m scopes entries
    return .map (Entries.ofList es)

def evalItems (m : Evaluator) (scopes : Scopes) : List Expr → Run (List Value)
  | [] => pure []
  | e :: rest => do
    let v ← eval m scopes e
    let vs ← evalItems m scopes rest
    return v :: vs

/-- Keys are printed before their values are evaluated. -/
def evalEntries (m : Evaluator) (scopes : Scopes) :
    List (Expr × Expr) → Run (List (String × Value))
  | [] => pure []
  | (key, e) :: rest => do
    let k ← eval m scopes key
    let name ← printed k
    let v ← eval m scopes e
    let es ← evalEntries m scopes rest
    return (name, v) :: es

end

/-- What an expression prints as. -/
def evalPrinted (m : Evaluator) (scopes : Scopes) (e : Expr) : Run String := do
  let v ← m.eval scopes e
  printed v

end Evaluator

end Polyglot
