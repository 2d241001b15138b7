import Polyglot.Node.Reader
import Polyglot.Rendering
import Polyglot.Script

/-!
The ways to use a template: read it, compile it to a script, or render it with a context and a
translator.
-/
namespace Polyglot.Environment

def parse (env : Environment) (source : String) : Except Error (List Node) :=
  (Node.read env (.ofTemplate source env.options.trimBlocks)).result

/-- Reads an expression that stands alone, such as one in a script. -/
def parseExpr (env : Environment) (source : String) : Except Error Expr :=
  (Expr.readAlone env.options.sandboxed (.ofExpression source)).result

def compileNodes (env : Environment) (nodes : List Node) : Except Error String :=
  let r := Script.nodes env nodes {}
  r.1.map fun _ => r.2.written

def compile (env : Environment) (source : String) : Except Error String := do
  let nodes ← env.parse source
  env.compileNodes nodes

def renderNodes (env : Environment) (nodes : List Node) (context : Entries Value)
    (translator : Translator) : Run String :=
  ((Evaluator.mk env translator).renderNodes nodes [context]).1

def render (env : Environment) (source : String) (context : Entries Value)
    (translator : Translator) : Run String := do
  let nodes ← Run.ofExcept (env.parse source)
  env.renderNodes nodes context translator

end Polyglot.Environment
