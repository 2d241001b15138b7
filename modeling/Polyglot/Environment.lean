import Polyglot.Expr.Reader
import Polyglot.Node
import Polyglot.Options

/-!
An environment is a choice of options together with what extensions have registered: rules for
block tags, and the functions that filters are bound to. What is registered later replaces what was
registered before under the same name.
-/
namespace Polyglot

/-- How a block tag is read. The tags `for` and `if` are built in. -/
inductive TagRule where
  /-- A phrase. -/
  | phrase
  /-- An expression, printed without escaping. -/
  | print
  /-- Text up to the end tag as it stands. -/
  | raw
  /-- Nodes up to the end tag. -/
  | wrap
  deriving DecidableEq

structure Extension where
  name : String
  tags : List (String × TagRule)
  filters : List (String × String)

structure Environment where
  options : Options
  extensions : List String
  tags : Entries TagRule
  filters : Entries String

/-- The tag for phrases, and a filter of the same name that translates a single text. -/
def Extension.phrases (options : Options) : Extension where
  name := "i18n"
  tags := [("trans", .phrase)]
  filters := [("trans", options.translateFunction)]

namespace Environment

def bare (options : Options) : Environment := ⟨options, [], [], []⟩

def add (env : Environment) (extension : Extension) : Environment where
  options := env.options
  extensions := env.extensions ++ [extension.name]
  tags := extension.tags.foldl (fun tags e => tags.insert e.1 e.2) env.tags
  filters := extension.filters.foldl (fun filters e => filters.insert e.1 e.2) env.filters

/-- The environment in which texts can be translated. -/
def standard (options : Options) : Environment := (bare options).add (.phrases options)

def hasExtension (env : Environment) (name : String) : Bool := env.extensions.contains name

def tagRule? (env : Environment) (name : String) : Option TagRule := env.tags.get? name

def filterFunction? (env : Environment) (filter : String) : Option String :=
  env.filters.get? filter

/-- The function that a filter stands for: the one it is bound to, else the one of its name. -/
def function (env : Environment) (filter : String) : String :=
  (env.filterFunction? filter).getD filter

/-- Filters that say by themselves how a printed value is escaped. -/
def escapingFilters : List String := ["escape", "e", "raw"]

/-- Whether the outermost filter of an expression decides how it is escaped. -/
def decidesEscaping (env : Environment) : Expr → Bool
  | .filter _ n _ => escapingFilters.contains n || n == env.options.escapeFunction
  | _ => false

/-- What is printed for a print tag. -/
def printed (env : Environment) (e : Expr) : Expr :=
  if env.options.autoescape && !env.decidesEscaping e then
    e.filtered env.options.sandboxed env.options.escapeFunction []
  else e

end Environment

end Polyglot
