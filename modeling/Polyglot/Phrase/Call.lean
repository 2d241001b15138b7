import Polyglot.Message
import Polyglot.Options

/-!
The call that a phrase stands for. Without a plural body its arguments are the message and the
domain; with one, both messages in a list, the domain and the absolute value of the count. If the
messages have placeholders, the last argument maps each of them to its value.
-/
namespace Polyglot

/-- The functions that a phrase calls. -/
structure Targets where
  translate : String
  translatePlural : String
  escape : Expr → Expr

def Targets.ofOptions (options : Options) : Targets where
  translate := options.translateFunction
  translatePlural := options.translatePluralFunction
  escape e := .call options.escapeFunction [e]

namespace Phrase

def absolute (count : Expr) : Expr := .call "abs" [count]

/-- What a placeholder stands for. The name `count` stands for the count if there is one. -/
def value (count : Option Expr) (targets : Targets) (v : Variable) : Expr :=
  match count with
  | some count =>
    if v.name = "count" then absolute count
    else if v.raw then .name v.name else targets.escape (.name v.name)
  | none => if v.raw then .name v.name else targets.escape (.name v.name)

/-- The argument for the placeholders, which is left out if there are none. -/
def replacements (count : Option Expr) (targets : Targets) (vs : List Variable) : List Expr :=
  if vs.isEmpty then []
  else [.map (vs.map fun v => (.text v.placeholder, value count targets v))]

def call (p : Phrase Node) (targets : Targets) : Except Error Expr := do
  let singular ← Message.ofBody p.body p.line
  match p.counted with
  | some ⟨count, some plural⟩ =>
    let plural ← Message.ofNodes plural p.line
    let vs := Variable.union singular.vars plural.vars
    return .call targets.translatePlural
      ([.list [singular.message.toExpr, plural.message.toExpr], p.domain, absolute count] ++
        replacements p.count? targets vs)
  | _ =>
    return .call targets.translate
      ([singular.message.toExpr, p.domain] ++
        replacements p.count? targets singular.vars)

/-- Each line break becomes a space. -/
def onOneLine (s : String) : String :=
  String.ofList (s.toList.map fun c => if c = '\r' ∨ c = '\n' then ' ' else c)

/-- The text of the notes. -/
def notesText (p : Phrase Node) : Option String :=
  p.notes.map fun nodes =>
    let content := String.join (nodes.map fun n => match n with | .text s => s | _ => "")
    onOneLine (Message.trim content)

end Phrase

end Polyglot
