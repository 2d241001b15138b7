import Polyglot.Environment
import Polyglot.Expr.Script
import Polyglot.Phrase.Call

/-!
The script of a template: one statement that emits text for every node with output, and blocks with
indented bodies for branches and loops. A phrase is emitted through its call, under comments with
its line and its notes. When a phrase has no call, the script written so far stays.
-/
namespace Polyglot

structure Script where
  written : String := ""
  depth : Nat := 0

namespace Script

/-- Appends text as it is. -/
def raw (text : String) (s : Script) : Script := { s with written := s.written ++ text }

def margin (depth : Nat) : String := String.join (List.replicate depth "    ")

/-- Appends text at the current depth. -/
def write (text : String) (s : Script) : Script := s.raw (margin s.depth ++ text)

def indent (s : Script) : Script := { s with depth := s.depth + 1 }

/-- The depth does not go below zero. -/
def outdent (s : Script) : Script := { s with depth := s.depth - 1 }

/-- Appends a string literal. -/
def literal (value : String) (s : Script) : Script := s.raw (Literal.spell value)

def lineComment (line : Nat) (s : Script) : Script :=
  s.write ("// line " ++ Decimal.natText line ++ "\n")

def expr (env : Environment) (e : Expr) (s : Script) : Script := s.raw (e.script env.function)

/-- A statement that emits what some text evaluates to. -/
def emit (text : String) (s : Script) : Script := s.write ("emit(" ++ text ++ ");\n")

def phrase (env : Environment) (p : Phrase Node) (s : Script) :
    Except Error Unit × Script :=
  match p.call (.ofOptions env.options) with
  | .error e => (.error e, s)
  | .ok call =>
    let s := s.lineComment p.line
    let s :=
      match p.notesText with
      | some notes => s.write ("// Translation Notes: " ++ notes ++ "\n")
      | none => s
    (.ok (), s.emit (call.script env.function))

/-- Goes on after a success. -/
def andThen (r : Except Error Unit × Script) (next : Script → Except Error Unit × Script) :
    Except Error Unit × Script :=
  match r with
  | (.ok (), s) => next s
  | (.error e, s) => (.error e, s)

mutual

def node (env : Environment) : Node → Script → Except Error Unit × Script
  | .text content, s => (.ok (), s.emit (Literal.spell content))
  | .print e, s => (.ok (), s.emit (e.script env.function))
  | .loop target items body, s =>
    let s := s.write ("for " ++ target ++ " in " ++ items.script env.function ++ " \x7b\n")
    andThen (nodes env body s.indent) fun s => (.ok (), s.outdent.write "\x7d\n")
  | .branch cases otherwise, s =>
    andThen (branches env true cases s) fun s =>
    andThen (fallback env otherwise s) fun s => (.ok (), s.outdent.write "\x7d\n")
  | .phrase p, s => phrase env p s

def nodes (env : Environment) : List Node → Script → Except Error Unit × Script
  | [], s => (.ok (), s)
  | n :: rest, s => andThen (node env n s) fun s => nodes env rest s

/-- The cases of a branch; every case but the first closes the one before it. -/
def branches (env : Environment) (isFirst : Bool) :
    List (Expr × List Node) → Script → Except Error Unit × Script
  | [], s => (.ok (), s)
  | (condition, body) :: rest, s =>
    let s := if isFirst then s.write "if " else s.outdent.write "\x7d else if "
    let s := s.raw (condition.script env.function ++ " \x7b\n")
    andThen (nodes env body s.indent) fun s => branches env false rest s

def fallback (env : Environment) : Option (List Node) → Script → Except Error Unit × Script
  | none, s => (.ok (), s)
  | some body, s => nodes env body (s.outdent.write "\x7d else \x7b\n").indent

end

end Script

end Polyglot
