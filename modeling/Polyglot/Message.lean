import Polyglot.Blank
import Polyglot.Node

/-!
The message of a phrase is its text with a placeholder for every printed variable, together
with the variables in the order of their first occurrence. Only plain text and variables under a
bounded number of filters and checks can be part of a message.
-/
namespace Polyglot

/-- A variable in a message. One that was printed without a filter is raw: its value replaces the
placeholder as it is, while the value of any other is escaped. -/
structure Variable where
  name : String
  raw : Bool
  deriving DecidableEq

namespace Variable

def placeholder (v : Variable) : String := "%" ++ v.name ++ "%"

/-- Adds a variable unless one of its name is there already. -/
def add (known : List Variable) (v : Variable) : List Variable :=
  if known.any (·.name == v.name) then known else known ++ [v]

def union (known new : List Variable) : List Variable := new.foldl add known

end Variable

inductive Message where
  | literal (s : String)
  | expr (e : Expr)
  deriving DecidableEq

def Message.toExpr : Message → Expr
  | literal s => .text s
  | expr e => e

structure Extracted where
  message : Message
  vars : List Variable
  deriving DecidableEq

namespace Message

/-- The name under at most a given number of filters and checks. -/
def nameUnder : Nat → Expr → Option String
  | _, .name n => some n
  | layers + 1, .filter e _ _ => nameUnder layers e
  | layers + 1, .checked e => nameUnder layers e
  | _, _ => none

def maxLayers : Nat := 32

def variableName? : Expr → Option String := nameUnder maxLayers

/-- The characters dropped from both ends of a message. Other blank space, such as a no-break
space, belongs to the message. -/
def isMargin (c : Char) : Bool :=
  c == ' ' || c == '\t' || c == '\n' || c == '\r' || c == '\x00' || c == '\x0b'

def trim (s : String) : String := String.ofList (Blank.trim isMargin s.toList)

/-- What one node contributes to a message. -/
inductive Piece where
  | text (s : String)
  | hole (v : Variable)

def Piece.shown : Piece → String
  | text s => s
  | hole v => v.placeholder

def Piece.held? : Piece → Option Variable
  | text _ => none
  | hole v => some v

def piece? : Node → Option Piece
  | .text s => some (.text s)
  | .print e => (variableName? e).map fun n => .hole ⟨n, !e.isFilter⟩
  | _ => none

/-- The pieces of all nodes, if each of them has one. -/
def pieces? : List Node → Option (List Piece)
  | [] => some []
  | n :: rest => do
    let p ← piece? n
    let ps ← pieces? rest
    return p :: ps

def ofPieces (ps : List Piece) : Extracted where
  message := .literal (trim (String.join (ps.map (·.shown))))
  vars := Variable.union [] (ps.filterMap (·.held?))

/-- The message of a list of nodes; a node with no piece makes the phrase at `line` fail. -/
def ofNodes (nodes : List Node) (line : Nat) : Except Error Extracted :=
  match pieces? nodes with
  | some ps => .ok (ofPieces ps)
  | none => .error (.untranslatable line)

def ofBody (body : Body Node) (line : Nat) : Except Error Extracted :=
  match body with
  | .inline e => if e.isAtomic then .ok ⟨.expr e, []⟩ else .error (.untranslatable line)
  | .block nodes => ofNodes nodes line

def isTranslatable : Node → Bool
  | .text _ => true
  | .print (.name _) => true
  | .print (.filter e n args) => (variableName? (.filter e n args)).isSome
  | _ => false

/-- Refuses a singular body that holds more than text and simple variables. -/
def check (body : Body Node) (line : Nat) : Except Error Unit :=
  let translatable :=
    match body with
    | .inline e => e.isAtomic
    | .block nodes => nodes.all isTranslatable
  if translatable then .ok () else .error (.untranslatable line)

end Message

end Polyglot
