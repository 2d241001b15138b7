import Polyglot.Blank
import Polyglot.Error
import Polyglot.Html
import Polyglot.LetterCase

/-!
What operators and built-in functions do with values. Arithmetic and order take truth values, null
and text that spells a number for numbers; nothing else is converted without being asked for.
-/
namespace Polyglot

namespace Value

/-- The printed form of a value that has to have one. -/
def printed (v : Value) : Except Failure String :=
  match v.printed? with
  | some s => .ok s
  | none => .error (.notPrintable v)

/-- The number that a value stands for. -/
def number (v : Value) : Except Failure Integer :=
  match v with
  | .int i => .ok i
  | .bool b => .ok (if b then 1 else 0)
  | .null => .ok 0
  | .text s =>
    match Integer.read? (Blank.trim Blank.isBlank s.toList) with
    | some i => .ok i
    | none => .error (.notANumber v)
  | .list _ => .error (.notANumber v)
  | .map _ => .error (.notANumber v)

/-- The result of an operation on numbers, if it fits. -/
def arithmetic (op : BinaryOp) (exact : Integer → Integer → Option Integer) (l r : Value) :
    Except Failure Value := do
  let a ← l.number
  let b ← r.number
  match exact a b with
  | some c => .ok (.int c)
  | none => .error (.overflow a op b)

/-- A comparison of two numbers. -/
def compare (holds : Integer → Integer → Bool) (l r : Value) : Except Failure Value := do
  let a ← l.number
  let b ← r.number
  return .bool (holds a b)

/-- The sum of two texts is the one followed by the other. -/
def plus : Value → Value → Except Failure Value
  | .text s, .text t => .ok (.text (s ++ t))
  | l, r => arithmetic .add Integer.add? l r

/-- Both operands have a value already, so `and` and `or` skip neither. -/
def binary (l : Value) (op : BinaryOp) (r : Value) : Except Failure Value :=
  match op with
  | .equal => .ok (.bool (l = r))
  | .notEqual => .ok (.bool (l ≠ r))
  | .and => .ok (.bool (l.holds && r.holds))
  | .or => .ok (.bool (l.holds || r.holds))
  | .concat => do
    let s ← l.printed
    let t ← r.printed
    return .text (s ++ t)
  | .add => plus l r
  | .subtract => arithmetic .subtract Integer.sub? l r
  | .multiply => arithmetic .multiply Integer.mul? l r
  | .less => compare (fun a b => a.value < b.value) l r
  | .greater => compare (fun a b => b.value < a.value) l r

/-- Only numbers proper are negated. -/
def unary (op : UnaryOp) (v : Value) : Except Failure Value :=
  match op, v with
  | .not, v => .ok (.bool (!v.holds))
  | .negate, .int i =>
    match Integer.neg? i with
    | some j => .ok (.int j)
    | none => .error (.negationOverflow i)
  | .negate, v => .error (.notNegatable v)

/-- A map without an entry for the key gives null. -/
def member (v : Value) (key : String) : Except Failure Value :=
  match v with
  | .map entries => .ok ((Entries.get? key entries).getD .null)
  | v => .error (.memberOfNonMap key v)

/-- A map is indexed by text and a list by a number counted from zero. -/
def index (v i : Value) : Except Failure Value :=
  match v, i with
  | .map entries, .text key => .ok ((Entries.get? key entries).getD .null)
  | .list items, .int i =>
    match if 0 ≤ i.value then items[i.value.toNat]? else none with
    | some item => .ok item
    | none => .error (.outOfBounds i)
  | _, _ => .error .badIndex

/-- The number of characters, items or entries. -/
def length (v : Value) : Except Failure Value :=
  match v with
  | .text s => .ok (.int (.wrap s.length))
  | .list items => .ok (.int (.wrap items.length))
  | .map entries => .ok (.int (.wrap entries.length))
  | v => .error (.noLength v)

end Value

/-- The functions that every script can call besides those that translate. -/
inductive Builtin where
  | escape
  | raw
  | toString
  | upper
  | lower
  | length
  | abs
  deriving DecidableEq

namespace Builtin

def ofName? : String → Option Builtin
  | "escape" => some escape
  | "e" => some escape
  | "raw" => some raw
  | "to_string" => some toString
  | "upper" => some upper
  | "lower" => some lower
  | "length" => some length
  | "abs" => some abs
  | _ => none

def apply (f : Builtin) (v : Value) : Except Failure Value :=
  match f with
  | escape => v.printed.map fun s => .text (Html.escape s)
  | raw => .ok v
  | toString => v.printed.map .text
  | upper => v.printed.map fun s => .text (LetterCase.upper s)
  | lower => v.printed.map fun s => .text (LetterCase.lower s)
  | length => v.length
  | abs => do
    let i ← v.number
    match Integer.abs? i with
    | some j => .ok (.int j)
    | none => .error (.absoluteOverflow i)

end Builtin

end Polyglot
