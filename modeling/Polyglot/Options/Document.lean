import Polyglot.Error
import Polyglot.Json
import Polyglot.Options

/-!
Options as a JSON document: an object with some of the fields, or an array with the first of them in
order. Fields that are not there keep their defaults. A field must not come twice, has to have a
value of its kind, and in an array there may be no more values than fields; other keys are ignored.
-/
namespace Polyglot.Options

/-- The fields in the order in which an array gives them. -/
def fieldNames : List String :=
  ["trim_blocks", "autoescape", "sandboxed", "translate_function", "translate_plural_function",
    "escape_function"]

/-- Sets one field to a value of its kind. -/
def set? (options : Options) (field : String) (value : Json) : Option Options :=
  match field, value with
  | "trim_blocks", .bool b => some { options with trimBlocks := b }
  | "autoescape", .bool b => some { options with autoescape := b }
  | "sandboxed", .bool b => some { options with sandboxed := b }
  | "translate_function", .text (some s) => some { options with translateFunction := s }
  | "translate_plural_function", .text (some s) =>
    some { options with translatePluralFunction := s }
  | "escape_function", .text (some s) => some { options with escapeFunction := s }
  | _, _ => none

/-- Sets the fields that `left` still allows and ignores the keys of no field. -/
def setAll? (options : Options) (left : List String) :
    List (Option String × Json) → Option Options
  | [] => some options
  | (none, _) :: _ => none
  | (some key, value) :: rest =>
    if fieldNames.contains key then
      if left.contains key then do
        let options ← options.set? key value
        setAll? options (left.filter (· != key)) rest
      else none
    else setAll? options left rest

/-- Gives the fields values by their order. -/
def setInOrder? (options : Options) : List String → List Json → Option Options
  | _, [] => some options
  | [], _ :: _ => none
  | field :: fields, value :: rest => do
    let options ← options.set? field value
    setInOrder? options fields rest

def ofJson? : Json → Option Options
  | .object entries => setAll? {} fieldNames entries
  | .array items => setInOrder? {} fieldNames items
  | _ => none

/-- Reads a document; what is wrong with one that is refused is not told. -/
def ofDocument (source : String) : Except Error Options :=
  match (Json.ofText? source).bind ofJson? with
  | some options => .ok options
  | none => .error .refusedOptions

end Polyglot.Options
