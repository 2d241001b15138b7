import Polyglot.Expr

/-!
The script form of an expression. Operators stand in parentheses, so the form needs no precedence;
a filter becomes a call of the function it is bound to, with the filtered expression as the first
argument, and a check becomes a call of `to_string`.
-/
namespace Polyglot.Expr

mutual

/-- The script form, where `function` tells the function that a filter is bound to. -/
def script (function : String → String) : Expr → String
  | literal a => a.spelled
  | name n => n
  | member e key => script function e ++ "." ++ key
  | index e i => script function e ++ "[" ++ script function i ++ "]"
  | binary l op r =>
    "(" ++ script function l ++ " " ++ op.symbol ++ " " ++ script function r ++ ")"
  | unary .not e => "(not " ++ script function e ++ ")"
  | unary .negate e => "(-" ++ script function e ++ ")"
  | filter e n args =>
    function n ++ "(" ++ ", ".intercalate (script function e :: scripts function args) ++ ")"
  | checked e => "to_string(" ++ script function e ++ ")"
  | call n args => n ++ "(" ++ ", ".intercalate (scripts function args) ++ ")"
  | list items => "[" ++ ", ".intercalate (scripts function items) ++ "]"
  | map entries => "\x7b" ++ ", ".intercalate (entryScripts function entries) ++ "\x7d"

def scripts (function : String → String) : List Expr → List String
  | [] => []
  | e :: rest => script function e :: scripts function rest

def entryScripts (function : String → String) : List (Expr × Expr) → List String
  | [] => []
  | (key, e) :: rest =>
    (script function key ++ ": " ++ script function e) :: entryScripts function rest

end

end Polyglot.Expr
