import Polyglot.Cursor
import Polyglot.Expr.Level

/-!
Reading expressions. A level reads an operand of the next tighter level and then as many operators
with their operands as follow. With `checks`, every expression that a filter is applied to is
checked for a printed form.
-/
namespace Polyglot.Expr

def exactly (x : Lexeme) (found : Lexeme) : Option Unit :=
  if found = x then some () else none

/-- The expression that a filter makes of another one. -/
def filtered (checks : Bool) (e : Expr) (name : String) (args : List Expr) : Expr :=
  filter (if checks then checked e else e) name args

/-- The constant or name that a word stands for. -/
def ofName : String → Expr
  | "true" => bool true
  | "false" => bool false
  | "null" => null
  | "none" => null
  | n => name n

mutual

/-- An expression of a given level or a tighter one. -/
def level (checks : Bool) (l : Level) (s : Cursor) : Reading s Expr :=
  s.choose l.sign?
    (fun op t _ => (level checks l t).map (unary op))
    fun t _ =>
      if _hl : l = .sign then
        (primary checks t).andThen fun e u _ =>
        (selectors checks e u).andThen fun e v _ =>
        filters checks e v
      else
        (level checks l.tighter t).andThen fun e u _ => operators checks l e u
termination_by 16 * s.size + l.looseness + 1
decreasing_by
  · omega
  · omega
  · omega
  · omega
  · have := Level.looseness_tighter_lt _hl
    omega
  · omega

/-- The operators of a level after a first operand. -/
def operators (checks : Bool) (l : Level) (e : Expr) (s : Cursor) : Reading s Expr :=
  s.choose l.operator?
    (fun op t _ =>
      (level checks l.tighter t).andThen fun r u _ => operators checks l (binary e op r) u)
    fun t _ => .done t e
termination_by 16 * s.size
decreasing_by
  · have := l.tighter.looseness_le
    omega
  · omega

/-- The filters after an expression. -/
def filters (checks : Bool) (e : Expr) (s : Cursor) : Reading s Expr :=
  s.choose (exactly (.symbol .pipe))
    (fun _ t _ =>
      t.name.andThen fun n u _ =>
      u.choose (exactly (.symbol .openParen))
        (fun _ v _ =>
          (arguments checks .closeParen v).andThen fun args w _ =>
          filters checks (filtered checks e n args) w)
        fun v _ => filters checks (filtered checks e n []) v)
    fun t _ => .done t e
termination_by 16 * s.size
decreasing_by all_goals omega

/-- The members and indices after an expression; a name may also be called. -/
def selectors (checks : Bool) (e : Expr) (s : Cursor) : Reading s Expr :=
  s.choose (exactly (.symbol .dot))
    (fun _ t _ =>
      t.name.andThen fun key u _ => selectors checks (member e key) u)
    fun t _ =>
  t.choose (exactly (.symbol .openBracket))
    (fun _ u _ =>
      (level checks .or u).andThen fun i v _ =>
      (v.expect (.symbol .closeBracket)).andThen fun _ w _ => selectors checks (index e i) w)
    fun u _ =>
  u.choose (fun x => if x = .symbol .openParen then e.name? else none)
    (fun n v _ =>
      (arguments checks .closeParen v).andThen fun args w _ => selectors checks (call n args) w)
    fun v _ => .done v e
termination_by 16 * s.size
decreasing_by
  all_goals
    have := Level.looseness_le .or
    omega

def primary (checks : Bool) (s : Cursor) : Reading s Expr :=
  s.take fun token t _ =>
    match token.lexeme with
    | .str value => .done t (text value)
    | .int i => .done t (int i)
    | .name n => .done t (ofName n)
    | .symbol .openParen =>
      (level checks .or t).andThen fun e u _ =>
      (u.expect (.symbol .closeParen)).map fun _ => e
    | .symbol .openBracket => (arguments checks .closeBracket t).map list
    | .symbol .openBrace => (pairs checks t).map map
    | x => .refuse t (.expectedExpression x) token.line
termination_by 16 * s.size
decreasing_by
  all_goals
    have := Level.looseness_le .or
    omega

/-- Expressions between commas up to a closing symbol, which is taken. -/
def arguments (checks : Bool) (close : Symbol) (s : Cursor) : Reading s (List Expr) :=
  s.choose (exactly (.symbol close))
    (fun _ t _ => .done t [])
    fun t _ =>
      (items checks t).andThen fun es u _ => (u.expect (.symbol close)).map fun _ => es
termination_by 16 * s.size + 10
decreasing_by all_goals omega

/-- One expression, and one more after every comma. -/
def items (checks : Bool) (s : Cursor) : Reading s (List Expr) :=
  (level checks .or s).andThen fun e t _ =>
  t.choose (exactly (.symbol .comma))
    (fun _ u _ => (items checks u).map (e :: ·))
    fun u _ => .done u [e]
termination_by 16 * s.size + 9
decreasing_by
  all_goals
    have := Level.looseness_le .or
    omega

/-- The entries of a map up to its closing brace, which is taken. -/
def pairs (checks : Bool) (s : Cursor) : Reading s (List (Expr × Expr)) :=
  s.choose (exactly (.symbol .closeBrace))
    (fun _ t _ => .done t [])
    fun t _ =>
      (entries checks t).andThen fun es u _ => (u.expect (.symbol .closeBrace)).map fun _ => es
termination_by 16 * s.size + 10
decreasing_by all_goals omega

/-- One entry, and one more after every comma. -/
def entries (checks : Bool) (s : Cursor) : Reading s (List (Expr × Expr)) :=
  (level checks .or s).andThen fun key t _ =>
  (t.expect (.symbol .colon)).andThen fun _ u _ =>
  (level checks .or u).andThen fun e v _ =>
  v.choose (exactly (.symbol .comma))
    (fun _ w _ => (entries checks w).map ((key, e) :: ·))
    fun w _ => .done w [(key, e)]
termination_by 16 * s.size + 9
decreasing_by
  all_goals
    have := Level.looseness_le .or
    omega

end

/-- Reads a whole expression. -/
def read (checks : Bool) (s : Cursor) : Reading s Expr := level checks .or s

/-- Reads an expression that nothing may follow. -/
def readAlone (checks : Bool) (s : Cursor) : Reading s Expr :=
  (read checks s).andThen fun e t _ =>
  (t.peek 0).andThen fun token? u _ =>
    match token? with
    | some token => .refuse u (.afterExpression token.lexeme) token.line
    | none => .done u e

end Polyglot.Expr
