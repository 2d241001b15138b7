import Polyglot.Expr
import Polyglot.Lexeme

/-!
The levels of expressions built by operators, from the loosest to the tightest. Each binary
operator belongs to one level and groups to the left; `not` and the minus sign stand in front of
expressions of their own level. Filters, then members and indices, then all other expressions
bind tighter than any operator.
-/
namespace Polyglot

inductive Level where
  | or
  | and
  | not
  | comparison
  | concat
  | sum
  | product
  | sign
  deriving DecidableEq

namespace Level

/-- How many levels are tighter. -/
def looseness : Level → Nat
  | or => 7
  | and => 6
  | not => 5
  | comparison => 4
  | concat => 3
  | sum => 2
  | product => 1
  | sign => 0

/-- The next tighter level; the tightest is its own successor. -/
def tighter : Level → Level
  | or => and
  | and => not
  | not => comparison
  | comparison => concat
  | concat => sum
  | sum => product
  | product => sign
  | sign => sign

theorem looseness_le (l : Level) : l.looseness ≤ 7 := by cases l <;> decide

theorem looseness_tighter_lt {l : Level} (h : l ≠ sign) : l.tighter.looseness < l.looseness := by
  cases l <;> first | decide | exact absurd rfl h

/-- The binary operator of a level that a lexeme stands for. -/
def operator? : Level → Lexeme → Option BinaryOp
  | or, .name "or" => some .or
  | and, .name "and" => some .and
  | comparison, .symbol .equal => some .equal
  | comparison, .symbol .notEqual => some .notEqual
  | comparison, .symbol .less => some .less
  | comparison, .symbol .greater => some .greater
  | concat, .symbol .tilde => some .concat
  | sum, .symbol .plus => some .add
  | sum, .symbol .minus => some .subtract
  | product, .symbol .star => some .multiply
  | _, _ => none

/-- The operator of a level that stands in front of its operand. -/
def sign? : Level → Lexeme → Option UnaryOp
  | not, .name "not" => some .not
  | sign, .symbol .minus => some .negate
  | _, _ => none

end Level

end Polyglot
