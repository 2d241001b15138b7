import Polyglot.Scalar

/-!
Expressions of the template language. A filter is applied to the expression on its left; a checked
expression has the value of the expression inside, but only if that value has a printed form.
-/
namespace Polyglot

inductive UnaryOp where
  | not
  | negate
  deriving DecidableEq

inductive BinaryOp where
  | equal
  | notEqual
  | less
  | greater
  | add
  | subtract
  | multiply
  | concat
  | and
  | or
  deriving DecidableEq

def BinaryOp.symbol : BinaryOp → String
  | equal => "=="
  | notEqual => "!="
  | less => "<"
  | greater => ">"
  | add => "+"
  | subtract => "-"
  | multiply => "*"
  | concat => "~"
  | and => "and"
  | or => "or"

inductive Expr where
  | literal (a : Scalar)
  | name (n : String)
  | member (e : Expr) (key : String)
  | index (e i : Expr)
  | binary (l : Expr) (op : BinaryOp) (r : Expr)
  | unary (op : UnaryOp) (e : Expr)
  | filter (e : Expr) (name : String) (args : List Expr)
  | checked (e : Expr)
  | call (name : String) (args : List Expr)
  | list (items : List Expr)
  | map (entries : List (Expr × Expr))

namespace Expr

@[match_pattern] abbrev text (s : String) : Expr := literal (.text s)

@[match_pattern] abbrev int (i : Integer) : Expr := literal (.int i)

@[match_pattern] abbrev bool (b : Bool) : Expr := literal (.bool b)

@[match_pattern] abbrev null : Expr := literal .null

mutual

def beq : Expr → Expr → Bool
  | literal a, literal b => a == b
  | name m, name n => m == n
  | member a m, member b n => beq a b && m == n
  | index a i, index b j => beq a b && beq i j
  | binary a o l, binary b p r => beq a b && o == p && beq l r
  | unary o a, unary p b => o == p && beq a b
  | filter a m as, filter b n bs => beq a b && m == n && beqItems as bs
  | checked a, checked b => beq a b
  | call m as, call n bs => m == n && beqItems as bs
  | list as, list bs => beqItems as bs
  | map as, map bs => beqEntries as bs
  | _, _ => false

def beqItems : List Expr → List Expr → Bool
  | [], [] => true
  | a :: as, b :: bs => beq a b && beqItems as bs
  | _, _ => false

def beqEntries : List (Expr × Expr) → List (Expr × Expr) → Bool
  | [], [] => true
  | (k, a) :: as, (l, b) :: bs => beq k l && beq a b && beqEntries as bs
  | _, _ => false

end

mutual

theorem beq_iff : (a b : Expr) → (beq a b = true ↔ a = b)
  | literal a, b => by cases b <;> simp [beq]
  | name m, b => by cases b <;> simp [beq]
  | member a m, b => by cases b <;> simp [beq, beq_iff a]
  | index a i, b => by cases b <;> simp [beq, beq_iff a, beq_iff i]
  | binary a o l, b => by cases b <;> simp [beq, beq_iff a, beq_iff l, and_assoc]
  | unary o a, b => by cases b <;> simp [beq, beq_iff a]
  | filter a m as, b => by cases b <;> simp [beq, beq_iff a, beqItems_iff as, and_assoc]
  | checked a, b => by cases b <;> simp [beq, beq_iff a]
  | call m as, b => by cases b <;> simp [beq, beqItems_iff as]
  | list as, b => by cases b <;> simp [beq, beqItems_iff as]
  | map as, b => by cases b <;> simp [beq, beqEntries_iff as]

theorem beqItems_iff : (as bs : List Expr) → (beqItems as bs = true ↔ as = bs)
  | [], bs => by cases bs <;> simp [beqItems]
  | a :: as, bs => by cases bs <;> simp [beqItems, beq_iff a, beqItems_iff as]

theorem beqEntries_iff : (as bs : List (Expr × Expr)) → (beqEntries as bs = true ↔ as = bs)
  | [], bs => by cases bs <;> simp [beqEntries]
  | (k, a) :: as, bs => by
    rcases bs with _ | ⟨⟨l, b⟩, bs⟩ <;>
      simp [beqEntries, beq_iff k, beq_iff a, beqEntries_iff as]

end

instance : DecidableEq Expr := fun a b => decidable_of_iff (beq a b = true) (beq_iff a b)

/-- Names and constants: the expressions that can stand for a whole message. -/
def isAtomic : Expr → Bool
  | literal _ => true
  | name _ => true
  | _ => false

def name? : Expr → Option String
  | name n => some n
  | _ => none

def isFilter : Expr → Bool
  | filter _ _ _ => true
  | _ => false

end Expr

end Polyglot
