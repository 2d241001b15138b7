/-!
Decimal text of numbers. Main statement: reading the digits of a number gives that number back.
-/
namespace Polyglot.Decimal

/-- The decimal digits of a number, most significant first. -/
def digits (n : Nat) : List Char :=
  if n < 10 then [Nat.digitChar n] else digits (n / 10) ++ [Nat.digitChar (n % 10)]
termination_by n

def digitValue (c : Char) : Nat := c.toNat - '0'.toNat

/-- The number that a row of digits spells. -/
def ofDigits (cs : List Char) : Nat := cs.foldl (fun n c => 10 * n + digitValue c) 0

/-- A row of digits, which must not be empty. -/
def natural? (cs : List Char) : Option Nat :=
  if !cs.isEmpty && cs.all Char.isDigit then some (ofDigits cs) else none

def natText (n : Nat) : String := String.ofList (digits n)

/-- Decimal text, with a minus sign in front of a negative number. -/
def text (i : Int) : String :=
  if i < 0 then String.ofList ('-' :: digits i.natAbs) else natText i.natAbs

theorem isDigit_digitChar : ∀ d < 10, (Nat.digitChar d).isDigit = true := by decide

theorem digitValue_digitChar : ∀ d < 10, digitValue (Nat.digitChar d) = d := by decide

theorem digits_ne_nil (n : Nat) : digits n ≠ [] := by
  rw [digits]
  split <;> simp

theorem isDigit_of_mem_digits {n : Nat} {c : Char} (h : c ∈ digits n) : c.isDigit = true := by
  induction n using digits.induct with
  | case1 n hn =>
    rw [digits, if_pos hn, List.mem_singleton] at h
    exact h ▸ isDigit_digitChar n hn
  | case2 n hn ih =>
    rw [digits, if_neg hn, List.mem_append, List.mem_singleton] at h
    rcases h with h | h
    · exact ih h
    · exact h ▸ isDigit_digitChar _ (Nat.mod_lt _ (by decide))

theorem ofDigits_concat (cs : List Char) (c : Char) :
    ofDigits (cs ++ [c]) = 10 * ofDigits cs + digitValue c := by
  simp [ofDigits]

theorem ofDigits_digits (n : Nat) : ofDigits (digits n) = n := by
  induction n using digits.induct with
  | case1 n hn =>
    rw [digits, if_pos hn]
    simp [ofDigits, digitValue_digitChar n hn]
  | case2 n hn ih =>
    rw [digits, if_neg hn, ofDigits_concat, ih, digitValue_digitChar _ (Nat.mod_lt _ (by decide))]
    omega

end Polyglot.Decimal
