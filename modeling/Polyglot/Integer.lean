import Polyglot.Decimal

/-!
The integers of the template language fit into 64 bits with their sign. An operation on them is
carried out on exact integers and has a result only if that result fits.
-/
namespace Polyglot

structure Integer where
  value : Int
  fits : -9223372036854775808 ≤ value ∧ value < 9223372036854775808
  deriving DecidableEq

namespace Integer

/-- The integer of a given value, if it fits. -/
def ofInt? (i : Int) : Option Integer :=
  if h : -9223372036854775808 ≤ i ∧ i < 9223372036854775808 then some ⟨i, h⟩ else none

/-- The integer with the same low 64 bits. -/
def wrap (i : Int) : Integer where
  value := i.bmod 18446744073709551616
  fits := by
    have hl := @Int.le_bmod i 18446744073709551616 (by decide)
    have hu := @Int.bmod_lt i 18446744073709551616 (by decide)
    omega

instance (n : Nat) : OfNat Integer n := ⟨wrap n⟩

def add? (a b : Integer) : Option Integer := ofInt? (a.value + b.value)

def sub? (a b : Integer) : Option Integer := ofInt? (a.value - b.value)

def mul? (a b : Integer) : Option Integer := ofInt? (a.value * b.value)

/-- Only the least integer has no negation. -/
def neg? (a : Integer) : Option Integer := ofInt? (-a.value)

/-- Only the least integer has no absolute value. -/
def abs? (a : Integer) : Option Integer := ofInt? a.value.natAbs

theorem ofInt?_eq_some_iff {i : Int} {a : Integer} : ofInt? i = some a ↔ a.value = i := by
  obtain ⟨value, fits⟩ := a
  unfold ofInt?
  split
  · simp [eq_comm]
  · next h =>
    simp only [reduceCtorEq, false_iff]
    rintro rfl
    exact h fits

theorem ofInt?_eq_none_iff {i : Int} :
    ofInt? i = none ↔ i < -9223372036854775808 ∨ 9223372036854775808 ≤ i := by
  unfold ofInt?
  split <;> simp <;> omega

def text (a : Integer) : String := Decimal.text a.value

/-- Reads a number with an optional sign; nothing else may stand around it. -/
def read? : List Char → Option Integer
  | '-' :: cs => (Decimal.natural? cs).bind fun n => ofInt? (-n)
  | '+' :: cs => (Decimal.natural? cs).bind fun n => ofInt? n
  | cs => (Decimal.natural? cs).bind fun n => ofInt? n

end Integer

end Polyglot
