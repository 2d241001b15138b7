/-!
Classes of characters given by a standard are tables of ranges of code points, both ends included
and in increasing order.
-/
namespace Polyglot.CharClass

abbrev Ranges := List (Nat × Nat)

def Ranges.has (rs : Ranges) (c : Char) : Bool :=
  rs.any fun r => r.1 ≤ c.toNat && c.toNat ≤ r.2

end Polyglot.CharClass
