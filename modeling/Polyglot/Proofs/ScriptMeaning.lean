import Polyglot.Proofs.CheckedValues
import Polyglot.Proofs.LoweredRendering
import Polyglot.Proofs.PrintedArguments
import Polyglot.Proofs.ScriptBehaviour
import Polyglot.Proofs.ScriptReading

/-!
What the script of an expression means. A check is written as a call of `to_string`, which gives the
text that a value prints as, while the check gives the value itself; this is the only difference. So
the script means what the expression means where there are no checks, and otherwise unless something
is done with a checked value that tells it from its text.
-/
namespace Polyglot

namespace Environment

variable {options : Options}

end Environment

end Polyglot
