/-!
What a project can choose: how templates are read, and the names of the functions that translated
and escaped text goes through.
-/
namespace Polyglot

structure Options where
  /-- The line break right after a block tag is dropped. -/
  trimBlocks : Bool := true
  /-- Printed expressions are escaped unless they say how they are escaped themselves. -/
  autoescape : Bool := true
  /-- Every expression that a filter is applied to has to have a printed form. -/
  sandboxed : Bool := false
  translateFunction : String := "translate"
  translatePluralFunction : String := "translate_plural"
  escapeFunction : String := "escape"
  deriving DecidableEq

end Polyglot
