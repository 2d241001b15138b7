import Polyglot.Evaluation

/-!
What the names of functions call. The configured names come before the built-in ones, so which
function a name stands for is clear only as long as the configured names are apart from each other
and from the built-in names that phrases use.
-/
namespace Polyglot

namespace Options

/-- The functions have the names that they have if a project chooses none. -/
structure DefaultNames (options : Options) : Prop where
  translate : options.translateFunction = "translate"
  translatePlural : options.translatePluralFunction = "translate_plural"
  escape : options.escapeFunction = "escape"

/-- The functions that phrases call have names that tell them apart. -/
structure NamesApart (options : Options) : Prop where
  plural : options.translatePluralFunction ≠ options.translateFunction
  escape : options.escapeFunction ≠ options.translateFunction
  escapePlural : options.escapeFunction ≠ options.translatePluralFunction
  abs : "abs" ∉ [options.translateFunction, options.translatePluralFunction,
    options.escapeFunction]

variable {options : Options}

theorem DefaultNames.namesApart (h : options.DefaultNames) : options.NamesApart where
  plural := by rw [h.translate, h.translatePlural]; decide
  escape := by rw [h.translate, h.escape]; decide
  escapePlural := by rw [h.translatePlural, h.escape]; decide
  abs := by rw [h.translate, h.translatePlural, h.escape]; decide

theorem callee_translate (options : Options) :
    options.callee options.translateFunction = .translate := if_pos rfl

/-- Unless it is a configured name, `abs` is the absolute value. -/
theorem callee_abs_of_not_mem (h : "abs" ∉ [options.translateFunction,
    options.translatePluralFunction, options.escapeFunction]) :
    options.callee "abs" = .builtin .abs := by
  simp only [List.mem_cons, List.not_mem_nil, or_false, not_or] at h
  rw [callee, if_neg h.1, if_neg h.2.1, if_neg h.2.2]
  rfl

namespace NamesApart

variable (h : options.NamesApart)
include h

theorem callee_translatePlural :
    options.callee options.translatePluralFunction = .translatePlural := by
  rw [callee, if_neg h.plural, if_pos rfl]

theorem callee_escape : options.callee options.escapeFunction = .builtin .escape := by
  rw [callee, if_neg h.escape, if_neg h.escapePlural, if_pos rfl]
  rfl

theorem callee_abs : options.callee "abs" = .builtin .abs := callee_abs_of_not_mem h.abs

end NamesApart

end Options

namespace Evaluator

variable {m : Evaluator}

theorem callFunction_builtin {n : String} {f : Builtin}
    (h : m.env.options.callee n = .builtin f) (args : List Value) :
    m.callFunction n args = .ofFailure (f.apply (argument args 0)) := by
  rw [callFunction, h]

theorem callFunction_translate {n : String} (h : m.env.options.callee n = .translate)
    (args : List Value) : m.callFunction n args = m.translate args := by
  rw [callFunction, h]

theorem callFunction_translatePlural {n : String}
    (h : m.env.options.callee n = .translatePlural) (args : List Value) :
    m.callFunction n args = m.translatePlural args := by
  rw [callFunction, h]

end Evaluator

end Polyglot
