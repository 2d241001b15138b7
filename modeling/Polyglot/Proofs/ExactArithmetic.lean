import Polyglot.Proofs.DefinedValues
import Polyglot.Proofs.RenderingFailures

/-!
Arithmetic without bounds. Expressions of numbers, of names of numbers, and of sums, differences,
products, negations and absolute values have a value among all integers. Evaluation gives this value
if it and the values of all expressions inside fit into an integer of the template language, and
fails otherwise; what it gives is compared as these values are.
-/
namespace Polyglot

namespace BinaryOp

/-- The operation that an arithmetic operator stands for. -/
def operation? : BinaryOp → Option (Int → Int → Int)
  | add => some (· + ·)
  | subtract => some (· - ·)
  | multiply => some (· * ·)
  | _ => none

/-- The relation that a comparison stands for. -/
def comparison? : BinaryOp → Option (Int → Int → Bool)
  | equal => some fun a b => a = b
  | notEqual => some fun a b => a ≠ b
  | less => some fun a b => a < b
  | greater => some fun a b => b < a
  | _ => none

end BinaryOp

namespace Expr

/-- A number, a name of a number, or an arithmetic operation. The absolute value is taken by a call
or by a filter; `numbers` tells what the names stand for. -/
def IsArithmetic (scopes : Scopes) (numbers : String → Integer) : Expr → Prop
  | int _ => True
  | name n => scopes.lookup n = .int (numbers n)
  | binary _ op _ => op.operation?.isSome = true
  | unary op _ => op = .negate
  | filter _ n _ => n = "abs"
  | call n _ => n = "abs"
  | _ => False

mutual

/-- The value among all integers. Only the first argument of an absolute value counts. -/
def exact (numbers : String → Integer) : Expr → Int
  | literal (.int i) => i.value
  | name n => (numbers n).value
  | binary l op r =>
    match op.operation? with
    | some f => f (exact numbers l) (exact numbers r)
    | none => 0
  | unary _ e => -exact numbers e
  | filter e _ _ => (exact numbers e).natAbs
  | call _ args => (exactFirst numbers args).natAbs
  | _ => 0

def exactFirst (numbers : String → Integer) : List Expr → Int
  | [] => 0
  | e :: _ => exact numbers e

end

/-- The value is one of a 64-bit integer. -/
def Fits (numbers : String → Integer) (e : Expr) : Prop :=
  -9223372036854775808 ≤ e.exact numbers ∧ e.exact numbers < 9223372036854775808

instance (numbers : String → Integer) (e : Expr) : Decidable (e.Fits numbers) :=
  inferInstanceAs (Decidable (_ ∧ _))

end Expr

theorem Integer.eq_iff {i j : Integer} : i = j ↔ i.value = j.value := by
  rw [← Integer.mk.injEq]

namespace Value

/-- An arithmetic operator is carried out on exact integers, and then the result has to fit. -/
theorem toOption_operation {op : BinaryOp} {f : Int → Int → Int} (h : op.operation? = some f)
    (i j : Integer) : ((int i).binary op (int j)).toOption =
      (Integer.ofInt? (f i.value j.value)).map int := by
  have harithmetic : ∀ {op : BinaryOp} (r : Integer → Integer → Option Integer),
      (arithmetic op r (int i) (int j)).toOption = (r i j).map int := by
    intro op r
    simp only [arithmetic, number, bind, Except.bind]
    cases r i j <;> rfl
  cases op with
  | add => cases h; exact harithmetic Integer.add?
  | subtract => cases h; exact harithmetic Integer.sub?
  | multiply => cases h; exact harithmetic Integer.mul?
  | _ => cases h

theorem toOption_negate (i : Integer) : ((int i).unary .negate).toOption =
    (Integer.ofInt? (-i.value)).map int := by
  rw [unary, Integer.neg?]
  cases Integer.ofInt? (-i.value) <;> rfl

/-- Numbers are compared as the integers that they are. -/
theorem binary_comparison {op : BinaryOp} {holds : Int → Int → Bool}
    (h : op.comparison? = some holds) (i j : Integer) :
    (int i).binary op (int j) = .ok (.bool (holds i.value j.value)) := by
  cases op with
  | equal => cases h; simp [binary, Integer.eq_iff]
  | notEqual => cases h; simp [binary, Integer.eq_iff]
  | less => cases h; rfl
  | greater => cases h; rfl
  | _ => cases h

end Value

namespace Run

/-- A run that asks for nothing and has no value is a failure. -/
theorem eq_fail_of_isSilent {α : Type} {r : Run α} (h : r.IsSilent) (hfails : r.FailsInRendering)
    (hnone : r.value? = none) : ∃ failure, r = fail failure := by
  obtain ⟨requests, result⟩ := r
  cases h
  cases result with
  | error e =>
    obtain ⟨failure, rfl⟩ := hfails e rfl
    exact ⟨failure, rfl⟩
  | ok a => cases hnone

end Run

/-- There is a result exactly under a condition, and it has a property. -/
structure DefinedIf {α : Type} (fits : Prop) (P : α → Prop) (r? : Option α) : Prop where
  exists_of : fits → ∃ a, r? = some a ∧ P a
  none_of : ¬ fits → r? = none

namespace DefinedIf

variable {α β : Type} {fits fits' : Prop} {P : α → Prop} {Q : β → Prop} {r? : Option α}

theorem of_some {a : α} (hfits : fits) (ha : P a) : DefinedIf fits P (some a) :=
  ⟨fun _ => ⟨a, rfl, ha⟩, fun hnot => absurd hfits hnot⟩

theorem congr (h : DefinedIf fits P r?) (hiff : fits ↔ fits') : DefinedIf fits' P r? :=
  ⟨fun hfits => h.exists_of (hiff.2 hfits), fun hnot => h.none_of fun hfits => hnot (hiff.1 hfits)⟩

theorem bind (h : DefinedIf fits P r?) {next : α → Option β}
    (hnext : ∀ a, P a → DefinedIf fits' Q (next a)) :
    DefinedIf (fits ∧ fits') Q (r?.bind next) := by
  constructor
  · rintro ⟨hfits, hfits'⟩
    obtain ⟨a, rfl, ha⟩ := h.exists_of hfits
    exact (hnext a ha).exists_of hfits'
  · intro hnot
    by_cases hfits : fits
    · obtain ⟨a, rfl, ha⟩ := h.exists_of hfits
      exact (hnext a ha).none_of fun hfits' => hnot ⟨hfits, hfits'⟩
    · rw [h.none_of hfits, Option.bind_none]

end DefinedIf

namespace Value

/-- The value is a given integer. -/
def IsExactly (z : Int) (v : Value) : Prop := ∃ i : Integer, i.value = z ∧ v = int i

theorem definedIf_ofInt (z : Int) :
    DefinedIf (-9223372036854775808 ≤ z ∧ z < 9223372036854775808) (IsExactly z)
      ((Integer.ofInt? z).map int) := by
  constructor
  · intro hfits
    have hz : Integer.ofInt? z = some ⟨z, hfits⟩ := Integer.ofInt?_eq_some_iff.2 rfl
    exact ⟨int ⟨z, hfits⟩, by rw [hz, Option.map_some], ⟨z, hfits⟩, rfl, rfl⟩
  · intro hnot
    rw [Integer.ofInt?_eq_none_iff.2 (by omega), Option.map_none]

end Value

namespace Evaluator

open Polyglot.Expr

variable {m : Evaluator} {scopes : Scopes} {numbers : String → Integer}

/-- Arguments are defined if all of them are, and the first one is read as a number. -/
theorem definedIf_arguments {args : List Expr}
    (h : ∀ a ∈ args, DefinedIf (a.Every (Fits numbers)) (Value.IsExactly (a.exact numbers))
      (m.value? scopes a)) :
    DefinedIf (EveryItem (Fits numbers) args)
      (fun vs => ∃ i : Integer, i.value = exactFirst numbers args ∧
        (argument vs 0).number = .ok i) (m.evalItems scopes args).value? := by
  induction args with
  | nil => exact .of_some trivial ⟨0, rfl, rfl⟩
  | cons e args ih =>
    obtain ⟨he, hargs⟩ := List.forall_mem_cons.1 h
    rw [value?_evalItems_cons]
    refine he.bind fun v hv => ?_
    obtain ⟨i, hi, rfl⟩ := hv
    have hrest := ih hargs
    constructor
    · intro hfits
      obtain ⟨vs, hvs, _⟩ := hrest.exists_of hfits
      exact ⟨.int i :: vs, by rw [hvs, Option.map_some], i, hi, rfl⟩
    · intro hnot
      rw [hrest.none_of hnot, Option.map_none]

section

variable (habs : m.env.options.callee "abs" = .builtin .abs)
include habs

theorem definedIf_abs {vs : List Value} {i : Integer} (h : (argument vs 0).number = .ok i) :
    DefinedIf (-9223372036854775808 ≤ (i.value.natAbs : Int) ∧
        (i.value.natAbs : Int) < 9223372036854775808)
      (Value.IsExactly i.value.natAbs) (m.callFunction "abs" vs).value? := by
  rw [callFunction_builtin habs, Run.value?_ofFailure, toOption_abs, h, Except.toOption,
    Option.bind_some, Integer.abs?]
  exact Value.definedIf_ofInt i.value.natAbs

variable (hfunction : m.env.function "abs" = "abs")
include hfunction

/-- An arithmetic expression has its exact value if every value in it fits, and else none. -/
theorem definedIf_value? {e : Expr} (h : e.Every (IsArithmetic scopes numbers)) :
    DefinedIf (e.Every (Fits numbers)) (Value.IsExactly (e.exact numbers))
      (m.value? scopes e) := by
  induction e using Expr.induction with
  | literal a =>
    cases a with
    | int i => exact .of_some i.fits ⟨i, rfl, rfl⟩
    | _ => cases h
  | name n =>
    have hn : scopes.lookup n = .int (numbers n) := h
    rw [value?_name, hn]
    exact .of_some (numbers n).fits ⟨numbers n, rfl, rfl⟩
  | binary l op r ihl ihr =>
    obtain ⟨f, hf⟩ := Option.isSome_iff_exists.1 h.1
    have hexact : (binary l op r).exact numbers = f (l.exact numbers) (r.exact numbers) := by
      rw [exact, hf]
    have hvalue : DefinedIf (l.Every (Fits numbers) ∧ r.Every (Fits numbers) ∧
        (binary l op r).Fits numbers) (Value.IsExactly ((binary l op r).exact numbers))
        (m.value? scopes (binary l op r)) := by
      rw [value?_binary, Fits, hexact]
      refine (ihl h.2.1).bind fun v hv => (ihr h.2.2).bind fun w hw => ?_
      obtain ⟨i, hi, rfl⟩ := hv
      obtain ⟨j, hj, rfl⟩ := hw
      rw [Value.toOption_operation hf, hi, hj]
      exact Value.definedIf_ofInt _
    exact hvalue.congr and_rotate.symm
  | unary op e ih =>
    obtain rfl : op = .negate := h.1
    have hvalue : DefinedIf (e.Every (Fits numbers) ∧ (unary .negate e).Fits numbers)
        (Value.IsExactly ((unary .negate e).exact numbers))
        (m.value? scopes (unary .negate e)) := by
      rw [value?_unary, Fits, exact]
      refine (ih h.2).bind fun v hv => ?_
      obtain ⟨i, hi, rfl⟩ := hv
      rw [Value.toOption_negate, hi]
      exact Value.definedIf_ofInt _
    exact hvalue.congr and_comm
  | filter e n args ihe ih =>
    obtain rfl : n = "abs" := h.1
    have hargs := everyItem_iff.1 h.2.2
    have hvalue : DefinedIf (e.Every (Fits numbers) ∧ EveryItem (Fits numbers) args ∧
        (filter e "abs" args).Fits numbers) (Value.IsExactly ((filter e "abs" args).exact numbers))
        (m.value? scopes (filter e "abs" args)) := by
      rw [value?_filter, hfunction, Fits, exact]
      refine (ihe h.2.1).bind fun v hv => ?_
      refine (definedIf_arguments fun a ha => ih a ha (hargs a ha)).bind fun vs _ => ?_
      obtain ⟨i, hi, rfl⟩ := hv
      rw [← hi]
      exact definedIf_abs habs rfl
    exact hvalue.congr and_rotate.symm
  | call n args ih =>
    obtain rfl : n = "abs" := h.1
    have hargs := everyItem_iff.1 h.2
    have hvalue : DefinedIf (EveryItem (Fits numbers) args ∧ (call "abs" args).Fits numbers)
        (Value.IsExactly ((call "abs" args).exact numbers))
        (m.value? scopes (call "abs" args)) := by
      rw [value?_call, Fits, exact]
      refine (definedIf_arguments fun a ha => ih a ha (hargs a ha)).bind fun vs hvs => ?_
      obtain ⟨i, hi, hnumber⟩ := hvs
      rw [← hi]
      exact definedIf_abs habs hnumber
    exact hvalue.congr and_comm
  | _ => exact h.self.elim

end

section

variable (habs : "abs" ∉ [m.env.options.translateFunction, m.env.options.translatePluralFunction,
  m.env.options.escapeFunction])
variable (hfunction : m.env.function "abs" = "abs")
include habs hfunction

/-- Arithmetic calls no translating function. -/
theorem isSilent_eval_of_isArithmetic {e : Expr} (h : e.Every (IsArithmetic scopes numbers)) :
    (m.eval scopes e).IsSilent := by
  simp only [List.mem_cons, not_or] at habs
  refine isSilent_eval (h.mono fun e he => ?_)
  cases e with
  | call n args =>
    obtain rfl : n = "abs" := he
    exact ⟨habs.1, habs.2.1⟩
  | filter e n args =>
    obtain rfl : n = "abs" := he
    rw [AsksNothing, hfunction]
    exact ⟨habs.1, habs.2.1⟩
  | _ => trivial

theorem eval_of_fits {e : Expr} (h : e.Every (IsArithmetic scopes numbers))
    (hfits : e.Every (Fits numbers)) :
    ∃ i : Integer, i.value = e.exact numbers ∧ m.eval scopes e = pure (.int i) := by
  have hsilent := isSilent_eval_of_isArithmetic habs hfunction h
  obtain ⟨_, hvalue, i, hi, rfl⟩ :=
    (definedIf_value? (Options.callee_abs_of_not_mem habs) hfunction h).exists_of hfits
  exact ⟨i, hi, Run.eq_pure_of_isSilent hsilent hvalue⟩

theorem eval_of_not_fits {e : Expr} (h : e.Every (IsArithmetic scopes numbers))
    (hnot : ¬ e.Every (Fits numbers)) : ∃ failure, m.eval scopes e = .fail failure := by
  have hsilent := isSilent_eval_of_isArithmetic habs hfunction h
  have hnone :=
    (definedIf_value? (Options.callee_abs_of_not_mem habs) hfunction h).none_of hnot
  exact Run.eq_fail_of_isSilent hsilent (m.failsInRendering_eval scopes e) hnone

/-- Arithmetic is exact or fails, however deep the operations and absolute values are nested: a
value that does not fit is reported even where it is inside an expression whose own value fits.
Defined expressions are compared as their exact values are. -/
theorem eval_arithmetic_exact {d e : Expr} (hd : d.Every (IsArithmetic scopes numbers))
    (he : e.Every (IsArithmetic scopes numbers)) :
    (∀ i : Integer, m.eval scopes d = pure (.int i) ↔
      d.Every (Fits numbers) ∧ i.value = d.exact numbers) ∧
    (¬ d.Every (Fits numbers) → ∃ failure, m.eval scopes d = .fail failure) ∧
    ∀ op holds, op.comparison? = some holds → d.Every (Fits numbers) → e.Every (Fits numbers) →
      m.eval scopes (.binary d op e) =
        pure (.bool (holds (d.exact numbers) (e.exact numbers))) := by
  refine ⟨fun i => ⟨fun heval => ?_, ?_⟩, eval_of_not_fits habs hfunction hd, ?_⟩
  · by_cases hfits : d.Every (Fits numbers)
    · obtain ⟨j, hj, hdefined⟩ := eval_of_fits habs hfunction hd hfits
      rw [hdefined] at heval
      cases heval
      exact ⟨hfits, hj⟩
    · obtain ⟨failure, hfailed⟩ := eval_of_not_fits habs hfunction hd hfits
      rw [hfailed] at heval
      cases heval
  · rintro ⟨hfits, hi⟩
    obtain ⟨j, hj, hdefined⟩ := eval_of_fits habs hfunction hd hfits
    rw [hdefined, Integer.eq_iff.2 (hi.trans hj.symm)]
  · intro op holds hop hdfits hefits
    obtain ⟨i, hi, hdvalue⟩ := eval_of_fits habs hfunction hd hdfits
    obtain ⟨j, hj, hevalue⟩ := eval_of_fits habs hfunction he hefits
    rw [eval, hdvalue, hevalue, pure_bind, pure_bind, Value.binary_comparison hop, hi, hj]
    rfl

end

/-- The least integer has no absolute value, although the difference around it fits; that of its
successor is the greatest integer. -/
theorem eval_arithmetic_exact_leastInteger :
    let m : Evaluator := ⟨.standard {}, .passthrough⟩
    let least : Integer := .wrap (-9223372036854775808)
    let scopes : Scopes := [[("n", .int least)]]
    let small : Expr := .binary (.call "abs" [.name "n"]) .subtract (.literal (.int 1))
    let great : Expr := .filter (.binary (.name "n") .add (.literal (.int 1))) "abs" []
    (∃ failure, m.eval scopes small = .fail failure) ∧
      m.eval scopes great = pure (.int (.wrap 9223372036854775807)) ∧
      m.eval scopes (.binary (.name "n") .less great) = pure (.bool true) := by
  intro m least scopes small great
  have habs : "abs" ∉ [m.env.options.translateFunction, m.env.options.translatePluralFunction,
      m.env.options.escapeFunction] := by decide
  have hfunction : m.env.function "abs" = "abs" := by decide +kernel
  have hname : (Expr.name "n").Every (IsArithmetic scopes fun _ => least) := by rfl
  have hsmall : small.Every (IsArithmetic scopes fun _ => least) :=
    ⟨rfl, ⟨rfl, hname, trivial⟩, trivial⟩
  have hgreat : great.Every (IsArithmetic scopes fun _ => least) :=
    ⟨rfl, ⟨rfl, hname, trivial⟩, trivial⟩
  have hgreatFits : great.Every (Fits fun _ => least) :=
    ⟨by decide +kernel, ⟨by decide +kernel, least.fits, Integer.fits 1⟩, trivial⟩
  have hnot : ¬ small.Every (Fits fun _ => least) := fun h =>
    absurd h.2.1.self (show ¬ (call "abs" [.name "n"]).Fits _ by decide +kernel)
  refine ⟨(eval_arithmetic_exact habs hfunction hsmall hgreat).2.1 hnot, ?_, ?_⟩
  · exact ((eval_arithmetic_exact habs hfunction hgreat hname).1 _).2
      ⟨hgreatFits, by decide +kernel⟩
  · exact (eval_arithmetic_exact habs hfunction hname hgreat).2.2 .less _ rfl least.fits hgreatFits

end Evaluator

end Polyglot
