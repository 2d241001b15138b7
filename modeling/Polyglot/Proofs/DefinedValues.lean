import Polyglot.Proofs.CalledFunctions
import Polyglot.Proofs.ExprTrees
import Polyglot.Proofs.ReplacementMaps

/-!
Values that expressions have. Without its requests and the kind of its error a run is an option, and
runs that follow each other are options that are bound. An expression that calls no translating
function asks nothing, whether it has a value or not.
-/
namespace Polyglot

theorem toOption_bind {ε α β : Type} (x : Except ε α) (f : α → Except ε β) :
    (x >>= f).toOption = x.toOption.bind fun a => (f a).toOption := by
  cases x <;> rfl

namespace Run

variable {α β : Type}

/-- What the run gives, if it succeeds. -/
def value? (r : Run α) : Option α := r.result.toOption

theorem value?_eq_some {r : Run α} {a : α} : r.value? = some a ↔ r.result = .ok a := by
  unfold value?
  cases r.result <;> simp [Except.toOption]

@[simp]
theorem value?_pure (a : α) : (Pure.pure a : Run α).value? = some a := rfl

@[simp]
theorem value?_fail (failure : Failure) : (fail failure : Run α).value? = none := rfl

@[simp]
theorem value?_ofFailure (result : Except Failure α) :
    (ofFailure result).value? = result.toOption := by
  cases result <;> rfl

@[simp]
theorem value?_bind (r : Run α) (next : α → Run β) :
    (r >>= next).value? = r.value?.bind fun a => (next a).value? := by
  cases hr : r.result with
  | error e => simp [value?, bind_of_error hr, hr, Except.toOption]
  | ok a => simp [value?, bind_of_ok hr, hr, Except.toOption]

/-- The run asks the translator for nothing. -/
def IsSilent (r : Run α) : Prop := r.requests = []

theorem isSilent_pure (a : α) : (Pure.pure a : Run α).IsSilent := rfl

theorem isSilent_ofFailure (result : Except Failure α) : (ofFailure result).IsSilent := rfl

theorem isSilent_fail (failure : Failure) : (fail failure : Run α).IsSilent := rfl

theorem isSilent_bind {r : Run α} {next : α → Run β} (h : r.IsSilent)
    (hnext : ∀ a, (next a).IsSilent) : (r >>= next).IsSilent := by
  unfold IsSilent at h hnext ⊢
  cases hr : r.result with
  | error e => rw [bind_of_error hr, h]
  | ok a => rw [bind_of_ok hr, h, hnext a, List.nil_append]

/-- A run that asks for nothing and has a value is that value. -/
theorem eq_pure_of_isSilent {r : Run α} (h : r.IsSilent) {a : α} (ha : r.value? = some a) :
    r = Pure.pure a := by
  obtain ⟨requests, result⟩ := r
  cases h
  obtain rfl : result = .ok a := value?_eq_some.1 ha
  rfl

end Run

namespace Expr

/-- No call of a translating function, under its own name or by a filter. -/
def AsksNothing (env : Environment) : Expr → Prop
  | call n _ => n ≠ env.options.translateFunction ∧ n ≠ env.options.translatePluralFunction
  | filter _ n _ => env.function n ≠ env.options.translateFunction ∧
      env.function n ≠ env.options.translatePluralFunction
  | _ => True

end Expr

namespace Evaluator

variable (m : Evaluator) (scopes : Scopes)

/-- The value of an expression. -/
def value? (e : Expr) : Option Value := (m.eval scopes e).value?

/-- The printed form of the value of an expression. -/
def text? (e : Expr) : Option String := (m.value? scopes e).bind (·.printed?)

/-- The integer that the value of an expression is read as. -/
def number? (e : Expr) : Option Integer := (m.value? scopes e).bind fun v => v.number.toOption

@[simp]
theorem value?_literal (a : Scalar) : m.value? scopes (.literal a) = some (.scalar a) := rfl

@[simp]
theorem value?_name (n : String) : m.value? scopes (.name n) = some (scopes.lookup n) := rfl

@[simp]
theorem value?_call (n : String) (args : List Expr) :
    m.value? scopes (.call n args) =
      (m.evalItems scopes args).value?.bind fun vs => (m.callFunction n vs).value? := by
  rw [value?, eval, Run.value?_bind]

@[simp]
theorem value?_binary (l r : Expr) (op : BinaryOp) :
    m.value? scopes (.binary l op r) = (m.value? scopes l).bind fun v =>
      (m.value? scopes r).bind fun w => (v.binary op w).toOption := by
  rw [value?, eval]
  simp only [Run.value?_bind, Run.value?_ofFailure]
  rfl

@[simp]
theorem value?_unary (op : UnaryOp) (e : Expr) :
    m.value? scopes (.unary op e) =
      (m.value? scopes e).bind fun v => (v.unary op).toOption := by
  rw [value?, eval]
  simp only [Run.value?_bind, Run.value?_ofFailure]
  rfl

@[simp]
theorem value?_filter (e : Expr) (n : String) (args : List Expr) :
    m.value? scopes (.filter e n args) = (m.value? scopes e).bind fun v =>
      (m.evalItems scopes args).value?.bind fun vs =>
        (m.callFunction (m.env.function n) (v :: vs)).value? := by
  rw [value?, eval]
  simp only [Run.value?_bind]
  rfl

@[simp]
theorem value?_list (items : List Expr) :
    m.value? scopes (.list items) = (m.evalItems scopes items).value?.map .list := by
  rw [value?, eval, Run.value?_bind, Option.map_eq_bind]
  rfl

@[simp]
theorem value?_map (entries : List (Expr × Expr)) :
    m.value? scopes (.map entries) =
      (m.evalEntries scopes entries).value?.map fun es => .map (Entries.ofList es) := by
  rw [value?, eval, Run.value?_bind, Option.map_eq_bind]
  rfl

@[simp]
theorem value?_evalItems_nil : (m.evalItems scopes []).value? = some [] := rfl

@[simp]
theorem value?_evalItems_cons (e : Expr) (es : List Expr) :
    (m.evalItems scopes (e :: es)).value? =
      (m.value? scopes e).bind fun v => (m.evalItems scopes es).value?.map (v :: ·) := by
  rw [evalItems, Run.value?_bind]
  simp only [Run.value?_bind, Option.map_eq_bind]
  rfl

theorem value?_evalItems_cons_eq_some {e : Expr} {es : List Expr} {vs : List Value} :
    (m.evalItems scopes (e :: es)).value? = some vs ↔
      ∃ v ws, m.value? scopes e = some v ∧ (m.evalItems scopes es).value? = some ws ∧
        vs = v :: ws := by
  rw [value?_evalItems_cons, Option.bind_eq_some_iff]
  constructor
  · rintro ⟨v, hv, h⟩
    obtain ⟨ws, hws, rfl⟩ := Option.map_eq_some_iff.1 h
    exact ⟨v, ws, hv, hws, rfl⟩
  · rintro ⟨v, ws, hv, hws, rfl⟩
    exact ⟨v, hv, by rw [hws, Option.map_some]⟩

theorem text?_eq_some {e : Expr} {s : String} :
    m.text? scopes e = some s ↔ ∃ v, m.value? scopes e = some v ∧ v.printed? = some s :=
  Option.bind_eq_some_iff

theorem value?_evalPrinted (e : Expr) : (m.evalPrinted scopes e).value? = m.text? scopes e := by
  simp only [evalPrinted, printed, Run.value?_bind, Run.value?_ofFailure, toOption_printed]
  rfl

/-- Entries under given keys have values if all their expressions have. -/
theorem value?_evalEntries {ι : Type} (is : List ι) (key : ι → String) (f : ι → Expr)
    (vs : List (String × Value)) :
    (m.evalEntries scopes (is.map fun i => (.text (key i), f i))).value? = some vs ↔
      (∀ i ∈ is, (m.value? scopes (f i)).isSome) ∧
        vs = is.map fun i => (key i, (m.value? scopes (f i)).getD .null) := by
  induction is generalizing vs with
  | nil =>
    constructor
    · intro h
      exact ⟨fun _ hi => absurd hi List.not_mem_nil, (Option.some.inj h).symm⟩
    · rintro ⟨_, rfl⟩
      rfl
  | cons i is ih =>
    have hcons : (m.evalEntries scopes ((i :: is).map fun i => (.text (key i), f i))).value? =
        (m.value? scopes (f i)).bind fun v =>
          (m.evalEntries scopes (is.map fun i => (.text (key i), f i))).value?.map
            ((key i, v) :: ·) := by
      rw [List.map_cons, evalEntries]
      simp only [Run.value?_bind, printed, Run.value?_ofFailure, Option.map_eq_bind]
      rfl
    rw [hcons, List.forall_mem_cons, List.map_cons]
    cases hv : m.value? scopes (f i) with
    | none => simp
    | some v =>
      simp only [Option.bind_some, Option.map_eq_some_iff, Option.isSome_some, true_and,
        Option.getD_some]
      constructor
      · rintro ⟨ws, hws, rfl⟩
        obtain ⟨hall, rfl⟩ := (ih ws).1 hws
        exact ⟨hall, rfl⟩
      · rintro ⟨hall, rfl⟩
        exact ⟨_, (ih _).2 ⟨hall, rfl⟩, rfl⟩

variable {m scopes}

theorem value?_builtin {n : String} {f : Builtin} (h : m.env.options.callee n = .builtin f)
    (e : Expr) :
    m.value? scopes (.call n [e]) =
      (m.value? scopes e).bind fun v => (f.apply v).toOption := by
  simp only [value?_call, value?_evalItems_cons, value?_evalItems_nil, Option.map_some,
    Option.bind_assoc, Option.bind_some, callFunction_builtin h, Run.value?_ofFailure]
  rfl

theorem toOption_abs (v : Value) :
    (Builtin.abs.apply v).toOption = v.number.toOption.bind fun i => (i.abs?).map .int := by
  rw [Builtin.apply, toOption_bind]
  refine Option.bind_congr fun i _ => ?_
  generalize i.abs? = j
  cases j <;> rfl

theorem isSilent_callFunction {n : String} (htranslate : n ≠ m.env.options.translateFunction)
    (hplural : n ≠ m.env.options.translatePluralFunction) (args : List Value) :
    (m.callFunction n args).IsSilent := by
  rw [callFunction, Options.callee, if_neg htranslate, if_neg hplural]
  split
  · next h =>
    split at h <;> cases h
  · next h =>
    split at h <;> cases h
  · exact Run.isSilent_ofFailure _
  · exact Run.isSilent_fail _

theorem isSilent_evalItems {es : List Expr} (h : ∀ e ∈ es, (m.eval scopes e).IsSilent) :
    (m.evalItems scopes es).IsSilent := by
  induction es with
  | nil => exact Run.isSilent_pure _
  | cons e es ih =>
    obtain ⟨he, hes⟩ := List.forall_mem_cons.1 h
    refine Run.isSilent_bind he fun v => ?_
    exact Run.isSilent_bind (ih hes) fun vs => Run.isSilent_pure _

theorem isSilent_evalEntries {es : List (Expr × Expr)}
    (h : ∀ x ∈ es, (m.eval scopes x.1).IsSilent ∧ (m.eval scopes x.2).IsSilent) :
    (m.evalEntries scopes es).IsSilent := by
  induction es with
  | nil => exact Run.isSilent_pure _
  | cons x es ih =>
    obtain ⟨⟨hkey, he⟩, hes⟩ := List.forall_mem_cons.1 h
    refine Run.isSilent_bind hkey fun k => ?_
    refine Run.isSilent_bind (Run.isSilent_ofFailure _) fun name => ?_
    refine Run.isSilent_bind he fun v => ?_
    exact Run.isSilent_bind (ih hes) fun vs => Run.isSilent_pure _

/-- Without a call of a translating function, the translator is not asked. -/
theorem isSilent_eval {e : Expr} (h : e.Every (Expr.AsksNothing m.env)) :
    (m.eval scopes e).IsSilent := by
  induction e using Expr.induction with
  | literal a => exact Run.isSilent_pure _
  | name n => exact Run.isSilent_pure _
  | member e key ih =>
    exact Run.isSilent_bind (ih h.2) fun v => Run.isSilent_ofFailure _
  | index e i ihe ihi =>
    refine Run.isSilent_bind (ihe h.2.1) fun v => ?_
    exact Run.isSilent_bind (ihi h.2.2) fun j => Run.isSilent_ofFailure _
  | binary l op r ihl ihr =>
    refine Run.isSilent_bind (ihl h.2.1) fun v => ?_
    exact Run.isSilent_bind (ihr h.2.2) fun w => Run.isSilent_ofFailure _
  | unary op e ih =>
    exact Run.isSilent_bind (ih h.2) fun v => Run.isSilent_ofFailure _
  | filter e n args ihe ih =>
    have hargs := Expr.everyItem_iff.1 h.2.2
    refine Run.isSilent_bind (ihe h.2.1) fun v => ?_
    refine Run.isSilent_bind (isSilent_evalItems fun a ha => ih a ha (hargs a ha)) fun vs => ?_
    exact isSilent_callFunction h.1.1 h.1.2 _
  | checked e ih =>
    refine Run.isSilent_bind (ih h.2) fun v => ?_
    exact Run.isSilent_bind (Run.isSilent_ofFailure _) fun _ => Run.isSilent_pure _
  | call n args ih =>
    have hargs := Expr.everyItem_iff.1 h.2
    refine Run.isSilent_bind (isSilent_evalItems fun a ha => ih a ha (hargs a ha)) fun vs => ?_
    exact isSilent_callFunction h.1.1 h.1.2 _
  | list items ih =>
    have hitems := Expr.everyItem_iff.1 h.2
    refine Run.isSilent_bind (isSilent_evalItems fun a ha => ih a ha (hitems a ha)) fun vs => ?_
    exact Run.isSilent_pure _
  | map entries ih =>
    have hentries := Expr.everyEntry_iff.1 h.2
    refine Run.isSilent_bind (isSilent_evalEntries fun x hx => ?_) fun es => Run.isSilent_pure _
    exact ⟨(ih x hx).1 (hentries x hx).1, (ih x hx).2 (hentries x hx).2⟩

end Evaluator

end Polyglot
