import Polyglot.Expr.Script

/-!
Expressions as trees. A property of expressions can be asked of every expression inside another
one, and the lowered form of an expression has calls in place of filters and checks. Lowering
changes nothing about the script form, and nothing at all where there is no filter and no check.
-/
namespace Polyglot.Expr

/-- Induction with a hypothesis for every argument, item and entry. -/
@[elab_as_elim]
theorem induction {motive : Expr → Prop}
    (literal : ∀ a, motive (literal a))
    (name : ∀ n, motive (name n))
    (member : ∀ e key, motive e → motive (member e key))
    (index : ∀ e i, motive e → motive i → motive (index e i))
    (binary : ∀ l op r, motive l → motive r → motive (binary l op r))
    (unary : ∀ op e, motive e → motive (unary op e))
    (filter : ∀ e n args, motive e → (∀ a ∈ args, motive a) → motive (filter e n args))
    (checked : ∀ e, motive e → motive (checked e))
    (call : ∀ n args, (∀ a ∈ args, motive a) → motive (call n args))
    (list : ∀ items, (∀ a ∈ items, motive a) → motive (list items))
    (map : ∀ entries, (∀ p ∈ entries, motive p.1 ∧ motive p.2) → motive (map entries))
    (e : Expr) : motive e := by
  refine @Expr.rec motive (fun es => ∀ a ∈ es, motive a)
    (fun es => ∀ p ∈ es, motive p.1 ∧ motive p.2) (fun p => motive p.1 ∧ motive p.2)
    literal name member index binary unary filter checked call list map
    ?_ ?_ ?_ ?_ (fun _ _ ha hb => ⟨ha, hb⟩) e
  · exact fun _ h => absurd h List.not_mem_nil
  · exact fun _ _ ha hb => List.forall_mem_cons.2 ⟨ha, hb⟩
  · exact fun _ h => absurd h List.not_mem_nil
  · exact fun _ _ ha hb => List.forall_mem_cons.2 ⟨ha, hb⟩

mutual

/-- A property holds of an expression and of all expressions inside it. -/
def Every (p : Expr → Prop) : Expr → Prop
  | literal a => p (literal a)
  | name n => p (name n)
  | member e key => p (member e key) ∧ Every p e
  | index e i => p (index e i) ∧ Every p e ∧ Every p i
  | binary l op r => p (binary l op r) ∧ Every p l ∧ Every p r
  | unary op e => p (unary op e) ∧ Every p e
  | filter e n args => p (filter e n args) ∧ Every p e ∧ EveryItem p args
  | checked e => p (checked e) ∧ Every p e
  | call n args => p (call n args) ∧ EveryItem p args
  | list items => p (list items) ∧ EveryItem p items
  | map entries => p (map entries) ∧ EveryEntry p entries

def EveryItem (p : Expr → Prop) : List Expr → Prop
  | [] => True
  | e :: rest => Every p e ∧ EveryItem p rest

def EveryEntry (p : Expr → Prop) : List (Expr × Expr) → Prop
  | [] => True
  | (key, e) :: rest => Every p key ∧ Every p e ∧ EveryEntry p rest

end

variable {p q : Expr → Prop}

theorem everyItem_iff {es : List Expr} : EveryItem p es ↔ ∀ e ∈ es, Every p e := by
  induction es with
  | nil => simp [EveryItem]
  | cons e es ih => simp [EveryItem, ih]

theorem everyEntry_iff {es : List (Expr × Expr)} :
    EveryEntry p es ↔ ∀ x ∈ es, Every p x.1 ∧ Every p x.2 := by
  induction es with
  | nil => simp [EveryEntry]
  | cons e es ih => simp [EveryEntry, ih, and_assoc]

theorem Every.self {e : Expr} (h : e.Every p) : p e := by
  cases e <;> first | exact h | exact h.1

theorem Every.mono (hpq : ∀ e, p e → q e) {e : Expr} (h : e.Every p) : e.Every q := by
  induction e using induction with
  | literal a => exact hpq _ h
  | name n => exact hpq _ h
  | member e key ih => exact ⟨hpq _ h.1, ih h.2⟩
  | index e i ihe ihi => exact ⟨hpq _ h.1, ihe h.2.1, ihi h.2.2⟩
  | binary l op r ihl ihr => exact ⟨hpq _ h.1, ihl h.2.1, ihr h.2.2⟩
  | unary op e ih => exact ⟨hpq _ h.1, ih h.2⟩
  | filter e n args ihe ih =>
    refine ⟨hpq _ h.1, ihe h.2.1, everyItem_iff.2 fun a ha => ?_⟩
    exact ih a ha (everyItem_iff.1 h.2.2 a ha)
  | checked e ih => exact ⟨hpq _ h.1, ih h.2⟩
  | call n args ih =>
    exact ⟨hpq _ h.1, everyItem_iff.2 fun a ha => ih a ha (everyItem_iff.1 h.2 a ha)⟩
  | list items ih =>
    exact ⟨hpq _ h.1, everyItem_iff.2 fun a ha => ih a ha (everyItem_iff.1 h.2 a ha)⟩
  | map entries ih =>
    refine ⟨hpq _ h.1, everyEntry_iff.2 fun x hx => ?_⟩
    have hx' := everyEntry_iff.1 h.2 x hx
    exact ⟨(ih x hx).1 hx'.1, (ih x hx).2 hx'.2⟩

theorem Every.and {e : Expr} (hp : e.Every p) (hq : e.Every q) : e.Every fun e => p e ∧ q e := by
  induction e using induction with
  | literal a => exact ⟨hp, hq⟩
  | name n => exact ⟨hp, hq⟩
  | member e key ih => exact ⟨⟨hp.1, hq.1⟩, ih hp.2 hq.2⟩
  | index e i ihe ihi => exact ⟨⟨hp.1, hq.1⟩, ihe hp.2.1 hq.2.1, ihi hp.2.2 hq.2.2⟩
  | binary l op r ihl ihr => exact ⟨⟨hp.1, hq.1⟩, ihl hp.2.1 hq.2.1, ihr hp.2.2 hq.2.2⟩
  | unary op e ih => exact ⟨⟨hp.1, hq.1⟩, ih hp.2 hq.2⟩
  | filter e n args ihe ih =>
    refine ⟨⟨hp.1, hq.1⟩, ihe hp.2.1 hq.2.1, everyItem_iff.2 fun a ha => ?_⟩
    exact ih a ha (everyItem_iff.1 hp.2.2 a ha) (everyItem_iff.1 hq.2.2 a ha)
  | checked e ih => exact ⟨⟨hp.1, hq.1⟩, ih hp.2 hq.2⟩
  | call n args ih =>
    refine ⟨⟨hp.1, hq.1⟩, everyItem_iff.2 fun a ha => ?_⟩
    exact ih a ha (everyItem_iff.1 hp.2 a ha) (everyItem_iff.1 hq.2 a ha)
  | list items ih =>
    refine ⟨⟨hp.1, hq.1⟩, everyItem_iff.2 fun a ha => ?_⟩
    exact ih a ha (everyItem_iff.1 hp.2 a ha) (everyItem_iff.1 hq.2 a ha)
  | map entries ih =>
    refine ⟨⟨hp.1, hq.1⟩, everyEntry_iff.2 fun x hx => ?_⟩
    have hxp := everyEntry_iff.1 hp.2 x hx
    have hxq := everyEntry_iff.1 hq.2 x hx
    exact ⟨(ih x hx).1 hxp.1 hxq.1, (ih x hx).2 hxp.2 hxq.2⟩

mutual

/-- Calls in place of filters and checks; `function` tells the function a filter is bound to. -/
def lowered (function : String → String) : Expr → Expr
  | literal a => literal a
  | name n => name n
  | member e key => member (lowered function e) key
  | index e i => index (lowered function e) (lowered function i)
  | binary l op r => binary (lowered function l) op (lowered function r)
  | unary op e => unary op (lowered function e)
  | filter e n args => call (function n) (lowered function e :: loweredItems function args)
  | checked e => call "to_string" [lowered function e]
  | call n args => call n (loweredItems function args)
  | list items => list (loweredItems function items)
  | map entries => map (loweredEntries function entries)

def loweredItems (function : String → String) : List Expr → List Expr
  | [] => []
  | e :: rest => lowered function e :: loweredItems function rest

def loweredEntries (function : String → String) : List (Expr × Expr) → List (Expr × Expr)
  | [] => []
  | (key, e) :: rest =>
    (lowered function key, lowered function e) :: loweredEntries function rest

end

variable {function : String → String}

/-- Neither a filter nor a check. -/
def IsPlain : Expr → Prop
  | filter _ _ _ => False
  | checked _ => False
  | _ => True

theorem scripts_eq_map (es : List Expr) :
    scripts function es = es.map (script function) := by
  induction es with
  | nil => rfl
  | cons e es ih => rw [scripts, ih, List.map_cons]

theorem entryScripts_eq_map (es : List (Expr × Expr)) :
    entryScripts function es =
      es.map fun x => script function x.1 ++ ": " ++ script function x.2 := by
  induction es with
  | nil => rfl
  | cons e es ih => rw [entryScripts, ih, List.map_cons]

theorem loweredItems_eq_map (es : List Expr) :
    loweredItems function es = es.map (lowered function) := by
  induction es with
  | nil => rfl
  | cons e es ih => rw [loweredItems, ih, List.map_cons]

theorem loweredEntries_eq_map (es : List (Expr × Expr)) :
    loweredEntries function es = es.map fun x => (lowered function x.1, lowered function x.2) := by
  induction es with
  | nil => rfl
  | cons e es ih => rw [loweredEntries, ih, List.map_cons]

theorem scripts_lowered {es : List Expr}
    (h : ∀ e ∈ es, script function (lowered function e) = script function e) :
    scripts function (loweredItems function es) = scripts function es := by
  induction es with
  | nil => rfl
  | cons e es ih =>
    obtain ⟨he, hes⟩ := List.forall_mem_cons.1 h
    rw [loweredItems, scripts, scripts, he, ih hes]

theorem entryScripts_lowered {es : List (Expr × Expr)}
    (h : ∀ x ∈ es, script function (lowered function x.1) = script function x.1 ∧
      script function (lowered function x.2) = script function x.2) :
    entryScripts function (loweredEntries function es) = entryScripts function es := by
  induction es with
  | nil => rfl
  | cons x es ih =>
    obtain ⟨⟨hkey, he⟩, hes⟩ := List.forall_mem_cons.1 h
    rw [loweredEntries, entryScripts, entryScripts, hkey, he, ih hes]

/-- The script form of an expression is that of its lowered form. -/
theorem script_lowered (e : Expr) :
    script function (lowered function e) = script function e := by
  induction e using induction with
  | literal a => rfl
  | name n => rfl
  | member e key ih => rw [lowered, script, script, ih]
  | index e i ihe ihi => rw [lowered, script, script, ihe, ihi]
  | binary l op r ihl ihr => rw [lowered, script, script, ihl, ihr]
  | unary op e ih => cases op <;> rw [lowered, script, script, ih]
  | filter e n args ihe ih => rw [lowered, script, script, scripts, ihe, scripts_lowered ih]
  | checked e ih =>
    rw [lowered, script, script, scripts, ih]
    simp [scripts, String.intercalate_singleton]
  | call n args ih => rw [lowered, script, script, scripts_lowered ih]
  | list items ih => rw [lowered, script, script, scripts_lowered ih]
  | map entries ih => rw [lowered, script, script, entryScripts_lowered ih]

theorem everyItem_lowered {es : List Expr} (h : ∀ e ∈ es, (lowered function e).Every p) :
    EveryItem p (loweredItems function es) := by
  induction es with
  | nil => trivial
  | cons e es ih =>
    obtain ⟨he, hes⟩ := List.forall_mem_cons.1 h
    exact ⟨he, ih hes⟩

theorem everyEntry_lowered {es : List (Expr × Expr)}
    (h : ∀ x ∈ es, (lowered function x.1).Every p ∧ (lowered function x.2).Every p) :
    EveryEntry p (loweredEntries function es) := by
  induction es with
  | nil => trivial
  | cons x es ih =>
    obtain ⟨⟨hkey, he⟩, hes⟩ := List.forall_mem_cons.1 h
    exact ⟨hkey, he, ih hes⟩

theorem plain_lowered (e : Expr) : (lowered function e).Every IsPlain := by
  induction e using induction with
  | literal a => trivial
  | name n => trivial
  | member e key ih => exact ⟨trivial, ih⟩
  | index e i ihe ihi => exact ⟨trivial, ihe, ihi⟩
  | binary l op r ihl ihr => exact ⟨trivial, ihl, ihr⟩
  | unary op e ih => exact ⟨trivial, ih⟩
  | filter e n args ihe ih => exact ⟨trivial, ihe, everyItem_lowered ih⟩
  | checked e ih => exact ⟨trivial, ih, trivial⟩
  | call n args ih => exact ⟨trivial, everyItem_lowered ih⟩
  | list items ih => exact ⟨trivial, everyItem_lowered ih⟩
  | map entries ih => exact ⟨trivial, everyEntry_lowered ih⟩

theorem loweredItems_eq_self {es : List Expr} (h : ∀ e ∈ es, lowered function e = e) :
    loweredItems function es = es := by
  induction es with
  | nil => rfl
  | cons e es ih =>
    obtain ⟨he, hes⟩ := List.forall_mem_cons.1 h
    rw [loweredItems, he, ih hes]

theorem loweredEntries_eq_self {es : List (Expr × Expr)}
    (h : ∀ x ∈ es, lowered function x.1 = x.1 ∧ lowered function x.2 = x.2) :
    loweredEntries function es = es := by
  induction es with
  | nil => rfl
  | cons x es ih =>
    obtain ⟨⟨hkey, he⟩, hes⟩ := List.forall_mem_cons.1 h
    rw [loweredEntries, hkey, he, ih hes]

theorem lowered_of_plain {e : Expr} (h : e.Every IsPlain) : e.lowered function = e := by
  induction e using induction with
  | literal a => rfl
  | name n => rfl
  | member e key ih => rw [lowered, ih h.2]
  | index e i ihe ihi => rw [lowered, ihe h.2.1, ihi h.2.2]
  | binary l op r ihl ihr => rw [lowered, ihl h.2.1, ihr h.2.2]
  | unary op e ih => rw [lowered, ih h.2]
  | filter e n args ihe ih => exact absurd h.1 id
  | checked e ih => exact absurd h.1 id
  | call n args ih =>
    rw [lowered, loweredItems_eq_self fun a ha => ih a ha (everyItem_iff.1 h.2 a ha)]
  | list items ih =>
    rw [lowered, loweredItems_eq_self fun a ha => ih a ha (everyItem_iff.1 h.2 a ha)]
  | map entries ih =>
    rw [lowered, loweredEntries_eq_self]
    intro x hx
    have hx' := everyEntry_iff.1 h.2 x hx
    exact ⟨(ih x hx).1 hx'.1, (ih x hx).2 hx'.2⟩

end Polyglot.Expr
