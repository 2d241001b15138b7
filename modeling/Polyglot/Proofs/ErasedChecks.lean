import Polyglot.Proofs.LoweredRendering

/-!
Expressions and nodes without their checks. A check changes nothing about what an expression is to
the template around it: not the variable that it stands for in a message, as erasing only takes
layers away, and not whether a filter is outermost, as checks only stand under filters.
-/
namespace Polyglot

namespace Expr

mutual

/-- The expression without its checks. -/
def erased : Expr → Expr
  | literal a => literal a
  | name n => name n
  | member e key => member (erased e) key
  | index e i => index (erased e) (erased i)
  | binary l op r => binary (erased l) op (erased r)
  | unary op e => unary op (erased e)
  | filter e n args => filter (erased e) n (erasedItems args)
  | checked e => erased e
  | call n args => call n (erasedItems args)
  | list items => list (erasedItems items)
  | map entries => map (erasedEntries entries)

def erasedItems : List Expr → List Expr
  | [] => []
  | e :: rest => erased e :: erasedItems rest

def erasedEntries : List (Expr × Expr) → List (Expr × Expr)
  | [] => []
  | (key, e) :: rest => (erased key, erased e) :: erasedEntries rest

end

mutual

/-- A check stands directly under every filter, and nowhere else. -/
def Guarded : Expr → Prop
  | literal _ => True
  | name _ => True
  | member e _ => Guarded e
  | index e i => Guarded e ∧ Guarded i
  | binary l _ r => Guarded l ∧ Guarded r
  | unary _ e => Guarded e
  | filter (checked e) _ args => Guarded e ∧ GuardedItems args
  | filter _ _ _ => False
  | checked _ => False
  | call _ args => GuardedItems args
  | list items => GuardedItems items
  | map entries => GuardedEntries entries

def GuardedItems : List Expr → Prop
  | [] => True
  | e :: rest => Guarded e ∧ GuardedItems rest

def GuardedEntries : List (Expr × Expr) → Prop
  | [] => True
  | (key, e) :: rest => Guarded key ∧ Guarded e ∧ GuardedEntries rest

end

theorem Guarded.isUnchecked {e : Expr} (h : e.Guarded) : e.IsUnchecked := by
  cases e with
  | checked e => exact h.elim
  | _ => trivial

theorem name?_erased {e : Expr} (h : e.IsUnchecked) : e.erased.name? = e.name? := by
  cases e with
  | checked e => exact h.elim
  | _ => rfl

theorem isFilter_erased {e : Expr} (h : e.IsUnchecked) : e.erased.isFilter = e.isFilter := by
  cases e with
  | checked e => exact h.elim
  | _ => rfl

theorem erased_of_isAtomic {e : Expr} (h : e.isAtomic = true) : e.erased = e := by
  cases e with
  | literal a => rfl
  | name n => rfl
  | _ => cases h

theorem erasedEntries_eq_map (es : List (Expr × Expr)) :
    erasedEntries es = es.map fun x => (x.1.erased, x.2.erased) := by
  induction es with
  | nil => rfl
  | cons x es ih => rw [erasedEntries, ih, List.map_cons]

end Expr

namespace Message

/-- A name under some filters and checks is under fewer of them without the checks. -/
theorem nameUnder_erased {layers : Nat} {e : Expr} {n : String}
    (h : nameUnder layers e = some n) :
    ∀ k, layers ≤ k → nameUnder k e.erased = some n := by
  fun_induction nameUnder layers e with
  | case1 layers m =>
    cases h
    intro k _
    rw [Expr.erased, nameUnder]
  | case2 layers e m args ih =>
    intro k hk
    obtain ⟨k, rfl⟩ : ∃ i, k = i + 1 := ⟨k - 1, by omega⟩
    rw [Expr.erased, nameUnder]
    exact ih h k (by omega)
  | case3 layers e ih =>
    intro k hk
    exact ih h k (by omega)
  | case4 => cases h

theorem variableName?_erased {e : Expr} {n : String} (h : variableName? e = some n) :
    variableName? e.erased = some n :=
  nameUnder_erased h _ (Nat.le_refl _)

end Message

namespace Node

mutual

/-- The node without the checks in its expressions. -/
def erased : Node → Node
  | text s => text s
  | print e => print e.erased
  | loop target items body => loop target items.erased (erasedNodes body)
  | branch cases otherwise => branch (erasedCases cases) (erasedFallback otherwise)
  | phrase p => phrase (erasedPhrase p)

def erasedNodes : List Node → List Node
  | [] => []
  | n :: rest => erased n :: erasedNodes rest

def erasedCases : List (Expr × List Node) → List (Expr × List Node)
  | [] => []
  | (condition, body) :: rest => (condition.erased, erasedNodes body) :: erasedCases rest

def erasedFallback : Option (List Node) → Option (List Node)
  | none => none
  | some body => some (erasedNodes body)

def erasedPhrase : Phrase Node → Phrase Node
  | ⟨body, domain, counted, notes, line⟩ =>
    ⟨erasedBody body, domain.erased, erasedCounted counted, erasedFallback notes, line⟩

def erasedBody : Body Node → Body Node
  | .inline e => .inline e.erased
  | .block nodes => .block (erasedNodes nodes)

def erasedCounted : Option (Counted Node) → Option (Counted Node)
  | none => none
  | some ⟨count, plural⟩ => some ⟨count.erased, erasedFallback plural⟩

end

mutual

/-- In the node, a check stands directly under every filter, and nowhere else. -/
def Guarded : Node → Prop
  | text _ => True
  | print e => e.Guarded
  | loop _ items body => items.Guarded ∧ GuardedNodes body
  | branch cases otherwise => GuardedCases cases ∧ GuardedFallback otherwise
  | phrase p => GuardedPhrase p

def GuardedNodes : List Node → Prop
  | [] => True
  | n :: rest => Guarded n ∧ GuardedNodes rest

def GuardedCases : List (Expr × List Node) → Prop
  | [] => True
  | (condition, body) :: rest => condition.Guarded ∧ GuardedNodes body ∧ GuardedCases rest

def GuardedFallback : Option (List Node) → Prop
  | none => True
  | some body => GuardedNodes body

def GuardedPhrase : Phrase Node → Prop
  | ⟨body, domain, counted, notes, _⟩ =>
    GuardedBody body ∧ domain.Guarded ∧ GuardedCounted counted ∧ GuardedFallback notes

def GuardedBody : Body Node → Prop
  | .inline e => e.Guarded
  | .block nodes => GuardedNodes nodes

def GuardedCounted : Option (Counted Node) → Prop
  | none => True
  | some ⟨count, plural⟩ => count.Guarded ∧ GuardedFallback plural

end

theorem guardedNodes_iff {ns : List Node} : GuardedNodes ns ↔ ∀ n ∈ ns, n.Guarded := by
  induction ns with
  | nil => simp [GuardedNodes]
  | cons n ns ih => simp [GuardedNodes, ih]

theorem guardedCases_iff {cases : List (Expr × List Node)} :
    GuardedCases cases ↔ ∀ c ∈ cases, c.1.Guarded ∧ GuardedNodes c.2 := by
  induction cases with
  | nil => simp [GuardedCases]
  | cons c cases ih => simp [GuardedCases, ih, and_assoc]

theorem erasedNodes_eq_map (ns : List Node) : erasedNodes ns = ns.map erased := by
  induction ns with
  | nil => rfl
  | cons n ns ih => rw [erasedNodes, ih, List.map_cons]

end Node

namespace Message

theorem piece?_erased {n : Node} (hn : n.Guarded) {p : Piece} (h : piece? n = some p) :
    piece? n.erased = some p := by
  cases n with
  | text s => exact h
  | print e =>
    obtain ⟨name, hname, rfl⟩ := Option.map_eq_some_iff.1 h
    have hguarded : e.Guarded := hn
    rw [Node.erased, piece?, variableName?_erased hname, Expr.isFilter_erased hguarded.isUnchecked,
      Option.map_some]
  | loop target items body => cases h
  | branch cases otherwise => cases h
  | phrase q => cases h

theorem pieces?_erased {ns : List Node} (hns : Node.GuardedNodes ns) {ps : List Piece}
    (h : pieces? ns = some ps) : pieces? (Node.erasedNodes ns) = some ps := by
  induction ns generalizing ps with
  | nil => exact h
  | cons n ns ih =>
    rw [pieces?] at h
    obtain ⟨p, hp, h⟩ := Option.bind_eq_some_iff.1 h
    obtain ⟨qs, hqs, h⟩ := Option.bind_eq_some_iff.1 h
    rw [Node.erasedNodes, pieces?, piece?_erased hns.1 hp, ih hns.2 hqs]
    exact h

theorem ofNodes_erased {ns : List Node} (hns : Node.GuardedNodes ns) {line : Nat} {x : Extracted}
    (h : ofNodes ns line = .ok x) : ofNodes (Node.erasedNodes ns) line = .ok x := by
  obtain ⟨ps, hps, rfl⟩ := eq_ofPieces h
  rw [ofNodes, pieces?_erased hns hps]

theorem ofBody_erased {body : Body Node} (hbody : Node.GuardedBody body) {line : Nat}
    {x : Extracted} (h : ofBody body line = .ok x) :
    ofBody (Node.erasedBody body) line = .ok x := by
  cases body with
  | inline e =>
    by_cases he : e.isAtomic = true
    · rw [Node.erasedBody, Expr.erased_of_isAtomic he]
      exact h
    · rw [ofBody, if_neg he] at h
      cases h
  | block nodes => exact ofNodes_erased hbody h

theorem toExpr_erased {body : Body Node} {line : Nat} {x : Extracted}
    (h : ofBody body line = .ok x) : x.message.toExpr.erased = x.message.toExpr := by
  cases body with
  | inline e =>
    by_cases he : e.isAtomic = true
    · rw [ofBody, if_pos he] at h
      cases h
      exact Expr.erased_of_isAtomic he
    · rw [ofBody, if_neg he] at h
      cases h
  | block nodes =>
    obtain ⟨ps, _, rfl⟩ := eq_ofPieces h
    rfl

theorem isTranslatable_erased {n : Node} (h : isTranslatable n = true) :
    isTranslatable n.erased = true := by
  cases n with
  | text s => rfl
  | print e =>
    cases e with
    | name m => rfl
    | filter e m args =>
      obtain ⟨name, hname⟩ := Option.isSome_iff_exists.1 h
      exact Option.isSome_of_eq_some (variableName?_erased hname)
    | _ => cases h
  | loop target items body => cases h
  | branch cases otherwise => cases h
  | phrase q => cases h

/-- A translatable body is translatable without its checks. -/
theorem check_erased {body : Body Node} {line : Nat} (h : check body line = .ok ()) :
    check (Node.erasedBody body) line = .ok () := by
  cases body with
  | inline e =>
    by_cases he : e.isAtomic = true
    · rw [Node.erasedBody, Expr.erased_of_isAtomic he]
      exact h
    · simp [check, he] at h
  | block nodes =>
    by_cases hall : nodes.all isTranslatable = true
    · have herased : (Node.erasedNodes nodes).all isTranslatable = true := by
        rw [Node.erasedNodes_eq_map, List.all_map]
        rw [List.all_eq_true] at hall ⊢
        exact fun n hn => isTranslatable_erased (hall n hn)
      simp only [Node.erasedBody, check, herased, if_true]
    · simp [check, hall] at h

end Message

namespace Phrase

variable {options : Options}

theorem absolute_erased (count : Expr) : (absolute count).erased = absolute count.erased := rfl

theorem value_erased (count : Option Expr) (v : Variable) :
    (value count (.ofOptions options) v).erased =
      value (count.map Expr.erased) (.ofOptions options) v := by
  have hname : (if v.raw then .name v.name
      else (Targets.ofOptions options).escape (.name v.name)).erased =
      if v.raw then .name v.name else (Targets.ofOptions options).escape (.name v.name) := by
    cases v.raw <;> rfl
  cases count with
  | none => exact hname
  | some count =>
    by_cases hn : v.name = "count"
    · simp only [value, hn, if_true, Option.map_some]
      rfl
    · simpa only [value, hn, if_false, Option.map_some] using hname

theorem replacements_erased (count : Option Expr) (vs : List Variable) :
    Expr.erasedItems (replacements count (.ofOptions options) vs) =
      replacements (count.map Expr.erased) (.ofOptions options) vs := by
  unfold replacements
  by_cases hvs : vs.isEmpty = true
  · rw [if_pos hvs, if_pos hvs, Expr.erasedItems]
  · rw [if_neg hvs, if_neg hvs, Expr.erasedItems, Expr.erased, Expr.erasedItems,
      Expr.erasedEntries_eq_map, List.map_map]
    congr 3
    funext v
    rw [Function.comp_apply, value_erased]
    rfl

/-- The call of a phrase, without its checks, is the call of the phrase without its checks. -/
theorem call_erased {p : Phrase Node} (hp : Node.GuardedPhrase p) {e : Expr}
    (h : p.call (.ofOptions options) = .ok e) :
    (Node.erasedPhrase p).call (.ofOptions options) = .ok e.erased := by
  obtain ⟨body, domain, counted, notes, line⟩ := p
  obtain ⟨hbody, _, hcounted, _⟩ := hp
  unfold call at h
  obtain ⟨x, hx, h⟩ := exists_of_bind_eq_ok h
  have hx' := Message.ofBody_erased hbody hx
  have hmessage := Message.toExpr_erased hx
  have hsingle : ∀ count : Option Expr,
      (Expr.call (Targets.ofOptions options).translate
        ([x.message.toExpr, domain] ++ replacements count (.ofOptions options) x.vars)).erased =
      .call (Targets.ofOptions options).translate ([x.message.toExpr, domain.erased] ++
        replacements (count.map Expr.erased) (.ofOptions options) x.vars) := by
    intro count
    simp only [Expr.erased, List.cons_append, List.nil_append, Expr.erasedItems, hmessage,
      replacements_erased]
  rcases counted with _ | ⟨count, _ | plural⟩
  · cases h
    rw [Node.erasedPhrase, call, hx']
    exact congrArg Except.ok (hsingle none).symm
  · cases h
    rw [Node.erasedPhrase, call, hx']
    exact congrArg Except.ok (hsingle (some count)).symm
  · obtain ⟨y, hy, h⟩ := exists_of_bind_eq_ok h
    have hy' := Message.ofNodes_erased hcounted.2 hy
    obtain ⟨s, hs⟩ : ∃ s, y.message = .literal s := by
      obtain ⟨ps, _, rfl⟩ := Message.eq_ofPieces hy
      exact ⟨_, rfl⟩
    cases h
    rw [Node.erasedPhrase, call, hx']
    simp only [bind, Except.bind, Node.erasedCounted, Node.erasedFallback, hy', hs]
    refine congrArg Except.ok ?_
    simp only [Expr.erased, List.cons_append, List.nil_append, Expr.erasedItems, hmessage,
      replacements_erased, absolute_erased]
    rfl

end Phrase

end Polyglot
