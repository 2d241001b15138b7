import Mathlib.Data.List.Forall2
import Polyglot.Proofs.GivenChecks
import Polyglot.Proofs.PrintedArguments

/-!
Where it matters whether a check gives the value that it looks at or the text that the value prints
as. Whatever an expression does with such values is asked to do the same for both, operator by
operator and call by call; then evaluation goes on in step, to values that are alike. Lists, maps
and `raw` hand checked values on; an integer that is handed on may stand wherever its text is read
as a number, printed, ignored or only looked at for whether it holds.
-/
namespace Polyglot

namespace Run

variable {α β γ δ : Type}

/-- The second run makes the same requests, and ends in the same error or in a related result. -/
inductive Parallels (R : α → β → Prop) : Run α → Run β → Prop
  | ok {requests : List Request} {a : α} {b : β} (h : R a b) :
    Parallels R ⟨requests, .ok a⟩ ⟨requests, .ok b⟩
  | error {requests : List Request} {e : Error} :
    Parallels R ⟨requests, .error e⟩ ⟨requests, .error e⟩

variable {R : α → β → Prop} {r : Run α} {r' : Run β}

end Run

namespace Entries

variable {α : Type}

/-- The same names in the same order, with related values. -/
inductive Relates (R : α → α → Prop) : Entries α → Entries α → Prop
  | nil : Relates R [] []
  | cons (name : String) {a b : α} {es fs : Entries α} (hab : R a b) (h : Relates R es fs) :
    Relates R ((name, a) :: es) ((name, b) :: fs)

variable {R : α → α → Prop} {es fs : Entries α}

end Entries

namespace Value

/-- The same value, except that scalars in it may be replaced by the texts that they print as. -/
inductive Alike : Value → Value → Prop
  | same (v : Value) : Alike v v
  | text (a : Scalar) : Alike (.scalar a) (.text a.printed)
  | list {vs ws : List Value} (h : List.Forall₂ Alike vs ws) : Alike (.list vs) (.list ws)
  | map {es fs : Entries Value} (h : Entries.Relates Alike es fs) : Alike (.map es) (.map fs)

end Value

namespace Evaluator

/-- The expression has a value, and another one if checks give the texts that values print as. -/
def Yields (m : Evaluator) (scopes : Scopes) (e : Expr) (v v' : Value) : Prop :=
  (m.eval scopes e).result = .ok v ∧
    (m.evalGiving (fun _ s => .text s) scopes e).result = .ok v'

def YieldsItems (m : Evaluator) (scopes : Scopes) (es : List Expr) (vs vs' : List Value) : Prop :=
  (m.evalItems scopes es).result = .ok vs ∧
    (m.evalItemsGiving (fun _ s => .text s) scopes es).result = .ok vs'

/-- The same requests and the same error, or alike values. -/
abbrev InStep (r r' : Run Value) : Prop := Run.Parallels Value.Alike r r'

mutual

/-- Every operator gives the same for the values of its operands as for those that they have if
checks give texts, and every access and call the same or values that are alike; whatever is printed
for a check or as a key prints the same. This is asked in the order of evaluation, and nothing is
asked where evaluation does not get. -/
def ChecksAgree (m : Evaluator) (scopes : Scopes) : Expr → Prop
  | .literal _ => True
  | .name _ => True
  | .member e key =>
    ChecksAgree m scopes e ∧ ∀ v v', m.Yields scopes e v v' →
      InStep (.ofFailure (v.member key)) (.ofFailure (v'.member key))
  | .index e i =>
    ChecksAgree m scopes e ∧ ∀ v v', m.Yields scopes e v v' →
      ChecksAgree m scopes i ∧ ∀ j j', m.Yields scopes i j j' →
        InStep (.ofFailure (v.index j)) (.ofFailure (v'.index j'))
  | .binary l op r =>
    ChecksAgree m scopes l ∧ ∀ v v', m.Yields scopes l v v' →
      ChecksAgree m scopes r ∧ ∀ w w', m.Yields scopes r w w' →
        v'.binary op w' = v.binary op w
  | .unary op e =>
    ChecksAgree m scopes e ∧ ∀ v v', m.Yields scopes e v v' →
      v'.unary op = v.unary op
  | .filter e n args =>
    ChecksAgree m scopes e ∧ ∀ v v', m.Yields scopes e v v' →
      ChecksAgreeItems m scopes args ∧ ∀ vs vs', m.YieldsItems scopes args vs vs' →
        InStep (m.callFunction (m.env.function n) (v :: vs))
          (m.callFunction (m.env.function n) (v' :: vs'))
  | .checked e =>
    ChecksAgree m scopes e ∧ ∀ v v', m.Yields scopes e v v' → v'.printed = v.printed
  | .call n args =>
    ChecksAgreeItems m scopes args ∧ ∀ vs vs', m.YieldsItems scopes args vs vs' →
      InStep (m.callFunction n vs) (m.callFunction n vs')
  | .list items => ChecksAgreeItems m scopes items
  | .map entries => ChecksAgreeEntries m scopes entries

def ChecksAgreeItems (m : Evaluator) (scopes : Scopes) : List Expr → Prop
  | [] => True
  | e :: rest =>
    ChecksAgree m scopes e ∧ ∀ v v', m.Yields scopes e v v' → ChecksAgreeItems m scopes rest

/-- Keys are printed. -/
def ChecksAgreeEntries (m : Evaluator) (scopes : Scopes) : List (Expr × Expr) → Prop
  | [] => True
  | (key, e) :: rest =>
    ChecksAgree m scopes key ∧ ∀ k k', m.Yields scopes key k k' →
      k'.printed = k.printed ∧ ∀ name, k.printed = .ok name →
        ChecksAgree m scopes e ∧ ∀ v v', m.Yields scopes e v v' → ChecksAgreeEntries m scopes rest

end

variable {m : Evaluator} {scopes : Scopes}

section

variable {e : Expr} {i : Integer}

end

end Evaluator

end Polyglot
