import Polyglot.Cursor

/-!
How readings compose. A reading gives a result if it succeeds with it, and it ensures a property if
every success has it; both are derived from the parts of a reading alone.
-/
namespace Polyglot

namespace Reading

variable {α β : Type} {s : Cursor}

/-- The reading succeeds with `a` and goes on from `t`. -/
structure Gives (r : Reading s α) (a : α) (t : Cursor) : Prop where
  result : r.result = .ok a
  rest : r.rest = t

/-- Every success has a property, together with the cursor to go on from. -/
def Ensures (r : Reading s α) (P : α → Cursor → Prop) : Prop :=
  ∀ a, r.result = .ok a → P a r.rest

theorem gives_done (s : Cursor) (a : α) : (done s a).Gives a s := ⟨rfl, rfl⟩

theorem gives_map {r : Reading s α} {a : α} {t : Cursor} (f : α → β) (h : r.Gives a t) :
    (r.map f).Gives (f a) t := by
  refine ⟨?_, h.rest⟩
  simp only [map, h.result]
  rfl

theorem gives_andThen {r : Reading s α} {a : α} {b : β} {t u : Cursor}
    {next : (a : α) → (t : Cursor) → t.size ≤ s.size → Reading t β} (h : r.Gives a t)
    (hnext : ∀ ht, (next a t ht).Gives b u) : (r.andThen next).Gives b u := by
  obtain ⟨hresult, rfl⟩ := h
  rw [andThen_of_ok hresult]
  exact ⟨(hnext r.size_le).result, (hnext r.size_le).rest⟩

theorem ensures_done {P : α → Cursor → Prop} {a : α} (h : P a s) : (done s a).Ensures P := by
  intro b hb
  cases hb
  exact h

theorem ensures_refuse {P : α → Cursor → Prop} {fault : Fault} {line : Nat} :
    (refuse s fault line : Reading s α).Ensures P := by
  intro a ha
  cases ha

theorem ensures_fail {P : α → Cursor → Prop} {e : Error} :
    (fail s e : Reading s α).Ensures P := by
  intro a ha
  cases ha

theorem ensures_map {r : Reading s α} {P : β → Cursor → Prop} {f : α → β}
    (h : r.Ensures fun a t => P (f a) t) : (r.map f).Ensures P := by
  intro b hb
  simp only [map] at hb ⊢
  cases hr : r.result with
  | error e => simp [hr, Except.map] at hb
  | ok a =>
    rw [hr] at hb
    cases hb
    exact h a hr

theorem ensures_andThen {r : Reading s α} {P : α → Cursor → Prop} {Q : β → Cursor → Prop}
    {next : (a : α) → (t : Cursor) → t.size ≤ s.size → Reading t β} (h : r.Ensures P)
    (hnext : ∀ a t ht, P a t → (next a t ht).Ensures Q) : (r.andThen next).Ensures Q := by
  intro b hb
  cases hr : r.result with
  | error e =>
    rw [andThen_of_error hr] at hb
    cases hb
  | ok a =>
    rw [andThen_of_ok hr] at hb ⊢
    exact hnext a r.rest r.size_le (h a hr) b hb

theorem Ensures.mono {r : Reading s α} {P Q : α → Cursor → Prop} (h : r.Ensures P)
    (hPQ : ∀ a t, P a t → Q a t) : r.Ensures Q :=
  fun a ha => hPQ a r.rest (h a ha)

end Reading

end Polyglot
