import Polyglot.Proofs.ReadingRules

/-!
Readings side by side. One reading is matched by another if every success of it is a success of the
other one, which has read the same tokens; the rules follow how readings are put together, so that
two readers that differ in a few places can be compared function by function.
-/
namespace Polyglot

namespace Reading

variable {α β γ δ : Type} {s : Cursor}

/-- Every success of a reading is matched by a success of another one, which goes on from the same
cursor with a related result. -/
def MatchedBy (r : Reading s α) (r' : Reading s β) (R : α → β → Prop) : Prop :=
  ∀ a, r.result = .ok a → ∃ b, r'.Gives b r.rest ∧ R a b

variable {R : α → β → Prop} {Q : γ → δ → Prop}

theorem matchedBy_refl (r : Reading s α) : r.MatchedBy r Eq :=
  fun a ha => ⟨a, ⟨ha, rfl⟩, rfl⟩

theorem matchedBy_done {a : α} {b : β} (h : R a b) : (done s a).MatchedBy (done s b) R := by
  intro a' ha
  cases ha
  exact ⟨b, gives_done s b, h⟩

theorem matchedBy_fail {e : Error} {r' : Reading s β} : (fail s e).MatchedBy r' R := by
  intro a ha
  cases ha

theorem matchedBy_refuse {fault : Fault} {line : Nat} {r' : Reading s β} :
    (refuse s fault line).MatchedBy r' R :=
  matchedBy_fail

theorem matchedBy_map {r : Reading s α} {r' : Reading s β} {f : α → γ} {g : β → δ}
    (h : r.MatchedBy r' fun a b => Q (f a) (g b)) : (r.map f).MatchedBy (r'.map g) Q := by
  intro c hc
  cases hr : r.result with
  | error e => simp [map, hr, Except.map] at hc
  | ok a =>
    simp only [map, hr, Except.map, Except.ok.injEq] at hc
    subst hc
    obtain ⟨b, hb, hab⟩ := h a hr
    exact ⟨g b, gives_map g hb, hab⟩

theorem matchedBy_andThen {r : Reading s α} {r' : Reading s β}
    {next : (a : α) → (t : Cursor) → t.size ≤ s.size → Reading t γ}
    {next' : (b : β) → (t : Cursor) → t.size ≤ s.size → Reading t δ} (h : r.MatchedBy r' R)
    (hnext : ∀ a b t ht, R a b → (next a t ht).MatchedBy (next' b t ht) Q) :
    (r.andThen next).MatchedBy (r'.andThen next') Q := by
  intro c hc
  cases hr : r.result with
  | error e =>
    rw [andThen_of_error hr] at hc
    cases hc
  | ok a =>
    rw [andThen_of_ok hr] at hc ⊢
    obtain ⟨b, hb, hab⟩ := h a hr
    obtain ⟨d, hd, hcd⟩ := hnext a b r.rest r.size_le hab c hc
    exact ⟨d, gives_andThen hb fun _ => hd, hcd⟩

theorem MatchedBy.mono {r : Reading s α} {r' : Reading s β} {R' : α → β → Prop}
    (h : r.MatchedBy r' R) (hR : ∀ a b, R a b → R' a b) : r.MatchedBy r' R' := by
  intro a ha
  obtain ⟨b, hb, hab⟩ := h a ha
  exact ⟨b, hb, hR a b hab⟩

end Reading

namespace Cursor

variable {α β γ : Type} {s : Cursor} {Q : β → γ → Prop}

theorem matchedBy_take {k : (token : Token) → (t : Cursor) → t.size < s.size → Reading t β}
    {k' : (token : Token) → (t : Cursor) → t.size < s.size → Reading t γ}
    (h : ∀ token t ht, (k token t ht).MatchedBy (k' token t ht) Q) :
    (s.take k).MatchedBy (s.take k') Q := by
  intro b hb
  cases hr : s.next.result with
  | error e =>
    rw [take, Reading.bind_of_error hr] at hb
    cases hb
  | ok token =>
    rw [take, Reading.bind_of_ok hr] at hb ⊢
    obtain ⟨c, hc, hbc⟩ := h token s.next.rest (size_step_lt hr) b hb
    refine ⟨c, ?_, hbc⟩
    rw [take, Reading.bind_of_ok hr]
    exact ⟨hc.result, hc.rest⟩

theorem matchedBy_choose {wanted : Lexeme → Option α}
    {yes : (a : α) → (t : Cursor) → t.size < s.size → Reading t β}
    {yes' : (a : α) → (t : Cursor) → t.size < s.size → Reading t γ}
    {no : (t : Cursor) → t.size ≤ s.size → Reading t β}
    {no' : (t : Cursor) → t.size ≤ s.size → Reading t γ}
    (hyes : ∀ a t ht, (yes a t ht).MatchedBy (yes' a t ht) Q)
    (hno : ∀ t ht, (no t ht).MatchedBy (no' t ht) Q) :
    (s.choose wanted yes no).MatchedBy (s.choose wanted yes' no') Q := by
  refine Reading.matchedBy_andThen (Reading.matchedBy_refl _) fun token? _ t ht h => ?_
  subst h
  cases token?.bind fun token => wanted token.lexeme with
  | none => exact hno t ht
  | some a => exact matchedBy_take fun _ u hu => hyes a u _

theorem matchedBy_takeName {k : (n : String) → (t : Cursor) → t.size < s.size → Reading t β}
    {k' : (n : String) → (t : Cursor) → t.size < s.size → Reading t γ}
    (h : ∀ n t ht, (k n t ht).MatchedBy (k' n t ht) Q) :
    (s.takeName k).MatchedBy (s.takeName k') Q := by
  refine matchedBy_take fun token t ht => ?_
  cases token.lexeme with
  | name n => exact h n t ht
  | _ => exact Reading.matchedBy_refuse

end Cursor

end Polyglot
