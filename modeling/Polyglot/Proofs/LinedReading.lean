import Polyglot.Proofs.ReadingRules

/-!
Lines while a template is read. The line of a scanner and the line breaks that are still to come
never lead past the last line of the template, so the tokens that it finds and the errors that it
ends in stand at lines of the template. The operations of a cursor keep that up, whether they
succeed or not.
-/
namespace Polyglot

/-- Lines are counted from 1 to the last one. -/
def IsLine (last line : Nat) : Prop := 1 ≤ line ∧ line ≤ last

/-- The error is one of a template that cannot be read or has a phrase with no message, and it
points at a line of that template. -/
def Error.PointsInto (last : Nat) : Error → Prop
  | malformed _ line => IsLine last line
  | untranslatable line => IsLine last line
  | _ => False

/-- A success has a property, and an error points into the template. -/
def Lined {α : Type} (last : Nat) (P : α → Prop) : Except Error α → Prop
  | .ok a => P a
  | .error e => e.PointsInto last

/-- A token stands at a line of the template. -/
def Token.IsLined (last : Nat) (token : Token) : Prop := IsLine last token.line

variable {α β : Type} {last : Nat}

theorem Lined.map {P : β → Prop} {f : α → β} {r : Except Error α}
    (h : Lined last (fun a => P (f a)) r) : Lined last P (r.map f) := by
  cases r <;> exact h

theorem Lined.mono {P Q : α → Prop} {r : Except Error α} (h : Lined last P r)
    (hPQ : ∀ a, P a → Q a) : Lined last Q r := by
  cases r with
  | ok a => exact hPQ a h
  | error e => exact h

namespace Scanner

/-- The line breaks that are still to come do not lead past the last line. -/
structure Within (last : Nat) (σ : Scanner) : Prop where
  one_le : 1 ≤ σ.line
  le : σ.line + Blank.lineBreaks σ.rest ≤ last

variable {σ : Scanner}

theorem Within.isLine (h : σ.Within last) : IsLine last σ.line :=
  ⟨h.one_le, Nat.le_trans (Nat.le_add_right _ _) h.le⟩

theorem Within.advance (h : σ.Within last) (n : Nat) : (σ.advance n).Within last := by
  have hsplit : Blank.lineBreaks (σ.rest.take n) + Blank.lineBreaks (σ.rest.drop n) =
      Blank.lineBreaks σ.rest := by
    rw [← Blank.lineBreaks_append, List.take_append_drop]
  refine ⟨Nat.le_trans h.one_le (Nat.le_add_right _ _), ?_⟩
  calc σ.line + Blank.lineBreaks (σ.rest.take n) + Blank.lineBreaks (σ.rest.drop n)
      = σ.line + Blank.lineBreaks σ.rest := by rw [Nat.add_assoc, hsplit]
    _ ≤ last := h.le

theorem Within.skipBlank (h : σ.Within last) : σ.skipBlank.Within last := h.advance _

theorem Within.takeLexeme (h : σ.Within last) (x : Lexeme) (n : Nat) :
    (σ.takeLexeme x n).2.Within last :=
  ⟨(h.advance _).one_le, (h.advance _).le⟩

theorem Within.next (h : σ.Within last) :
    σ.next.2.Within last ∧ Lined last (∀ token ∈ ·, token.IsLined last) σ.next.1 := by
  have hfound : ∀ {τ : Scanner} (x : Lexeme) (n : Nat), τ.Within last →
      ∀ token ∈ some (τ.takeLexeme x n).1, token.IsLined last := by
    rintro τ x n hτ token ⟨⟩
    exact hτ.isLine
  unfold Scanner.next
  split
  · split
    · exact ⟨h, fun _ hnone => nomatch hnone⟩
    · exact ⟨h.takeLexeme _ _, hfound _ _ h⟩
  · have hblank := h.skipBlank
    dsimp only
    split
    · exact ⟨hblank, fun _ hnone => nomatch hnone⟩
    · exact ⟨hblank.takeLexeme _ _, hfound _ _ hblank⟩
    · exact ⟨hblank, hblank.isLine⟩

theorem Within.rawUntil (h : σ.Within last) (name : String) :
    (σ.rawUntil name).2.Within last := by
  unfold Scanner.rawUntil
  split
  · exact ⟨(h.advance _).one_le, (h.advance _).le⟩
  · exact h

end Scanner

namespace Cursor

/-- The tokens that were looked at, the last one taken and all that is still to come stand at lines
of the template. -/
structure Within (last : Nat) (s : Cursor) : Prop where
  ahead : ∀ token ∈ s.ahead, token.IsLined last
  scanner : s.scanner.Within last
  line : IsLine last s.line

variable {s : Cursor}

theorem Within.here (h : s.Within last) : IsLine last s.here := by
  obtain ⟨ahead, scanner, line⟩ := s
  cases ahead with
  | nil => exact h.line
  | cons token ahead => exact h.ahead token List.mem_cons_self

/-- At its start a template has all its line breaks still to come. -/
theorem within_start (source : String) (mode : Mode) (trims : Bool) :
    (Cursor.mk [] ⟨source.toList, 1, mode, trims⟩ 1).Within
      (1 + Blank.lineBreaks source.toList) where
  ahead := fun _ hm => absurd hm List.not_mem_nil
  scanner := ⟨Nat.le_refl 1, Nat.le_refl _⟩
  line := ⟨Nat.le_refl 1, Nat.le_add_right _ _⟩

theorem Within.fetch (h : s.Within last) (n : Nat) :
    (fetch n s).2.Within last ∧ Lined last (fun _ => True) (fetch n s).1 := by
  induction n generalizing s with
  | zero => exact ⟨h, trivial⟩
  | succ n ih =>
    obtain ⟨hscanner, hnext⟩ := h.scanner.next
    unfold Cursor.fetch
    split
    · next token t heq =>
      rw [heq] at hscanner hnext
      have htoken : ∀ x ∈ [token], x.IsLined last := List.forall_mem_singleton.2 (hnext token rfl)
      exact ih ⟨List.forall_mem_append.2 ⟨h.ahead, htoken⟩, hscanner, h.line⟩
    · next t heq =>
      rw [heq] at hscanner
      exact ⟨⟨h.ahead, hscanner, h.line⟩, trivial⟩
    · next e t heq =>
      rw [heq] at hscanner hnext
      exact ⟨⟨h.ahead, hscanner, h.line⟩, hnext⟩

theorem Within.step (h : s.Within last) :
    s.step.2.Within last ∧ Lined last (Token.IsLined last) s.step.1 := by
  obtain ⟨hscanner, hnext⟩ := h.scanner.next
  have hnil : ∀ token ∈ ([] : List Token), token.IsLined last :=
    fun _ hm => absurd hm List.not_mem_nil
  unfold Cursor.step
  split
  · next token ahead heq =>
    obtain ⟨htoken, hahead⟩ := List.forall_mem_cons.1 (heq ▸ h.ahead)
    exact ⟨⟨hahead, h.scanner, htoken⟩, htoken⟩
  · split
    · next token t heq =>
      rw [heq] at hscanner hnext
      exact ⟨⟨hnil, hscanner, hnext token rfl⟩, hnext token rfl⟩
    · next t heq =>
      rw [heq] at hscanner
      exact ⟨⟨hnil, hscanner, h.line⟩, h.line⟩
    · next e t heq =>
      rw [heq] at hscanner hnext
      exact ⟨⟨hnil, hscanner, h.line⟩, hnext⟩

end Cursor

namespace Reading

/-- Reading does not lead out of the template: what was read has a property, and an error points
into the template. -/
structure Stays {s : Cursor} (last : Nat) (r : Reading s α) (P : α → Prop) : Prop where
  rest : r.rest.Within last
  result : Lined last P r.result

variable {s : Cursor} {P : α → Prop} {Q : β → Prop}

theorem stays_done {a : α} (hs : s.Within last) (h : P a) : (done s a).Stays last P := ⟨hs, h⟩

theorem stays_fail {e : Error} (hs : s.Within last) (h : e.PointsInto last) :
    (fail s e).Stays last P := ⟨hs, h⟩

theorem stays_refuse {fault : Fault} {line : Nat} (hs : s.Within last) (h : IsLine last line) :
    (refuse s fault line).Stays last P := ⟨hs, h⟩

theorem stays_map {r : Reading s α} {f : α → β} (h : r.Stays last fun a => Q (f a)) :
    (r.map f).Stays last Q := ⟨h.rest, h.result.map⟩

theorem Stays.mono {r : Reading s α} {P' : α → Prop} (h : r.Stays last P)
    (hP : ∀ a, P a → P' a) : r.Stays last P' := ⟨h.rest, h.result.mono hP⟩

theorem Stays.of_ok {r : Reading s α} {a : α} (h : r.Stays last P) (hr : r.result = .ok a) :
    P a := by
  have hresult := h.result
  rw [hr] at hresult
  exact hresult

theorem Stays.of_error {r : Reading s α} {e : Error} (h : r.Stays last P)
    (hr : r.result = .error e) : e.PointsInto last := by
  have hresult := h.result
  rw [hr] at hresult
  exact hresult

theorem stays_bind {r : Reading s α} {next : (a : α) → r.result = .ok a → Reading r.rest β}
    (h : r.Stays last P) (hnext : ∀ a ha, P a → r.rest.Within last → (next a ha).Stays last Q) :
    (r.bind next).Stays last Q := by
  cases hr : r.result with
  | error e =>
    rw [bind_of_error hr]
    exact ⟨h.rest, h.of_error hr⟩
  | ok a =>
    have hrest := hnext a hr (h.of_ok hr) h.rest
    rw [bind_of_ok hr]
    exact ⟨hrest.rest, hrest.result⟩

theorem stays_andThen {r : Reading s α}
    {next : (a : α) → (t : Cursor) → t.size ≤ s.size → Reading t β} (h : r.Stays last P)
    (hnext : ∀ a t ht, P a → t.Within last → (next a t ht).Stays last Q) :
    (r.andThen next).Stays last Q :=
  stays_bind h fun a _ => hnext a r.rest r.size_le

end Reading

namespace Cursor

variable {s : Cursor} {P : β → Prop}

theorem Within.stays_peek (hs : s.Within last) (n : Nat) :
    (s.peek n).Stays last (∀ token ∈ ·, token.IsLined last) := by
  obtain ⟨hrest, hresult⟩ := hs.fetch (n + 1 - s.ahead.length)
  refine ⟨hrest, Lined.map (hresult.mono fun _ _ token htoken => ?_)⟩
  exact hrest.ahead token (List.mem_of_getElem? htoken)

theorem Within.stays_next (hs : s.Within last) : s.next.Stays last (Token.IsLined last) :=
  ⟨hs.step.1, hs.step.2⟩

theorem Within.stays_take (hs : s.Within last)
    {k : (token : Token) → (t : Cursor) → t.size < s.size → Reading t β}
    (hk : ∀ token t ht, token.IsLined last → t.Within last → (k token t ht).Stays last P) :
    (s.take k).Stays last P :=
  Reading.stays_bind hs.stays_next fun token htoken =>
    hk token s.next.rest (size_step_lt htoken)

theorem Within.stays_choose (hs : s.Within last) {wanted : Lexeme → Option α}
    {yes : (a : α) → (t : Cursor) → t.size < s.size → Reading t β}
    {no : (t : Cursor) → t.size ≤ s.size → Reading t β}
    (hyes : ∀ a t ht, t.Within last → (yes a t ht).Stays last P)
    (hno : ∀ t ht, t.Within last → (no t ht).Stays last P) :
    (s.choose wanted yes no).Stays last P := by
  refine Reading.stays_andThen (hs.stays_peek 0) fun token? t ht _ hin => ?_
  split
  · exact hin.stays_take fun _ u _ _ hin => hyes _ u _ hin
  · exact hno t ht hin

theorem Within.stays_sees (hs : s.Within last) (x : Lexeme) :
    (s.sees x).Stays last fun _ => True :=
  Reading.stays_map ((hs.stays_peek 0).mono fun _ _ => trivial)

theorem Within.stays_expect (hs : s.Within last) (x : Lexeme) :
    (s.expect x).Stays last fun _ => True := by
  refine Reading.stays_andThen hs.stays_next fun token t _ htoken hin => ?_
  split
  · exact Reading.stays_done hin trivial
  · exact Reading.stays_refuse hin htoken

theorem Within.stays_takeName (hs : s.Within last)
    {k : (n : String) → (t : Cursor) → t.size < s.size → Reading t β}
    (hk : ∀ n t ht, t.Within last → (k n t ht).Stays last P) : (s.takeName k).Stays last P := by
  refine hs.stays_take fun token t ht htoken hin => ?_
  split
  · exact hk _ t ht hin
  · exact Reading.stays_refuse hin htoken

theorem Within.stays_name (hs : s.Within last) : s.name.Stays last fun _ => True :=
  hs.stays_takeName fun _ _ _ hin => Reading.stays_done hin trivial

theorem Within.stays_tagName (hs : s.Within last) : s.tagName.Stays last fun _ => True := by
  refine Reading.stays_andThen (hs.stays_peek 0) fun token? t _ htoken hin => ?_
  split
  · exact Reading.stays_refuse hin hin.line
  · exact Reading.stays_done hin trivial
  · exact Reading.stays_refuse hin (htoken _ rfl)

/-- Text that is taken as it stands may have any number of line breaks; the cursor is then at the
line where it ends. -/
theorem Within.stays_raw (hs : s.Within last) (name : String) :
    (s.raw name).Stays last fun _ => True := by
  have hraw := hs.scanner.rawUntil name
  unfold Cursor.raw
  split
  · dsimp only
    split
    · exact ⟨⟨hs.ahead, hraw, hraw.isLine⟩, trivial⟩
    · exact Reading.stays_refuse hs hs.line
  · exact Reading.stays_refuse hs hs.here

end Cursor

end Polyglot
