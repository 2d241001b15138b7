import Polyglot.Proofs.ReadingRules

/-!
What the operations of a cursor give and ensure, by the tokens that it supplies. Looking at the next
token changes a cursor, but no token that is taken afterwards, so a cursor that supplies some
lexemes supplies them as well after the look.
-/
namespace Polyglot

namespace Scanner

theorem rest_skipBlank (s : Scanner) : s.skipBlank.rest = s.rest.dropWhile Blank.isBlank := by
  have hsplit : s.rest.takeWhile Blank.isBlank ++ s.rest.dropWhile Blank.isBlank = s.rest :=
    List.takeWhile_append_dropWhile
  have hdrop : (s.rest.takeWhile Blank.isBlank ++ s.rest.dropWhile Blank.isBlank).drop
      (s.rest.takeWhile Blank.isBlank).length = s.rest.dropWhile Blank.isBlank := List.drop_left
  rw [hsplit] at hdrop
  exact hdrop

theorem skipBlank_of_not_blank {s : Scanner} (h : s.rest.head?.all (!Blank.isBlank ·)) :
    s.skipBlank = s := by
  obtain ⟨rest, line, mode, trims⟩ := s
  cases rest with
  | nil => rfl
  | cons c rest =>
    have hc : Blank.isBlank c = false := by simpa using h
    simp [skipBlank, advance, Blank.lineBreaks, hc]

theorem skipBlank_skipBlank (s : Scanner) : s.skipBlank.skipBlank = s.skipBlank := by
  apply skipBlank_of_not_blank
  have h := List.head?_dropWhile_not Blank.isBlank s.rest
  rw [rest_skipBlank]
  cases hd : (s.rest.dropWhile Blank.isBlank).head? with
  | none => rfl
  | some c => simpa [hd] using h

theorem mode_skipBlank (s : Scanner) : s.skipBlank.mode = s.mode := rfl

/-- Where nothing more is to be had, a second try ends in the same way. -/
theorem next_of_no_token {s t : Scanner} {r : Except Error (Option Token)} (h : s.next = (r, t))
    (hr : ∀ token, r ≠ .ok (some token)) : t.next = (r, t) := by
  unfold next at h
  split at h
  · next hm =>
    split at h
    · next he =>
      cases h
      simp [next, hm, he]
    · cases h
      exact absurd rfl (hr _)
  · next b hm =>
    dsimp only at h
    split at h
    · next hx =>
      cases h
      simp [next, mode_skipBlank, hm, skipBlank_skipBlank, hx]
    · cases h
      exact absurd rfl (hr _)
    · next hx =>
      cases h
      simp [next, mode_skipBlank, hm, skipBlank_skipBlank, hx]

end Scanner

namespace Cursor

variable {α β : Type}

/-- The cursor after a look at the next token. -/
def looked (s : Cursor) : Cursor := (s.peek 0).rest

/-- The next token, if there is one, is a given lexeme. -/
def Shows (s : Cursor) (x? : Option Lexeme) : Prop :=
  ∃ token?, (s.peek 0).result = .ok token? ∧ token?.map (·.lexeme) = x?

/-- The next tokens are given lexemes, and after them the cursor is `t`. -/
def Supplies : Cursor → List Lexeme → Cursor → Prop
  | s, [], t => s = t
  | s, x :: xs, t => ∃ line u, s.step = (.ok ⟨x, line⟩, u) ∧ Supplies u xs t

theorem looked_of_ahead {s : Cursor} (h : s.ahead ≠ []) : s.looked = s := by
  obtain ⟨ahead, scanner, line⟩ := s
  cases ahead with
  | nil => exact absurd rfl h
  | cons token ahead => simp [looked, peek, fetch]

theorem step_looked (s : Cursor) : s.looked.step = s.step := by
  obtain ⟨ahead, scanner, line⟩ := s
  cases ahead with
  | cons token ahead => rw [looked_of_ahead (by simp)]
  | nil =>
    cases hn : scanner.next with
    | mk r t =>
      match r with
      | .ok (some token) => simp [looked, peek, fetch, step, hn]
      | .ok none =>
        have ht := Scanner.next_of_no_token hn (by simp)
        simp [looked, peek, fetch, step, hn, ht]
      | .error e =>
        have ht := Scanner.next_of_no_token hn (by simp)
        simp [looked, peek, fetch, step, hn, ht]

/-- A second look finds what the first one found and changes nothing more. -/
theorem peek_looked (s : Cursor) :
    (s.looked.peek 0).result = (s.peek 0).result ∧ s.looked.looked = s.looked := by
  obtain ⟨ahead, scanner, line⟩ := s
  cases ahead with
  | cons token ahead =>
    rw [looked_of_ahead (by simp)]
    exact ⟨rfl, looked_of_ahead (by simp)⟩
  | nil =>
    cases hn : scanner.next with
    | mk r t =>
      match r with
      | .ok (some token) => simp [looked, peek, fetch, hn]
      | .ok none =>
        have ht := Scanner.next_of_no_token hn (by simp)
        simp [looked, peek, fetch, hn, ht]
      | .error e =>
        have ht := Scanner.next_of_no_token hn (by simp)
        simp [looked, peek, fetch, hn, ht]

theorem looked_looked (s : Cursor) : s.looked.looked = s.looked := (peek_looked s).2

theorem Shows.looked {s : Cursor} {x? : Option Lexeme} (h : s.Shows x?) : s.looked.Shows x? := by
  obtain ⟨token?, hpeek, hx⟩ := h
  exact ⟨token?, (peek_looked s).1.trans hpeek, hx⟩

/-- A step with no token ahead is one of the scanner. -/
theorem next_of_step {σ : Scanner} {line : Nat} {t : Cursor} {token : Token}
    (h : (Cursor.mk [] σ line).step = (.ok token, t)) :
    ∃ τ, σ.next = (.ok (some token), τ) ∧ t = ⟨[], τ, token.line⟩ := by
  unfold step at h
  dsimp only at h
  split at h
  · next hnext =>
    cases h
    exact ⟨_, hnext, rfl⟩
  · cases h
  · cases h

theorem peek_of_step {s t : Cursor} {token : Token} (h : s.step = (.ok token, t)) :
    (s.peek 0).result = .ok (some token) := by
  obtain ⟨ahead, scanner, line⟩ := s
  cases ahead with
  | cons first ahead =>
    simp only [step, Prod.mk.injEq, Except.ok.injEq] at h
    simp [peek, fetch, h.1, Except.map]
  | nil =>
    obtain ⟨τ, hnext, _⟩ := next_of_step h
    simp [peek, fetch, hnext, Except.map]

theorem shows_of_step {s t : Cursor} {token : Token} (h : s.step = (.ok token, t)) :
    s.Shows (some token.lexeme) :=
  ⟨some token, peek_of_step h, rfl⟩

theorem Supplies.shows {s t : Cursor} {x : Lexeme} {xs : List Lexeme}
    (h : s.Supplies (x :: xs) t) : s.Shows (some x) := by
  obtain ⟨line, u, hstep, _⟩ := h
  exact shows_of_step hstep

theorem Supplies.looked {s t : Cursor} {x : Lexeme} {xs : List Lexeme}
    (h : s.Supplies (x :: xs) t) : s.looked.Supplies (x :: xs) t := by
  obtain ⟨line, u, hstep, hu⟩ := h
  exact ⟨line, u, (step_looked s).trans hstep, hu⟩

theorem supplies_append {s t u : Cursor} {xs ys : List Lexeme} (h : s.Supplies xs t)
    (h' : t.Supplies ys u) : s.Supplies (xs ++ ys) u := by
  induction xs generalizing s with
  | nil =>
    cases h
    exact h'
  | cons x xs ih =>
    obtain ⟨line, v, hstep, hv⟩ := h
    exact ⟨line, v, hstep, ih hv⟩

theorem supplies_append_iff {s u : Cursor} {xs ys : List Lexeme} :
    s.Supplies (xs ++ ys) u ↔ ∃ t, s.Supplies xs t ∧ t.Supplies ys u := by
  constructor
  · intro h
    induction xs generalizing s with
    | nil => exact ⟨s, rfl, h⟩
    | cons x xs ih =>
      obtain ⟨line, v, hstep, hv⟩ := h
      obtain ⟨t, ht, hu⟩ := ih hv
      exact ⟨t, ⟨line, v, hstep, ht⟩, hu⟩
  · rintro ⟨t, ht, hu⟩
    exact supplies_append ht hu

/-! What each operation gives, by the tokens that the cursor supplies. -/

theorem gives_peek {s : Cursor} {token? : Option Token} (h : (s.peek 0).result = .ok token?) :
    (s.peek 0).Gives token? s.looked := ⟨h, rfl⟩

theorem gives_take {s t u : Cursor} {token : Token} {b : β}
    {k : (token : Token) → (t : Cursor) → t.size < s.size → Reading t β}
    (h : s.step = (.ok token, t)) (hk : ∀ ht, (k token t ht).Gives b u) : (s.take k).Gives b u := by
  have hresult : s.next.result = .ok token := congrArg Prod.fst h
  obtain rfl : s.next.rest = t := congrArg Prod.snd h
  have hnext := hk (size_step_lt hresult)
  rw [take, Reading.bind_of_ok hresult]
  exact ⟨hnext.result, hnext.rest⟩

theorem gives_choose_yes {s t u : Cursor} {token : Token} {wanted : Lexeme → Option α} {a : α}
    {b : β} {yes : (a : α) → (t : Cursor) → t.size < s.size → Reading t β}
    {no : (t : Cursor) → t.size ≤ s.size → Reading t β} (h : s.step = (.ok token, t))
    (hw : wanted token.lexeme = some a) (hyes : ∀ ht, (yes a t ht).Gives b u) :
    (s.choose wanted yes no).Gives b u := by
  refine Reading.gives_andThen (gives_peek (peek_of_step h)) fun hle => ?_
  simp only [Option.bind_some, hw]
  exact gives_take ((step_looked s).trans h) fun ht => hyes _

theorem gives_choose_no {s u : Cursor} {x? : Option Lexeme} {wanted : Lexeme → Option α} {b : β}
    {yes : (a : α) → (t : Cursor) → t.size < s.size → Reading t β}
    {no : (t : Cursor) → t.size ≤ s.size → Reading t β} (h : s.Shows x?)
    (hw : x?.bind wanted = none) (hno : ∀ ht, (no s.looked ht).Gives b u) :
    (s.choose wanted yes no).Gives b u := by
  obtain ⟨token?, hpeek, rfl⟩ := h
  refine Reading.gives_andThen (gives_peek hpeek) fun hle => ?_
  have hnone : (token?.bind fun token => wanted token.lexeme) = none := by
    rw [← hw]
    cases token? <;> rfl
  simp only [hnone]
  exact hno hle

theorem gives_expect {s t : Cursor} {x : Lexeme} {line : Nat} (h : s.step = (.ok ⟨x, line⟩, t)) :
    (s.expect x).Gives ⟨x, line⟩ t := by
  have hnext : s.next.Gives ⟨x, line⟩ t := ⟨congrArg Prod.fst h, congrArg Prod.snd h⟩
  refine Reading.gives_andThen hnext fun ht => ?_
  simp only [if_true]
  exact Reading.gives_done _ _

theorem gives_takeName {s t u : Cursor} {n : String} {line : Nat} {b : β}
    {k : (n : String) → (t : Cursor) → t.size < s.size → Reading t β}
    (h : s.step = (.ok ⟨.name n, line⟩, t)) (hk : ∀ ht, (k n t ht).Gives b u) :
    (s.takeName k).Gives b u :=
  gives_take h hk

theorem gives_name {s t : Cursor} {n : String} {line : Nat}
    (h : s.step = (.ok ⟨.name n, line⟩, t)) : s.name.Gives n t :=
  gives_takeName h fun _ => Reading.gives_done _ _

theorem gives_sees {s : Cursor} {x? : Option Lexeme} (h : s.Shows x?) (x : Lexeme) :
    (s.sees x).Gives (x? == some x) s.looked := by
  obtain ⟨token?, hpeek, rfl⟩ := h
  have hmap := Reading.gives_map (fun token? : Option Token => token?.any (·.lexeme == x))
    (gives_peek hpeek)
  cases token? <;> exact hmap

/-! What each operation ensures. -/

theorem ensures_peek (s : Cursor) :
    (s.peek 0).Ensures fun token? t =>
      t = s.looked ∧ (s.peek 0).result = .ok token? :=
  fun _ h => ⟨rfl, h⟩

theorem step_of_peek {s : Cursor} {token : Token} (h : (s.peek 0).result = .ok (some token)) :
    ∃ t, s.step = (.ok token, t) := by
  obtain ⟨ahead, scanner, line⟩ := s
  cases ahead with
  | cons first ahead =>
    simp only [peek, Except.map, List.length_cons] at h
    simp_all [fetch, step]
  | nil =>
    cases hn : scanner.next with
    | mk r t =>
      rcases r with e | token?
      · simp [peek, fetch, hn, Except.map] at h
      · cases token? with
        | none => simp [peek, fetch, hn, Except.map] at h
        | some token => simp_all [peek, fetch, step, Except.map]

theorem ensures_take {s : Cursor} {Q : β → Cursor → Prop}
    {k : (token : Token) → (t : Cursor) → t.size < s.size → Reading t β}
    (hk : ∀ token t ht, s.step = (.ok token, t) → (k token t ht).Ensures Q) :
    (s.take k).Ensures Q := by
  intro b hb
  cases hr : s.next.result with
  | error e =>
    rw [take, Reading.bind_of_error hr] at hb
    cases hb
  | ok token =>
    rw [take, Reading.bind_of_ok hr] at hb ⊢
    exact hk token s.next.rest (size_step_lt hr) (Prod.ext hr rfl) b hb

theorem ensures_choose {s : Cursor} {wanted : Lexeme → Option α} {Q : β → Cursor → Prop}
    {yes : (a : α) → (t : Cursor) → t.size < s.size → Reading t β}
    {no : (t : Cursor) → t.size ≤ s.size → Reading t β}
    (hyes : ∀ token a t ht, s.step = (.ok token, t) → wanted token.lexeme = some a →
      (yes a t ht).Ensures Q)
    (hno : ∀ ht, (no s.looked ht).Ensures Q) : (s.choose wanted yes no).Ensures Q := by
  refine Reading.ensures_andThen (ensures_peek s) ?_
  rintro token? t ht ⟨rfl, hpeek⟩
  cases token? with
  | none => exact hno ht
  | some token =>
    simp only [Option.bind_some]
    split
    · next a ha =>
      refine ensures_take fun token' u hu hstep => ?_
      rw [step_looked] at hstep
      obtain ⟨v, hv⟩ := step_of_peek hpeek
      rw [hv] at hstep
      cases hstep
      exact hyes token a u _ hv ha
    · exact hno ht

theorem ensures_expect (s : Cursor) (x : Lexeme) :
    (s.expect x).Ensures fun token t => s.step = (.ok token, t) ∧ token.lexeme = x := by
  have hnext : s.next.Ensures fun token t => s.step = (.ok token, t) := fun _ h => Prod.ext h rfl
  refine Reading.ensures_andThen hnext fun token t ht hstep => ?_
  split
  · next hx => exact Reading.ensures_done ⟨hstep, hx⟩
  · exact Reading.ensures_refuse

theorem ensures_takeName {s : Cursor} {Q : β → Cursor → Prop}
    {k : (n : String) → (t : Cursor) → t.size < s.size → Reading t β}
    (hk : ∀ n line t ht, s.step = (.ok ⟨.name n, line⟩, t) → (k n t ht).Ensures Q) :
    (s.takeName k).Ensures Q := by
  refine ensures_take fun token t ht hstep => ?_
  obtain ⟨x, line⟩ := token
  dsimp only
  split
  · exact hk _ line t ht hstep
  · exact Reading.ensures_refuse

end Cursor

end Polyglot
